import LocalFiles.Procedure

/-!
# Contract — weakest preconditions over an environment with a state

`Prog.Wp` says what must hold before a program so that a condition holds after every run in the
environment `E`.  The rules take a program apart call by call.  `Prog.Ensures` asks for progress
as well: the environment answers every call, so there is a run.
-/

namespace LocalFiles.Interaction

variable {C : Type} {R : C → Type} {S α β : Type}

/-! ## 1. Every run -/

/-- Every run of the program from `w` ends in a state and with a result that satisfy `post`. -/
def Prog.Wp (E : S → (c : C) → R c → S → Prop) (post : α → S → Prop) : Prog C R α → S → Prop
  | .ret a, w => post a w
  | .call c k, w => ∀ answer next, E w c answer next → (k answer).Wp E post next

namespace Prog

variable {E : S → (c : C) → R c → S → Prop} {post : α → S → Prop} {w w' : S}

theorem Wp.runsIn {p : Prog C R α} {tr : List (Event C R)} {a : α} (h : p.Wp E post w)
    (hrun : p.RunsIn E w tr w' a) : post a w' := by
  induction p generalizing w tr with
  | ret b =>
    obtain ⟨-, rfl, rfl⟩ := hrun
    exact h
  | call c k ih =>
    obtain ⟨answer, next, rest, -, hE, hk⟩ := hrun
    exact ih answer (h answer next hE) hk

theorem Wp.mono {p : Prog C R α} {post' : α → S → Prop} (h : p.Wp E post w)
    (hpost : ∀ a w', post a w' → post' a w') : p.Wp E post' w := by
  induction p generalizing w with
  | ret a => exact hpost a w h
  | call c k ih =>
    intro answer next hE
    exact ih answer (h answer next hE)

theorem Wp.and {p : Prog C R α} {post' : α → S → Prop} (h : p.Wp E post w) (h' : p.Wp E post' w) :
    p.Wp E (fun a w' => post a w' ∧ post' a w') w := by
  induction p generalizing w with
  | ret a => exact ⟨h, h'⟩
  | call c k ih => exact fun answer next hE => ih answer (h answer next hE) (h' answer next hE)

theorem Wp.restrict {p : Prog C R α} {E' : S → (c : C) → R c → S → Prop} (h : p.Wp E post w)
    (hsub : ∀ w c answer next, E' w c answer next → E w c answer next) : p.Wp E' post w := by
  induction p generalizing w with
  | ret a => exact h
  | call c k ih => exact fun answer next hE => ih answer (h answer next (hsub _ _ _ _ hE))

/-- What every call keeps, every program keeps. -/
theorem Wp.keeps {Inv : S → Prop} (p : Prog C R α)
    (hstep : ∀ w c answer w', Inv w → E w c answer w' → Inv w') (h : Inv w) :
    p.Wp E (fun _ w' => Inv w') w := by
  induction p generalizing w with
  | ret a => exact h
  | call c k ih => exact fun answer next hE => ih answer (hstep w c answer next h hE)

/-- What every call of the program keeps, the program keeps. -/
theorem Makes.wp {P : C → Prop} {Inv : S → Prop} {p : Prog C R α} (hp : p.Makes P)
    (hstep : ∀ w c answer w', P c → Inv w → E w c answer w' → Inv w') (h : Inv w) :
    p.Wp E (fun _ w' => Inv w') w := by
  induction p generalizing w with
  | ret a => exact h
  | call c k ih =>
    intro answer next hE
    exact ih answer (hp.2 answer) (hstep w c answer next hp.1 h hE)

@[simp] theorem wp_pure {a : α} : (pure a : Prog C R α).Wp E post w ↔ post a w := Iff.rfl

@[simp] theorem wp_request {c : C} {post : R c → S → Prop} :
    (request c : Prog C R (R c)).Wp E post w ↔ ∀ answer next, E w c answer next → post answer next :=
  Iff.rfl

@[simp] theorem wp_bind {p : Prog C R α} {f : α → Prog C R β} {post : β → S → Prop} :
    (p >>= f).Wp E post w ↔ p.Wp E (fun a w' => (f a).Wp E post w') w := by
  change (p.bind f).Wp E post w ↔ _
  induction p generalizing w with
  | ret a => exact Iff.rfl
  | call c k ih =>
    constructor
    · intro h answer next hE
      exact (ih answer).mp (h answer next hE)
    · intro h answer next hE
      exact (ih answer).mpr (h answer next hE)

/-- A failure of the first part is the result; a success is handed to the second. -/
theorem wp_andThen {ε : Type} {p : Prog C R (Except ε α)} {f : α → Prog C R (Except ε β)}
    {post : Except ε β → S → Prop} :
    (p.andThen f).Wp E post w ↔
      p.Wp E (fun r w' => (∀ e, r = .error e → post (.error e) w') ∧
        ∀ a, r = .ok a → (f a).Wp E post w') w := by
  unfold andThen
  refine wp_bind.trans ⟨fun h => h.mono ?_, fun h => h.mono ?_⟩
  · intro r w' h'
    cases r with
    | error e => exact ⟨by rintro _ ⟨⟩; exact h', by rintro _ ⟨⟩⟩
    | ok a => exact ⟨by rintro _ ⟨⟩, by rintro _ ⟨⟩; exact h'⟩
  · intro r w' h'
    cases r with
    | error e => exact h'.1 e rfl
    | ok a => exact h'.2 a rfl

end Prog

/-- The environment whose state is the trace so far: any answer is possible. -/
def Recording {C : Type} {R : C → Type} (past : List (Event C R)) (c : C) (answer : R c)
    (next : List (Event C R)) : Prop := next = past ++ [⟨c, answer⟩]

/-- A condition on the trace that is proved over the recording environment. -/
theorem Prog.Wp.runs {p : Prog C R α} {post : α → List (Event C R) → Prop}
    {past tr : List (Event C R)} {a : α} (h : p.Wp Recording post past) (hruns : p.Runs tr a) :
    post a (past ++ tr) := by
  induction p generalizing past tr with
  | ret b =>
    obtain ⟨rfl, rfl⟩ := hruns
    rwa [List.append_nil]
  | call c k ih =>
    obtain ⟨answer, rest, rfl, hk⟩ := hruns
    have hrest := ih answer (h answer _ rfl) hk
    rwa [List.append_assoc] at hrest

/-! ## 2. Every run, and at least one -/

/-- Every run of the program from `w` ends as `post` says, and no call goes without an answer. -/
def Prog.Ensures (E : S → (c : C) → R c → S → Prop) (post : α → S → Prop) : Prog C R α → S → Prop
  | .ret a, w => post a w
  | .call c k, w => (∃ answer next, E w c answer next) ∧
      ∀ answer next, E w c answer next → (k answer).Ensures E post next

namespace Prog

variable {E : S → (c : C) → R c → S → Prop} {post : α → S → Prop} {w w' : S}

theorem Ensures.runsIn {p : Prog C R α} {tr : List (Event C R)} {a : α} (h : p.Ensures E post w)
    (hrun : p.RunsIn E w tr w' a) : post a w' := by
  induction p generalizing w tr with
  | ret b =>
    obtain ⟨-, rfl, rfl⟩ := hrun
    exact h
  | call c k ih =>
    obtain ⟨answer, next, rest, -, hE, hk⟩ := hrun
    exact ih answer (h.2 answer next hE) hk

theorem Ensures.exists_run {p : Prog C R α} (h : p.Ensures E post w) :
    ∃ tr w' a, p.RunsIn E w tr w' a := by
  induction p generalizing w with
  | ret b => exact ⟨[], w, b, rfl, rfl, rfl⟩
  | call c k ih =>
    obtain ⟨answer, next, hE⟩ := h.1
    obtain ⟨tr, w', a, hrun⟩ := ih answer (h.2 answer next hE)
    exact ⟨⟨c, answer⟩ :: tr, w', a, answer, next, tr, rfl, hE, hrun⟩

theorem Ensures.mono {p : Prog C R α} {post' : α → S → Prop} (h : p.Ensures E post w)
    (hpost : ∀ a w', post a w' → post' a w') : p.Ensures E post' w := by
  induction p generalizing w with
  | ret a => exact hpost a w h
  | call c k ih => exact ⟨h.1, fun answer next hE => ih answer (h.2 answer next hE)⟩

theorem Ensures.and_wp {p : Prog C R α} {post' : α → S → Prop} (h : p.Ensures E post w)
    (h' : p.Wp E post' w) : p.Ensures E (fun a w' => post a w' ∧ post' a w') w := by
  induction p generalizing w with
  | ret a => exact ⟨h, h'⟩
  | call c k ih => exact ⟨h.1, fun answer next hE => ih answer (h.2 answer next hE) (h' answer next hE)⟩

/-- Progress where every call of the program has an answer. -/
theorem Makes.ensures {P : C → Prop} {Inv : S → Prop} {p : Prog C R α} (hp : p.Makes P)
    (hprogress : ∀ w c, P c → Inv w → ∃ answer next, E w c answer next)
    (hstep : ∀ w c answer w', P c → Inv w → E w c answer w' → Inv w') (h : Inv w) :
    p.Ensures E (fun _ w' => Inv w') w := by
  induction p generalizing w with
  | ret a => exact h
  | call c k ih =>
    refine ⟨hprogress w c hp.1 h, fun answer next hE => ?_⟩
    exact ih answer (hp.2 answer) (hstep w c answer next hp.1 h hE)

/-- Two environments that are the same wherever the program comes. -/
theorem Ensures.transport {Inv : S → Prop} {p : Prog C R α} {E' : S → (c : C) → R c → S → Prop}
    (h : p.Ensures E post w) (hinv : Inv w)
    (hsame : ∀ w c answer next, Inv w → (E' w c answer next ↔ E w c answer next))
    (hstep : ∀ w c answer next, Inv w → E w c answer next → Inv next) : p.Ensures E' post w := by
  induction p generalizing w with
  | ret a => exact h
  | call c k ih =>
    obtain ⟨⟨answer, next, hE⟩, hrest⟩ := h
    refine ⟨⟨answer, next, (hsame w c answer next hinv).mpr hE⟩, fun answer next hE' => ?_⟩
    have hE := (hsame w c answer next hinv).mp hE'
    exact ih answer (hrest answer next hE) (hstep w c answer next hinv hE)

theorem RunsIn.mono {p : Prog C R α} {E' : S → (c : C) → R c → S → Prop}
    {tr : List (Event C R)} {a : α} (h : p.RunsIn E' w tr w' a)
    (hsub : ∀ w c answer next, E' w c answer next → E w c answer next) : p.RunsIn E w tr w' a := by
  induction p generalizing w tr with
  | ret b => exact h
  | call c k ih =>
    obtain ⟨answer, next, rest, htr, hE, hk⟩ := h
    exact ⟨answer, next, rest, htr, hsub _ _ _ _ hE, ih answer hk⟩

/-- An environment that allows less, but still answers every call. -/
theorem Ensures.restrict {p : Prog C R α} {E' : S → (c : C) → R c → S → Prop}
    (h : p.Ensures E post w) (hprogress : ∀ w c, ∃ answer next, E' w c answer next)
    (hsub : ∀ w c answer next, E' w c answer next → E w c answer next) : p.Ensures E' post w := by
  induction p generalizing w with
  | ret a => exact h
  | call c k ih =>
    exact ⟨hprogress w c, fun answer next hE => ih answer (h.2 answer next (hsub w c _ _ hE))⟩

theorem Ensures.bind {p : Prog C R α} {f : α → Prog C R β} {post : β → S → Prop}
    (h : p.Ensures E (fun a w' => (f a).Ensures E post w') w) : (p.bind f).Ensures E post w := by
  induction p generalizing w with
  | ret a => exact h
  | call c k ih => exact ⟨h.1, fun answer next hE => ih answer (h.2 answer next hE)⟩

/-- The first part succeeds. -/
theorem Ensures.andThen {ε : Type} {p : Prog C R (Except ε α)} {f : α → Prog C R (Except ε β)}
    {post : Except ε β → S → Prop}
    (h : p.Ensures E (fun r w' => ∃ a, r = .ok a ∧ (f a).Ensures E post w') w) :
    (p.andThen f).Ensures E post w := by
  refine Ensures.bind (h.mono fun r w' hr => ?_)
  obtain ⟨a, rfl, hrest⟩ := hr
  exact hrest

end Prog

/-! ## 3. Programs in a larger environment -/

section Embed

variable {C' : Type} {R' : C' → Type}

/-- The program over calls that include its own. -/
def Prog.embed (f : C → C') : Prog C (fun c => R' (f c)) α → Prog C' R' α
  | .ret a => .ret a
  | .call c k => .call (f c) fun answer => (k answer).embed f

variable {f : C → C'} {E : S → (c : C') → R' c → S → Prop} {post : α → S → Prop} {w : S}

theorem Prog.wp_embed {p : Prog C (fun c => R' (f c)) α} :
    (p.embed f).Wp E post w ↔ p.Wp (fun w c => E w (f c)) post w := by
  induction p generalizing w with
  | ret a => exact Iff.rfl
  | call c k ih =>
    constructor
    · intro h answer next hE
      exact (ih answer).mp (h answer next hE)
    · intro h answer next hE
      exact (ih answer).mpr (h answer next hE)

theorem Prog.ensures_embed {p : Prog C (fun c => R' (f c)) α} :
    (p.embed f).Ensures E post w ↔ p.Ensures (fun w c => E w (f c)) post w := by
  induction p generalizing w with
  | ret a => exact Iff.rfl
  | call c k ih =>
    constructor
    · intro h
      exact ⟨h.1, fun answer next hE => (ih answer).mp (h.2 answer next hE)⟩
    · intro h
      exact ⟨h.1, fun answer next hE => (ih answer).mpr (h.2 answer next hE)⟩

theorem Prog.makes_embed {P : C' → Prop} {p : Prog C (fun c => R' (f c)) α} :
    (p.embed f).Makes P ↔ p.Makes fun c => P (f c) := by
  induction p with
  | ret a => exact Iff.rfl
  | call c k ih =>
    constructor
    · intro h
      exact ⟨h.1, fun answer => (ih answer).mp (h.2 answer)⟩
    · intro h
      exact ⟨h.1, fun answer => (ih answer).mpr (h.2 answer)⟩

/-- A run in the larger environment is a run of the program itself. -/
theorem Prog.exists_runs_of_embed {p : Prog C (fun c => R' (f c)) α} {tr : List (Event C' R')}
    {a : α} (h : (p.embed f).Runs tr a) : ∃ own, p.Runs own a := by
  induction p generalizing tr with
  | ret b => exact ⟨[], rfl, h.2⟩
  | call c k ih =>
    obtain ⟨answer, rest, rfl, hrest⟩ := h
    obtain ⟨own, hown⟩ := ih answer hrest
    exact ⟨⟨c, answer⟩ :: own, answer, own, rfl, hown⟩

/-- A condition that is proved over a coarser environment state. -/
theorem Prog.Wp.comap {T : Type} {E : S → (c : C) → R c → S → Prop}
    {E' : T → (c : C) → R c → T → Prop} (g : T → S)
    (hstep : ∀ w c answer w', E' w c answer w' → E (g w) c answer (g w')) {p : Prog C R α}
    {post : α → S → Prop} {w : T} (h : p.Wp E post (g w)) :
    p.Wp E' (fun a w' => post a (g w')) w := by
  induction p generalizing w with
  | ret a => exact h
  | call c k ih =>
    intro answer next hE
    exact ih answer (h answer (g next) (hstep _ _ _ _ hE))

end Embed

/-! ## 4. Procedures -/

namespace Proc

variable {σ ε : Type}

/-- Total correctness of a procedure from the local variables `s`. -/
def Ensures (E : S → (c : C) → R c → S → Prop) (post : Except ε α → σ → S → Prop)
    (t : Recorded C R σ ε α) (s : σ) (w : S) : Prop :=
  (t s).Ensures (fun w c => E w c.2) (fun r w' => post r.1 r.2 w') w

variable {E : S → (c : C) → R c → S → Prop} {post : Except ε β → σ → S → Prop} {s : σ} {w : S}

theorem Ensures.mono {t : Recorded C R σ ε β} {post' : Except ε β → σ → S → Prop}
    (h : t.Ensures E post s w) (hpost : ∀ r s' w', post r s' w' → post' r s' w') :
    t.Ensures E post' s w :=
  Prog.Ensures.mono h fun r w' => hpost r.1 r.2 w'

theorem Ensures.pure {b : β} (h : post (.ok b) s w) :
    (Pure.pure b : Recorded C R σ ε β).Ensures E post s w := h

theorem Ensures.exit {e : ε} (h : post (.error e) s w) :
    (Proc.exit e : Recorded C R σ ε β).Ensures E post s w := h

theorem Ensures.get {f : σ → Recorded C R σ ε β} (h : (f s).Ensures E post s w) :
    (Proc.get >>= f).Ensures E post s w := h

theorem Ensures.modify {g : σ → σ} {post : Except ε Unit → σ → S → Prop} (h : post (.ok ()) (g s) w) :
    (Proc.modify g : Recorded C R σ ε Unit).Ensures E post s w := h

theorem Ensures.modify_bind {g : σ → σ} {f : Unit → Recorded C R σ ε β}
    (h : (f ()).Ensures E post (g s) w) : (Proc.modify g >>= f).Ensures E post s w := h

theorem Ensures.ask {c : C} {post : Except ε (R c) → σ → S → Prop}
    (hprogress : ∃ answer next, E w c answer next)
    (h : ∀ answer next, E w c answer next → post (.ok answer) s next) :
    (Proc.ask c : Recorded C R σ ε (R c)).Ensures E post s w := ⟨hprogress, h⟩

/-- A call whose answers all lead on. -/
theorem Ensures.ask_bind {c : C} {f : R c → Recorded C R σ ε β}
    (hprogress : ∃ answer next, E w c answer next)
    (h : ∀ answer next, E w c answer next → (f answer).Ensures E post s next) :
    (Proc.ask c >>= f).Ensures E post s w := ⟨hprogress, h⟩

/-- A step that ends as `mid` says, and then the rest. -/
theorem Ensures.bind (mid : Except ε α → σ → S → Prop) {t : Recorded C R σ ε α}
    {f : α → Recorded C R σ ε β} (ht : t.Ensures E mid s w)
    (hok : ∀ a s' w', mid (.ok a) s' w' → (f a).Ensures E post s' w')
    (herror : ∀ e s' w', mid (.error e) s' w' → post (.error e) s' w') :
    (t >>= f).Ensures E post s w := by
  apply Prog.Ensures.bind
  refine Prog.Ensures.mono ht fun r w' hmid => ?_
  obtain ⟨_ | a, s'⟩ := r
  · exact herror _ s' w' hmid
  · exact hok a s' w' hmid

end Proc

end LocalFiles.Interaction
