import LocalFiles.Contract

/-!
# Delivery — what a procedure leaves behind when it succeeds

The environment has a state of its own and does not see the local variables.  The triples speak
about that state alone, from whatever local variables a procedure starts; they say nothing about
an early exit.
-/

namespace LocalFiles.Interaction.Proc

variable {C : Type} {R : C → Type} {σ ε α β S : Type}

/-- The environment as a recorded call meets it. -/
def Behind (E : S → (c : C) → R c → S → Prop) (w : S) (c : σ × C) (answer : R c.2) (w' : S) :
    Prop :=
  E w c.2 answer w'

/-- From every state with `pre`, a normal end of the procedure has `post`. -/
def Delivers (E : S → (c : C) → R c → S → Prop) (pre : S → Prop) (t : Recorded C R σ ε α)
    (post : α → S → Prop) : Prop :=
  ∀ s w, pre w → (t s).Wp (Behind E) (fun left w' => ∀ a, left.1 = .ok a → post a w') w

variable {E : S → (c : C) → R c → S → Prop} {pre : S → Prop} {post : α → S → Prop}
  {post' : β → S → Prop}

theorem Delivers.runsIn {t : Recorded C R σ ε α} {s s' : σ} {w w' : S}
    {tr : List (Event (σ × C) fun c => R c.2)} {a : α} (h : Delivers E pre t post) (hpre : pre w)
    (hruns : (t s).RunsIn (Behind E) w tr w' (.ok a, s')) : post a w' :=
  (h s w hpre).runsIn hruns a rfl

theorem Delivers.pure {a : α} (h : ∀ w, pre w → post a w) :
    Delivers E pre (Pure.pure a : Recorded C R σ ε α) post := by
  intro s w hpre a' heq
  cases heq
  exact h w hpre

theorem Delivers.exit {e : ε} : Delivers E pre (Proc.exit e : Recorded C R σ ε α) post := by
  intro s w hpre a heq
  cases heq

theorem Delivers.bind {t : Recorded C R σ ε α} {f : α → Recorded C R σ ε β}
    (ht : Delivers E pre t post) (hf : ∀ a, Delivers E (post a) (f a) post') :
    Delivers E pre (t >>= f) post' := by
  intro s w hpre
  refine Prog.wp_bind.mpr ((ht s w hpre).mono fun left w' hleft => ?_)
  obtain ⟨e | a, s'⟩ := left
  · intro b heq
    cases heq
  · exact hf a s' w' (hleft a rfl)

/-- `bind` with the condition between the two parts written out. -/
theorem Delivers.through (mid : α → S → Prop) {t : Recorded C R σ ε α}
    {f : α → Recorded C R σ ε β} (ht : Delivers E pre t mid)
    (hf : ∀ a, Delivers E (mid a) (f a) post') : Delivers E pre (t >>= f) post' :=
  ht.bind hf

/-- Nothing follows a part that has no normal end. -/
theorem Delivers.stops {t : Recorded C R σ ε α} {f : α → Recorded C R σ ε β}
    (ht : Delivers E pre t fun _ _ => False) : Delivers E pre (t >>= f) post' :=
  ht.bind fun _ _ _ hs => hs.elim

theorem Delivers.get {f : σ → Recorded C R σ ε β} (h : ∀ s, Delivers E pre (f s) post') :
    Delivers E pre (Proc.get >>= f) post' :=
  fun s w hpre => h s s w hpre

theorem Delivers.modify {g : σ → σ} {post : Unit → S → Prop} (h : ∀ w, pre w → post () w) :
    Delivers E pre (Proc.modify g : Recorded C R σ ε Unit) post := by
  intro s w hpre a heq
  cases heq
  exact h w hpre

theorem Delivers.ask {c : C} {post : R c → S → Prop}
    (h : ∀ w, pre w → ∀ answer w', E w c answer w' → post answer w') :
    Delivers E pre (Proc.ask c : Recorded C R σ ε (R c)) post := by
  intro s w hpre answer w' hE a heq
  cases heq
  exact h w hpre answer w' hE

theorem Delivers.weaken {pre' : S → Prop} {post' : α → S → Prop} {t : Recorded C R σ ε α}
    (h : Delivers E pre t post) (hpre : ∀ w, pre' w → pre w) (hpost : ∀ a w, post a w → post' a w) :
    Delivers E pre' t post' :=
  fun s w hs => (h s w (hpre w hs)).mono fun _ w' hleft a heq => hpost a w' (hleft a heq)

theorem Delivers.before {pre' : S → Prop} {t : Recorded C R σ ε α} (h : Delivers E pre t post)
    (hpre : ∀ w, pre' w → pre w) : Delivers E pre' t post :=
  h.weaken hpre fun _ _ hs => hs

theorem Delivers.ite {p : Prop} [Decidable p] {t u : Recorded C R σ ε α}
    (ht : p → Delivers E pre t post) (hu : ¬ p → Delivers E pre u post) :
    Delivers E pre (if p then t else u) post := by
  split
  next h => exact ht h
  next h => exact hu h

/-- A part of the condition that does not depend on the state. -/
theorem Delivers.given {p : Prop} {t : Recorded C R σ ε α} (h : p → Delivers E pre t post) :
    Delivers E (fun w => pre w ∧ p) t post :=
  fun s w hs => h hs.2 s w hs.1

/-- Nothing is owed for a case that cannot arise. -/
theorem Delivers.vacuous {t : Recorded C R σ ε α} (h : ∀ w, ¬ pre w) : Delivers E pre t post :=
  fun _ w hpre => absurd hpre (h w)

/-- The state at this moment gets a name. -/
theorem Delivers.fix {t : Recorded C R σ ε α} (h : ∀ w, pre w → Delivers E (· = w) t post) :
    Delivers E pre t post :=
  fun s w hpre => h w hpre s w rfl

/-- The procedure only looks: it leaves the state alone and learns what `learned` says. -/
def Looks (E : S → (c : C) → R c → S → Prop) (w : S) (t : Recorded C R σ ε α)
    (learned : α → Prop) : Prop :=
  Delivers E (· = w) t fun a w' => w' = w ∧ learned a

/-- What is learned is known from there on. -/
theorem Delivers.look {w : S} {t : Recorded C R σ ε α} {f : α → Recorded C R σ ε β}
    {learned : α → Prop} (ht : Looks E w t learned)
    (hf : ∀ a, learned a → Delivers E (· = w) (f a) post') : Delivers E (· = w) (t >>= f) post' :=
  Delivers.bind ht fun a => .given (hf a)

theorem Looks.bind {w : S} {t : Recorded C R σ ε α} {f : α → Recorded C R σ ε β}
    {learned : α → Prop} {learned' : β → Prop} (ht : Looks E w t learned)
    (hf : ∀ a, learned a → Looks E w (f a) learned') : Looks E w (t >>= f) learned' :=
  Delivers.look ht hf

theorem Looks.pure {w : S} {a : α} {learned : α → Prop} (h : learned a) :
    Looks E w (Pure.pure a : Recorded C R σ ε α) learned :=
  Delivers.pure fun _ hs => ⟨hs, h⟩

theorem Looks.get {w : S} {f : σ → Recorded C R σ ε α} {learned : α → Prop}
    (h : ∀ s, Looks E w (f s) learned) : Looks E w (Proc.get >>= f) learned :=
  Delivers.get h

theorem Looks.ite {w : S} {p : Prop} [Decidable p] {t u : Recorded C R σ ε α} {learned : α → Prop}
    (ht : p → Looks E w t learned) (hu : ¬ p → Looks E w u learned) :
    Looks E w (if p then t else u) learned :=
  Delivers.ite ht hu

theorem Looks.mono {w : S} {t : Recorded C R σ ε α} {learned learned' : α → Prop}
    (h : Looks E w t learned) (hlearned : ∀ a, learned a → learned' a) : Looks E w t learned' :=
  Delivers.weaken h (fun _ hs => hs) fun a _ hs => ⟨hs.1, hlearned a hs.2⟩

/-- A procedure that only looks leaves what was there before. -/
theorem Looks.delivers {w : S} {t : Recorded C R σ ε α} {learned : α → Prop}
    (h : Looks E w t learned) (hpost : ∀ a, learned a → post a w) : Delivers E (· = w) t post :=
  Delivers.weaken h (fun _ hs => hs) fun a _ hs => hs.1 ▸ hpost a hs.2

end LocalFiles.Interaction.Proc
