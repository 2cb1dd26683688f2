import Mathlib.Logic.Relation

/-!
# Iteration — iterators run one turn at a time

A turn of an iterator ends it, goes on silently or yields an item.  `collect` runs turns until
the end.  Rules: an invariant with a falling rank makes the iteration end, what turns preserve
holds of every state reached, and an iterator that simulates another one, with silent turns of
its own in between, collects the same items.
-/

namespace LocalFiles

/-- How one turn of an iterator ends. -/
inductive Step (α σ : Type) where
  | stop
  | again (s : σ)
  | yield (a : α) (s : σ)
  deriving DecidableEq, Repr

namespace Step

variable {α β σ τ : Type}

def next : Step α σ → Option σ
  | stop => none
  | again s => some s
  | yield _ s => some s

def map (f : α → β) : Step α σ → Step β σ
  | stop => stop
  | again s => again s
  | yield a s => yield (f a) s

@[simp] theorem next_stop : (stop : Step α σ).next = none := rfl

@[simp] theorem next_again (s : σ) : (again s : Step α σ).next = some s := rfl

@[simp] theorem next_yield (a : α) (s : σ) : (yield a s).next = some s := rfl

@[simp] theorem next_map (f : α → β) (r : Step α σ) : (r.map f).next = r.next := by
  cases r <;> rfl

end Step

/-! ## 1. Runs -/

section Runs

variable {α σ : Type} (step : σ → Step α σ)

/-- The items of at most `n` turns; `none` when these do not reach the end. -/
def collect : Nat → σ → Option (List α)
  | 0, _ => none
  | n + 1, s =>
    match step s with
    | .stop => some []
    | .again s' => collect n s'
    | .yield a s' => (collect n s').map (a :: ·)

/-- The iteration from `s` ends, after the items `items`. -/
def Ends (s : σ) (items : List α) : Prop := ∃ n, collect step n s = some items

def Reachable : σ → σ → Prop := Relation.ReflTransGen fun s s' => (step s).next = some s'

variable {step}

/-- What holds at the start and is preserved by every turn holds of every state reached. -/
theorem Reachable.invariant (Inv : σ → Prop) {s s' : σ}
    (hstep : ∀ s s', Inv s → (step s).next = some s' → Inv s')
    (hs : Inv s) (h : Reachable step s s') : Inv s' := by
  induction h with
  | refl => exact hs
  | tail _ hnext ih => exact hstep _ _ ih hnext

theorem ends_stop {s : σ} (h : step s = .stop) : Ends step s [] :=
  ⟨1, by simp [collect, h]⟩

theorem Ends.again {s s' : σ} {items : List α} (h : step s = .again s')
    (hends : Ends step s' items) : Ends step s items := by
  obtain ⟨n, hn⟩ := hends
  exact ⟨n + 1, by simp [collect, h, hn]⟩

theorem Ends.yield {s s' : σ} {a : α} {items : List α} (h : step s = .yield a s')
    (hends : Ends step s' items) : Ends step s (a :: items) := by
  obtain ⟨n, hn⟩ := hends
  exact ⟨n + 1, by simp [collect, h, hn]⟩

/-- An iteration ends in one way only. -/
theorem Ends.unique {s : σ} {items items' : List α} (h : Ends step s items)
    (h' : Ends step s items') : items = items' := by
  obtain ⟨n, hn⟩ := h
  obtain ⟨m, hm⟩ := h'
  induction n generalizing s m items items' with
  | zero => cases hn
  | succ n ih =>
    cases m with
    | zero => cases hm
    | succ m =>
      unfold collect at hn hm
      cases hturn : step s with
      | stop =>
        rw [hturn] at hn hm
        exact (Option.some.inj hn).symm.trans (Option.some.inj hm)
      | again s' =>
        rw [hturn] at hn hm
        exact ih hn m hm
      | yield a s' =>
        rw [hturn] at hn hm
        obtain ⟨rest, hrest, rfl⟩ := Option.map_eq_some_iff.mp hn
        obtain ⟨rest', hrest', rfl⟩ := Option.map_eq_some_iff.mp hm
        rw [ih hrest m hrest']

/-- An invariant whose rank falls with every turn: the iteration ends. -/
theorem exists_ends (Inv : σ → Prop) (rank : σ → Nat)
    (hstep : ∀ s s', Inv s → (step s).next = some s' → Inv s' ∧ rank s' < rank s)
    {s : σ} (hs : Inv s) : ∃ items, Ends step s items := by
  induction hn : rank s using Nat.strongRecOn generalizing s with
  | ind n ih =>
    subst hn
    cases hturn : step s with
    | stop => exact ⟨[], ends_stop hturn⟩
    | again s' =>
      have h := hstep s s' hs (by rw [hturn]; rfl)
      obtain ⟨items, hitems⟩ := ih (rank s') h.2 h.1 rfl
      exact ⟨items, hitems.again hturn⟩
    | yield a s' =>
      have h := hstep s s' hs (by rw [hturn]; rfl)
      obtain ⟨items, hitems⟩ := ih (rank s') h.2 h.1 rfl
      exact ⟨a :: items, hitems.yield hturn⟩

/-- What a caller that asks for one more item gets: the item and the state after it, or the end. -/
inductive Gives (step : σ → Step α σ) : σ → Option (α × σ) → Prop
  | stop {s : σ} : step s = .stop → Gives step s none
  | again {s s' : σ} {r : Option (α × σ)} : step s = .again s' → Gives step s' r → Gives step s r
  | yield {s s' : σ} {a : α} : step s = .yield a s' → Gives step s (some (a, s'))

theorem Gives.unique {s : σ} {r r' : Option (α × σ)} (h : Gives step s r) (h' : Gives step s r') :
    r = r' := by
  induction h with
  | stop hturn =>
    cases h' with
    | stop => rfl
    | again hturn' => rw [hturn] at hturn'; cases hturn'
    | yield hturn' => rw [hturn] at hturn'; cases hturn'
  | again hturn _ ih =>
    cases h' with
    | stop hturn' => rw [hturn] at hturn'; cases hturn'
    | again hturn' hgives =>
      rw [hturn, Step.again.injEq] at hturn'
      exact ih (hturn' ▸ hgives)
    | yield hturn' => rw [hturn] at hturn'; cases hturn'
  | yield hturn =>
    cases h' with
    | stop hturn' => rw [hturn] at hturn'; cases hturn'
    | again hturn' => rw [hturn] at hturn'; cases hturn'
    | yield hturn' =>
      rw [hturn, Step.yield.injEq] at hturn'
      obtain ⟨rfl, rfl⟩ := hturn'
      rfl

/-- An iteration that ends gives its items one after the other. -/
theorem Ends.gives {s : σ} {items : List α} (h : Ends step s items) :
    items = [] ∧ Gives step s none ∨
      ∃ a rest s', items = a :: rest ∧ Gives step s (some (a, s')) ∧ Ends step s' rest := by
  obtain ⟨n, hn⟩ := h
  induction n generalizing s with
  | zero => cases hn
  | succ n ih =>
    unfold collect at hn
    cases hturn : step s with
    | stop =>
      rw [hturn] at hn
      exact .inl ⟨(Option.some.inj hn).symm, .stop hturn⟩
    | again s' =>
      rw [hturn] at hn
      rcases ih hn with ⟨hnil, hgives⟩ | ⟨a, rest, s'', hcons, hgives, hends⟩
      · exact .inl ⟨hnil, .again hturn hgives⟩
      · exact .inr ⟨a, rest, s'', hcons, .again hturn hgives, hends⟩
    | yield a s' =>
      rw [hturn] at hn
      obtain ⟨rest, hrest, rfl⟩ := Option.map_eq_some_iff.mp hn
      exact .inr ⟨a, rest, s', rfl, .yield hturn, n, hrest⟩

end Runs

/-! ## 2. Simulation -/

section Simulation

variable {α β γ σ τ : Type}

/-- What one turn of the left iterator means for the right one: both end, both yield items that
    look the same, or the left one goes on silently, alone or together with the right one. -/
inductive Matches (R : σ → τ → Prop) (look : α → γ) (look' : β → γ) (t : τ) :
    Step α σ → Step β τ → Prop
  | stop : Matches R look look' t .stop .stop
  | yield {a : α} {b : β} {s' : σ} {t' : τ} :
      look a = look' b → R s' t' → Matches R look look' t (.yield a s') (.yield b t')
  | again {s' : σ} {t' : τ} : R s' t' → Matches R look look' t (.again s') (.again t')
  | stutter {s' : σ} {r : Step β τ} : R s' t → Matches R look look' t (.again s') r

/-- What every turn of the left iterator keeps may be added to the relation. -/
theorem Matches.and {R : σ → τ → Prop} {P : σ → Prop} {look : α → γ} {look' : β → γ} {t : τ}
    {r : Step α σ} {r' : Step β τ} (h : Matches R look look' t r r')
    (hP : ∀ s', r.next = some s' → P s') :
    Matches (fun s t => P s ∧ R s t) look look' t r r' := by
  cases h with
  | stop => exact .stop
  | yield hlook hR => exact .yield hlook ⟨hP _ rfl, hR⟩
  | again hR => exact .again ⟨hP _ rfl, hR⟩
  | stutter hR => exact .stutter ⟨hP _ rfl, hR⟩

/-- What every turn of the right iterator keeps may be added to the relation. -/
theorem Matches.and_right {R : σ → τ → Prop} {Q : τ → Prop} {look : α → γ} {look' : β → γ} {t : τ}
    {r : Step α σ} {r' : Step β τ} (h : Matches R look look' t r r') (ht : Q t)
    (hQ : ∀ t', r'.next = some t' → Q t') :
    Matches (fun s t => Q t ∧ R s t) look look' t r r' := by
  cases h with
  | stop => exact .stop
  | yield hlook hR => exact .yield hlook ⟨hQ _ rfl, hR⟩
  | again hR => exact .again ⟨hQ _ rfl, hR⟩
  | stutter hR => exact .stutter ⟨ht, hR⟩

theorem Matches.map {α' β' γ' : Type} {R : σ → τ → Prop} {look : α → γ} {look' : β → γ} {t : τ}
    {r : Step α σ} {r' : Step β τ} (h : Matches R look look' t r r') {f : α → α'} {g : β → β'}
    {see : α' → γ'} {see' : β' → γ'} (hsee : ∀ a b, look a = look' b → see (f a) = see' (g b)) :
    Matches R see see' t (r.map f) (r'.map g) := by
  cases h with
  | stop => exact .stop
  | yield hlook hR => exact .yield (hsee _ _ hlook) hR
  | again hR => exact .again hR
  | stutter hR => exact .stutter hR

/-- Related states collect items that look the same, once the left iteration ends. -/
theorem Ends.simulated {step : σ → Step α σ} {step' : τ → Step β τ} {R : σ → τ → Prop}
    {look : α → γ} {look' : β → γ}
    (hsim : ∀ s t, R s t → Matches R look look' t (step s) (step' t))
    {s : σ} {t : τ} {items : List α} (hR : R s t) (h : Ends step s items) :
    ∃ items', Ends step' t items' ∧ items'.map look' = items.map look := by
  obtain ⟨n, hn⟩ := h
  induction n generalizing s t items with
  | zero => cases hn
  | succ n ih =>
    have hturn := hsim s t hR
    unfold collect at hn
    cases hs : step s with
    | stop =>
      rw [hs] at hturn hn
      cases hn
      generalize ht : step' t = r at hturn
      cases hturn
      exact ⟨[], ends_stop ht, rfl⟩
    | again s' =>
      rw [hs] at hturn hn
      generalize ht : step' t = r at hturn
      cases hturn with
      | again hR' =>
        obtain ⟨items', hends, heq⟩ := ih hR' hn
        exact ⟨items', hends.again ht, heq⟩
      | stutter hR' => exact ih hR' hn
    | yield a s' =>
      rw [hs] at hturn hn
      generalize ht : step' t = r at hturn
      cases hturn with
      | yield hlook hR' =>
        obtain ⟨rest, hrest, rfl⟩ := Option.map_eq_some_iff.mp hn
        obtain ⟨items', hends, heq⟩ := ih hR' hrest
        exact ⟨_ :: items', hends.yield ht, by rw [List.map_cons, List.map_cons, heq, hlook]⟩

end Simulation

/-! ## 3. Surroundings that change -/

section Surroundings

variable {α σ : Type}

/-- Turns that depend on their number. -/
def timed (step : Nat → σ → Step α σ) (p : σ × Nat) : Step α (σ × Nat) :=
  match step p.2 p.1 with
  | .stop => .stop
  | .again s' => .again (s', p.2 + 1)
  | .yield a s' => .yield a (s', p.2 + 1)

/-- Turns that depend on the number of items yielded before. -/
def counted (step : Nat → σ → Step α σ) (p : σ × Nat) : Step α (σ × Nat) :=
  match step p.2 p.1 with
  | .stop => .stop
  | .again s' => .again (s', p.2)
  | .yield a s' => .yield a (s', p.2 + 1)

variable {step : Nat → σ → Step α σ} {p p' : σ × Nat}

theorem timed_next (h : (timed step p).next = some p') : (step p.2 p.1).next = some p'.1 := by
  unfold timed at h
  cases hturn : step p.2 p.1 <;> rw [hturn] at h <;> cases h <;> rfl

theorem counted_stop {s : σ} {k : Nat} (h : step k s = .stop) : counted step (s, k) = .stop := by
  unfold counted
  rw [h]

theorem counted_again {s s' : σ} {k : Nat} (h : step k s = .again s') :
    counted step (s, k) = .again (s', k) := by
  unfold counted
  rw [h]

theorem counted_yield {s s' : σ} {a : α} {k : Nat} (h : step k s = .yield a s') :
    counted step (s, k) = .yield a (s', k + 1) := by
  unfold counted
  rw [h]

/-- Matching turns still match when both iterators count the items they yield. -/
theorem Matches.counted {β γ τ : Type} {step' : Nat → τ → Step β τ} {R : σ → τ → Prop}
    {look : α → γ} {look' : β → γ} {s : σ} {t : τ} {k : Nat}
    (h : Matches R look look' t (step k s) (step' k t)) :
    Matches (fun p q => R p.1 q.1 ∧ p.2 = q.2) look look' (t, k) (counted step (s, k))
      (counted step' (t, k)) := by
  show Matches _ look look' (t, k)
    (match step k s with
      | .stop => .stop
      | .again s' => .again (s', k)
      | .yield a s' => .yield a (s', k + 1))
    (match step' k t with
      | .stop => .stop
      | .again t' => .again (t', k)
      | .yield b t' => .yield b (t', k + 1))
  generalize step k s = r, step' k t = r' at h
  cases h with
  | stop => exact .stop
  | yield hlook hR => exact .yield hlook ⟨hR, rfl⟩
  | again hR => exact .again ⟨hR, rfl⟩
  | stutter hR => exact .stutter ⟨hR, rfl⟩

theorem counted_next (h : (counted step p).next = some p') :
    (step p.2 p.1).next = some p'.1 := by
  unfold counted at h
  cases hturn : step p.2 p.1 <;> rw [hturn] at h <;> cases h <;> rfl

end Surroundings

end LocalFiles
