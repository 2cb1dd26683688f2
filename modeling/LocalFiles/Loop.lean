import Mathlib.Logic.Relation
import Mathlib.Tactic.ByContra

/-!
# Loop — `while` loops, one turn at a time

A turn ends the loop with its result or leaves the state for the next turn.  Rules: an invariant
with a falling rank makes the loop return, what turns preserve holds of every state reached, and
a state that a later turn only extends makes the loop run forever.
-/

namespace LocalFiles

/-- How one turn of a loop ends. -/
inductive Turn (ρ σ : Type) where
  | done (r : ρ)
  | again (s : σ)
  deriving DecidableEq, Repr

namespace Loop

variable {ρ σ : Type} (turn : σ → Turn ρ σ)

/-- The result of at most `n` turns; `none` when these do not end the loop. -/
def run : Nat → σ → Option ρ
  | 0, _ => none
  | n + 1, s =>
    match turn s with
    | .done r => some r
    | .again s' => run n s'

/-- The loop from `s` ends, with the result `r`. -/
def Returns (s : σ) (r : ρ) : Prop := ∃ n, run turn n s = some r

/-- The loop from `s` never ends. -/
def Diverges (s : σ) : Prop := ∀ n, run turn n s = none

def Next (s s' : σ) : Prop := turn s = .again s'

/-- Some turns lead from the first state to the second. -/
def Reaches : σ → σ → Prop := Relation.ReflTransGen (Next turn)

/-- One turn at least leads from the first state to the second. -/
def Advances : σ → σ → Prop := Relation.TransGen (Next turn)

variable {turn} {s s' : σ} {r r' : ρ}

/-! ## 1. Results -/

theorem returns_done (h : turn s = .done r) : Returns turn s r := ⟨1, by simp [run, h]⟩

theorem Returns.again (h : turn s = .again s') (hreturns : Returns turn s' r) :
    Returns turn s r := by
  obtain ⟨n, hn⟩ := hreturns
  exact ⟨n + 1, by simp [run, h, hn]⟩

theorem returns_again_iff (h : turn s = .again s') : Returns turn s r ↔ Returns turn s' r := by
  constructor
  · intro ⟨n, hn⟩
    cases n with
    | zero => cases hn
    | succ n =>
      unfold run at hn
      rw [h] at hn
      exact ⟨n, hn⟩
  · exact Returns.again h

theorem returns_done_iff (h : turn s = .done r) : Returns turn s r' ↔ r = r' := by
  constructor
  · intro ⟨n, hn⟩
    cases n with
    | zero => cases hn
    | succ n =>
      unfold run at hn
      rw [h] at hn
      exact Option.some.inj hn
  · intro heq
    exact heq ▸ returns_done h

theorem Reaches.returns_iff (h : Reaches turn s s') : Returns turn s r ↔ Returns turn s' r := by
  induction h with
  | refl => exact Iff.rfl
  | tail _ hnext ih => exact ih.trans (returns_again_iff hnext)

/-- A loop has one result only. -/
theorem Returns.unique (h : Returns turn s r) (h' : Returns turn s r') : r = r' := by
  obtain ⟨n, hn⟩ := h
  induction n generalizing s with
  | zero => cases hn
  | succ n ih =>
    unfold run at hn
    cases hturn : turn s with
    | done r'' =>
      rw [hturn] at hn
      rw [← (returns_done_iff hturn).mp h']
      exact (Option.some.inj hn).symm
    | again s' =>
      rw [hturn] at hn
      exact ih ((returns_again_iff hturn).mp h') hn

theorem Returns.not_diverges (h : Returns turn s r) : ¬Diverges turn s := by
  obtain ⟨n, hn⟩ := h
  intro hdiverges
  rw [hdiverges n] at hn
  cases hn

theorem returns_of_not_diverges (h : ¬Diverges turn s) : ∃ r, Returns turn s r := by
  obtain ⟨n, hn⟩ := Classical.not_forall.mp h
  obtain ⟨r, hr⟩ := Option.ne_none_iff_exists'.mp hn
  exact ⟨r, n, hr⟩

/-! ## 2. Rules -/

/-- What holds at the start and is preserved by every turn holds of every state reached. -/
theorem Reaches.invariant (Inv : σ → Prop) (hturn : ∀ s s', Inv s → Next turn s s' → Inv s')
    (hs : Inv s) (h : Reaches turn s s') : Inv s' := by
  induction h with
  | refl => exact hs
  | tail _ hnext ih => exact hturn _ _ ih hnext

/-- A loop that returns stops in a state it reaches. -/
theorem Returns.stops (h : Returns turn s r) : ∃ s', Reaches turn s s' ∧ turn s' = .done r := by
  obtain ⟨n, hn⟩ := h
  induction n generalizing s with
  | zero => cases hn
  | succ n ih =>
    unfold run at hn
    cases hturn : turn s with
    | done r' =>
      rw [hturn] at hn
      exact ⟨s, .refl, hturn.trans (congrArg Turn.done (Option.some.inj hn))⟩
    | again s' =>
      rw [hturn] at hn
      obtain ⟨last, hreaches, hdone⟩ := ih hn
      exact ⟨last, hreaches.head hturn, hdone⟩

/-- An invariant whose rank falls with every turn: the loop returns. -/
theorem exists_returns (Inv : σ → Prop) (rank : σ → Nat)
    (hturn : ∀ s s', Inv s → Next turn s s' → Inv s' ∧ rank s' < rank s) (hs : Inv s) :
    ∃ r, Returns turn s r := by
  induction hn : rank s using Nat.strongRecOn generalizing s with
  | ind n ih =>
    subst hn
    cases hcase : turn s with
    | done r => exact ⟨r, returns_done hcase⟩
    | again s' =>
      obtain ⟨hinv, hlt⟩ := hturn s s' hs hcase
      obtain ⟨r, hr⟩ := ih (rank s') hlt hinv rfl
      exact ⟨r, hr.again hcase⟩

theorem Reaches.diverges (h : Reaches turn s s') (hdiverges : Diverges turn s') :
    Diverges turn s := by
  by_contra hnot
  obtain ⟨r, hr⟩ := returns_of_not_diverges hnot
  exact (h.returns_iff.mp hr).not_diverges hdiverges

/-- Every state of `S` leads to another one of `S`: from there the loop never ends. -/
theorem diverges_of_advances (S : σ → Prop) (hS : ∀ s, S s → ∃ s', S s' ∧ Advances turn s s')
    (hs : S s) : Diverges turn s := by
  intro n
  induction n using Nat.strongRecOn generalizing s with
  | ind n ih =>
    -- The turns to the next state of `S` use up a part of the `n` turns, or all of them.
    obtain ⟨s', hs', hadvances⟩ := hS s hs
    have hfewer : ∀ m, m < n → run turn m s' = none := fun m hm => ih m hm hs'
    clear ih hs hs'
    induction hadvances using Relation.TransGen.head_induction_on generalizing n with
    | single hnext =>
      cases n with
      | zero => rfl
      | succ n =>
        unfold run
        rw [hnext]
        exact hfewer n n.lt_succ_self
    | head hnext _ ih =>
      cases n with
      | zero => rfl
      | succ n =>
        unfold run
        rw [hnext]
        exact ih n fun m hm => hfewer m (Nat.lt_succ_of_lt hm)

end Loop

end LocalFiles
