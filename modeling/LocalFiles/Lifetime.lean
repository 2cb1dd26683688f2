import LocalFiles.Contract

/-!
# Lifetime — objects whose operations may consume them

An operation is a program that reports something and leaves the object, or nothing of it, behind.
`Lifetime` collects the sequences of operations against an environment whose answers are fair;
`Lifetime.spec` is the rule by which an invariant of the object and the guarantees of its
operations are proved together.
-/

namespace LocalFiles.Interaction

/-! ## 1. Fair environments -/

section Fair

variable {C : Type} {R : C → Type} {α : Type}

/-- The environment whose state is the trace so far, and whose answers are fair. -/
def FairRecording (fair : Event C R → Prop) (past : List (Event C R)) (c : C) (answer : R c)
    (next : List (Event C R)) : Prop :=
  fair ⟨c, answer⟩ ∧ next = past ++ [⟨c, answer⟩]

variable {fair : Event C R → Prop} {p : Prog C R α} {post : α → List (Event C R) → Prop}
  {past tr : List (Event C R)} {a : α}

theorem Prog.Ensures.fairRuns (h : p.Ensures (FairRecording fair) post past) (hrun : p.Runs tr a)
    (hfair : ∀ ev ∈ tr, fair ev) : post a (past ++ tr) := by
  induction p generalizing past tr with
  | ret b =>
    obtain ⟨rfl, rfl⟩ := hrun
    rw [List.append_nil]
    exact h
  | call c k ih =>
    obtain ⟨answer, rest, rfl, hk⟩ := hrun
    obtain ⟨hhead, hrest⟩ := List.forall_mem_cons.mp hfair
    rw [← List.singleton_append, ← List.append_assoc]
    exact ih answer (h.2 answer _ ⟨hhead, rfl⟩) hk hrest

/-- What holds of the runs of a program that finds an answer to every call. -/
theorem Prog.Makes.fairEnsures {P : C → Prop} (hp : p.Makes P)
    (hprogress : ∀ c, P c → ∃ answer, fair ⟨c, answer⟩)
    (hruns : ∀ tr a, p.Runs tr a → (∀ ev ∈ tr, P ev.call) → post a (past ++ tr)) :
    p.Ensures (FairRecording fair) post past := by
  induction p generalizing past with
  | ret b =>
    have hpost := hruns [] b ⟨rfl, rfl⟩ nofun
    rwa [List.append_nil] at hpost
  | call c k ih =>
    obtain ⟨answer, hanswer⟩ := hprogress c hp.1
    refine ⟨⟨answer, _, hanswer, rfl⟩, ?_⟩
    rintro answer' _ ⟨-, rfl⟩
    refine ih answer' (hp.2 answer') fun tr a hrun hcalls => ?_
    have hpost := hruns (⟨c, answer'⟩ :: tr) a ⟨answer', tr, rfl, hrun⟩
      (List.forall_mem_cons.mpr ⟨hp.1, hcalls⟩)
    rwa [← List.singleton_append, ← List.append_assoc] at hpost

end Fair

/-! ## 2. Lifetimes -/

/-- One operation: the calls it made and what it reported. -/
structure Exchange (Op Report C : Type) (R : C → Type) where
  op : Op
  calls : List (Event C R)
  report : Report

section Lifetimes

variable {W Op Report C : Type} {R : C → Type}

/-- `past` are the operations so far, and `left` is what they left of the object. -/
inductive Lifetime (perform : W → Op → Prog C R (Report × Option W)) (fair : Event C R → Prop)
    (start : W) : List (Exchange Op Report C R) → Option W → Prop
  | opened : Lifetime perform fair start [] (some start)
  | operated {past : List (Exchange Op Report C R)} {w : W} {op : Op} {calls : List (Event C R)}
      {report : Report} {left : Option W} (h : Lifetime perform fair start past (some w))
      (hrun : (perform w op).Runs calls (report, left)) (hfair : ∀ ev ∈ calls, fair ev) :
      Lifetime perform fair start (past ++ [⟨op, calls, report⟩]) left

variable {perform : W → Op → Prog C R (Report × Option W)} {fair : Event C R → Prop} {start : W}
  {past : List (Exchange Op Report C R)} {left : Option W}
  {Inv : List (Exchange Op Report C R) → W → Prop}
  {Guarantee : List (Exchange Op Report C R) → Exchange Op Report C R → Prop}

/-- What an operation owes: its guarantee, and the invariant for what it leaves behind. -/
def Operates (perform : W → Op → Prog C R (Report × Option W)) (fair : Event C R → Prop)
    (Inv : List (Exchange Op Report C R) → W → Prop)
    (Guarantee : List (Exchange Op Report C R) → Exchange Op Report C R → Prop)
    (past : List (Exchange Op Report C R)) (w : W) (op : Op) : Prop :=
  (perform w op).Ensures (FairRecording fair) (fun r calls =>
    Guarantee past ⟨op, calls, r.1⟩ ∧ ∀ w', r.2 = some w' → Inv (past ++ [⟨op, calls, r.1⟩]) w') []

/-- Every operation of a lifetime keeps its guarantee after those before it. -/
theorem Lifetime.spec (hstart : Inv [] start)
    (hstep : ∀ past w op, Inv past w → Operates perform fair Inv Guarantee past w op)
    (h : Lifetime perform fair start past left) :
    (∀ before e after, past = before ++ e :: after → Guarantee before e) ∧
      ∀ w, left = some w → Inv past w := by
  induction h with
  | opened =>
    refine ⟨fun before e after hsplit => ?_, ?_⟩
    · exact absurd hsplit.symm (List.append_ne_nil_of_right_ne_nil _ (List.cons_ne_nil _ _))
    · rintro w ⟨⟩
      exact hstart
  | operated h hrun hfair ih =>
    obtain ⟨hguarantee, hinv⟩ := (hstep _ _ _ (ih.2 _ rfl)).fairRuns hrun hfair
    refine ⟨fun before e after hsplit => ?_, hinv⟩
    -- The last operation is either the one in question or behind it.
    obtain rfl | ⟨rest, last, rfl⟩ := List.eq_nil_or_concat after
    · obtain ⟨rfl, heq⟩ := List.append_inj' hsplit rfl
      obtain rfl := List.singleton_inj.mp heq.symm
      exact hguarantee
    · rw [List.concat_eq_append, ← List.cons_append, ← List.append_assoc] at hsplit
      exact ih.1 before e rest (List.append_inj_left' hsplit rfl)

end Lifetimes

end LocalFiles.Interaction
