import LocalFiles.DeleteOrder

/-!
# DeleteReport — what the error of a deletion says about the tree

A failure of `remove_directory_tree` carries an effect state.  It is compared here with the
removal calls of the run and their answers.
-/

namespace LocalFiles.Delete

open Interaction

section Report

variable {P M R α β : Type} {B : DeleteBackend P M}

/-! ## 1. Removal calls -/

/-- The answer to a call that removes an entry. -/
def removalAnswer [QubitBudget] (ev : Event (Locals P × DeleteCall P M R) fun c => c.2.Result) :
    Option (Except DeleteSource Unit) :=
  match ev with
  | ⟨(_, .removeNonDirectory _ _), answer⟩ => some answer
  | ⟨(_, .removeEmptyDirectory _), answer⟩ => some answer
  | _ => none

def removals [QubitBudget] (tr : DeleteHistory P M R) : List (Except DeleteSource Unit) :=
  tr.filterMap removalAnswer

theorem removals_snoc [QubitBudget] (tr : DeleteHistory P M R)
    (ev : Event (Locals P × DeleteCall P M R) fun c => c.2.Result) :
    removals (tr ++ [ev]) = removals tr ++ (removalAnswer ev).toList := by
  unfold removals
  rw [List.filterMap_append]
  cases hanswer : removalAnswer ev with
  | none => rw [List.filterMap_cons_none hanswer]; rfl
  | some answer => rw [List.filterMap_cons_some hanswer]; rfl

/-- The error tells what the removal calls with these answers did to the tree. -/
structure Truthful (error : LocalFileError) (answers : List (Except DeleteSource Unit)) : Prop where
  unchanged : error.effectState = some .unchanged ↔ answers = []
  indeterminate : error.effectState = some .indeterminate ↔ ∃ source, answers = [.error source]
  partiallyApplied : error.effectState = some .partiallyApplied ↔ .ok () ∈ answers
  incomplete : .ok () ∈ answers → error.kind = .publicationIncomplete

/-! ## 2. The flag -/

/-- No removal has failed so far, and the flag tells whether there was one. -/
structure Steady (changed : Bool) (answers : List (Except DeleteSource Unit)) : Prop where
  removed : ∀ answer ∈ answers, answer = .ok ()
  flag : changed = true ↔ answers ≠ []

theorem steady_start : Steady false [] := ⟨by simp, by simp⟩

theorem Steady.snoc {changed : Bool} {answers : List (Except DeleteSource Unit)}
    (h : Steady changed answers) : Steady true (answers ++ [.ok ()]) := by
  refine ⟨?_, by simp⟩
  rw [List.forall_mem_append]
  exact ⟨h.removed, fun answer hanswer => List.mem_singleton.mp hanswer⟩

theorem failure_changed (path : P) (source : DeleteSource) (state : LocalFileEffectState) :
    (failure B path true source state).effectState = some .partiallyApplied ∧
      (failure B path true source state).kind = .publicationIncomplete := by
  unfold failure directoryMutationError
  cases source <;> exact ⟨rfl, rfl⟩

theorem failure_unchanged (path : P) (source : DeleteSource) (state : LocalFileEffectState) :
    (failure B path false source state).effectState = some state := by
  unfold failure
  cases source <;> rfl

/-- Once the tree was changed, every later failure says so. -/
theorem truthful_changed {answers : List (Except DeleteSource Unit)} (path : P)
    (source : DeleteSource) (state : LocalFileEffectState) (h : .ok () ∈ answers) :
    Truthful (failure B path true source state) answers := by
  obtain ⟨hstate, hkind⟩ := failure_changed (B := B) path source state
  refine ⟨?_, ?_, ?_, fun _ => hkind⟩
  · rw [hstate]
    exact iff_of_false (by decide) (List.ne_nil_of_mem h)
  · rw [hstate]
    refine iff_of_false (by decide) ?_
    rintro ⟨error, rfl⟩
    cases List.mem_singleton.mp h
  · rw [hstate]
    exact iff_of_true rfl h

theorem Steady.ok_mem {answers : List (Except DeleteSource Unit)} (h : Steady true answers) :
    .ok () ∈ answers := by
  obtain ⟨answer, hanswer⟩ := List.exists_mem_of_ne_nil _ (h.flag.mp rfl)
  exact h.removed answer hanswer ▸ hanswer

/-- A failure before a removal call, or at one that was not made. -/
theorem Steady.truthful {changed : Bool} {answers : List (Except DeleteSource Unit)}
    (h : Steady changed answers) (path : P) (source : DeleteSource) :
    Truthful (failure B path changed source .unchanged) answers := by
  cases changed with
  | true => exact truthful_changed path source .unchanged h.ok_mem
  | false =>
    have hnone : answers = [] := by
      by_contra hne
      cases h.flag.mpr hne
    subst hnone
    have hstate := failure_unchanged (B := B) path source .unchanged
    refine ⟨iff_of_true hstate rfl, ?_, ?_, nofun⟩
    · rw [hstate]
      exact iff_of_false (by decide) (by simp)
    · rw [hstate]
      exact iff_of_false (by decide) List.not_mem_nil

/-- A removal call that fails. -/
theorem Steady.truthful_removal {changed : Bool} {answers : List (Except DeleteSource Unit)}
    (h : Steady changed answers) (path : P) (source : DeleteSource) :
    Truthful (failure B path changed source .indeterminate) (answers ++ [.error source]) := by
  cases changed with
  | true =>
    exact truthful_changed path source .indeterminate (List.mem_append_left _ h.ok_mem)
  | false =>
    have hnone : answers = [] := by
      by_contra hne
      cases h.flag.mpr hne
    subst hnone
    have hstate := failure_unchanged (B := B) path source .indeterminate
    have hfailed : Except.ok () ∉ ([.error source] : List (Except DeleteSource Unit)) := by simp
    refine ⟨?_, iff_of_true hstate ⟨source, rfl⟩, ?_, fun hok => absurd hok hfailed⟩
    · rw [hstate]
      exact iff_of_false (by decide) (List.cons_ne_nil _ _)
    · rw [hstate]
      exact iff_of_false (by decide) hfailed

/-! ## 3. Every run -/

variable [QubitBudget]

abbrev Records (past : DeleteHistory P M R) (s : Locals P) : Prop := Steady s.changed (removals past)

/-- Triples about the removal calls so far; whatever fails is reported truthfully. -/
abbrev Reports (pre : DeleteHistory P M R → Locals P → Prop) (t : DeleteM P M R α)
    (post : α → DeleteHistory P M R → Locals P → Prop) : Prop :=
  Proc.Upholds ⟨fun _ => True, fun _ _ _ => True⟩ pre t post fun halt past _ =>
    ∀ error, halt = some (.error error) → Truthful error (removals past)

theorem reports_call (c : DeleteCall P M R)
    (h : ∀ s answer, removalAnswer ⟨(s, c), answer⟩ = none) :
    Reports Records (call c) fun _ => Records := by
  refine .ask fun past s hs => ⟨trivial, fun answer _ => ?_⟩
  show Steady s.changed (removals (past ++ [_]))
  rw [removals_snoc, h s answer, Option.toList_none, List.append_nil]
  exact hs

theorem reports_modify {g : Locals P → Locals P} (h : ∀ s, (g s).changed = s.changed) :
    Reports (M := M) (R := R) Records (Proc.modify g) fun _ => Records := by
  refine .modify fun past s hs => ?_
  show Steady (g s).changed _
  rw [h s]
  exact hs

theorem reports_get {f : Locals P → DeleteM P M R α} {post : α → DeleteHistory P M R → Locals P → Prop}
    (h : ∀ s, Reports Records (f s) post) : Reports Records (Proc.get >>= f) post :=
  .get fun s => (h s).before fun _ _ hs => hs.1

theorem reports_orFail {path : P} {result : Except DeleteSource α} :
    Reports (M := M) (R := R) Records (orFail B .unchanged path result) fun _ => Records := by
  cases result with
  | ok a => exact .pure fun _ _ hs => hs
  | error source =>
    refine .get fun s => .exit fun past s' hs error herror => ?_
    obtain ⟨hs, rfl⟩ := hs
    cases herror
    exact hs.truthful path source

theorem reports_checkDeadline :
    Reports (M := M) (R := R) Records checkDeadline fun (_ : Except DeleteSource Unit) =>
      Records (P := P) := by
  refine reports_get fun s => ?_
  split
  · exact .pure fun _ _ hs => hs
  · refine .bind (reports_call _ fun _ _ => rfl) fun elapsed => ?_
    split
    · exact .pure fun _ _ hs => hs
    · exact .pure fun _ _ hs => hs

theorem reports_reservePath (path : P) :
    Reports (M := M) (R := R) Records (reservePath B path) fun _ => Records := by
  refine reports_get fun s => ?_
  split
  · exact .pure fun _ _ hs => hs
  · exact .exit fun _ _ _ _ h => nomatch h
  · exact .bind (reports_modify fun _ => rfl) fun _ => .pure fun _ _ hs => hs

theorem reports_releasePath (path : P) :
    Reports (M := M) (R := R) Records (releasePath B path) fun _ => Records := by
  refine reports_get fun s => ?_
  split
  · exact .exit fun _ _ _ _ h => nomatch h
  · exact reports_modify fun _ => rfl

theorem reports_registerEntry (path : P) (depth : Nat) :
    Reports (M := M) (R := R) Records (registerEntry B path depth) fun _ => Records := by
  refine .through (fun _ => Records) (.bind (reports_call _ fun _ _ => rfl) fun _ =>
    .bind reports_checkDeadline fun checked => ?_) fun result => ?_
  · split
    · exact .pure fun _ _ hs => hs
    · refine reports_get fun s => ?_
      split
      · exact .pure fun _ _ hs => hs
      · exact .bind (reports_modify fun _ => rfl) fun _ => .pure fun _ _ hs => hs
  · split
    · exact .pure fun _ _ hs => hs
    · exact reports_reservePath path

theorem reports_readChildren (bound : Nat) (path : P) (reader : R) (depth : Nat) :
    Reports (M := M) Records (readChildren B bound path reader depth) fun _ => Records := by
  induction bound generalizing reader with
  | zero => exact .exit fun _ _ _ _ h => nomatch h
  | succ bound ih =>
    refine .bind reports_checkDeadline fun _ => .bind reports_orFail fun _ =>
      .bind (reports_call _ fun _ _ => rfl) fun answer => .bind reports_orFail fun child => ?_
    split
    · exact .pure fun _ _ hs => hs
    · exact .bind (reports_registerEntry _ _) fun _ => .bind reports_orFail fun _ =>
        .bind (reports_modify fun _ => rfl) fun _ => ih _

theorem reports_inspectDirectory (bound : Nat) (path : P) (depth : Nat) :
    Reports (M := M) (R := R) Records (inspectDirectory B bound path depth) fun _ => Records :=
  .bind reports_checkDeadline fun _ => .bind reports_orFail fun _ =>
    .bind (reports_call _ fun _ _ => rfl) fun _ => .bind reports_orFail fun reader =>
    .bind (reports_reservePath path) fun _ => .bind reports_orFail fun _ =>
    .bind (reports_modify fun _ => rfl) fun _ => reports_get fun _ =>
    .bind (reports_readChildren bound path reader depth) fun _ => reports_modify fun _ => rfl

/-- The last removal call was given this answer. -/
def Attempted (answer : Except DeleteSource Unit) (past : DeleteHistory P M R) (s : Locals P) :
    Prop :=
  ∃ answers, Steady s.changed answers ∧ removals past = answers ++ [answer]

theorem reports_removeNonDirectory (path : P) (metadata : M) :
    Reports (R := R) Records (removeNonDirectory path metadata) Attempted :=
  .ask fun past _ hs => ⟨trivial, fun _ _ => ⟨removals past, hs, removals_snoc past _⟩⟩

theorem reports_removeEmptyDirectory (path : P) :
    Reports (M := M) (R := R) Records (removeEmptyDirectory path) Attempted :=
  .ask fun past _ hs => ⟨trivial, fun _ _ => ⟨removals past, hs, removals_snoc past _⟩⟩

theorem reports_attempt {path : P} {result : Except DeleteSource Unit} :
    Reports (M := M) (R := R) (Attempted result) (orFail B .indeterminate path result)
      fun _ => Attempted (.ok ()) := by
  cases result with
  | ok _ => exact .pure fun _ _ hs => hs
  | error source =>
    refine .get fun s => .exit fun past s' hs error herror => ?_
    obtain ⟨⟨answers, hsteady, hremovals⟩, rfl⟩ := hs
    cases herror
    rw [hremovals]
    exact hsteady.truthful_removal path source

theorem reports_setChanged :
    Reports (P := P) (M := M) (R := R) (Attempted (.ok ())) setChanged fun _ => Records := by
  refine .modify fun past s hs => ?_
  obtain ⟨answers, hsteady, hremovals⟩ := hs
  show Steady true (removals past)
  rw [hremovals]
  exact hsteady.snoc

theorem reports_inspectNonDirectory (path : P) (metadata : M) :
    Reports (R := R) Records (inspectNonDirectory B path metadata) fun _ => Records :=
  .bind reports_checkDeadline fun _ => .bind reports_orFail fun _ =>
    .bind (reports_call _ fun _ _ => rfl) fun _ => .bind reports_orFail fun _ =>
    .bind (reports_removeNonDirectory path metadata) fun _ => .bind reports_attempt fun _ =>
    reports_setChanged

theorem reports_removeDirectory (path : P) :
    Reports (M := M) (R := R) Records (removeDirectory B path) fun _ => Records :=
  .bind (reports_call _ fun _ _ => rfl) fun _ => .bind reports_orFail fun _ =>
    .bind (reports_removeEmptyDirectory path) fun _ => .bind reports_attempt fun _ =>
    reports_setChanged

theorem reports_inspect (bound : Nat) (path : P) (depth : Nat) :
    Reports (M := M) (R := R) Records (inspect B bound path depth) fun _ => Records := by
  refine .bind (reports_call _ fun _ _ => rfl) fun _ => .bind reports_orFail fun metadata => ?_
  dsimp only
  split
  · exact reports_orFail
  · split
    · exact reports_inspectDirectory bound path depth
    · exact reports_inspectNonDirectory path metadata

theorem reports_process (bound : Nat) (item : DeleteWork P) (depth : Nat) :
    Reports (M := M) (R := R) Records (process B bound item depth) fun _ => Records := by
  refine .bind (reports_releasePath item.path) fun _ => .bind reports_checkDeadline fun _ =>
    .bind reports_orFail fun _ => ?_
  cases item with
  | inspect path => exact reports_inspect bound path depth
  | removeDirectory path => exact reports_removeDirectory path

theorem reports_workLoop (bound items : Nat) :
    Reports (M := M) (R := R) Records (workLoop B bound items) fun _ => Records := by
  induction items with
  | zero => exact .exit fun _ _ _ _ h => nomatch h
  | succ items ih =>
    refine .through (fun _ => Records) (reports_get fun s => ?_) fun item => ?_
    · split
      · exact .pure fun _ _ hs => hs
      · exact .bind (reports_modify fun _ => rfl) fun _ => .pure fun _ _ hs => hs
    · split
      · exact .pure fun _ _ hs => hs
      · exact .bind (reports_process bound _ _) fun _ => ih

theorem reports_removeDirectoryTree (bound : Nat) (root : P) :
    Reports (M := M) (R := R) Records (removeDirectoryTree B bound root) fun _ => Records :=
  .bind (reports_registerEntry root 0) fun _ => .bind reports_orFail fun _ =>
    .bind (reports_modify fun _ => rfl) fun _ => reports_workLoop bound bound

/-- Whatever the backend answers, the effect state of the error is what the removal calls of the
    run did: none was made, the only one failed, or one of them succeeded. -/
theorem removeDirectoryTree_reports (B : DeleteBackend P M) (bound : Nat) (root : P)
    (options : LocalDeleteOptions) (tr : DeleteHistory P M R) (error : LocalFileError)
    (s : Locals P)
    (h : (removeDirectoryTree B bound root).Runs (start options) tr (.error (some (.error error)))
      s) : Truthful error (removals tr) := by
  have hreports := reports_removeDirectoryTree (M := M) (R := R) (B := B) bound root
  obtain ⟨-, -, herror⟩ := hreports [] (start options) tr _ s steady_start h fun _ _ => trivial
  exact herror _ rfl error rfl

end Report

/-! The sample tree again, whose file cannot be removed. -/

section Refused

open scoped QubitBudget

def refusal : DeleteSource := .io ⟨.permissionDenied, "permission denied", none⟩

def refusingAnswer : (c : DeleteCall Nat Bool (List Nat)) → c.Result
  | .removeNonDirectory _ _ => (.error refusal : Except DeleteSource Unit)
  | c => sampleAnswer c

theorem removeDirectoryTree_reports_refused :
    ∃ (tr : DeleteHistory Nat Bool (List Nat)) (error : LocalFileError) (s : Locals Nat),
      (removeDirectoryTree sampleBackend 8 0).Runs (start sampleOptions) tr
        (.error (some (.error error))) s ∧ Truthful error (removals tr) := by
  have hruns := Proc.exec_runs (fun _ c => refusingAnswer c.2)
    (removeDirectoryTree sampleBackend 8 0) (start sampleOptions)
  have hresult : ((removeDirectoryTree sampleBackend 8 0).exec (fun _ c => refusingAnswer c.2)
      (start sampleOptions) []).2.1 =
      .error (some (.error (failure sampleBackend 1 false refusal .indeterminate))) := by
    rfl
  rw [hresult] at hruns
  exact ⟨_, _, _, hruns, removeDirectoryTree_reports sampleBackend 8 0 sampleOptions _ _ _ hruns⟩

end Refused

end LocalFiles.Delete
