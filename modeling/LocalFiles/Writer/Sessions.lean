import LocalFiles.Lifetime
import LocalFiles.Writer.FileWriter

/-!
# Writer.Sessions — what a session with a writer guarantees

Both public writers count the bytes that their backend accepted and stop using a backend that
failed.  The guarantees are stated once, over the calls that an operation made and its report.
-/

namespace LocalFiles.Writer

open Interaction

/-- What an operation reports; `ε` is the error of a commit. -/
inductive Report (ε : Type) where
  | stream (result : IoResult Nat)
  | flushed (result : IoResult Unit)
  | aborted (result : Except LocalFileError LocalWriteOutcome)
  | committed (result : Except ε LocalWriteOutcome)

namespace Report

variable {ε : Type}

def outcome? : Report ε → Option LocalWriteOutcome
  | .aborted (.ok outcome) => some outcome
  | .committed (.ok outcome) => some outcome
  | _ => none

def streamError? : Report ε → Option IoError
  | .stream (.error error) => some error
  | .flushed (.error error) => some error
  | _ => none

def failed : Report ε → Bool
  | .stream result => !result.toBool
  | .flushed result => !result.toBool
  | .aborted result => !result.toBool
  | .committed result => !result.toBool

end Report

/-- How the calls of a backend are read: the bytes that an answer accepts, the bytes that a call
    asks to write, the calls of a cleanup, and whether the backend stages its bytes. -/
structure SessionView (C : Type) (R : C → Type) where
  accepted : Event C R → Nat
  requested : C → Option Nat
  cleansUp : C → Prop
  staged : Prop

section Contract

variable {Op ε C : Type} {R : C → Type} (view : SessionView C R)

/-- No answer accepts more than was asked for. -/
def SessionView.fair (ev : Event C R) : Prop :=
  ∀ n, view.requested ev.call = some n → view.accepted ev ≤ n

def SessionView.acceptedBy (calls : List (Event C R)) : Nat := (calls.map view.accepted).sum

/-- The bytes that were accepted by a session so far. -/
def SessionView.total (past : List (Exchange Op (Report ε) C R)) : Nat :=
  (past.map fun e => view.acceptedBy e.calls).sum

variable (e : Exchange Op (Report ε) C R)

/-- A call of the stream failed for good, or an abort of staged bytes failed. -/
def Fatal : Prop :=
  (∃ error, e.report.streamError? = some error ∧ e.calls ≠ [] ∧ error.kind ≠ .interrupted ∧
    error.kind ≠ .wouldBlock) ∨
  view.staged ∧ ∃ error, e.report = .aborted (.error error)

/-- An abort succeeded. -/
def Ended : Prop := ∃ outcome, e.report = .aborted (.ok outcome)

/-- No write, flush or commit reaches the backend; a commit that is refused drops it. -/
def Silent : Prop :=
  match e.report with
  | .stream _ | .flushed _ => e.calls = []
  | .committed _ => ∀ ev ∈ e.calls, view.cleansUp ev.call
  | .aborted _ => True

/-- What the operation `e` guarantees after the operations `before`. -/
structure Guarantee (before : List (Exchange Op (Report ε) C R)) : Prop where
  counted : ∀ outcome, e.report.outcome? = some outcome →
    outcome.bytesWritten.toNat = view.total before
  fits : ∀ ev ∈ e.calls, ∀ n, view.requested ev.call = some n → view.total before + n < wordSize
  silent : (∃ f ∈ before, Fatal view f) → Silent view e
  rejected : (∃ f ∈ before, Ended f) → e.report.failed = true ∧ e.calls = []

/-- A single call that asks to write `n` bytes and is answered with the number written. -/
def SessionView.Writes (n : Nat) (p : Prog C R (IoResult Nat)) : Prop :=
  p.Ensures (FairRecording view.fair) (fun answer calls => ∃ ev, calls = [ev] ∧
    view.requested ev.call = some n ∧ view.fair ev ∧
    view.accepted ev = match answer with
      | .ok written => written
      | .error _ => 0) []

variable {view e} {past : List (Exchange Op (Report ε) C R)}

theorem SessionView.total_concat : view.total (past ++ [e]) = view.total past + view.acceptedBy e.calls := by
  simp only [total, List.map_append, List.map_cons, List.map_nil, List.sum_append, List.sum_cons,
    List.sum_nil, Nat.add_zero]

theorem SessionView.acceptedBy_singleton {ev : Event C R} : view.acceptedBy [ev] = view.accepted ev := by
  simp only [acceptedBy, List.map_cons, List.map_nil, List.sum_cons, List.sum_nil, Nat.add_zero]

theorem SessionView.acceptedBy_eq_zero {calls : List (Event C R)}
    (h : ∀ ev ∈ calls, view.accepted ev = 0) : view.acceptedBy calls = 0 := by
  induction calls with
  | nil => rfl
  | cons ev rest ih =>
    obtain ⟨hev, hrest⟩ := List.forall_mem_cons.mp h
    rw [acceptedBy, List.map_cons, List.sum_cons, hev, Nat.zero_add]
    exact ih hrest

theorem exists_concat {P : Exchange Op (Report ε) C R → Prop} :
    (∃ f ∈ past ++ [e], P f) ↔ (∃ f ∈ past, P f) ∨ P e := by
  constructor
  · rintro ⟨f, hf, hP⟩
    rcases List.mem_append.mp hf with hf | hf
    · exact .inl ⟨f, hf, hP⟩
    · obtain rfl := List.mem_singleton.mp hf
      exact .inr hP
  · rintro (⟨f, hf, hP⟩ | hP)
    · exact ⟨f, List.mem_append_left _ hf, hP⟩
    · exact ⟨e, List.mem_append_right _ (List.mem_singleton_self e), hP⟩

theorem Report.outcome_of_failed {report : Report ε} (h : report.failed = true) :
    report.outcome? = none := by
  unfold outcome?
  split
  next => cases h
  next => cases h
  next => rfl

theorem silent_of_nil (h : e.calls = []) : Silent view e := by
  unfold Silent
  split
  next => exact h
  next => exact h
  next =>
    rw [h]
    exact fun ev hev => absurd hev List.not_mem_nil
  next => trivial

/-- An operation that was refused without a call. -/
theorem Guarantee.refused (hcalls : e.calls = []) (hfailed : e.report.failed = true) :
    Guarantee view e past where
  counted := by
    rw [Report.outcome_of_failed hfailed]
    nofun
  fits := by
    rw [hcalls]
    exact fun ev hev => absurd hev List.not_mem_nil
  silent := fun _ => silent_of_nil hcalls
  rejected := fun _ => ⟨hfailed, hcalls⟩

/-- An operation of a session that was not aborted yet. -/
theorem Guarantee.going (hended : ¬ ∃ f ∈ past, Ended f)
    (hcounted : ∀ outcome, e.report.outcome? = some outcome →
      outcome.bytesWritten.toNat = view.total past)
    (hfits : ∀ ev ∈ e.calls, ∀ n, view.requested ev.call = some n →
      view.total past + n < wordSize)
    (hsilent : (∃ f ∈ past, Fatal view f) → Silent view e) : Guarantee view e past where
  counted := hcounted
  fits := hfits
  silent := hsilent
  rejected := fun h => absurd h hended

theorem not_fatal_of_nil {op : Op} {report : Report ε} {error : IoError}
    (hreport : report.streamError? = some error) :
    ¬ Fatal view (⟨op, [], report⟩ : Exchange Op (Report ε) C R) := by
  rintro (⟨error', -, hne, -⟩ | ⟨-, error', rfl⟩)
  · exact hne rfl
  · cases hreport

theorem not_ended_of_streamError {op : Op} {calls : List (Event C R)} {report : Report ε}
    {error : IoError} (hreport : report.streamError? = some error) :
    ¬ Ended (⟨op, calls, report⟩ : Exchange Op (Report ε) C R) := by
  rintro ⟨outcome, rfl⟩
  cases hreport

theorem not_fatal_of_transient {op : Op} {calls : List (Event C R)} {report : Report ε}
    {error : IoError} (hreport : report.streamError? = some error)
    (htransient : error.kind = .interrupted ∨ error.kind = .wouldBlock) :
    ¬ Fatal view (⟨op, calls, report⟩ : Exchange Op (Report ε) C R) := by
  rintro (⟨error', heq, -, hinterrupted, hblock⟩ | ⟨-, error', rfl⟩)
  · rw [hreport] at heq
    cases heq
    exact htransient.elim hinterrupted hblock
  · cases hreport

theorem not_fatal_of_ok {op : Op} {calls : List (Event C R)} {n : Nat} :
    ¬ Fatal view (⟨op, calls, .stream (.ok n)⟩ : Exchange Op (Report ε) C R) := by
  rintro (⟨error, heq, -⟩ | ⟨-, error, heq⟩) <;> cases heq

theorem not_fatal_of_committed {op : Op} {calls : List (Event C R)}
    {result : Except ε LocalWriteOutcome} :
    ¬ Fatal view (⟨op, calls, .committed result⟩ : Exchange Op (Report ε) C R) := by
  rintro (⟨error, heq, -⟩ | ⟨-, error, heq⟩) <;> cases heq

theorem not_ended_of_committed {op : Op} {calls : List (Event C R)}
    {result : Except ε LocalWriteOutcome} :
    ¬ Ended (⟨op, calls, .committed result⟩ : Exchange Op (Report ε) C R) := by
  rintro ⟨outcome, heq⟩
  cases heq

end Contract

/-- An answer that every call of a stream can get. -/
def ioFailed : IoError := ⟨.other, "failed", none⟩

end LocalFiles.Writer
