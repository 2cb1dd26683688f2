import LocalFiles.Writer.FileSessions
import LocalFiles.Writer.ConditionalWriter

/-!
# Writer.ConditionalSessions — sessions with a conditional writer

The same guarantees as for the file writer.  The backend is whatever answers the calls, and a
commit consumes the writer whether it succeeds or fails.
-/

namespace LocalFiles.Writer

open Interaction Conditional

/-! ## 1. Operations -/

inductive ConditionalOperation where
  | write (bytes : List UInt8)
  | writeVectored (slices : List (List UInt8))
  | writeUnchecked (input : List UInt8) (index count : Nat)
  | flush
  | abort
  | commit

abbrev ConditionalReport (A : Type) := Report (LocalConditionalCommitError A)

section Sessions

variable {A δ : Type}

/-- An operation with its report and the writer that it leaves. -/
def LocalConditionalWriter.perform [DecidableEq δ] (D : List UInt8 → δ)
    (w : LocalConditionalWriter A δ) : ConditionalOperation →
      ConditionalM A (ConditionalReport A × Option (LocalConditionalWriter A δ))
  | .write bytes => do
    let (result, w) ← w.write bytes
    pure (.stream result, some w)
  | .writeVectored slices => do
    let (result, w) ← w.writeVectored slices
    pure (.stream result, some w)
  | .writeUnchecked input index count => do
    let (result, w) ← w.writeUnchecked input index count
    pure (.stream result, some w)
  | .flush => do
    let (result, w) ← w.flush
    pure (.flushed result, some w)
  | .abort => do
    let (result, w) ← w.abort
    pure (.aborted result, some w)
  | .commit => do
    let result ← w.commit D
    pure (.committed (result.map (·.writeOutcome)), none)

/-- The bytes that an answer accepts. -/
def ConditionalCall.accepted : (c : ConditionalCall A) → c.Result → Nat
  | .write _, .ok written => written
  | .writeVectored _, .ok written => written
  | .writeUnchecked _ _ _, .ok written => written
  | _, _ => 0

def ConditionalCall.requested : ConditionalCall A → Option Nat
  | .write bytes => some bytes.length
  | .writeVectored slices => some slices.flatten.length
  | .writeUnchecked _ _ count => some count
  | _ => none

/-- Every backend of a conditional writer stages its candidate. -/
def conditionalView : SessionView (ConditionalCall A) ConditionalCall.Result where
  accepted ev := ev.call.accepted ev.answer
  requested := ConditionalCall.requested
  cleansUp c := c = .abort
  staged := True

abbrev ConditionalExchange (A : Type) :=
  Exchange ConditionalOperation (ConditionalReport A) (ConditionalCall A) ConditionalCall.Result

abbrev ConditionalLifetime [DecidableEq δ] (D : List UInt8 → δ)
    (start : LocalConditionalWriter A δ) :=
  Lifetime (fun w op => LocalConditionalWriter.perform D w op) conditionalView.fair start

end Sessions

/-! ## 2. The invariant of a session -/

section Invariant

variable {A δ : Type}

/-- What the writer still holds of its session. -/
inductive Holding (fatal ended : Prop) : LocalConditionalWriter A δ → Prop
  | usable {w : LocalConditionalWriter A δ} {backend : ConditionalWriterBackend A}
      {condition : LocalWritePrecondition δ} (hstate : w.state = .opened)
      (hflags : w.writeFailed = false ∧ w.abortFailed = false)
      (hbackend : w.backend = some backend) (hcondition : w.precondition = some condition)
      (hfatal : ¬ fatal) (hended : ¬ ended) : Holding fatal ended w
  | failed {w : LocalConditionalWriter A δ} {backend : ConditionalWriterBackend A}
      (hstate : w.state = .opened) (hflags : w.writeFailed = true ∨ w.abortFailed = true)
      (hbackend : w.backend = some backend) (hended : ¬ ended) : Holding fatal ended w
  | aborted {w : LocalConditionalWriter A δ} (hstate : w.state = .aborted) (hended : ended) :
      Holding fatal ended w

structure Intact (past : List (ConditionalExchange A)) (w : LocalConditionalWriter A δ) : Prop where
  count : w.bytesWritten.value.toNat = conditionalView.total past
  holding : Holding (∃ f ∈ past, Fatal conditionalView f) (∃ f ∈ past, Ended f) w

variable {past : List (ConditionalExchange A)} {w : LocalConditionalWriter A δ}
  {e : ConditionalExchange A} {op : ConditionalOperation}

/-- An operation that wrote nothing and leaves the writer as it was. -/
theorem Intact.idle (h : Intact past w) (hcalls : conditionalView.acceptedBy e.calls = 0)
    (hfatal : ¬ w.Unusable → ¬ Fatal conditionalView e) (hended : w.state = .opened → ¬ Ended e) :
    Intact (past ++ [e]) w := by
  refine ⟨?_, ?_⟩
  · rw [SessionView.total_concat, hcalls, Nat.add_zero]
    exact h.count
  cases h.holding with
  | usable hstate hflags hbackend hcondition hnone hopen =>
    have husable : ¬ w.Unusable := by
      rintro (hclosed | hwrite | habort)
      · exact hclosed hstate
      · exact Bool.false_ne_true (hflags.1.symm.trans hwrite)
      · exact Bool.false_ne_true (hflags.2.symm.trans habort)
    refine .usable hstate hflags hbackend hcondition ?_ ?_
    · rw [exists_concat]
      exact not_or.mpr ⟨hnone, hfatal husable⟩
    · rw [exists_concat]
      exact not_or.mpr ⟨hopen, hended hstate⟩
  | failed hstate hflags hbackend hopen =>
    refine .failed hstate hflags hbackend ?_
    rw [exists_concat]
    exact not_or.mpr ⟨hopen, hended hstate⟩
  | aborted hstate hover =>
    refine .aborted hstate ?_
    rw [exists_concat]
    exact .inl hover

/-- What a writer that refuses nothing holds. -/
structure Ready (past : List (ConditionalExchange A)) (w : LocalConditionalWriter A δ) : Prop where
  intact : Intact past w
  state : w.state = .opened
  flags : w.writeFailed = false ∧ w.abortFailed = false
  backend : ∃ backend, w.backend = some backend
  condition : ∃ condition, w.precondition = some condition
  fatal : ¬ ∃ f ∈ past, Fatal conditionalView f
  ended : ¬ ∃ f ∈ past, Ended f

theorem Intact.ready (h : Intact past w) (husable : ¬ w.Unusable) : Ready past w := by
  obtain ⟨hopened, hclear⟩ := not_or.mp husable
  cases h.holding with
  | usable hstate hflags hbackend hcondition hfatal hended =>
    exact ⟨h, hstate, hflags, ⟨_, hbackend⟩, ⟨_, hcondition⟩, hfatal, hended⟩
  | failed hstate hflags => exact absurd hflags hclear
  | aborted hstate => exact absurd (by rw [hstate]; decide) hopened

theorem LocalConditionalWriter.writable_eq_ok (h : w.writable = .ok ()) : ¬ w.Unusable := by
  unfold LocalConditionalWriter.writable at h
  split at h
  next => cases h
  next husable => exact husable

/-- An operation keeps its guarantee and leaves an intact writer. -/
def Keeps (past : List (ConditionalExchange A)) (op : ConditionalOperation)
    (r : ConditionalReport A × LocalConditionalWriter A δ) (calls : ConditionalTrace A) : Prop :=
  Guarantee conditionalView ⟨op, calls, r.1⟩ past ∧ Intact (past ++ [⟨op, calls, r.1⟩]) r.2

/-- A call of the stream that the writer refuses itself. -/
theorem keeps_refused (h : Intact past w) {report : ConditionalReport A} {error : IoError}
    (hreport : report.streamError? = some error) (hfailed : report.failed = true) :
    Keeps past op (report, w) [] :=
  ⟨.refused rfl hfailed, h.idle rfl (fun _ => not_fatal_of_nil hreport)
    fun _ => not_ended_of_streamError hreport⟩

end Invariant

/-! ## 3. Operations of the stream -/

section Streams

variable {A δ : Type} {past : List (ConditionalExchange A)} {w : LocalConditionalWriter A δ}
  {op : ConditionalOperation}

abbrev FairConditional := FairRecording (conditionalView (A := A)).fair

/-- A failed call of the stream. -/
theorem Ready.observed (h : Ready past w) {ev : Event (ConditionalCall A) ConditionalCall.Result}
    {error : IoError} {report : ConditionalReport A} (hreport : report.streamError? = some error)
    (haccepted : conditionalView.accepted ev = 0) :
    Intact (past ++ [⟨op, [ev], report⟩]) (w.observe error) := by
  have hnothing : conditionalView.acceptedBy [ev] = 0 := by
    rw [SessionView.acceptedBy_singleton, haccepted]
  unfold LocalConditionalWriter.observe
  split
  next htransient =>
    exact h.intact.idle hnothing (fun _ => not_fatal_of_transient hreport htransient)
      fun _ => not_ended_of_streamError hreport
  next =>
    obtain ⟨backend, hbackend⟩ := h.backend
    refine ⟨?_, .failed h.state (.inl rfl) hbackend ?_⟩
    · rw [SessionView.total_concat, hnothing, Nat.add_zero]
      exact h.intact.count
    · rw [exists_concat]
      exact not_or.mpr ⟨h.ended, not_ended_of_streamError hreport⟩

/-- The guarantee of a single call of the stream. -/
theorem Ready.guarantee (h : Ready past w)
    {ev : Event (ConditionalCall A) ConditionalCall.Result} {report : ConditionalReport A}
    (houtcome : report.outcome? = none)
    (hfits : ∀ n, ConditionalCall.requested ev.call = some n →
      w.bytesWritten.value.toNat + n < wordSize) :
    Guarantee conditionalView ⟨op, [ev], report⟩ past := by
  refine .going h.ended ?_ ?_ fun hfatal => absurd hfatal h.fatal
  · intro outcome heq
    rw [houtcome] at heq
    cases heq
  · intro ev' hev' n hn
    obtain rfl := List.mem_singleton.mp hev'
    rw [← h.intact.count]
    exact hfits n hn

/-- The result of a write is recorded without a panic. -/
theorem ensures_recordResult (h : Ready past w)
    {ev : Event (ConditionalCall A) ConditionalCall.Result} {n : Nat} {answer : IoResult Nat}
    (hrequested : ConditionalCall.requested ev.call = some n)
    (hfits : w.bytesWritten.value.toNat + n < wordSize)
    (haccepted : conditionalView.accepted ev = match answer with
      | .ok written => written
      | .error _ => 0)
    (hfair : conditionalView.fair ev) :
    (w.recordResult answer).Ensures FairConditional
      (fun r calls => Keeps past op (.stream r.1, r.2) calls) [ev] := by
  have hguarantee (result : IoResult Nat) :
      Guarantee conditionalView ⟨op, [ev], .stream result⟩ past := by
    refine h.guarantee rfl fun m hm => ?_
    cases hrequested.symm.trans hm
    exact hfits
  unfold LocalConditionalWriter.recordResult
  cases answer with
  | error error => exact ⟨hguarantee _, h.observed rfl haccepted⟩
  | ok written =>
    have hle : written ≤ n := by
      rw [← show conditionalView.accepted ev = written from haccepted]
      exact hfair n hrequested
    obtain ⟨count, hrecorded, hcount⟩ := WriterByteCount.recordWritten_of_fits
      (show w.bytesWritten.value.toNat + written < wordSize by omega)
    dsimp only
    rw [hrecorded]
    refine ⟨hguarantee _, ?_, ?_⟩
    · rw [SessionView.total_concat, SessionView.acceptedBy_singleton, haccepted]
      exact hcount.trans (by rw [h.intact.count])
    · obtain ⟨backend, hbackend⟩ := h.backend
      obtain ⟨condition, hcondition⟩ := h.condition
      refine .usable h.state h.flags hbackend hcondition ?_ ?_
      · rw [exists_concat]
        exact not_or.mpr ⟨h.fatal, not_fatal_of_ok⟩
      · rw [exists_concat]
        refine not_or.mpr ⟨h.ended, ?_⟩
        rintro ⟨outcome, heq⟩
        cases heq

/-- Each method of the stream asks for the bytes that it is called with. -/
theorem writes_calls (A : Type) :
    (∀ bytes, conditionalView.Writes bytes.length (callWrite (A := A) bytes)) ∧
    (∀ slices, conditionalView.Writes slices.flatten.length (callWriteVectored (A := A) slices)) ∧
    ∀ input index count,
      conditionalView.Writes count (callWriteUnchecked (A := A) input index count) := by
  refine ⟨fun _ => ?_, fun _ => ?_, fun _ _ _ => ?_⟩ <;>
  · refine ⟨⟨.error ioFailed, _, fun _ _ => Nat.zero_le _, rfl⟩, ?_⟩
    rintro answer _ ⟨hfair, rfl⟩
    exact ⟨_, rfl, rfl, hfair, by cases answer <;> rfl⟩

/-- The call of a writable writer with a backend, and its result. -/
theorem ensures_recorded (h : Ready past w) {n : Nat} {p : ConditionalM A (IoResult Nat)}
    (hp : conditionalView.Writes n p) (hfits : w.bytesWritten.value.toNat + n < wordSize) :
    (match w.backend with
      | none => panicConditional "open writer retains backend"
      | some _ => do w.recordResult (← p) :
        ConditionalM A (IoResult Nat × LocalConditionalWriter A δ)).Ensures FairConditional
      (fun r calls => Keeps past op (.stream r.1, r.2) calls) [] := by
  obtain ⟨backend, hbackend⟩ := h.backend
  rw [hbackend]
  refine .bind (hp.mono fun answer calls hanswer => ?_)
  obtain ⟨ev, rfl, hrequested, hfair, haccepted⟩ := hanswer
  exact ensures_recordResult h hrequested hfits haccepted hfair

/-- A writer that is not writable, and a request that is refused, do not reach the backend. -/
theorem ensures_checked (h : Intact past w) {checked : IoResult Unit}
    {p : ConditionalM A (IoResult Nat × LocalConditionalWriter A δ)} :
    (checked = .ok () → Ready past w → p.Ensures FairConditional
      (fun r calls => Keeps past op (.stream r.1, r.2) calls) []) →
    (match w.writable with
      | .error error => pure (.error error, w)
      | .ok () => match checked with
        | .error error => pure (.error error, w)
        | .ok () => p :
        ConditionalM A (IoResult Nat × LocalConditionalWriter A δ)).Ensures FairConditional
      (fun r calls => Keeps past op (.stream r.1, r.2) calls) [] := by
  intro hp
  split
  next => exact keeps_refused h rfl rfl
  next hwritable =>
    split
    next => exact keeps_refused h rfl rfl
    next => exact hp rfl (h.ready (LocalConditionalWriter.writable_eq_ok hwritable))

theorem ensures_write (h : Intact past w) (bytes : List UInt8) :
    (w.write bytes).Ensures FairConditional
      (fun r calls => Keeps past op (.stream r.1, r.2) calls) [] :=
  ensures_checked h fun hchecked hready =>
    ensures_recorded hready ((writes_calls A).1 bytes) (WriterByteCount.fits_of_checkRequest hchecked)

theorem ensures_writeUnchecked (h : Intact past w) (input : List UInt8) (index count : Nat) :
    (w.writeUnchecked input index count).Ensures FairConditional
      (fun r calls => Keeps past op (.stream r.1, r.2) calls) [] :=
  ensures_checked h fun hchecked hready =>
    ensures_recorded hready ((writes_calls A).2.2 input index count)
      (WriterByteCount.fits_of_checkRequest hchecked)

theorem ensures_writeSlices (h : Intact past w) (slices : List (List UInt8)) :
    (w.writeVectored slices).Ensures FairConditional
      (fun r calls => Keeps past op (.stream r.1, r.2) calls) [] := by
  refine ensures_checked h fun hchecked hready => ?_
  split
  next =>
    -- Nothing to write is not even handed to the backend.
    refine ⟨.going hready.ended nofun ?_ fun hfatal => absurd hfatal hready.fatal, ?_⟩
    · exact fun ev hev => absurd hev List.not_mem_nil
    · refine h.idle rfl (fun _ => not_fatal_of_ok) fun _ => ?_
      rintro ⟨outcome, heq⟩
      cases heq
  next =>
    exact ensures_recorded hready ((writes_calls A).2.1 slices)
      (WriterByteCount.fits_of_checkVectoredRequest hchecked)

theorem ensures_flushCandidate (h : Intact past w) :
    w.flush.Ensures FairConditional
      (fun r calls => Keeps past op (.flushed r.1, r.2) calls) [] := by
  unfold LocalConditionalWriter.flush
  split
  next => exact keeps_refused h rfl rfl
  next hwritable =>
    have hready := h.ready (LocalConditionalWriter.writable_eq_ok hwritable)
    obtain ⟨backend, hbackend⟩ := hready.backend
    rw [hbackend]
    refine ⟨⟨.error ioFailed, _, nofun, rfl⟩, ?_⟩
    rintro answer _ ⟨-, rfl⟩
    match answer with
    | .error error => exact ⟨hready.guarantee rfl nofun, hready.observed rfl rfl⟩
    | .ok () =>
      refine ⟨hready.guarantee rfl nofun, h.idle rfl (fun _ => ?_) fun _ => ?_⟩
      · rintro (⟨error, heq, -⟩ | ⟨-, error, heq⟩) <;> cases heq
      · rintro ⟨outcome, heq⟩
        cases heq

end Streams

/-! ## 4. Abort and commit -/

section Terminal

variable {A δ : Type} {past : List (ConditionalExchange A)} {w : LocalConditionalWriter A δ}
  {op : ConditionalOperation}

/-- An abort of an open writer, and what it leaves of it. -/
theorem ensures_abortOpen (h : Intact past w) (hopened : w.state = .opened)
    {backend : ConditionalWriterBackend A} (hbackend : w.backend = some backend)
    (hended : ¬ ∃ f ∈ past, Ended f) : w.abort.Ensures FairConditional
      (fun r calls => Keeps past op (.aborted r.1, r.2) calls) [] := by
  have hcount (answer : IoResult Unit) (report : ConditionalReport A) : conditionalView.total
      (past ++ [⟨op, [⟨.abort, answer⟩], report⟩]) = w.bytesWritten.value.toNat := by
    rw [SessionView.total_concat, SessionView.acceptedBy_singleton, h.count]
    rfl
  have hfits (answer : IoResult Unit) : ∀ ev ∈
      [(⟨.abort, answer⟩ : Event (ConditionalCall A) ConditionalCall.Result)], ∀ n,
      conditionalView.requested ev.call = some n → conditionalView.total past + n < wordSize := by
    rintro ev hev n hn
    obtain rfl := List.mem_singleton.mp hev
    cases hn
  rw [LocalConditionalWriter.abort, if_neg (not_not.mpr hopened), hbackend]
  refine ⟨⟨.error ioFailed, _, nofun, rfl⟩, ?_⟩
  rintro answer _ ⟨-, rfl⟩
  match answer with
  | .error error =>
    refine ⟨.going hended nofun (hfits _) fun _ => trivial, (hcount _ _).symm, ?_⟩
    refine .failed hopened (.inr rfl) rfl ?_
    rw [exists_concat]
    refine not_or.mpr ⟨hended, ?_⟩
    rintro ⟨outcome, heq⟩
    cases heq
  | .ok () =>
    refine ⟨.going hended ?_ (hfits _) fun _ => trivial, (hcount _ _).symm, ?_⟩
    · rintro outcome ⟨⟩
      exact h.count
    · refine .aborted rfl ?_
      rw [exists_concat]
      exact .inr ⟨_, rfl⟩

theorem ensures_abortCandidate (h : Intact past w) : w.abort.Ensures FairConditional
    (fun r calls => Keeps past op (.aborted r.1, r.2) calls) [] := by
  cases h.holding with
  | usable hstate hflags hbackend hcondition hfatal hended =>
    exact ensures_abortOpen h hstate hbackend hended
  | failed hstate hflags hbackend hended => exact ensures_abortOpen h hstate hbackend hended
  | aborted hstate hended =>
    have hclosed : w.state ≠ .opened := by
      rw [hstate]
      decide
    rw [LocalConditionalWriter.abort, if_pos hclosed]
    exact ⟨.refused rfl rfl, h.idle rfl (fun husable => absurd (.inl hclosed) husable)
      fun hopened => absurd hopened hclosed⟩

/-- A method of the backend has an answer, as long as there is an entry. -/
theorem exists_method_answer (entry : ConditionalEntry A) (c : Call A) :
    ∃ answer : Answer A c, conditionalView.fair ⟨.method c, answer⟩ := by
  have attempt : NativeAttempt A := ⟨.atomicRename, none, .notPublished, none, []⟩
  have hanswer : Nonempty (Answer A c) := by
    cases c with
    | candidate => exact ⟨entry⟩
    | openReader file => exact ⟨.ok ()⟩
    | publishAbsent => exact ⟨attempt⟩
    | publishContent => exact ⟨attempt⟩
    | rollback displaced => exact ⟨attempt⟩
    | takeRecoveryEntries => exact ⟨([] : List (ConditionalEntry A))⟩
    | takeCleanupErrors => exact ⟨([] : List LocalFileError)⟩
    | _ => exact ⟨.error ioFailed⟩
  obtain ⟨answer⟩ := hanswer
  exact ⟨answer, nofun⟩

variable [DecidableEq δ] {D : List UInt8 → δ}

/-- The outcome of a commit reports the count that it was given. -/
theorem commit_counts {precondition : LocalWritePrecondition δ} {options : LocalWriteOptions}
    {bytesWritten : UInt64} {currentDirectory : Option Path} {tr : Trace A}
    {outcome : LocalConditionalWriteOutcome A δ}
    (h : (commitConditionalWithDirectory D precondition options bytesWritten currentDirectory).Runs
      tr (.ok outcome)) : outcome.writeOutcome.bytesWritten = bytesWritten := by
  cases commit_ok_runs D h
  rfl

def IsMethod (c : ConditionalCall A) : Prop := ∃ own, c = .method own

/-- What a commit owes; it consumes the writer. -/
def CommitOwes (past : List (ConditionalExchange A)) (op : ConditionalOperation)
    (r : Except (LocalConditionalCommitError A) (LocalConditionalWriteOutcome A δ))
    (calls : ConditionalTrace A) : Prop :=
  Guarantee conditionalView ⟨op, calls, .committed (r.map (·.writeOutcome))⟩ past

theorem ensures_commitCandidate (h : Intact past w) : (w.commit D).Ensures FairConditional
    (fun r calls => CommitOwes past op r calls) [] := by
  by_cases hunusable : w.Unusable
  · rw [LocalConditionalWriter.commit, if_pos hunusable]
    -- a writer that cannot be used drops what it still holds
    cases h.holding with
    | usable hstate hflags =>
      rcases hunusable with hclosed | hwrite | habort
      · exact absurd hstate hclosed
      · exact absurd (hflags.1.symm.trans hwrite) Bool.false_ne_true
      · exact absurd (hflags.2.symm.trans habort) Bool.false_ne_true
    | failed hstate hflags hbackend hended =>
      rw [LocalConditionalWriter.drop, if_pos hstate, hbackend]
      refine ⟨⟨.error ioFailed, _, nofun, rfl⟩, ?_⟩
      rintro answer _ ⟨-, rfl⟩
      refine .going hended nofun ?_ fun _ => ?_
      · rintro ev hev n hn
        obtain rfl := List.mem_singleton.mp hev
        cases hn
      · exact List.forall_mem_singleton.mpr rfl
    | aborted hstate hended =>
      have hclosed : ¬ w.state = .opened := by
        rw [hstate]
        decide
      rw [LocalConditionalWriter.drop, if_neg hclosed]
      exact .refused rfl rfl
  · have hready := h.ready hunusable
    obtain ⟨⟨entry⟩, hbackend⟩ := hready.backend
    obtain ⟨condition, hcondition⟩ := hready.condition
    rw [LocalConditionalWriter.commit, if_neg hunusable, hbackend, hcondition]
    -- the commit proper makes methods only, none of which accepts bytes
    refine Prog.Makes.fairEnsures (P := IsMethod) ?_ ?_ fun tr r hrun hcalls => ?_
    · refine Prog.Makes.bind (Prog.makes_embed.mpr ?_) fun result => ?_
      · exact (Prog.makes_true _).mono fun c _ => ⟨c, rfl⟩
      · cases result <;> trivial
    · rintro _ ⟨c, rfl⟩
      exact exists_method_answer entry c
    · rw [List.nil_append]
      refine .going hready.ended ?_ ?_ fun hfatal => absurd hfatal hready.fatal
      · obtain ⟨tr₁, tr₂, result, rfl, hcommit, hend⟩ := Prog.runs_bind.mp hrun
        obtain ⟨own, hown⟩ := Prog.exists_runs_of_embed hcommit
        cases result with
        | error error =>
          obtain ⟨rfl, rfl⟩ := hend
          nofun
        | ok outcome =>
          obtain ⟨rfl, rfl⟩ := hend
          rintro _ ⟨⟩
          rw [commit_counts hown]
          exact h.count
      · intro ev hev n hn
        obtain ⟨c, hc⟩ := hcalls ev hev
        rw [hc] at hn
        cases hn

end Terminal

/-! ## 5. Sessions -/

section Runs

variable {A δ : Type} {past : List (ConditionalExchange A)} {w : LocalConditionalWriter A δ}

theorem intact_new (path : Path) (currentDirectory : Option Path)
    (backend : ConditionalWriterBackend A) (precondition : LocalWritePrecondition δ)
    (options : LocalWriteOptions) :
    Intact [] (LocalConditionalWriter.new path currentDirectory backend precondition options) := by
  refine ⟨rfl, .usable rfl ⟨rfl, rfl⟩ rfl rfl ?_ ?_⟩
  · rintro ⟨f, hf, -⟩
    cases hf
  · rintro ⟨f, hf, -⟩
    cases hf

/-- One step of a session: no operation panics, and each keeps its guarantee. -/
theorem operates_conditional [DecidableEq δ] (D : List UInt8 → δ) (h : Intact past w)
    (op : ConditionalOperation) :
    Operates (fun w op => LocalConditionalWriter.perform D w op) (conditionalView (A := A)).fair
      Intact (fun before e => Guarantee conditionalView e before) past w op := by
  have hkept {r : ConditionalReport A × LocalConditionalWriter A δ} {calls : ConditionalTrace A}
      (hr : Keeps past op r calls) : Guarantee conditionalView ⟨op, calls, r.1⟩ past ∧
        ∀ w', some r.2 = some w' → Intact (past ++ [⟨op, calls, r.1⟩]) w' := by
    refine ⟨hr.1, ?_⟩
    rintro w' ⟨⟩
    exact hr.2
  cases op with
  | write bytes => exact .bind ((ensures_write h bytes).mono fun r calls hr => hkept hr)
  | writeVectored slices =>
    exact .bind ((ensures_writeSlices h slices).mono fun r calls hr => hkept hr)
  | writeUnchecked input index count =>
    exact .bind ((ensures_writeUnchecked h input index count).mono fun r calls hr => hkept hr)
  | flush => exact .bind ((ensures_flushCandidate h).mono fun r calls hr => hkept hr)
  | abort => exact .bind ((ensures_abortCandidate h).mono fun r calls hr => hkept hr)
  | commit =>
    refine .bind ((ensures_commitCandidate (D := D) h).mono fun r calls hr => ⟨hr, ?_⟩)
    rintro w' ⟨⟩

/-- A session that no abort ended can still be aborted. -/
theorem Intact.abortable (h : Intact past w) (hended : ¬ ∃ f ∈ past, Ended f) :
    w.state = .opened ∧ ∃ backend, w.backend = some backend := by
  cases h.holding with
  | usable hstate _ hbackend => exact ⟨hstate, _, hbackend⟩
  | failed hstate _ hbackend => exact ⟨hstate, _, hbackend⟩
  | aborted _ habort => exact absurd habort hended

end Runs

/-! ## 6. Both writers -/

section Both

open Atomic

variable {I A δ : Type}

/-- What a session leaves of a file writer.  No operation of it panics, and it can be aborted
    unless it was. -/
structure FileWriterKept [DecidableEq I] (system : UnixTarget) (staging : Option String)
    (past : List (FileExchange I)) (w : LocalFileWriter I) : Prop where
  counted : w.bytesWritten.value.toNat = (fileView staging).total past
  honest : staging = none → ∀ state, w.failureState = some state →
    Honest state ((fileView staging).total past)
  abortable : (¬ ∃ f ∈ past, Ended f) → w.state = .opened ∧
    ∃ backend, w.backend = some backend ∧ backend.Armed staging
  safe : ∀ op, (w.perform system op).Ensures (FairCalls staging) (fun _ _ => True) []

structure ConditionalWriterKept [DecidableEq δ] (D : List UInt8 → δ)
    (past : List (ConditionalExchange A)) (w : LocalConditionalWriter A δ) : Prop where
  counted : w.bytesWritten.value.toNat = conditionalView.total past
  abortable : (¬ ∃ f ∈ past, Ended f) → w.state = .opened ∧ ∃ backend, w.backend = some backend
  safe : ∀ op, (w.perform D op).Ensures FairConditional (fun _ _ => True) []

/-- Sessions with either writer keep their guarantees, whatever the backend answers. -/
theorem sessions_kept [DecidableEq I] [DecidableEq δ] :
    (∀ (system : UnixTarget) (backend : LocalFileWriterBackend I) (path publicPath : Path)
      (options : LocalWriteOptions) (currentDirectory : Option Path)
      (past : List (FileExchange I)) (left : Option (LocalFileWriter I)), OpenedBackend backend →
      FileLifetime system backend.staging? ((LocalFileWriter.new path backend options).bindNamespace
        publicPath currentDirectory) past left →
      (∀ before e after, past = before ++ e :: after → FileGuarantee backend.staging? before e) ∧
        ∀ w, left = some w → FileWriterKept system backend.staging? past w) ∧
    (∀ (D : List UInt8 → δ) (backend : ConditionalWriterBackend A) (path : Path)
      (options : LocalWriteOptions) (currentDirectory : Option Path)
      (precondition : LocalWritePrecondition δ) (past : List (ConditionalExchange A))
      (left : Option (LocalConditionalWriter A δ)), ConditionalLifetime D
        (.new path currentDirectory backend precondition options) past left →
      (∀ before e after, past = before ++ e :: after → Guarantee conditionalView e before) ∧
        ∀ w, left = some w → ConditionalWriterKept D past w) := by
  constructor
  · intro system backend path publicPath options currentDirectory past left hopened h
    obtain ⟨hguarantee, hsound⟩ := h.spec
      (sound_new hopened path options publicPath currentDirectory)
      fun past w op hw => operates hw system op
    refine ⟨hguarantee, fun w hw => ?_⟩
    have hleft := hsound w hw
    exact ⟨hleft.count, hleft.honest, hleft.abortable,
      fun op => (operates hleft system op).mono fun _ _ _ => trivial⟩
  · intro D backend path options currentDirectory precondition past left h
    obtain ⟨hguarantee, hintact⟩ := h.spec
      (intact_new path currentDirectory backend precondition options)
      fun past w op hw => operates_conditional D hw op
    refine ⟨hguarantee, fun w hw => ?_⟩
    have hleft := hintact w hw
    exact ⟨hleft.count, hleft.abortable,
      fun op => (operates_conditional D hleft op).mono fun _ _ _ => trivial⟩

/-- An append session that accepted two of three bytes, failed to flush them and was aborted. -/
def failedAppend : List (FileExchange Nat) :=
  [] ++ [⟨.write [1, 2, 3], [⟨.inert (.write 0 [1, 2, 3]), .ok 2⟩], .stream (.ok 2)⟩] ++
    [⟨.flush, [⟨.inert (.flush 0), .error ioFailed⟩], .flushed (.error ioFailed)⟩] ++
    [⟨.abort, [⟨.inert (.flush 0), .ok ()⟩], .aborted (.ok {
      state := .aborted
      atomic := false
      publicationMethod := .directAppend
      durable := false
      bytesWritten := 2
      failureState := some .published })⟩]

def appended (state : LocalWriterState) (failureState : Option LocalWriteFailureState)
    (bytesWritten : UInt64) : LocalFileWriter Nat where
  path := ["log"]
  backend := some (.append 0)
  options := {}
  state := state
  bytesWritten := ⟨bytesWritten⟩
  failureState := failureState

theorem failedAppend_lifetime : FileLifetime .linux none (appended .opened none 0) failedAppend
    (some (appended .aborted (some .published) 2)) := by
  have hfair {c : Syscall String Nat (AtomicCall Nat)} {answer : c.Result AtomicCall.Result}
      (h : ∀ n, requestedBytes c = some n → acceptedBytes c answer ≤ n) :
      ∀ ev ∈ [(⟨c, answer⟩ : AtomicEvent Nat)], (fileView none).fair ev :=
    List.forall_mem_singleton.mpr h
  unfold failedAppend
  refine .operated (w := appended .opened (some .published) 2)
    (.operated (w := appended .opened none 2)
      (.operated (w := appended .opened none 0) .opened ?_ ?_) ?_ ?_) ?_ ?_
  · exact Prog.replay_runs rfl
  · exact hfair (by rintro _ ⟨⟩; decide)
  · exact Prog.replay_runs rfl
  · exact hfair nofun
  · exact Prog.replay_runs rfl
  · exact hfair nofun

/-- The aborted session reports its two bytes as published. -/
theorem sessions_kept_failedAppend :
    FileWriterKept .linux none failedAppend (appended .aborted (some .published) 2) ∧
      Honest .published ((fileView (I := Nat) none).total failedAppend) := by
  have hkept := ((@sessions_kept Nat Unit Nat _ _).1 .linux (.append 0) [] ["log"] {} none _ _
    (.append 0) failedAppend_lifetime).2 _ rfl
  exact ⟨hkept, hkept.honest rfl _ rfl⟩

end Both

end LocalFiles.Writer
