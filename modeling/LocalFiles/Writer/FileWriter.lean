import LocalFiles.Atomic.Writer

/-!
# Writer.FileWriter — the public writer over all its backends

`LocalFileWriter` writes to a staging file by path, to one relative to an opened root, or directly
to the end of an existing file.  Six entry points repeat its guards: three ways of writing, the
flush, the abort and the commit.
-/

namespace LocalFiles.Atomic

/-! ## 1. Errors -/

def LocalAtomicWriteStage.name : LocalAtomicWriteStage → String
  | .prepareParent => "PrepareParent"
  | .inspectDestination => "InspectDestination"
  | .createTemporaryFile => "CreateTemporaryFile"
  | .readDestinationMetadata => "ReadDestinationMetadata"
  | .applyDestinationMetadata => "ApplyDestinationMetadata"
  | .syncTemporaryFile => "SyncTemporaryFile"
  | .replaceDestination => "ReplaceDestination"
  | .cleanupTemporaryFile => "CleanupTemporaryFile"
  | .syncParent => "SyncParent"

def LocalAtomicDestinationState.name : LocalAtomicDestinationState → String
  | .unchanged => "Unchanged"
  | .replaced => "Replaced"
  | .missing => "Missing"
  | .indeterminate => "Indeterminate"

def LocalWriterState.name : LocalWriterState → String
  | .opened => "Open"
  | .committed => "Committed"
  | .aborted => "Aborted"

/-- The text of an error: what failed first, and what failed behind it. -/
def LocalAtomicWriteError.display (error : LocalAtomicWriteError) : String :=
  let failed := "atomic write to '" ++ "/".intercalate error.path ++ "' failed during " ++
    error.stage.name ++ " (destination_state=" ++ error.destinationState.name ++ "): " ++
    error.source.message
  let staging := match error.temporaryPath with
    | some path => "; staging path '" ++ "/".intercalate path ++ "'"
    | none => ""
  let behind := match error.cleanupError, error.parentSyncError with
    | some cleanup, some sync => "; staging cleanup also failed: " ++ cleanup.message ++
        "; parent synchronization also failed: " ++ sync.message
    | some cleanup, none => "; staging cleanup also failed: " ++ cleanup.message
    | none, some sync => "; parent synchronization also failed: " ++ sync.message
    | none, none => ""
  failed ++ staging ++ behind

/-- `io::Error::new(error.kind(), error)` -/
def LocalAtomicWriteError.intoIo (error : LocalAtomicWriteError) : IoError :=
  ⟨error.source.kind, error.display, none⟩

def writerIoError (path : Path) (operation : LocalFileOperation) (error : IoError) :
    LocalFileError := .fromIo operation (some path) none error

def atomicWriteError (path : Path) (operation : LocalFileOperation)
    (error : LocalAtomicWriteError) : LocalFileError := writerIoError path operation error.intoIo

def writerStateError (path : Path) (operation : LocalFileOperation) (state : LocalWriterState) :
    LocalFileError :=
  (LocalFileError.fromIo operation (some path) none
    ⟨.invalidInput, "local file writer cannot transition from " ++ LocalWriterState.name state,
      none⟩).withKind .invalidState

/-- `atomic_destination_state` -/
def failureStateOf : LocalAtomicDestinationState → LocalWriteFailureState
  | .unchanged | .missing => .notPublished
  | .replaced => .published
  | .indeterminate => .indeterminate

def publicationError (error : LocalFileError) : LocalWriteFailureState → LocalFileError
  | .notPublished => error
  | .published => error.withKind .publicationIncomplete
  | .indeterminate => error.withKind .indeterminate

def notOpen : IoError := ⟨.brokenPipe, "local file writer is not open", none⟩

def byteCountTooLarge : IoError :=
  ⟨.fileTooLarge, "cumulative writer byte count exceeds u64", none⟩

end LocalFiles.Atomic

namespace LocalFiles.Writer

open Interaction Atomic

/-! ## 2. Byte counts -/

/-- The values of `u64`, and of `usize` on the targets considered. -/
def wordSize : Nat := 2 ^ 64

/-- `WriterByteCount` -/
structure WriterByteCount where
  value : UInt64 := 0
  deriving DecidableEq, Repr

namespace WriterByteCount

variable (count : WriterByteCount)

/-- `u64::checked_add` -/
def checkedAdd (n : Nat) : Option WriterByteCount :=
  if count.value.toNat + n < wordSize then some ⟨UInt64.ofNat (count.value.toNat + n)⟩ else none

def checkRequest (requested : Nat) : IoResult Unit :=
  if wordSize ≤ requested then .error byteCountTooLarge
  else
    match count.checkedAdd requested with
    | some _ => .ok ()
    | none => .error byteCountTooLarge

/-- One step of `checked_total_len`: `usize::checked_add`. -/
def addLength (total length : Nat) : IoResult Nat :=
  if total + length < wordSize then .ok (total + length) else .error byteCountTooLarge

def checkedTotalLen (lengths : List Nat) : IoResult Nat := lengths.foldlM addLength 0

def checkVectoredRequest (buffers : List (List UInt8)) : IoResult Unit :=
  match checkedTotalLen (buffers.map List.length) with
  | .ok requested => count.checkRequest requested
  | .error error => .error error

/-- A failure is the text of a panic. -/
def recordWritten (written : Nat) : Except String WriterByteCount :=
  if wordSize ≤ written then .error "accepted write count fits u64"
  else
    match count.checkedAdd written with
    | some count => .ok count
    | none => .error "write request was checked before calling the backend"

variable {count count' : WriterByteCount} {n : Nat}

theorem checkedAdd_eq_some (h : count.checkedAdd n = some count') :
    count.value.toNat + n < wordSize ∧ count'.value.toNat = count.value.toNat + n := by
  unfold checkedAdd at h
  split at h
  next hfits =>
    cases h
    exact ⟨hfits, UInt64.toNat_ofNat_of_lt hfits⟩
  next => cases h

/-- A request that was checked fits into the count. -/
theorem fits_of_checkRequest (h : count.checkRequest n = .ok ()) :
    count.value.toNat + n < wordSize := by
  unfold checkRequest at h
  split at h
  next => cases h
  next =>
    split at h
    next count' hadd => exact (checkedAdd_eq_some hadd).1
    next => cases h

theorem checkRequest_of_fits (h : count.value.toNat + n < wordSize) :
    count.checkRequest n = .ok () := by
  have hn : ¬ wordSize ≤ n := by omega
  rw [checkRequest, if_neg hn, checkedAdd, if_pos h]

theorem foldlM_addLength {lengths : List Nat} {total requested : Nat}
    (h : lengths.foldlM addLength total = .ok requested) : requested = total + lengths.sum := by
  induction lengths generalizing total with
  | nil =>
    cases h
    rfl
  | cons length rest ih =>
    rw [List.foldlM_cons, addLength] at h
    split at h
    next => rw [ih h, List.sum_cons, Nat.add_assoc]
    next => cases h

theorem fits_of_checkVectoredRequest {buffers : List (List UInt8)}
    (h : count.checkVectoredRequest buffers = .ok ()) :
    count.value.toNat + buffers.flatten.length < wordSize := by
  unfold checkVectoredRequest at h
  split at h
  next requested htotal =>
    rw [checkedTotalLen] at htotal
    rw [List.length_flatten, ← Nat.zero_add (List.sum _), ← foldlM_addLength htotal]
    exact fits_of_checkRequest h
  next => cases h

/-- An accepted count that fits is recorded without a panic. -/
theorem recordWritten_of_fits (h : count.value.toNat + n < wordSize) :
    ∃ count', count.recordWritten n = .ok count' ∧ count'.value.toNat = count.value.toNat + n := by
  have hn : ¬ wordSize ≤ n := by omega
  refine ⟨⟨UInt64.ofNat (count.value.toNat + n)⟩, ?_, UInt64.toNat_ofNat_of_lt h⟩
  rw [recordWritten, if_neg hn, checkedAdd, if_pos h]

end WriterByteCount

/-! ## 3. Backends -/

inductive LocalFileWriterBackend (I : Type) where
  | staged (writer : UnixAtomicWriter I)
  | rooted (writer : UnixAtomicWriter I)
  | append (file : I)

namespace LocalFileWriterBackend

variable {I : Type}

def write (buffer : List UInt8) : LocalFileWriterBackend I → AtomicM I (IoResult Nat)
  | .staged writer => writer.write .host buffer
  | .rooted writer => writer.write .rooted buffer
  | .append file => writeFile file buffer

def writeVectored (buffers : List (List UInt8)) : LocalFileWriterBackend I → AtomicM I (IoResult Nat)
  | .staged writer => writer.writeVectored .host buffers
  | .rooted writer => writer.writeVectored .rooted buffers
  | .append file => writeFileVectored file buffers

def flush : LocalFileWriterBackend I → AtomicM I (IoResult Unit)
  | .staged writer => writer.flush .host
  | .rooted writer => writer.flush .rooted
  | .append file => flushFile file

variable [DecidableEq I]

/-- `commit_staged`; the error keeps the backend where another attempt is safe. -/
def commitStaged (system : UnixTarget) : LocalFileWriterBackend I →
    AtomicM I (Except (LocalAtomicWriteError × Option (LocalFileWriterBackend I))
      LocalCommitSyncOutcome)
  | .staged writer => do
    match ← writer.commitRecoverableWithSync .host system with
    | .ok outcome => pure (.ok outcome)
    | .error ⟨error, retained⟩ => pure (.error (error, retained.map .staged))
  | .rooted writer => do
    match ← writer.commitRecoverableWithSync .rooted system with
    | .ok outcome => pure (.ok outcome)
    | .error ⟨error, retained⟩ => pure (.error (error, retained.map .rooted))
  | .append _ => panic "direct append does not support staged commit"

def abortStaged : LocalFileWriterBackend I →
    AtomicM I (Except LocalAtomicWriteError Unit × LocalFileWriterBackend I)
  | .staged writer => do
    let (result, writer) ← writer.abort .host
    pure (result, .staged writer)
  | .rooted writer => do
    let (result, writer) ← writer.abort .rooted
    pure (result, .rooted writer)
  | .append _ => panic "direct append does not support staged abort"

/-- A staging guard cleans up when it is dropped, an appended file is closed. -/
def drop : LocalFileWriterBackend I → AtomicM I Unit
  | .staged writer => writer.dropWriter .host
  | .rooted writer => writer.dropWriter .rooted
  | .append _ => pure ()

end LocalFileWriterBackend

/-! ## 4. The writer -/

structure LocalFileWriter (I : Type) where
  path : Path
  currentDirectory : Option Path := none
  backend : Option (LocalFileWriterBackend I)
  options : LocalWriteOptions
  state : LocalWriterState := .opened
  bytesWritten : WriterByteCount := {}
  failureState : Option LocalWriteFailureState := none

/-- `LocalFileCommitError` -/
structure LocalFileCommitError (I : Type) where
  error : LocalFileError
  failureState : LocalWriteFailureState
  writer : Option (LocalFileWriter I)

namespace LocalFileWriter

variable {I : Type} (w : LocalFileWriter I)

def new (path : Path) (backend : LocalFileWriterBackend I) (options : LocalWriteOptions) :
    LocalFileWriter I where
  path := path
  backend := some backend
  options := options

def bindNamespace (path : Path) (currentDirectory : Option Path) : LocalFileWriter I :=
  { w with path := path, currentDirectory := currentDirectory }

def contextualizeError (error : LocalFileError) : LocalFileError :=
  match w.currentDirectory with
  | some directory => error.withCurrentDirectory directory
  | none => error

/-- Bytes that were appended stay published, staged ones have not reached the destination. -/
def observeStreamResult {α : Type} (result : IoResult α) : LocalFileWriter I :=
  match result with
  | .ok _ => w
  | .error error =>
    if error.kind = .interrupted ∨ error.kind = .wouldBlock then w
    else
      { w with failureState := some (match w.backend with
          | some (.append _) => if 0 < w.bytesWritten.value then .published else .notPublished
          | _ => .notPublished) }

/-- `observe_stream_result` and then `record_result` -/
def settleWrite (result : IoResult Nat) : AtomicM I (IoResult Nat × LocalFileWriter I) :=
  let observed := w.observeStreamResult result
  match result with
  | .error error => pure (.error error, observed)
  | .ok written =>
    match observed.bytesWritten.recordWritten written with
    | .ok count => pure (.ok written, { observed with bytesWritten := count })
    | .error message => panic message

theorem observeStreamResult_backend {α : Type} (result : IoResult α) :
    (w.observeStreamResult result).backend = w.backend := by
  unfold observeStreamResult
  split
  · rfl
  · split <;> rfl

/-- Bytes that fit into the count are recorded without a panic. -/
theorem settleWrite_of_fits {written : Nat}
    (h : w.bytesWritten.value.toNat + written < wordSize) :
    ∃ count, w.settleWrite (.ok written) = pure (.ok written, { w with bytesWritten := count }) ∧
      count.value.toNat = w.bytesWritten.value.toNat + written := by
  obtain ⟨count, hrecorded, hcount⟩ := WriterByteCount.recordWritten_of_fits h
  refine ⟨count, ?_, hcount⟩
  unfold settleWrite
  dsimp only
  rw [show (w.observeStreamResult (.ok written)).bytesWritten.recordWritten written = .ok count
    from hrecorded]
  rfl

def writeOnce (buffer : List UInt8) : AtomicM I (IoResult Nat × LocalFileWriter I) :=
  if w.state ≠ .opened ∨ w.failureState.isSome then pure (.error notOpen, w)
  else
    match w.bytesWritten.checkRequest buffer.length with
    | .error error => pure (.error error, w)
    | .ok () =>
      match w.backend with
      | none => panic "open writer must retain one backend"
      | some backend => do w.settleWrite (← backend.write buffer)

/-- `Output::write_vectored` -/
def writeVectored (buffers : List (List UInt8)) : AtomicM I (IoResult Nat × LocalFileWriter I) :=
  if w.state ≠ .opened ∨ w.failureState.isSome then pure (.error notOpen, w)
  else
    match w.bytesWritten.checkVectoredRequest buffers with
    | .error error => pure (.error error, w)
    | .ok () =>
      match w.backend with
      | none => panic "open writer must retain one backend"
      | some backend => do w.settleWrite (← backend.writeVectored buffers)

/-- The inherent `write_vectored`; `reserved` is the result of reserving the slice descriptors. -/
def writeIoSlices (reserved : IoResult Unit) (buffers : List (List UInt8)) :
    AtomicM I (IoResult Nat × LocalFileWriter I) :=
  if w.state ≠ .opened ∨ w.failureState.isSome then pure (.error notOpen, w)
  else
    match reserved with
    | .error error => pure (.error error, w)
    | .ok () => w.writeVectored buffers

def flush : AtomicM I (IoResult Unit × LocalFileWriter I) :=
  if w.state ≠ .opened ∨ w.failureState.isSome then pure (.error notOpen, w)
  else
    match w.backend with
    | none => panic "open writer must retain one backend"
    | some backend => do
      let result ← backend.flush
      pure (result, w.observeStreamResult result)

/-- `LocalWriteOutcome::new` with the state and the count of the writer -/
def outcome (atomic : Bool) (method : LocalWritePublicationMethod) (durable fileSynced : Bool) :
    LocalWriteOutcome where
  state := w.state
  atomic := atomic
  publicationMethod := method
  durable := durable
  fileSynced := fileSynced
  bytesWritten := w.bytesWritten.value
  failureState := w.failureState

def commitError (error : LocalFileError) (state : LocalWriteFailureState)
    (writer : Option (LocalFileWriter I)) : LocalFileCommitError I :=
  ⟨w.contextualizeError (publicationError error state), state, writer⟩

/-- The synchronization of an append session: whether the commit is durable, and whether the file
    was synchronized. -/
def syncAppended (file : I) : AtomicM I (Except (LocalFileCommitError I) (Bool × Bool)) :=
  match stagingRequirement w.options.durability w.options.fileSync with
  | .notRequired => pure (.ok (false, false))
  | .preferred => do
    let synced := (← syncFile file).toBool
    pure (.ok (w.options.durability = .preferred && synced, synced))
  | .required => do
    match ← syncFile file with
    | .ok () => pure (.ok (w.options.durability ≠ .notRequired, true))
    | .error error =>
      let state := if w.bytesWritten.value = 0 then .notPublished else .published
      pure (.error (w.commitError (writerIoError w.path .commit error) state none))

def commitAppended (file : I) : AtomicM I (Except (LocalFileCommitError I) LocalWriteOutcome) := do
  match ← flushFile file with
  | .error error =>
    pure (.error (w.commitError (writerIoError w.path .commit error) .indeterminate none))
  | .ok () => do
    match ← w.syncAppended file with
    | .error error => pure (.error error)
    | .ok (durable, fileSynced) =>
      pure (.ok ({ w with state := .committed }.outcome false .directAppend durable fileSynced))

/-- The abort of an append session: what was written stays. -/
def abortAppended (file : I) :
    AtomicM I (Except LocalFileError LocalWriteOutcome × LocalFileWriter I) := do
  match ← flushFile file with
  | .error error => pure (.error (w.contextualizeError (writerIoError w.path .abort error)), w)
  | .ok () =>
    let written := if 0 < w.bytesWritten.value then some LocalWriteFailureState.published else none
    let aborted := { w with state := .aborted, failureState := w.failureState.or written }
    pure (.ok (aborted.outcome false .directAppend false false), aborted)

variable [DecidableEq I]

def drop : AtomicM I Unit :=
  match w.backend with
  | none => pure ()
  | some backend => backend.drop

def commitStagedBackend (system : UnixTarget) (backend : LocalFileWriterBackend I) :
    AtomicM I (Except (LocalFileCommitError I) LocalWriteOutcome) := do
  match ← backend.commitStaged system with
  | .ok sync =>
    pure (.ok ({ w with state := .committed }.outcome true .atomicRename sync.durable
      sync.fileSynced))
  | .error (error, retained) =>
    pure (.error (w.commitError (atomicWriteError w.path .commit error)
      (failureStateOf error.destinationState)
      (retained.map fun backend => { w with backend := some backend })))

def commit (system : UnixTarget) :
    AtomicM I (Except (LocalFileCommitError I) LocalWriteOutcome) :=
  if w.state ≠ .opened ∨ w.failureState.isSome then do
    w.drop
    pure (.error (w.commitError (writerStateError w.path .commit w.state)
      (w.failureState.getD .notPublished) none))
  else
    match w.backend with
    | none => panic "open writer must retain one backend"
    | some (.append file) => w.commitAppended file
    | some backend => w.commitStagedBackend system backend

def abortStagedBackend (backend : LocalFileWriterBackend I) :
    AtomicM I (Except LocalFileError LocalWriteOutcome × LocalFileWriter I) := do
  match ← backend.abortStaged with
  | (.error error, backend) =>
    pure (.error (w.contextualizeError (atomicWriteError w.path .abort error)),
      { w with backend := some backend
               failureState := some (w.failureState.getD .notPublished) })
  | (.ok (), backend) =>
    let aborted := { w with backend := some backend, state := .aborted }
    pure (.ok (aborted.outcome false .atomicRename false false), aborted)

def abort : AtomicM I (Except LocalFileError LocalWriteOutcome × LocalFileWriter I) :=
  if w.state ≠ .opened then
    pure (.error (w.contextualizeError (writerStateError w.path .abort w.state)), w)
  else
    match w.backend with
    | none => panic "open writer must retain one backend"
    | some (.append file) => w.abortAppended file
    | some backend => w.abortStagedBackend backend

end LocalFileWriter

end LocalFiles.Writer
