import LocalFiles.Contract
import LocalFiles.Conditional.Soundness
import LocalFiles.Writer.FileWriter

/-!
# Writer.ConditionalWriter — the writer of a candidate

`LocalConditionalWriter` writes a candidate and publishes it where the destination meets a
precondition.  Two flags stand where the file writer keeps a failure state: one for the stream,
one for the abort.
-/

namespace LocalFiles.Writer

open Interaction Conditional

/-! ## 1. The backend -/

/-- The stream of a backend and its abort, and the methods that a commit uses. -/
inductive ConditionalCall (A : Type) where
  | write (bytes : List UInt8)
  | writeVectored (slices : List (List UInt8))
  | writeUnchecked (input : List UInt8) (index count : Nat)
  | abort
  | method (c : Call A)
  | panic (message : String)

/-- A panic gets no answer. -/
def ConditionalCall.Result {A : Type} : ConditionalCall A → Type
  | .write _ => IoResult Nat
  | .writeVectored _ => IoResult Nat
  | .writeUnchecked _ _ _ => IoResult Nat
  | .abort => IoResult Unit
  | .method c => Answer A c
  | .panic _ => Empty

abbrev ConditionalM (A : Type) := Prog (ConditionalCall A) ConditionalCall.Result

abbrev ConditionalTrace (A : Type) := List (Event (ConditionalCall A) ConditionalCall.Result)

def panicConditional {A α : Type} (message : String) : ConditionalM A α :=
  .call (.panic message) Empty.elim

def callWrite {A : Type} (bytes : List UInt8) : ConditionalM A (IoResult Nat) :=
  Prog.request (ConditionalCall.write bytes)

def callWriteVectored {A : Type} (slices : List (List UInt8)) : ConditionalM A (IoResult Nat) :=
  Prog.request (ConditionalCall.writeVectored slices)

def callWriteUnchecked {A : Type} (input : List UInt8) (index count : Nat) :
    ConditionalM A (IoResult Nat) :=
  Prog.request (ConditionalCall.writeUnchecked input index count)

def callFlush {A : Type} : ConditionalM A (IoResult Unit) := Prog.request (ConditionalCall.method .flush)

def callAbort {A : Type} : ConditionalM A (IoResult Unit) := Prog.request ConditionalCall.abort

/-- A native backend with the entry of its candidate. -/
inductive ConditionalWriterBackend (A : Type) where
  | native (candidateEntry : ConditionalEntry A)

/-! ## 2. The writer -/

structure LocalConditionalWriter (A δ : Type) where
  path : Path
  currentDirectory : Option Path
  backend : Option (ConditionalWriterBackend A)
  precondition : Option (LocalWritePrecondition δ)
  options : LocalWriteOptions
  state : LocalWriterState := .opened
  bytesWritten : WriterByteCount := {}
  writeFailed : Bool := false
  abortFailed : Bool := false

namespace LocalConditionalCommitError

variable {A : Type} (error : LocalConditionalCommitError A)

def withFallbackPath (path : Path) : LocalConditionalCommitError A :=
  match error.error.path with
  | none => { error with error := error.error.withPath path }
  | some _ => error

def withFallbackCurrentDirectory (directory : Option Path) : LocalConditionalCommitError A :=
  match error.error.currentDirectory, directory with
  | none, some directory => { error with error := error.error.withCurrentDirectory directory }
  | _, _ => error

end LocalConditionalCommitError

namespace LocalConditionalWriter

variable {A δ : Type} (w : LocalConditionalWriter A δ)

def new (path : Path) (currentDirectory : Option Path) (backend : ConditionalWriterBackend A)
    (precondition : LocalWritePrecondition δ) (options : LocalWriteOptions) :
    LocalConditionalWriter A δ where
  path := path
  currentDirectory := currentDirectory
  backend := some backend
  precondition := some precondition
  options := options

def notWritable : IoError := ⟨.brokenPipe, "conditional writer is not writable", none⟩

/-- The condition under which `writable` and `commit` refuse the writer. -/
abbrev Unusable : Prop :=
  w.state ≠ .opened ∨ w.writeFailed = true ∨ w.abortFailed = true

def writable : IoResult Unit := if w.Unusable then .error notWritable else .ok ()

/-- The fatal errors of the stream disable the writer. -/
def observe (error : IoError) : LocalConditionalWriter A δ :=
  if error.kind = .interrupted ∨ error.kind = .wouldBlock then w else { w with writeFailed := true }

/-- `record_result`, and the flag of a failure -/
def recordResult (result : IoResult Nat) :
    ConditionalM A (IoResult Nat × LocalConditionalWriter A δ) :=
  match result with
  | .error error => pure (.error error, w.observe error)
  | .ok written =>
    match w.bytesWritten.recordWritten written with
    | .ok count => pure (.ok written, { w with bytesWritten := count })
    | .error message => panicConditional message

/-- `write_inner` with a single slice -/
def write (bytes : List UInt8) : ConditionalM A (IoResult Nat × LocalConditionalWriter A δ) :=
  match w.writable with
  | .error error => pure (.error error, w)
  | .ok () =>
    match w.bytesWritten.checkRequest bytes.length with
    | .error error => pure (.error error, w)
    | .ok () =>
      match w.backend with
      | none => panicConditional "open writer retains backend"
      | some _ => do w.recordResult (← callWrite bytes)

/-- `write_inner` of several slices -/
def writeVectored (slices : List (List UInt8)) :
    ConditionalM A (IoResult Nat × LocalConditionalWriter A δ) :=
  match w.writable with
  | .error error => pure (.error error, w)
  | .ok () =>
    match w.bytesWritten.checkVectoredRequest slices with
    | .error error => pure (.error error, w)
    | .ok () =>
      if slices.all List.isEmpty then pure (.ok 0, w)
      else
        match w.backend with
        | none => panicConditional "open writer retains backend"
        | some _ => do w.recordResult (← callWriteVectored slices)

def writeUnchecked (input : List UInt8) (index count : Nat) :
    ConditionalM A (IoResult Nat × LocalConditionalWriter A δ) :=
  match w.writable with
  | .error error => pure (.error error, w)
  | .ok () =>
    match w.bytesWritten.checkRequest count with
    | .error error => pure (.error error, w)
    | .ok () =>
      match w.backend with
      | none => panicConditional "open writer retains backend"
      | some _ => do w.recordResult (← callWriteUnchecked input index count)

def flush : ConditionalM A (IoResult Unit × LocalConditionalWriter A δ) :=
  match w.writable with
  | .error error => pure (.error error, w)
  | .ok () =>
    match w.backend with
    | none => panicConditional "open writer retains backend"
    | some _ => do
      match ← callFlush with
      | .ok () => pure (.ok (), w)
      | .error error => pure (.error error, w.observe error)

/-- The drop of an open writer aborts its backend as far as it can. -/
def drop : ConditionalM A Unit :=
  if w.state = .opened then
    match w.backend with
    | none => pure ()
    | some _ => do
      let _ ← callAbort
      pure ()
  else pure ()

def contextualizeError (error : LocalFileError) : LocalFileError :=
  match w.currentDirectory with
  | some directory => error.withCurrentDirectory directory
  | none => error

def abort : ConditionalM A (Except LocalFileError LocalWriteOutcome × LocalConditionalWriter A δ) :=
  if w.state ≠ .opened then
    pure (.error (w.contextualizeError
      ((LocalFileError.new .invalidState .abort).withPath w.path)), w)
  else
    match w.backend with
    | none => panicConditional "open writer retains backend"
    | some _ => do
      match ← callAbort with
      | .ok () =>
        pure (.ok {
            state := .aborted
            atomic := false
            publicationMethod := .atomicRename
            durable := false
            bytesWritten := w.bytesWritten.value
            failureState := none },
          { w with backend := none, precondition := none, state := .aborted })
      | .error error =>
        pure (.error (w.contextualizeError (.fromIo .abort (some w.path) none error)),
          { w with abortFailed := true })

variable [DecidableEq δ] (D : List UInt8 → δ)

def commit : ConditionalM A
    (Except (LocalConditionalCommitError A) (LocalConditionalWriteOutcome A δ)) :=
  if w.Unusable then do
    w.drop
    pure (.error (LocalConditionalCommitError.withFallbackCurrentDirectory
      { error := (LocalFileError.new .invalidState .commit).withPath w.path
        reason := .invalidState
        stage := .prepare
        publication := .notPublished
        recoveryFiles := [] } w.currentDirectory))
  else
    match w.backend, w.precondition with
    | none, _ => panicConditional "open conditional writer retains backend"
    | some _, none => panicConditional "open conditional writer retains precondition"
    | some _, some condition => do
      match ← (commitConditionalWithDirectory D condition w.options w.bytesWritten.value
          w.currentDirectory).embed ConditionalCall.method with
      | .ok outcome => pure (.ok outcome)
      | .error error =>
        pure (.error (LocalConditionalCommitError.withFallbackCurrentDirectory
          (LocalConditionalCommitError.withFallbackPath error w.path) w.currentDirectory))

end LocalConditionalWriter

end LocalFiles.Writer
