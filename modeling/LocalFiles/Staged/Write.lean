import LocalFiles.CopyBudget
import LocalFiles.Private.Temp
import LocalFiles.Writer.FileWriter

/-!
# Staged.Write — new files below a stage

`write_file_new` copies an input of at most `maximum` bytes into a file that is new.  An ordinary
stage writes beside the name and installs the file at the end; a private stage and one with an
owner policy create the file under its name and remove it when something fails.
-/

namespace LocalFiles.Staged

open Interaction Atomic
open Private (EntryCall EntryM OwningError LocalTempRecovery LocalFileObservation TempResult fail
  NativePrivateEntry NativePrivateCreateError LocalOwnerAccessPolicy createPrivateFileAt
  createOwnerEntryAt queryObservation tryClone)
open Writer (LocalFileWriter LocalFileCommitError)

/-! ## 1. Calls -/

/-- The steps around the two routes: how the path is checked, how the directory is opened that
    contains the file, and how the stage takes note of it. -/
inductive StageStep where
  | checked | resolveWriter | validateDirectInput | ensureOwnerParentDirectories | openParent
  | rootAuthority | recordEntry
  deriving DecidableEq, Repr

inductive StageCall (I : Type) where
  | read (capacity : Nat)
  | writer (c : Syscall String I (AtomicCall I))
  | entry (c : EntryCall I)
  | step (s : StageStep)
  | observeEntry
  deriving DecidableEq, Repr

def StageCall.Result {I : Type} : StageCall I → Type
  | .read _ => IoResult (List UInt8)
  | .writer c => Syscall.Result AtomicCall.Result c
  | .entry c => c.Result
  | .step _ => Except LocalFileError Unit
  | .observeEntry => Except LocalFileError (LocalFileObservation I)

abbrev StageM (I : Type) := Prog (StageCall I) StageCall.Result

section Calls

variable {I α : Type}

def stageCall (c : StageCall I) : StageM I c.Result := Prog.request c
def readInput (capacity : Nat) : StageM I (IoResult (List UInt8)) := stageCall (.read capacity)
def stageStep (s : StageStep) : StageM I (Except LocalFileError Unit) := stageCall (.step s)
def observeNewEntry : StageM I (Except LocalFileError (LocalFileObservation I)) :=
  stageCall .observeEntry
def onWriter (p : AtomicM I α) : StageM I α := Prog.embed StageCall.writer p
def onEntry (p : EntryM I α) : StageM I α := Prog.embed StageCall.entry p

end Calls

/-! ## 2. The copy of the input -/

/-- What the two routes do differently with a block, and how they name their failures.  `σ` is the
    state of the writer. -/
structure BlockWriter (I σ : Type) where
  write : σ → List UInt8 → StageM I (IoResult Nat × σ)
  readFailed : IoError → LocalFileError
  writeFailed : IoError → LocalFileError
  acceptedNothing : LocalFileError
  tooLong : LocalFileError

/-- How a copy ends; without an error it is longer than the bound considered. -/
abbrev CopyEnd := Except (Option LocalFileError) Unit

def blockSize : Nat := 8192

namespace BlockWriter

variable {I σ : Type} (writer : BlockWriter I σ)

/-- The inner loop: a block is written until all of it is accepted. -/
def writeBlock : Nat → σ → List UInt8 → StageM I (CopyEnd × σ)
  | 0, state, _ => pure (.error none, state)
  | bound + 1, state, bytes =>
    if bytes = [] then pure (.ok (), state)
    else do
      match ← writer.write state bytes with
      | (.error error, state) =>
        if error.kind = .interrupted then writeBlock bound state bytes
        else pure (.error (some (writer.writeFailed error)), state)
      | (.ok 0, state) => pure (.error (some writer.acceptedNothing), state)
      | (.ok written, state) => writeBlock bound state (bytes.drop written)

/-- `total.checked_add(count)`, and the comparison with the maximum. -/
def addCount (maximum : UInt64) (total count : Nat) : Except LocalFileError Nat :=
  if 2 ^ 64 ≤ total + count then .error writer.tooLong
  else if maximum.toNat < total + count then .error writer.tooLong
  else .ok (total + count)

/-- The outer loop; `writes` bounds the inner one. -/
def copyInput (maximum : UInt64) (writes : Nat) : Nat → Nat → σ → StageM I (CopyEnd × σ)
  | 0, _, state => pure (.error none, state)
  | bound + 1, total, state => do
    match ← readInput blockSize with
    | .error error =>
      if error.kind = .interrupted then copyInput maximum writes bound total state
      else pure (.error (some (writer.readFailed error)), state)
    | .ok [] => pure (.ok (), state)
    | .ok block =>
      match writer.addCount maximum total block.length with
      | .error error => pure (.error (some error), state)
      | .ok total => do
        match ← writer.writeBlock writes state block with
        | (.error exit, state) => pure (.error exit, state)
        | (.ok (), state) => copyInput maximum writes bound total state

end BlockWriter

/-- `resource_limit` -/
def resourceLimit : LocalFileError := .new .resourceLimit .read

/-! ## 3. The ordinary route -/

/-- Only what the two routes read of a stage. -/
structure LocalStagedDirectory where
  diagnosticPath : Path
  isPrivate : Bool
  ownerAccessPolicy : Option LocalOwnerAccessPolicy
  deriving DecidableEq, Repr

section Ordinary

variable {I : Type}

def blocksToWriter (path : Path) : BlockWriter I (LocalFileWriter I) where
  write writer bytes := onWriter (writer.writeOnce bytes)
  readFailed error := .fromIo .read (some path) none error
  writeFailed error := .fromIo .commit (some path) none error
  acceptedNothing := (LocalFileError.new .dataCorruption .commit).withPath path
  tooLong := resourceLimit.withPath path

/-- `LocalWriteOptions::new(CreateNew)`; a staged writer meets the atomicity that is required. -/
def createNewOptions : LocalWriteOptions where
  mode := .createNew
  fileSync := .notRequired

/-- The options that `open_writer_with_options` builds for a staged backend. -/
def atomicOptions (options : LocalWriteOptions) : LocalAtomicWriteOptions where
  durability := options.durability
  fileSync := options.fileSync
  metadataPolicy := options.metadataPolicy
  publicationMode := if options.mode = .createNew then .createNew else .replaceOrCreate

variable [DecidableEq I]

def abortFailedStageWrite (writer : LocalFileWriter I) (cause : LocalFileError) :
    AtomicM I (OwningError I × LocalFileWriter I) := do
  match ← writer.abort with
  | (.ok _, writer) => pure (.of cause, writer)
  | (.error cleanup, writer) =>
    pure ((OwningError.of cause).withAdditionalCleanupError cleanup, writer)

/-- The writer is dropped when the function returns. -/
def failAborted (writer : LocalFileWriter I) (cause : LocalFileError) :
    AtomicM I (OwningError I) := do
  let (error, writer) ← abortFailedStageWrite writer cause
  writer.drop
  pure error

def abortFailedStageCommit (error : LocalFileCommitError I) : AtomicM I (OwningError I) :=
  match error.writer with
  | some retry => failAborted retry error.error
  | none => pure (.of error.error)

/-- `open_writer_with_options` behind the resolution of the path. -/
def openWriter (path parent : Path) (name : String) (bound : Nat) :
    AtomicM I (TempResult I (LocalFileWriter I)) := do
  match ← UnixAtomicWriter.new .rooted (atomicOptions createNewOptions) false path parent name []
      bound with
  | none => pure (.error .unfinished)
  | some (.error error) =>
    pure (fail (.of (.fromIo .openWriter (some path) none error.intoIo)))
  | some (.ok backend) => pure (.ok (.new path (.rooted backend) createNewOptions))

/-- From the writer to the file under its name. -/
def fillAndCommit (system : UnixTarget) (path : Path) (maximum : UInt64) (bound : Nat)
    (writer : LocalFileWriter I) : StageM I (TempResult I Unit) := do
  match ← (blocksToWriter path).copyInput maximum bound bound 0 writer with
  | (.error none, _) => pure (.error .unfinished)
  | (.error (some cause), writer) => do pure (fail (← onWriter (failAborted writer cause)))
  | (.ok (), writer) => do
    match ← onWriter (writer.commit system) with
    | .ok _ => pure (.ok ())
    | .error error => do pure (fail (← onWriter (abortFailedStageCommit error)))

def observeNew : StageM I (TempResult I (LocalFileObservation I)) := do
  match ← observeNewEntry with
  | .error error => pure (fail (.of error))
  | .ok observation => pure (.ok observation)

/-- The first branch of `write_file_new`. -/
def writeOrdinaryFileNew (system : UnixTarget) (relative : Path) (name : String) (maximum : UInt64)
    (bound : Nat) : StageM I (TempResult I (LocalFileObservation I)) := do
  match ← stageStep .resolveWriter with
  | .error error => pure (fail (.of error))
  | .ok () =>
    (onWriter (openWriter relative relative.dropLast name bound)).andThen fun writer =>
      (fillAndCommit system relative maximum bound writer).andThen fun _ => observeNew

/-! ## 4. The private route -/

def writeZero : IoError := ⟨.writeZero, "failed to write whole buffer", none⟩

def writeToFile (file : I) (bytes : List UInt8) : StageM I (IoResult Nat) :=
  onWriter (writeFile file bytes)

def blocksToFile (path : Path) (file : I) : BlockWriter I Unit where
  write state bytes := do pure (← writeToFile file bytes, state)
  readFailed error := .fromIo .read (some path) none error
  writeFailed error := .fromIo .commit (some path) none error
  acceptedNothing := .fromIo .commit (some path) none writeZero
  tooLong := resourceLimit

/-- `create_stage_file` -/
def createStageFile (system : UnixTarget) (parent : I) (name : String)
    (policy : Option LocalOwnerAccessPolicy) :
    EntryM I (Except (NativePrivateCreateError I) I) :=
  match policy with
  | some policy => createOwnerEntryAt system parent name false policy
  | none => createPrivateFileAt parent name

/-- The error of a failed creation takes over what was created. -/
def stageFileError (path : Path) (error : NativePrivateCreateError I) : OwningError I :=
  let cause : OwningError I := .of (.fromIo .openWriter (some path) none error.source)
  match error.retained with
  | some entry => cause.withTempRecovery (.fromNative path entry)
  | none => cause

def cleanupPartialPrivateFile (cause : LocalFileError) (parent : I) (name : String) (file : I)
    (identity : Option I) (path : Path) : EntryM I (OwningError I) := do
  match ← (LocalTempRecovery.fromNative path ⟨parent, name, some file, identity, false⟩).cleanup with
  | (.ok (), _) => pure (.of cause)
  | (.error cleanup, recovery) =>
    pure (((OwningError.of cause).withAdditionalCleanupError cleanup).withTempRecovery recovery)

/-- The identity of the file that was created: the first observation. -/
def observeCreated (path : Path) (file : I) : EntryM I (Except LocalFileError I) := do
  match ← queryObservation file .required with
  | .error error => pure (.error error)
  | .ok observation =>
    match observation.identity with
    | none => pure (.error ((LocalFileError.new .requirementNotMet .metadata).withPath path))
    | some identity => pure (.ok identity)

/-- The file with its identity is filled, and removed when that fails. -/
def fillCreated (path : Path) (parent : I) (name : String) (file identity : I) (maximum : UInt64)
    (bound : Nat) : StageM I (TempResult I (LocalFileObservation I)) := do
  match ← (blocksToFile path file).copyInput maximum bound bound 0 () with
  | (.error none, _) => pure (.error .unfinished)
  | (.error (some cause), _) => do
    pure (fail (← onEntry (cleanupPartialPrivateFile cause parent name file (some identity) path)))
  | (.ok (), _) => do
    match ← onEntry (queryObservation file .required) with
    | .error error => pure (fail (.of error))
    | .ok observation => pure (.ok observation)

/-- `write_private_file_new` behind the opening of the parent. -/
def writeCreatedFile (stage : LocalStagedDirectory) (system : UnixTarget) (path : Path)
    (parent : I) (name : String) (maximum : UInt64) (bound : Nat) :
    StageM I (TempResult I (LocalFileObservation I)) := do
  match ← onEntry (tryClone parent) with
  | .error error => pure (fail (.of (.fromIo .openWriter (some path.dropLast) none error)))
  | .ok () =>
  match ← onEntry (createStageFile system parent name stage.ownerAccessPolicy) with
  | .error error => pure (fail (stageFileError path error))
  | .ok file =>
  match ← onEntry (observeCreated path file) with
  | .error cause => do
    pure (fail (← onEntry (cleanupPartialPrivateFile cause parent name file none path)))
  | .ok identity => fillCreated path parent name file identity maximum bound

/-- `write_private_file_new` -/
def writePrivateFileNew (stage : LocalStagedDirectory) (system : UnixTarget) (relative : Path)
    (parent : I) (name : String) (maximum : UInt64) (bound : Nat) :
    StageM I (TempResult I (LocalFileObservation I)) := do
  match ← stageStep .validateDirectInput with
  | .error error => pure (fail (.of error))
  | .ok () =>
  match ← (if stage.ownerAccessPolicy.isSome ∧ relative.dropLast ≠ [] then
      stageStep .ensureOwnerParentDirectories else pure (.ok ())) with
  | .error error => pure (fail (.of error))
  | .ok () =>
  match ← (if relative.dropLast ≠ [] then stageStep .openParent else pure (.ok ())) with
  | .error error => pure (fail (.of error))
  | .ok () =>
  match ← stageStep .rootAuthority with
  | .error error => pure (fail (.of error))
  | .ok () =>
    writeCreatedFile stage system (stage.diagnosticPath ++ relative) parent name maximum bound

/-! ## 5. `write_file_new` -/

/-- `relative` is the checked path, `parent` the directory it leads into, and `name` the last
    component. -/
def LocalStagedDirectory.writeFileNew (stage : LocalStagedDirectory) (system : UnixTarget)
    (above : Path) (name : String) (parent : I) (maximum : UInt64) (bound : Nat) :
    StageM I (TempResult I (LocalFileObservation I)) := do
  match ← stageStep .checked with
  | .error error => pure (fail (.of error))
  | .ok () =>
    let relative := above ++ [name]
    (if stage.isPrivate ∨ stage.ownerAccessPolicy.isSome then
      writePrivateFileNew stage system relative parent name maximum bound
    else writeOrdinaryFileNew system relative name maximum bound).andThen fun observation => do
      match observation.identity with
      | none => pure (fail (.of (.new .unsupported .metadata)))
      | some _ => do
        match ← stageStep .recordEntry with
        | .error error => pure (fail (.of error))
        | .ok () => pure (.ok observation)

end Ordinary

end LocalFiles.Staged
