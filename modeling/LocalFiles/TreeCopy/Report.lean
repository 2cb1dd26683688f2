import LocalFiles.Atomic.Install
import LocalFiles.CopyBudget

/-!
# Report — what a copy counts, and what it says about the destination when it fails

Both copy pipelines count what they have done and end a failed copy with the stage it failed in.
The public state of the destination is inferred from that stage, the counters and, where a step
knew more, its own hint.
-/

namespace LocalFiles.TreeCopy

open Atomic

/-! ## 1. Policies -/

inductive LocalCopyConflictPolicy where
  | fail | overwrite | skip
  deriving DecidableEq, Repr

inductive LocalCopyTypeConflictPolicy where
  | fail | replace | skip
  deriving DecidableEq, Repr

inductive CopyDestinationAction where
  | create | merge | replace | skip
  deriving DecidableEq, Repr

/-- The kind of the destination is `none` where nothing is there. -/
def decideCopyDestination (sourceIsDirectory : Bool) (destinationIsDirectory : Option Bool)
    (conflict : LocalCopyConflictPolicy) (typeConflict : LocalCopyTypeConflictPolicy) :
    Option CopyDestinationAction :=
  match destinationIsDirectory with
  | none => some .create
  | some destinationIsDirectory =>
    if sourceIsDirectory && destinationIsDirectory then some .merge
    else if sourceIsDirectory != destinationIsDirectory then
      match typeConflict with
      | .fail => none
      | .replace => some .replace
      | .skip => some .skip
    else
      match conflict with
      | .fail => none
      | .overwrite => some .replace
      | .skip => some .skip

/-- An entry of another kind is replaced under one policy, one of the same kind under another. -/
theorem decideCopyDestination_replace {sourceIsDirectory destinationIsDirectory : Bool}
    {conflict : LocalCopyConflictPolicy} {typeConflict : LocalCopyTypeConflictPolicy} :
    decideCopyDestination sourceIsDirectory (some destinationIsDirectory) conflict typeConflict =
        some .replace ↔
      if sourceIsDirectory then destinationIsDirectory = false ∧ typeConflict = .replace
      else if destinationIsDirectory then typeConflict = .replace else conflict = .overwrite := by
  cases sourceIsDirectory <;> cases destinationIsDirectory <;> cases conflict <;>
    cases typeConflict <;> decide

structure LocalCopyDirOptions where
  conflict : LocalCopyConflictPolicy := .fail
  typeConflict : LocalCopyTypeConflictPolicy := .fail
  symlinkPolicy : LocalSymlinkPolicy := .reject
  preservePermissions : Bool := false
  openRetryTimeout : Option Nat := none
  durability : LocalDurabilityRequirement := .notRequired
  maxDepth : Option Nat := none
  maxEntries : Option Nat := none
  maxBytes : Option UInt64 := none
  maxOpenDirectories : Option Nat := none
  deadline : Option Nat := none
  startedAt : Option Nat := none
  deriving DecidableEq, Repr

/-! ## 2. Statistics -/

inductive CopyMetadataEffect where
  | none | applied | indeterminate
  deriving DecidableEq, Repr

/-- The counters are `u64`s. -/
structure LocalCopyDirStats where
  files : Nat := 0
  directories : Nat := 0
  bytes : Nat := 0
  skipped : Nat := 0
  overwritten : Nat := 0
  nonAtomicPublication : Bool := false
  filesDurable : Bool := true
  metadataEffect : CopyMetadataEffect := .none
  deriving DecidableEq, Repr

/-- `u64::checked_add` -/
def checkedAdd (a b : Nat) : Option Nat := if a + b ≤ u64Max then some (a + b) else none

/-- One of the counters, under the name its overflow is reported by. -/
structure Counter where
  field : String
  value : LocalCopyDirStats → Nat
  update : LocalCopyDirStats → Nat → LocalCopyDirStats

def statisticsOverflowError (field : String) : CopyError :=
  .io ⟨.invalidData, "recursive-copy " ++ field ++ " statistics overflow", none⟩

def Counter.increment (counter : Counter) (stats : LocalCopyDirStats) :
    Except CopyError LocalCopyDirStats :=
  match checkedAdd (counter.value stats) 1 with
  | some value => .ok (counter.update stats value)
  | none => .error (statisticsOverflowError counter.field)

def recordCreatedDirectory : LocalCopyDirStats → Except CopyError LocalCopyDirStats :=
  Counter.increment ⟨"directories", (·.directories), fun stats n => { stats with directories := n }⟩

def recordSkippedFile : LocalCopyDirStats → Except CopyError LocalCopyDirStats :=
  Counter.increment ⟨"skipped", (·.skipped), fun stats n => { stats with skipped := n }⟩

def recordOverwrittenEntry : LocalCopyDirStats → Except CopyError LocalCopyDirStats :=
  Counter.increment ⟨"overwritten", (·.overwritten), fun stats n => { stats with overwritten := n }⟩

/-- Both counters change or none does. -/
def recordCopiedFile (bytes : Nat) (stats : LocalCopyDirStats) :
    Except CopyError LocalCopyDirStats :=
  match checkedAdd stats.files 1 with
  | none => .error (statisticsOverflowError "files")
  | some files =>
    match checkedAdd stats.bytes bytes with
    | none => .error (statisticsOverflowError "bytes")
    | some total => .ok { stats with files := files, bytes := total }

theorem checkedAdd_eq_some {a b sum : Nat} (h : checkedAdd a b = some sum) : sum = a + b := by
  unfold checkedAdd at h
  split at h
  · exact (Option.some.inj h).symm
  · cases h

inductive LocalCopyDirStage where
  | inspectSource | inspectSourceEntry | readSourceDirectory | prepareDestination
  | copyFileContents | preservePermissions | synchronizeFile | commitFile
  | publishSymlinkUnchanged | publishSymlinkPartially | publishSymlinkIndeterminate
  | cleanupTemporaryFile | updateStatistics
  deriving DecidableEq, Repr

inductive LocalCopyFailureState where
  | unchanged | partiallyPublished | published | indeterminate
  deriving DecidableEq, Repr

structure LocalCopyDirError where
  stage : LocalCopyDirStage
  sourcePath : Path
  destinationPath : Path
  stats : LocalCopyDirStats
  error : CopyError
  temporaryPath : Option Path := none
  cleanupError : Option IoError := none
  failureState : Option LocalCopyFailureState := none
  atomicDestinationState : Option LocalAtomicDestinationState := none
  deriving DecidableEq, Repr

namespace LocalCopyDirError

variable (failure : LocalCopyDirError)

def withStagingContext (temporaryPath : Path) (cleanupError : Option IoError) : LocalCopyDirError :=
  { failure with temporaryPath := some temporaryPath, cleanupError := cleanupError }

def withFailureState (state : LocalCopyFailureState) : LocalCopyDirError :=
  { failure with failureState := some state }

def withAtomicDestinationState (state : LocalAtomicDestinationState) : LocalCopyDirError :=
  { failure with atomicDestinationState := some state }

end LocalCopyDirError

/-- The counters that a failure and an outcome show. -/
structure LocalCopyStats where
  files : Nat := 0
  directories : Nat := 0
  bytes : Nat := 0
  skipped : Nat := 0
  overwritten : Nat := 0
  deriving DecidableEq, Repr

def LocalCopyStats.fromInternal (stats : LocalCopyDirStats) : LocalCopyStats where
  files := stats.files
  directories := stats.directories
  bytes := stats.bytes
  skipped := stats.skipped
  overwritten := stats.overwritten

def copyFailureState (stage : LocalCopyDirStage) (partialStats : LocalCopyStats) :
    LocalCopyFailureState :=
  if stage = .synchronizeFile ∧ 0 < partialStats.files then .published
  else if 0 < partialStats.files ∨ 0 < partialStats.directories then .partiallyPublished
  else
    match stage with
    | .inspectSource | .inspectSourceEntry | .readSourceDirectory | .prepareDestination
    | .cleanupTemporaryFile | .publishSymlinkUnchanged => .unchanged
    | .publishSymlinkPartially => .partiallyPublished
    | .copyFileContents | .preservePermissions | .commitFile | .synchronizeFile
    | .updateStatistics | .publishSymlinkIndeterminate => .indeterminate

def mergeCopyFailureState (inferred : LocalCopyFailureState) (hint : Option LocalCopyFailureState) :
    LocalCopyFailureState :=
  match inferred, hint with
  | .published, _ => .published
  | _, some .published => .published
  | _, some .indeterminate => .indeterminate
  | .indeterminate, _ => .indeterminate
  | .partiallyPublished, _ => .partiallyPublished
  | _, some .partiallyPublished => .partiallyPublished
  | inferred, _ => inferred

/-- What `from_copy_dir_error` makes of the atomic state, the stage and the counters. -/
def stateBeforeMetadata (failure : LocalCopyDirError) : LocalCopyFailureState :=
  let partialStats := LocalCopyStats.fromInternal failure.stats
  match failure.atomicDestinationState with
  | some .indeterminate | some .missing => .indeterminate
  | some .unchanged =>
    if failure.stats.metadataEffect = .indeterminate then .indeterminate
    else if 0 < partialStats.files ∨ 0 < partialStats.directories ∨
        failure.stats.metadataEffect = .applied then .partiallyPublished
    else .unchanged
  | some .replaced | none => copyFailureState failure.stage partialStats

/-- The metadata of a directory may have been changed as well. -/
def inferredState (failure : LocalCopyDirError) : LocalCopyFailureState :=
  let inferred := stateBeforeMetadata failure
  match failure.stats.metadataEffect with
  | .none => inferred
  | .applied => if inferred = .unchanged then .partiallyPublished else inferred
  | .indeterminate => .indeterminate

/-- The state that the public failure shows. -/
def publicState (failure : LocalCopyDirError) : LocalCopyFailureState :=
  mergeCopyFailureState (inferredState failure) failure.failureState

end LocalFiles.TreeCopy
