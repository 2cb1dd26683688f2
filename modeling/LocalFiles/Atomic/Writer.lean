import LocalFiles.Atomic.Staging

/-!
# Writer — the atomic writers of Unix

`LocalAtomicWriter` and `LocalRootAtomicWriter` stage the new content beside its destination and
publish it on commit.  They run the same protocol: observe the destination, copy its metadata,
synchronize, verify the destination, install, clean up.  What they do differently depends on the
`Scope`.
-/

namespace LocalFiles.Atomic

open Interaction

/-! ## 1. Errors and options -/

inductive LocalAtomicWriteStage where
  | prepareParent | inspectDestination | createTemporaryFile | readDestinationMetadata
  | applyDestinationMetadata | syncTemporaryFile | replaceDestination | cleanupTemporaryFile
  | syncParent
  deriving DecidableEq, Repr

structure LocalAtomicWriteError where
  stage : LocalAtomicWriteStage
  path : Path
  temporaryPath : Option Path
  destinationState : LocalAtomicDestinationState
  source : IoError
  cleanupError : Option IoError := none
  parentSyncError : Option IoError := none
  deriving DecidableEq, Repr

/-- `error` together with the writer that is kept for another attempt. -/
structure LocalAtomicCommitError (W : Type) where
  error : LocalAtomicWriteError
  writer : Option W
  deriving DecidableEq, Repr

structure LocalCommitSyncOutcome where
  durable : Bool
  fileSynced : Bool
  deriving DecidableEq, Repr

inductive LocalAtomicPublicationMode where
  | createNew | replaceOrCreate
  deriving DecidableEq, Repr

/-- The retry timeout of a nonblocking open in nanoseconds, with the retries that fit in it. -/
structure OpenRetryTimeout where
  timeout : Nat
  attempts : Nat
  deriving DecidableEq, Repr

structure LocalAtomicWriteOptions where
  createParent : Bool := false
  metadataPolicy : LocalWriteMetadataPolicy := .preserveExisting
  openRetryTimeout : Option OpenRetryTimeout := none
  replaceTargetSymlink : Bool := false
  publicationMode : LocalAtomicPublicationMode := .replaceOrCreate
  durability : LocalDurabilityRequirement := .required
  fileSync : LocalFileSyncRequirement := .notRequired
  deriving DecidableEq, Repr

/-- `with_atomic_context` and `map_atomic_error` -/
def mapAtomicError {α : Type} (result : IoResult α) (stage : LocalAtomicWriteStage) (path : Path)
    (temporaryPath : Option Path) (state : LocalAtomicDestinationState) :
    Except LocalAtomicWriteError α :=
  match result with
  | .ok a => .ok a
  | .error source => .error ⟨stage, path, temporaryPath, state, source, none, none⟩

/-! ## 2. The shared state machines -/

section Shared

variable {I S W α : Type}

/-- `AtomicInstallRecovery` -/
structure AtomicInstallRecovery where
  path : Path
  temporaryPath : Path
  source : IoError
  destinationState : LocalAtomicDestinationState
  stagingState : AtomicStagingState

namespace AtomicInstallRecovery

variable (context : AtomicInstallRecovery)

/-- The staging file is gone although the installation failed after publication: what is left is
    the synchronization of the parent. -/
def finishPublished (durability : LocalDurabilityRequirement)
    (syncParent : AtomicM I (IoResult Unit)) : AtomicM I (Except LocalAtomicWriteError Bool) :=
  match durability with
  | .notRequired => pure (.ok false)
  | .preferred => do
    match ← syncParent with
    | .ok () => pure (.ok true)
    | .error _ => pure (.ok false)
  | .required => do
    match ← syncParent with
    | .ok () => pure (.ok true)
    | .error error =>
      pure (.error ⟨.syncParent, context.path, some context.temporaryPath,
        context.destinationState, error, none, none⟩)

def parentSyncError (durability : LocalDurabilityRequirement)
    (syncParent : AtomicM I (IoResult Unit)) : AtomicM I (Option IoError) :=
  if context.destinationState = .replaced ∧ durability ≠ .notRequired then do
    match ← syncParent with
    | .ok () => pure none
    | .error error => pure (some error)
  else pure none

def reportFailure (durability : LocalDurabilityRequirement)
    (syncParent : AtomicM I (IoResult Unit)) (cleanupError : Option IoError) :
    AtomicM I (Except LocalAtomicWriteError Bool) := do
  let parentSyncError ← context.parentSyncError durability syncParent
  pure (.error ⟨.replaceDestination, context.path, some context.temporaryPath,
    context.destinationState, context.source, cleanupError, parentSyncError⟩)

end AtomicInstallRecovery

def recoverAtomicInstallError (context : AtomicInstallRecovery) (staged : S)
    (durability : LocalDurabilityRequirement) (cleanup : S → AtomicM I (IoResult Unit × S))
    (disarm : S → S) (syncParent : AtomicM I (IoResult Unit)) :
    AtomicM I (Except LocalAtomicWriteError Bool × S) :=
  match context.stagingState with
  | .present => do
    match ← cleanup staged with
    | (.ok (), staged') =>
      if context.destinationState = .replaced then do
        pure (← context.finishPublished durability syncParent, staged')
      else do pure (← context.reportFailure durability syncParent none, staged')
    | (.error error, staged') => do
      pure (← context.reportFailure durability syncParent (some error), staged')
  | .indeterminate => do
    pure (← context.reportFailure durability syncParent none, disarm staged)

/-- Runs one attempt; the writer is kept after a failure while its staging file is open, and
    dropped otherwise. -/
def commitRecoverably (attempt : W → AtomicM I (Except LocalAtomicWriteError α × W))
    (stagingIsOpen : W → Bool) (drop : W → AtomicM I Unit) (writer : W) :
    AtomicM I (Except (LocalAtomicCommitError W) α) := do
  match ← attempt writer with
  | (.ok outcome, writer') => do
    drop writer'
    pure (.ok outcome)
  | (.error error, writer') =>
    if stagingIsOpen writer' then pure (.error ⟨error, some writer'⟩)
    else do
      drop writer'
      pure (.error ⟨error, none⟩)

/-- The consuming finalization of a failed attempt. -/
def finalizeFailedCommit (cleanup : W → AtomicM I (IoResult Unit × W)) (abandon : W → W)
    (drop : W → AtomicM I Unit) (writer : W) (error : LocalAtomicWriteError) :
    AtomicM I LocalAtomicWriteError :=
  if error.destinationState = .unchanged then do
    match ← cleanup writer with
    | (.ok (), writer') => do
      drop writer'
      pure { error with cleanupError := none }
    | (.error cleanupError, writer') => do
      drop writer'
      pure { error with cleanupError := some cleanupError }
  else do
    drop (abandon writer)
    pure error

/-- The requirement on the staging file that follows from the two options. -/
def stagingRequirement (durability : LocalDurabilityRequirement)
    (fileSync : LocalFileSyncRequirement) : LocalFileSyncRequirement :=
  match durability, fileSync with
  | .required, _ | _, .required => .required
  | .preferred, _ | _, .preferred => .preferred
  | _, _ => .notRequired

def synchronizeStagingFile (file : AtomicM I I) (durability : LocalDurabilityRequirement)
    (fileSync : LocalFileSyncRequirement)
    (mapRequiredError : IoResult Unit → Except LocalAtomicWriteError Unit) :
    AtomicM I (Except LocalAtomicWriteError Bool) := do
  let handle ← file
  match stagingRequirement durability fileSync with
  | .notRequired => pure (.ok false)
  | .preferred => do
    match ← syncFile handle with
    | .ok () => pure (.ok true)
    | .error _ => pure (.ok false)
  | .required => do
    match mapRequiredError (← syncFile handle) with
    | .ok () => pure (.ok true)
    | .error error => pure (.error error)

def syncDirectories : List Path → AtomicM I (IoResult Unit)
  | [] => pure (.ok ())
  | directory :: rest => (syncDirectory directory).andThen fun _ => syncDirectories rest

/-- `sync_atomic_parent_chain` and `sync_rooted_parent_chain` -/
def syncParentChain (parentDirsToSync : List Path) : AtomicM I (IoResult Unit) :=
  syncParent.andThen fun _ => syncDirectories parentDirsToSync.reverse

end Shared

/-! ## 3. The observed destination -/

/-- The destination as a commit found it, with a readable handle for copying its metadata. -/
structure OpenedAtomicDestination (I : Type) where
  file : Option I
  identity : I

section Destination

variable {I : Type}

def invalidAtomicDestination : IoError :=
  ⟨.invalidInput, "atomic write destination must be absent or a regular file", none⟩

def OpenedAtomicDestination.fromFile (file : I) :
    AtomicM I (IoResult (OpenedAtomicDestination I)) :=
  (fileStat file).andThen fun status =>
    if !status.regular then pure (.error invalidAtomicDestination)
    else (clearNonblocking file).andThen fun _ => pure (.ok ⟨some file, status.identity⟩)

/-- The decimal digits of a fraction of `10 ^ digits`, up to the last that is not zero. -/
def fractionDigits : Nat → Nat → String
  | 0, _ => ""
  | digits + 1, fraction =>
    if fraction = 0 then ""
    else toString (fraction / 10 ^ digits) ++ fractionDigits digits (fraction % 10 ^ digits)

/-- `fmt_decimal`, which the `Debug` of a duration uses. -/
def fmtDecimal (value digits : Nat) (unit : String) : String :=
  let fraction := value % 10 ^ digits
  toString (value / 10 ^ digits) ++
    (if fraction = 0 then "" else "." ++ fractionDigits digits fraction) ++ unit

/-- `{timeout:?}` of a duration in nanoseconds. -/
def debugDuration (nanos : Nat) : String :=
  if 10 ^ 9 ≤ nanos then fmtDecimal nanos 9 "s"
  else if 10 ^ 6 ≤ nanos then fmtDecimal nanos 6 "ms"
  else if 10 ^ 3 ≤ nanos then fmtDecimal nanos 3 "µs"
  else fmtDecimal nanos 0 "ns"

def openRetryTimedOut (timeout : Nat) : IoError :=
  ⟨.timedOut, "timed out after " ++ debugDuration timeout ++ " retrying a nonblocking file open",
    none⟩

/-- The opens after a first conflict with a lease, as many as fit in the timeout. -/
def openRetries (name : String) (timeout : Nat) : Nat → AtomicM I (IoResult I)
  | 0 => pure (.error (openRetryTimedOut timeout))
  | more + 1 => do
    match ← openRead name with
    | .ok file => pure (.ok file)
    | .error error =>
      if error.kind = .wouldBlock then openRetries name timeout more else pure (.error error)

def openWithNonblockingRetry (retry : Option OpenRetryTimeout) (name : String) :
    AtomicM I (IoResult I) := do
  match ← openRead name with
  | .ok file => pure (.ok file)
  | .error error =>
    if error.kind = .wouldBlock then
      match retry with
      | none => pure (.error error)
      | some retry => openRetries name retry.timeout retry.attempts
    else pure (.error error)

def eloop : Nat := 40
def enxio : Nat := 6
def enodev : Nat := 19

def openDestinationWithRetry (retry : Option OpenRetryTimeout) (name : String) :
    AtomicM I (IoResult (Option (OpenedAtomicDestination I))) := do
  match ← openWithNonblockingRetry retry name with
  | .ok file =>
    (OpenedAtomicDestination.fromFile file).andThen fun destination => pure (.ok (some destination))
  | .error error =>
    if error.kind = .notFound then pure (.ok none)
    else if error.osCode = some eloop ∨ error.osCode = some enxio ∨ error.osCode = some enodev then
      pure (.error invalidAtomicDestination)
    else pure (.error error)

/-- The status of a name, nothing where it is free: `rooted_destination_status`, and the lookup
    of the path-based functions. -/
def destinationStatus (name : String) : AtomicM I (IoResult (Option (Status I))) := do
  match ← stat name with
  | .ok status => pure (.ok (some status))
  | .error error => if error.kind = .notFound then pure (.ok none) else pure (.error error)

/-- The rooted functions convert the two identity components, which can fail. -/
def nativeIdentity (scope : Scope) (identity : I) : AtomicM I (IoResult Unit) :=
  match scope with
  | .host => pure (.ok ())
  | .rooted => representable identity

/-- The destination observed without a handle, for `UseStaging`. -/
def statDestination (scope : Scope) (name : String) :
    AtomicM I (IoResult (Option (OpenedAtomicDestination I))) :=
  (destinationStatus name).andThen fun
    | none => pure (.ok none)
    | some status =>
      if !status.regular then pure (.error invalidAtomicDestination)
      else (nativeIdentity scope status.identity).andThen fun _ =>
        pure (.ok (some ⟨none, status.identity⟩))

/-- `open_atomic_destination` and `open_rooted_atomic_destination` -/
def openAtomicDestination (scope : Scope) (retry : Option OpenRetryTimeout)
    (policy : LocalWriteMetadataPolicy) (name : String) :
    AtomicM I (IoResult (Option (OpenedAtomicDestination I))) :=
  match policy with
  | .useStaging => statDestination scope name
  | .preserveExisting => openDestinationWithRetry retry name

/-- `existing_file_metadata` and `inspect_rooted_atomic_destination`: whether the destination
    exists, and whether it is a regular file. -/
def inspectDestination (refused : IoError) (replaceTargetSymlink : Bool) (name : String) :
    AtomicM I (IoResult (Bool × Bool)) :=
  (destinationStatus name).andThen fun
    | none => pure (.ok (false, false))
    | some status =>
      if status.regular then pure (.ok (true, true))
      else if !replaceTargetSymlink then pure (.error refused)
      else do
        if ← isSymlink status.identity then pure (.ok (true, false)) else pure (.error refused)

def existingFileMetadata (name : String) (replaceTargetSymlink : Bool) :
    AtomicM I (IoResult (Bool × Bool)) :=
  inspectDestination invalidAtomicDestination replaceTargetSymlink name

def inspectRootedAtomicDestination (name : String) (replaceTargetSymlink : Bool) :
    AtomicM I (IoResult (Bool × Bool)) :=
  inspectDestination ⟨.invalidInput, "rooted atomic destination is not a regular file", none⟩
    replaceTargetSymlink name

/-- `destination_mismatch_state` and `rooted_mismatch_state` -/
def mismatchState (scope : Scope) (name : String) : AtomicM I LocalAtomicDestinationState :=
  match scope with
  | .host => do
    match ← destinationStatus name with
    | .ok none => pure .missing
    | _ => pure .unchanged
  | .rooted => do
    match ← inspectRootedAtomicDestination name false with
    | .ok (false, _) => pure .missing
    | _ => pure .unchanged

variable [DecidableEq I]

/-- `destination_identity_matches` and `rooted_destination_identity_matches` -/
def destinationIdentityMatches (scope : Scope) (name : String)
    (destination : OpenedAtomicDestination I) : AtomicM I (IoResult Bool) :=
  (destinationStatus name).andThen fun
    | none => pure (.ok false)
    | some status =>
      if !status.regular then pure (.ok false)
      else (nativeIdentity scope status.identity).andThen fun _ =>
        pure (.ok (status.identity = destination.identity))

def changedBeforeReplacement (scope : Scope) : IoError :=
  match scope with
  | .host => ⟨.invalidInput, "atomic write destination changed before replacement", none⟩
  | .rooted => ⟨.invalidInput, "rooted atomic destination changed before replacement", none⟩

/-- `verify_atomic_destination_identity` and `verify_rooted_atomic_destination_identity` -/
def verifyAtomicDestinationIdentity (scope : Scope) (name : String)
    (destination : OpenedAtomicDestination I) (path temporaryPath : Path) :
    AtomicM I (Except LocalAtomicWriteError Unit) := do
  match ← destinationIdentityMatches scope name destination with
  | .ok true => pure (.ok ())
  | .ok false => do
    let state ← mismatchState scope name
    pure (.error ⟨.replaceDestination, path, some temporaryPath, state,
      changedBeforeReplacement scope, none, none⟩)
  | .error error =>
    pure (.error ⟨.replaceDestination, path, some temporaryPath, .unchanged, error, none, none⟩)

end Destination

/-! ## 4. The writers -/

/-- The fields of both writers; `name` is the final entry and `G` the staging guard. -/
structure AtomicWriter (G : Type) where
  path : Path
  name : String
  parentDirsToSync : List Path
  destinationExisted : Bool
  destinationIsRegular : Bool
  metadataPolicy : LocalWriteMetadataPolicy
  durability : LocalDurabilityRequirement
  fileSync : LocalFileSyncRequirement
  openRetryTimeout : Option OpenRetryTimeout
  copyPermissions : Bool
  stagedFile : G
  deriving DecidableEq, Repr

abbrev UnixAtomicWriter (I : Type) := AtomicWriter (StagedFile I)

def containsNul (name : String) : Bool := name.toList.contains (Char.ofNat 0)

section Programs

variable {I : Type}

/-- `native_path` -/
def nativePath (name : String) : IoResult String :=
  if containsNul name then .error ⟨.invalidInput, "atomic install path contains NUL", none⟩
  else .ok name

/-- `replacement_error_state` outside Windows -/
def replacementErrorState (_error : IoError) : LocalAtomicDestinationState := .unchanged

def replacementFailure (source : IoError) (state : LocalAtomicDestinationState) : InstallFailure :=
  (source, state, if state = .unchanged then .present else .indeterminate)

/-- `rename_to`, and the replacement by path -/
def replaceExisting (staging destination : String) : AtomicM I (Except InstallFailure Unit) := do
  match ← rename staging destination with
  | .ok () => pure (.ok ())
  | .error source => pure (.error (replacementFailure source (replacementErrorState source)))

def installNewAtomicFile (system : UnixTarget) (staging destination : String) :
    AtomicM I (Except InstallFailure Unit) :=
  match nativePath staging, nativePath destination with
  | .error error, _ => pure (.error (unchangedError error))
  | .ok _, .error error => pure (.error (unchangedError error))
  | .ok staging, .ok destination => installNewAtomicFileAt system staging destination

/-- `install_atomic_file` on Unix -/
def installAtomicFile (system : UnixTarget) (staging destination : String)
    (destinationExisted : Bool) : AtomicM I (Except InstallFailure Unit) :=
  if destinationExisted then replaceExisting staging destination
  else installNewAtomicFile system staging destination

def installRootedAtomicFile (system : UnixTarget) (staging destination : String)
    (destinationExisted : Bool) : AtomicM I (Except InstallFailure Unit) :=
  if destinationExisted then replaceExisting staging destination
  else installNewAtomicFileAt system staging destination

def Scope.install : Scope → UnixTarget → String → String → Bool →
    AtomicM I (Except InstallFailure Unit)
  | .host => installAtomicFile
  | .rooted => installRootedAtomicFile

/-- The creation of a staging file under a generated name.  Collisions are retried without a
    bound; `attempts` bounds the run considered here, which has no result when it is used up. -/
def createStaging : Nat → AtomicM I (Option (IoResult (String × I)))
  | 0 => pure none
  | attempts + 1 => do
    match ← tryRandomFileName with
    | .error error => pure (some (.error error))
    | .ok name => do
      match ← createExclusive name with
      | .ok file => pure (some (.ok (name, file)))
      | .error error =>
        if error.kind = .alreadyExists then createStaging attempts
        else pure (some (.error error))

end Programs

namespace UnixAtomicWriter

variable {I : Type}

def prepareParentFor (path : Path) : AtomicM I (Except LocalAtomicWriteError Unit) := do
  pure (mapAtomicError (← prepareParent) .prepareParent path none .unchanged)

def alreadyExists (scope : Scope) : IoError :=
  match scope with
  | .host => ⟨.alreadyExists, "atomic create-new destination already exists", none⟩
  | .rooted => ⟨.alreadyExists, "rooted atomic create-new destination already exists", none⟩

/-- The inspection of the destination by `LocalAtomicWriter::new`: a create-new writer only asks
    whether the name is free. -/
def inspectForHost (options : LocalAtomicWriteOptions) (name : String) :
    AtomicM I (IoResult (Bool × Bool)) :=
  match options.publicationMode with
  | .createNew => do
    match ← destinationStatus name with
    | .ok none => pure (.ok (false, false))
    | .ok (some _) => pure (.error (alreadyExists .host))
    | .error error => pure (.error error)
  | .replaceOrCreate => existingFileMetadata name options.replaceTargetSymlink

/-- The inspection by `LocalRootAtomicWriter::new`; a copy that replaces the destination later
    defers it. -/
def inspectForRooted (options : LocalAtomicWriteOptions) (deferDestinationCheck : Bool)
    (name : String) : AtomicM I (IoResult (Bool × Bool)) :=
  if deferDestinationCheck then pure (.ok (false, false))
  else
    (inspectRootedAtomicDestination name
      (options.replaceTargetSymlink || options.publicationMode = .createNew)).andThen
      fun (existed, regular) =>
        if options.publicationMode = .createNew && existed then
          pure (.error (alreadyExists .rooted))
        else pure (.ok (existed, regular))

def inspect (scope : Scope) (options : LocalAtomicWriteOptions) (deferDestinationCheck : Bool)
    (path : Path) (name : String) : AtomicM I (Except LocalAtomicWriteError (Bool × Bool)) :=
  match scope with
  | .host => do
    pure (mapAtomicError (← inspectForHost options name) .inspectDestination path none .unchanged)
  | .rooted => do
    pure (mapAtomicError (← inspectForRooted options deferDestinationCheck name)
      .inspectDestination path none .unchanged)

/-- The second half of `new`: the staging file and the writer around it. -/
def stage (options : LocalAtomicWriteOptions) (path parent : Path)
    (name : String) (parentDirsToSync : List Path) (destination : Bool × Bool) (attempts : Nat) :
    AtomicM I (Option (Except LocalAtomicWriteError (UnixAtomicWriter I))) := do
  match ← createStaging attempts with
  | none => pure none
  | some (.error error) =>
    pure (some (.error ⟨.createTemporaryFile, path, none, .unchanged, error, none, none⟩))
  | some (.ok (staging, file)) => do
    let staged ← StagedFile.new staging file (parent ++ [staging])
    pure (some (.ok {
      path := path
      name := name
      parentDirsToSync := parentDirsToSync
      destinationExisted := destination.1
      destinationIsRegular := destination.2
      metadataPolicy := options.metadataPolicy
      durability := options.durability
      fileSync := options.fileSync
      openRetryTimeout := options.openRetryTimeout
      copyPermissions := false
      stagedFile := staged }))

/-- `new` of both writers -/
def new (scope : Scope) (options : LocalAtomicWriteOptions) (deferDestinationCheck : Bool)
    (path parent : Path) (name : String) (parentDirsToSync : List Path) (attempts : Nat) :
    AtomicM I (Option (Except LocalAtomicWriteError (UnixAtomicWriter I))) := do
  match ← (prepareParentFor path).andThen fun _ =>
      inspect scope options deferDestinationCheck path name with
  | .error error => pure (some (.error error))
  | .ok destination => stage options path parent name parentDirsToSync destination attempts

variable (scope : Scope) (w : UnixAtomicWriter I)

def disappeared : IoError :=
  match scope with
  | .host => ⟨.notFound, "atomic write destination disappeared", none⟩
  | .rooted => ⟨.notFound, "rooted atomic destination disappeared", none⟩

def openDestinationForCommit :
    AtomicM I (Except LocalAtomicWriteError (Option (OpenedAtomicDestination I))) :=
  if !w.destinationIsRegular then pure (.ok none)
  else do
    let temporaryPath ← w.stagedFile.temporaryPath scope
    match ← openAtomicDestination scope w.openRetryTimeout w.metadataPolicy w.name with
    | .error error =>
      pure (.error ⟨.readDestinationMetadata, w.path, some temporaryPath, .unchanged, error,
        none, none⟩)
    | .ok none =>
      pure (.error ⟨.readDestinationMetadata, w.path, some temporaryPath, .missing,
        disappeared scope, none, none⟩)
    | .ok (some destination) => pure (.ok (some destination))

def applyDestinationMetadata (destination : Option (OpenedAtomicDestination I)) :
    AtomicM I (Except LocalAtomicWriteError Unit) :=
  match destination.bind OpenedAtomicDestination.file with
  | none => pure (.ok ())
  | some file => do
    let staging ← w.stagedFile.handle scope
    let result ← preserveAtomicMetadata file staging
    let temporaryPath ← w.stagedFile.temporaryPath scope
    pure (mapAtomicError result .applyDestinationMetadata w.path (some temporaryPath) .unchanged)

/-- Only the rooted writer carries permissions of a copy. -/
def applyCopyPermissions : AtomicM I (Except LocalAtomicWriteError Unit) :=
  match scope with
  | .host => pure (.ok ())
  | .rooted =>
    if !w.copyPermissions then pure (.ok ())
    else do
      let staging ← w.stagedFile.handle .rooted
      pure (mapAtomicError (← setPermissions staging) .applyDestinationMetadata w.path
        (some w.stagedFile.diagnosticPath) .unchanged)

def syncTemporaryFile : AtomicM I (Except LocalAtomicWriteError Bool) := do
  let temporaryPath ← w.stagedFile.temporaryPath scope
  synchronizeStagingFile (w.stagedFile.handle scope) w.durability w.fileSync fun result =>
    mapAtomicError result .syncTemporaryFile w.path (some temporaryPath) .unchanged

variable [DecidableEq I]

def verifyDestinationForCommit (destination : Option (OpenedAtomicDestination I)) :
    AtomicM I (Except LocalAtomicWriteError Unit) :=
  match destination with
  | none => pure (.ok ())
  | some destination => do
    let temporaryPath ← w.stagedFile.temporaryPath scope
    verifyAtomicDestinationIdentity scope w.name destination w.path temporaryPath

/-- After a successful installation: the guard is disarmed and the parent synchronized as far as
    the durability asks for it. -/
def finishInstalled (temporaryPath : Path) :
    AtomicM I (Except LocalAtomicWriteError Bool) :=
  match w.durability with
  | .notRequired => pure (.ok false)
  | .preferred => do
    match ← syncParentChain w.parentDirsToSync with
    | .ok () => pure (.ok true)
    | .error _ => pure (.ok false)
  | .required => do
    match ← syncParentChain w.parentDirsToSync with
    | .ok () => pure (.ok true)
    | .error error =>
      pure (.error ⟨.syncParent, w.path, some temporaryPath, .replaced, error, none, none⟩)

def installAndSyncParent (system : UnixTarget) :
    AtomicM I (Except LocalAtomicWriteError Bool × UnixAtomicWriter I) := do
  let closed := w.stagedFile.close
  let staging ← closed.armedName scope
  match ← scope.install system staging w.name w.destinationExisted with
  | .error (source, destinationState, stagingState) => do
    let (result, staged) ← recoverAtomicInstallError
      ⟨w.path, closed.diagnosticPath, source, destinationState, stagingState⟩ closed w.durability
      scope.cleanup StagedFile.disarm (syncParentChain w.parentDirsToSync)
    pure (result, { w with stagedFile := staged })
  | .ok () => do
    let result ← w.finishInstalled closed.diagnosticPath
    pure (result, { w with stagedFile := closed.disarm })

/-- The steps of an attempt before the installation; the result says whether the staging file was
    synchronized. -/
def prepareCommit : AtomicM I (Except LocalAtomicWriteError Bool) :=
  (w.openDestinationForCommit scope).andThen fun destination =>
    (w.applyDestinationMetadata scope destination).andThen fun _ =>
      (w.applyCopyPermissions scope).andThen fun _ =>
        (w.syncTemporaryFile scope).andThen fun fileSynced =>
          (w.verifyDestinationForCommit scope destination).andThen fun _ => pure (.ok fileSynced)

def commitAttempt (system : UnixTarget) :
    AtomicM I (Except LocalAtomicWriteError LocalCommitSyncOutcome × UnixAtomicWriter I) := do
  match ← w.prepareCommit scope with
  | .error error => pure (.error error, w)
  | .ok fileSynced => do
    match ← w.installAndSyncParent scope system with
    | (.error error, w') => pure (.error error, w')
    | (.ok parentDurable, w') =>
      pure (.ok ⟨w.durability ≠ .notRequired && fileSynced && parentDurable, fileSynced⟩, w')

def dropWriter : AtomicM I Unit := scope.drop w.stagedFile

def commitRecoverableWithSync (system : UnixTarget) :
    AtomicM I (Except (LocalAtomicCommitError (UnixAtomicWriter I)) LocalCommitSyncOutcome) :=
  commitRecoverably (fun w => w.commitAttempt scope system) (fun w => w.stagedFile.isOpen)
    (fun w => w.dropWriter scope) w

def cleanupWriter : AtomicM I (IoResult Unit × UnixAtomicWriter I) := do
  let (result, staged) ← scope.cleanup w.stagedFile
  pure (result, { w with stagedFile := staged })

def finalizeFailed (error : LocalAtomicWriteError) : AtomicM I LocalAtomicWriteError :=
  finalizeFailedCommit (fun w => w.cleanupWriter scope)
    (fun w => { w with stagedFile := w.stagedFile.disarm }) (fun w => w.dropWriter scope) w error

/-- The consuming commit, which only the rooted writer has. -/
def commitWithDurability (system : UnixTarget) : AtomicM I (Except LocalAtomicWriteError Bool) := do
  match ← w.commitRecoverableWithSync .rooted system with
  | .ok outcome => pure (.ok outcome.durable)
  | .error ⟨error, none⟩ => pure (.error error)
  | .error ⟨error, some retained⟩ => do pure (.error (← retained.finalizeFailed .rooted error))

def abort : AtomicM I (Except LocalAtomicWriteError Unit × UnixAtomicWriter I) := do
  let temporaryPath ← w.stagedFile.temporaryPath scope
  let (result, w') ← w.cleanupWriter scope
  pure (mapAtomicError result .cleanupTemporaryFile w.path (some temporaryPath) .unchanged, w')

def write (bytes : List UInt8) : AtomicM I (IoResult Nat) := do
  writeFile (← w.stagedFile.handle scope) bytes

def writeVectored (buffers : List (List UInt8)) : AtomicM I (IoResult Nat) := do
  writeFileVectored (← w.stagedFile.handle scope) buffers

def flush : AtomicM I (IoResult Unit) := do flushFile (← w.stagedFile.handle scope)

end UnixAtomicWriter

end LocalFiles.Atomic
