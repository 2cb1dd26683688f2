import LocalFiles.Temp.Resource

/-!
# Temp.File — temporary files

Beside the core a temporary file carries its handle, until it is closed, and what is known about
the access that the entry grants.  Sealing takes the write access away; a sealed file can no
longer be published.
-/

namespace LocalFiles.Temp

open Interaction

/-! ## 1. The resource -/

inductive LocalTempAccessState where
  | writable | readOnly | indeterminate
  deriving DecidableEq, Repr

structure FileFields where
  file : Option File
  accessState : LocalTempAccessState
  fileIdentity : Option LocalFileIdentity
  deriving DecidableEq, Repr

abbrev LocalTempFile := LocalTemp FileFields

/-- A file right after its creation. -/
def LocalTempFile.new (path : Path) (backend : LocalTempResourceBackend)
    (policy : LocalSymlinkPolicy) (directory : Option Path) (file : File)
    (identity : Option LocalFileIdentity) : LocalTempFile where
  core :=
    { path := path
      backend := backend
      state := .owned
      symlinkPolicy := policy
      creationCurrentDirectory := directory }
  own := { file := some file, accessState := .writable, fileIdentity := identity }

structure LocalSealOptions where
  fileSync : LocalFileSyncRequirement := .required
  deriving DecidableEq, Repr

/-- The failure to seal; the recovery owner holds the file itself. -/
structure LocalTempSealError where
  cause : LocalFileError
  accessState : LocalTempAccessState
  recoveryPath : Path
  recoveryIdentity : Option LocalFileIdentity
  deriving DecidableEq, Repr

abbrev FileM (ε α : Type) := TempM FileFields ε α

section Calls

variable {ε α : Type}

def identityOfFile (file : File) : FileM ε (IoResult LocalFileIdentity) :=
  call (.identityOfFile file)
def metadataOfFile (file : File) : FileM ε (IoResult Metadata) := call (.metadataOfFile file)
def queryObservation (file : File) : FileM ε (Except LocalFileError (Option LocalFileIdentity)) :=
  call (.queryObservation file)
def syncAll (file : File) : FileM ε (IoResult Unit) := call (.syncAll file)
def applyCurrentUserAccess (file : File) : FileM ε (IoResult Unit) :=
  call (.applyCurrentUserAccess file)
def openReader (scope : LocalFileSystemScope) (path : Path) : FileM ε (IoResult File) :=
  call (.openReader scope path)
def openProbeFile (path : Path) : FileM ε (IoResult File) := call (.openProbeFile path)
def openExistingFileForSecurity (scope : LocalFileSystemScope) (path : Path) :
    FileM ε (IoResult File) := call (.openExistingFileForSecurity scope path)
def supportsDurableTempFilePersist (scope : LocalFileSystemScope) : FileM ε Bool :=
  call (.supportsDurableTempFilePersist scope)
def syncParentDir (scope : LocalFileSystemScope) (path : Path) : FileM ε (IoResult Unit) :=
  call (.syncParentDir scope path)
def removeFile (method : RemoveFileMethod) (path : Path) : FileM ε (IoResult Unit) :=
  call (.removeFile method path)

def setAccess (state : LocalTempAccessState) : FileM ε Unit :=
  Proc.modify fun s => { s with own := { s.own with accessState := state } }

def setFile (file : Option File) : FileM ε Unit :=
  Proc.modify fun s => { s with own := { s.own with file := file } }

end Calls

/-! ## 2. Cleanup -/

section Cleanup

variable {ε α : Type} (platform : Platform)

def close : FileM ε Unit := setFile none

/-- `ensure_identity_matches` of a file, which gives the handle up with the authority. -/
def ensureFileIdentityMatches : FileM ε (IoResult Unit) := do
  let result ← ensureIdentityMatches
  let s ← Proc.get
  if s.core.state = .indeterminate then close
  pure result

def removeResource : FileM ε (IoResult Unit) := do
  match ← ensureFileIdentityMatches with
  | .error error => pure (.error error)
  | .ok () =>
    let s ← Proc.get
    match s.core.backend, platform with
    | .host _ _, _ => removeFile .removeFile s.core.path
    | .rooted _ path _, .windows => removeFile .removeOwnedReadOnlyFile path
    | .rooted _ path _, .unix => removeFile .rootedRemoveFile path

def orCleanupError (path : LocalTempResourceCore → Path) : IoResult α → FileM LocalFileError α
  | .ok a => pure a
  | .error error => do
    let s ← Proc.get
    Proc.exit (s.core.contextualizeError (.fromIo .cleanup (some (path s.core)) none error))

/-- The second half of `cleanup`. -/
def cleanupSandbox : FileM LocalFileError Unit := do
  let s ← Proc.get
  if s.core.state = .sandboxPending then do
    orCleanupError (·.cleanupPath) (← releaseSandbox)
    setState .released

def cleanup : FileM LocalFileError Unit := do
  close
  let s ← Proc.get
  orCleanupError (·.path) s.core.ensureCleanupSafe
  if s.core.state = .owned then do
    orCleanupError (·.path) (← removeResource platform)
    setState .sandboxPending
  cleanupSandbox

def drop : FileM ε Unit := do
  let _ ← (cleanup platform).outcome
  pure ()

end Cleanup

/-! ## 3. Sealing -/

section Sealing

variable {α : Type} (platform : Platform)

def orReturn : IoResult α → FileM IoError α
  | .ok a => pure a
  | .error error => Proc.exit error

def closedFileError : IoError := ⟨.brokenPipe, "temporary file handle is closed", none⟩
def identityUnavailable : IoError := ⟨.unsupported, "temporary file identity is unavailable", none⟩
def identityChanged : IoError := ⟨.invalidInput, "temporary file identity changed", none⟩
def differentFile : IoError := ⟨.invalidInput, "read-only handle is a different file", none⟩

/-- Whether the handle is the file seen at creation. -/
def observesSource (file : File) : FileM IoError Bool := do
  let observed ← queryObservation file
  let identity ← orReturn (observed.mapError (·.intoIoError))
  let s ← Proc.get
  pure (identity == s.own.fileIdentity)

/-- The path of the entry below its root, as sealing asks for it. -/
def sealedPath (path : Path) : FileM IoError Path := do
  match ← relativePath path with
  | .ok relative => pure relative
  | .error error => Proc.exit { error with kind := .invalidInput }

/-- Without write access, through the handle or on Windows through one opened for it. -/
def takeWriteAccess (file : File) : FileM IoError Unit := do
  match platform with
  | .unix => orReturn (← applyCurrentUserAccess file)
  | .windows => do
    let s ← Proc.get
    let path ← match s.core.backend with
      | .host _ _ => pure s.core.path
      | .rooted _ path _ => sealedPath path
    let accessFile ← orReturn (← openExistingFileForSecurity s.core.scope path)
    if ← observesSource accessFile then orReturn (← applyCurrentUserAccess accessFile)
    else Proc.exit identityChanged

def reopenReadOnly : FileM IoError File := do
  let s ← Proc.get
  match s.core.backend with
  | .host _ _ => do orReturn (← openReader .host s.core.path)
  | .rooted _ path _ => do
    let relative ← sealedPath path
    orReturn (← openReader .rooted relative)

/-- The handle, known to be the file itself. -/
def sealableFile : FileM IoError File := do
  let s ← Proc.get
  match s.own.file with
  | none => Proc.exit closedFileError
  | some file => do
    let expected ← observesSource file
    if s.own.fileIdentity = none then Proc.exit identityUnavailable
    else if expected then pure file
    else Proc.exit identityChanged

/-- A failed synchronization counts only where it is required. -/
def syncBeforeSeal (options : LocalSealOptions) (file : File) : FileM IoError Unit := do
  match options.fileSync with
  | .notRequired => pure ()
  | .preferred => do
    let _ ← syncAll file
    pure ()
  | .required => orReturn (← syncAll file)

def sealFile (options : LocalSealOptions) : FileM IoError Unit := do
  let file ← sealableFile
  syncBeforeSeal options file
  setAccess .indeterminate
  takeWriteAccess platform file
  setAccess .readOnly
  if options.fileSync = .required then orReturn (← syncAll file)
  let readonly ← reopenReadOnly
  if ← observesSource readonly then setFile (some readonly)
  else do
    setAccess .indeterminate
    Proc.exit differentFile

/-- `LocalTempRecovery::from_file` looks at the identity once more. -/
def currentIdentity {ε : Type} : FileM ε (Option LocalFileIdentity) := do
  let s ← Proc.get
  match s.own.file with
  | none => pure none
  | some file =>
    match ← queryObservation file with
    | .ok identity => pure identity
    | .error _ => pure none

def sealWithOptions (options : LocalSealOptions) : FileM LocalTempSealError Unit := do
  match ← (sealFile platform options).outcome with
  | .ok () => pure ()
  | .error error => do
    let s ← Proc.get
    let identity ← currentIdentity
    Proc.exit
      { cause := .fromIo .commit (some s.core.path) none error
        accessState := s.own.accessState
        recoveryPath := s.core.path
        recoveryIdentity := identity }

end Sealing

/-! ## 4. Publication -/

section Publication

variable {ε α : Type}

def syncIdentityError : IoError :=
  ⟨.invalidInput, "temporary file handle does not identify the retained source", none⟩

def requiredDurabilityUnavailable : IoError :=
  ⟨.unsupported, "required temporary-file persistence durability is unavailable on this platform",
    none⟩

/-- Whether an open handle is the entry of the authority. -/
def matchesFile (file : File) : FileM ε (IoResult Bool) := do
  let s ← Proc.get
  match s.core.backend with
  | .host identity _ => do
    let found ← identityOfFile file
    pure (found.map (identity == ·))
  | .rooted identity _ _ => do
    let opened ← metadataOfFile file
    pure (opened.map identity.isSameFile)

def synchronizeOpenFile (file : File) (durability : LocalDurabilityRequirement) :
    FileM IoError Bool := do
  if ← orReturn (← matchesFile file) then
    match ← syncAll file, durability with
    | .ok (), _ => pure true
    | .error _, .preferred => pure false
    | .error error, _ => Proc.exit error
  else Proc.exit syncIdentityError

/-- The closure `synchronize`: a closed source is opened again. -/
def synchronizeSource (durability : LocalDurabilityRequirement) : FileM IoError Bool := do
  let s ← Proc.get
  match s.own.file, s.core.backend with
  | some file, _ => synchronizeOpenFile file durability
  | none, .host _ _ => do
    let file ← orReturn (← openReader .host s.core.path)
    synchronizeOpenFile file durability
  | none, .rooted _ path _ => do
    let relative ← orReturn (← relativePath path)
    let file ← orReturn (← openProbeFile relative)
    synchronizeOpenFile file durability

def synchronizeSourceBeforeReopen (durability : LocalDurabilityRequirement) :
    FileM IoError Bool := do
  match durability with
  | .notRequired => pure false
  | .preferred => do
    let s ← Proc.get
    if ← supportsDurableTempFilePersist s.core.scope then synchronizeSource .preferred
    else pure false
  | .required => do
    let s ← Proc.get
    if ← supportsDurableTempFilePersist s.core.scope then
      if ← synchronizeSource .required then pure true else Proc.exit syncIdentityError
    else Proc.exit requiredDurabilityUnavailable

/-- `sync_parent_dir` of each path, up to the first failure. -/
def syncParents (scope : LocalFileSystemScope) : List Path → FileM IoError Unit
  | [] => pure ()
  | path :: rest => do
    orReturn (← syncParentDir scope path)
    syncParents scope rest

/-- The destination and its ancestors, from the inside out. -/
def syncAncestors : List String → FileM IoError Unit
  | [] => pure ()
  | name :: parents => do
    let relative ← orReturn (← relativePath (name :: parents).reverse)
    orReturn (← syncParentDir .rooted relative)
    syncAncestors parents

def synchronizePublication (source destination : Path) (created : List Path) :
    FileM IoError Unit := do
  let s ← Proc.get
  match s.core.scope with
  | .host => syncParents .host (source :: destination :: created.reverse)
  | .rooted => do
    orReturn (← syncParentDir .rooted source)
    syncAncestors destination.reverse

/-- `synchronize_destination`: preferred durability turns a failure into `false`. -/
def synchronizeDestination (durability : LocalDurabilityRequirement) (source destination : Path)
    (created : List Path) : FileM ε (IoResult Bool) := do
  match durability with
  | .notRequired => pure (.ok false)
  | .preferred =>
    match ← (synchronizePublication source destination created).outcome with
    | .ok () => pure (.ok true)
    | .error _ => pure (.ok false)
  | .required =>
    match ← (synchronizePublication source destination created).outcome with
    | .ok () => pure (.ok true)
    | .error error => pure (.error error)

def fileRenameMethod (scope : LocalFileSystemScope) (overwrites : Bool) : RenameMethod :=
  match scope, overwrites with
  | .host, true => .replaceFile
  | .host, false => .moveFileWithoutReplacing
  | .rooted, true => .rootedRename
  | .rooted, false => .rootedRenameWithoutReplacing

def sealedFile : IoError := ⟨.permissionDenied, "sealed temporary file cannot be persisted", none⟩
def notADirectory : IoError := ⟨.notADirectory, "not a directory", none⟩

def ensureWritable (requestedTarget : Path) : FileM LocalPersistError Unit := do
  let s ← Proc.get
  if s.own.accessState ≠ .writable then
    persistError sealedFile requestedTarget none .installDestination .notPublished

/-- An unavailable synchronization is an unmet requirement. -/
def sourceSyncFailed (error : IoError) (requestedTarget resolvedTarget : Path) :
    FileM LocalPersistError α := do
  let s ← Proc.get
  let failure := s.core.persistError error requestedTarget (some resolvedTarget)
    .synchronizeSource .notPublished
  Proc.exit (if error.kind = .unsupported then failure.withKind .requirementNotMet else failure)

/-- The source is checked once more and made durable. -/
def prepareSource (options : LocalPersistOptions) (requestedTarget resolvedTarget : Path) :
    FileM LocalPersistError Bool := do
  orPersistError requestedTarget (some resolvedTarget) .installDestination
    (← ensureFileIdentityMatches)
  match ← (synchronizeSourceBeforeReopen options.durability).outcome with
  | .ok durable => pure durable
  | .error error => sourceSyncFailed error requestedTarget resolvedTarget

def persistWithPath (target : Path) (base : Option Path) (options : LocalPersistOptions) :
    FileM LocalPersistError LocalPersistOutcome := do
  ensureWritable target
  let resolved ← resolveTarget base target
  if resolved.directoryRequired then
    persistError notADirectory target (some resolved.namespaceAbsolute) .resolveTarget .notPublished
  validateBase base target resolved
  let fileDurable ← prepareSource options target resolved.namespaceAbsolute
  close
  let (destination, created) ← prepareDestination target resolved options.createsParent
  let s ← Proc.get
  install (fileRenameMethod s.core.scope options.overwrites) target resolved destination
    (synchronizeDestination options.durability s.core.sourcePath destination created) fileDurable

def persistWith (target : Path) (options : LocalPersistOptions) :
    FileM LocalPersistError LocalPersistOutcome := persistWithPath target none options

def persistAt (base target : Path) (options : LocalPersistOptions) :
    FileM LocalPersistError LocalPersistOutcome := do
  match ← (persistWithPath target (some base) options).outcome with
  | .ok outcome => pure outcome
  | .error error => Proc.exit (error.withCurrentDirectory base)

def keep : FileM LocalPersistError LocalPersistOutcome := do
  let s ← Proc.get
  ensureWritable s.core.path
  orPersistError s.core.path none .installDestination s.core.ensurePublishable
  let target ← orPersistError s.core.path none .resolveTarget (generatedTarget s.core.path)
  persistWithPath target none {}

end Publication

end LocalFiles.Temp
