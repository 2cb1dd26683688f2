import LocalFiles.DeleteTree
import LocalFiles.History

/-!
# Temp.Resource — the part shared by temporary files and directories

A temporary entry lives in a private sandbox directory.  Its core carries the coordinates, the
identity that was seen at creation and what the owner may still do with the entry.  Every native
call is recorded together with the resource at that moment.
-/

namespace LocalFiles.Temp

open Interaction

/-! ## 1. Data -/

inductive LocalTempResourceState where
  | owned | indeterminate | sandboxPending | released
  deriving DecidableEq, Repr

inductive LocalTempSourceState where
  | owned | cleanupRequired | released | indeterminate
  deriving DecidableEq, Repr

inductive LocalPersistStage where
  | resolveTarget | prepareParent | synchronizeSource | installDestination | synchronizeDestination
  deriving DecidableEq, Repr

inductive LocalPersistFailureState where
  | notPublished | published | indeterminate
  deriving DecidableEq, Repr

/-- Classifies the failure of a native rename. -/
def LocalPersistFailureState.fromNativeError : ErrorKind → LocalPersistFailureState
  | .alreadyExists | .crossesDevices | .invalidInput | .isADirectory | .notADirectory
  | .directoryNotEmpty | .unsupported => .notPublished
  | _ => .indeterminate

inductive Platform where
  | unix | windows
  deriving DecidableEq, Repr

/-- An open handle. -/
abbrev File := Nat

inductive LocalTempResourceBackend where
  | host (identity : LocalFileIdentity) (sandboxPath : Path)
  | rooted (identity : Metadata) (relativePath sandboxPath : Path)
  deriving DecidableEq, Repr

structure LocalNamespacePath where
  namespaceAbsolute : Path
  authorityRelative : Path
  directoryRequired : Bool
  deriving DecidableEq, Repr

structure LocalTempResourceCore where
  path : Path
  backend : LocalTempResourceBackend
  state : LocalTempResourceState
  symlinkPolicy : LocalSymlinkPolicy
  creationCurrentDirectory : Option Path
  deriving DecidableEq, Repr

/-- A resource: the core and the fields of its own type. -/
structure LocalTemp (ρ : Type) where
  core : LocalTempResourceCore
  own : ρ

structure LocalPersistOptions where
  overwrites : Bool := false
  createsParent : Bool := false
  durability : LocalDurabilityRequirement := .notRequired
  deriving DecidableEq, Repr

inductive LocalPersistMethod where
  | atomicRename
  deriving DecidableEq, Repr

structure LocalPersistOutcome where
  path : Path
  method : LocalPersistMethod
  atomic : Bool
  durable : Bool
  cleanupError : Option LocalFileError
  deriving DecidableEq, Repr

/-- The failure of one publication; the resource it retains is the state of the run. -/
structure LocalPersistError where
  error : LocalFileError
  requestedTarget : Path
  resolvedTarget : Option Path
  stage : LocalPersistStage
  state : LocalPersistFailureState
  sourceState : LocalTempSourceState
  deriving DecidableEq, Repr

namespace LocalPersistError

def new (error : IoError) (requestedTarget : Path) (resolvedTarget : Option Path)
    (stage : LocalPersistStage) (state : LocalPersistFailureState)
    (sourceState : LocalTempSourceState) : LocalPersistError where
  error := .fromIo .persistTemp (some requestedTarget) resolvedTarget error
  requestedTarget := requestedTarget
  resolvedTarget := resolvedTarget
  stage := stage
  state := state
  sourceState := sourceState

def withKind (error : LocalPersistError) (kind : LocalFileErrorKind) : LocalPersistError :=
  { error with error := error.error.withKind kind }

def withCurrentDirectory (error : LocalPersistError) (directory : Path) : LocalPersistError :=
  { error with error := error.error.withCurrentDirectory directory }

end LocalPersistError

/-! ## 2. Calls -/

/-- The functions that move an entry; each ends in one native rename. -/
inductive RenameMethod where
  | replaceFile | moveFileWithoutReplacing | renameDirectory | moveDirectoryWithoutReplacing
  | rootedRename | rootedRenameWithoutReplacing
  deriving DecidableEq, Repr

inductive RemoveFileMethod where
  | removeFile | rootedRemoveFile | removeOwnedReadOnlyFile
  deriving DecidableEq, Repr

/-- What the operations ask of the system and of the path functions of their authority.  The
    path functions neither rename nor remove anything; their results are taken as they come. -/
inductive TempCall where
  | identityAt (path : Path)
  | symlinkMetadata (path : Path)
  | identityOfFile (file : File)
  | metadataOfFile (file : File)
  | queryObservation (file : File)
  | syncAll (file : File)
  | applyCurrentUserAccess (file : File)
  | openReader (scope : LocalFileSystemScope) (path : Path)
  | openProbeFile (path : Path)
  | openExistingFileForSecurity (scope : LocalFileSystemScope) (path : Path)
  | supportsDurableTempFilePersist (scope : LocalFileSystemScope)
  | elapsed
  | preparePersistTarget (scope : LocalFileSystemScope) (base : Option Path) (target : Path)
  | validatePersistBase (scope : LocalFileSystemScope) (base : Path) (policy : LocalSymlinkPolicy)
  | relativePath (path : Path)
  | resolvePath (scope : LocalFileSystemScope) (path : Path) (policy : LocalSymlinkPolicy)
  | prepareParent (scope : LocalFileSystemScope) (target : Path) (create : Bool)
  | rename (method : RenameMethod) (source target : Path)
  | syncParentDir (scope : LocalFileSystemScope) (path : Path)
  | removeFile (method : RemoveFileMethod) (path : Path)
  | tree (call : Delete.DeleteCall Path Metadata File)
  | removeSandbox (scope : LocalFileSystemScope) (path : Path)

/-- The answer of a rename, and whether the rename took effect, which the program cannot see. -/
structure RenameAnswer where
  result : IoResult Unit
  effect : Bool

def TempCall.Result : TempCall → Type
  | .identityAt _ => IoResult LocalFileIdentity
  | .symlinkMetadata _ => IoResult Metadata
  | .identityOfFile _ => IoResult LocalFileIdentity
  | .metadataOfFile _ => IoResult Metadata
  | .queryObservation _ => Except LocalFileError (Option LocalFileIdentity)
  | .syncAll _ => IoResult Unit
  | .applyCurrentUserAccess _ => IoResult Unit
  | .openReader _ _ => IoResult File
  | .openProbeFile _ => IoResult File
  | .openExistingFileForSecurity _ _ => IoResult File
  | .supportsDurableTempFilePersist _ => Bool
  | .elapsed => Nat
  | .preparePersistTarget _ _ _ => Except LocalFileError LocalNamespacePath
  | .validatePersistBase _ _ _ => Except LocalFileError Unit
  | .relativePath _ => IoResult Path
  | .resolvePath _ _ _ => Except LocalFileError Path
  | .prepareParent _ _ _ => IoResult (List Path)
  | .rename _ _ _ => RenameAnswer
  | .syncParentDir _ _ => IoResult Unit
  | .removeFile _ _ => IoResult Unit
  | .tree call => call.Result
  | .removeSandbox _ _ => IoResult Unit

/-- The operations of a resource with fields of its own in `ρ`. -/
abbrev TempM (ρ ε α : Type) := Proc.Recorded TempCall TempCall.Result (LocalTemp ρ) ε α

abbrev TempEvent (ρ : Type) := Event (LocalTemp ρ × TempCall) fun c => c.2.Result

abbrev TempHistory (ρ : Type) := Proc.History TempCall TempCall.Result (LocalTemp ρ)

/-! ## 3. The core -/

namespace LocalTempResourceCore

variable (core : LocalTempResourceCore)

def sourceState : LocalTempSourceState :=
  match core.state with
  | .owned => .owned
  | .sandboxPending => .cleanupRequired
  | .released => .released
  | .indeterminate => .indeterminate

def ensurePublishable : IoResult Unit :=
  if core.state ≠ .owned then
    .error ⟨.invalidInput, "temporary resource does not own a publishable source", none⟩
  else .ok ()

def ensureCleanupSafe : IoResult Unit :=
  if core.state = .indeterminate then
    .error ⟨.invalidInput, "temporary resource source is indeterminate; cleanup is unsafe", none⟩
  else .ok ()

def scope : LocalFileSystemScope :=
  match core.backend with
  | .host _ _ => .host
  | .rooted _ _ _ => .rooted

/-- The path by which the authority names the entry. -/
def sourcePath : Path :=
  match core.backend with
  | .host _ _ => core.path
  | .rooted _ relativePath _ => relativePath

def sandboxPath : Path :=
  match core.backend with
  | .host _ sandboxPath => sandboxPath
  | .rooted _ _ sandboxPath => sandboxPath

def cleanupPath : Path := core.sandboxPath

def contextualizeError (error : LocalFileError) : LocalFileError :=
  match core.creationCurrentDirectory with
  | some directory => error.withCurrentDirectory directory
  | none => error

def persistError (error : IoError) (requestedTarget : Path) (resolvedTarget : Option Path)
    (stage : LocalPersistStage) (publication : LocalPersistFailureState) : LocalPersistError :=
  let error := LocalPersistError.new error requestedTarget resolvedTarget stage publication
    core.sourceState
  match core.creationCurrentDirectory with
  | some directory => error.withCurrentDirectory directory
  | none => error

@[simp] theorem persistError_state {error : IoError} {requestedTarget : Path}
    {resolvedTarget : Option Path} {stage : LocalPersistStage}
    {publication : LocalPersistFailureState} :
    (core.persistError error requestedTarget resolvedTarget stage publication).state =
      publication := by
  unfold persistError
  cases core.creationCurrentDirectory with
  | none => rfl
  | some directory => rfl

end LocalTempResourceCore

section Core

variable {ρ ε α : Type}

def call (c : TempCall) : TempM ρ ε c.Result := Proc.ask c
def identityAt (path : Path) : TempM ρ ε (IoResult LocalFileIdentity) := call (.identityAt path)
def symlinkMetadata (path : Path) : TempM ρ ε (IoResult Metadata) := call (.symlinkMetadata path)
def resolvePath (scope : LocalFileSystemScope) (path : Path) (policy : LocalSymlinkPolicy) :
    TempM ρ ε (Except LocalFileError Path) := call (.resolvePath scope path policy)
def relativePath (path : Path) : TempM ρ ε (IoResult Path) := call (.relativePath path)
def prepareParent (scope : LocalFileSystemScope) (target : Path) (create : Bool) :
    TempM ρ ε (IoResult (List Path)) := call (.prepareParent scope target create)
def preparePersistTarget (scope : LocalFileSystemScope) (base : Option Path) (target : Path) :
    TempM ρ ε (Except LocalFileError LocalNamespacePath) :=
  call (.preparePersistTarget scope base target)
def validatePersistBase (scope : LocalFileSystemScope) (base : Path) (policy : LocalSymlinkPolicy) :
    TempM ρ ε (Except LocalFileError Unit) := call (.validatePersistBase scope base policy)
def rename (method : RenameMethod) (source target : Path) : TempM ρ ε RenameAnswer :=
  call (.rename method source target)
def removeSandbox (scope : LocalFileSystemScope) (path : Path) : TempM ρ ε (IoResult Unit) :=
  call (.removeSandbox scope path)

def setState (state : LocalTempResourceState) : TempM ρ ε Unit :=
  Proc.modify fun s => { s with core := { s.core with state := state } }

/-- Whether the authority still names the entry that was created. -/
def identityMatches : TempM ρ ε (IoResult Bool) := do
  let s ← Proc.get
  match s.core.backend with
  | .host identity _ => do
    let found ← identityAt s.core.path
    pure (found.map (identity == ·))
  | .rooted identity relativePath _ => do
    let found ← symlinkMetadata relativePath
    pure (found.map (·.isSameFile identity))

def notTheEntry : IoError :=
  ⟨.invalidInput, "temporary resource path no longer names the created entry", none⟩

def ensureIdentityMatches : TempM ρ ε (IoResult Unit) := do
  let s ← Proc.get
  match s.core.ensurePublishable with
  | .error error => pure (.error error)
  | .ok () =>
    match ← identityMatches with
    | .ok true => pure (.ok ())
    | .ok false => do
      setState .indeterminate
      pure (.error notTheEntry)
    | .error error => do
      setState .indeterminate
      pure (.error error)

def recordNativePersistFailure (error : IoError) : TempM ρ ε LocalPersistFailureState := do
  let publication := LocalPersistFailureState.fromNativeError error.kind
  match publication with
  | .indeterminate => setState .indeterminate
  | _ =>
    match ← ensureIdentityMatches with
    | .ok () => pure ()
    | .error _ => setState .indeterminate
  pure publication

def releaseSandbox : TempM ρ ε (IoResult Unit) := do
  let s ← Proc.get
  removeSandbox s.core.scope s.core.sandboxPath

/-! ## 4. Publication -/

/-- `return Err(self.persist_error(..))` -/
def persistError (error : IoError) (requestedTarget : Path) (resolvedTarget : Option Path)
    (stage : LocalPersistStage) (publication : LocalPersistFailureState) :
    TempM ρ LocalPersistError α := do
  let s ← Proc.get
  Proc.exit (s.core.persistError error requestedTarget resolvedTarget stage publication)

def orPersistError (requestedTarget : Path) (resolvedTarget : Option Path)
    (stage : LocalPersistStage) : IoResult α → TempM ρ LocalPersistError α
  | .ok a => pure a
  | .error error => persistError error requestedTarget resolvedTarget stage .notPublished

/-- The sandbox of a published entry goes without the caller being told of a failure otherwise
    than in the outcome. -/
def releaseAfterPublication (namespaceTarget : Path) (durable : Bool) :
    TempM ρ ε LocalPersistOutcome := do
  let result ← releaseSandbox
  let s ← Proc.get
  let cleanupError := match result with
    | .ok () => none
    | .error error => some (s.core.contextualizeError
        (.fromIo .cleanup (some s.core.cleanupPath) none error))
  setState .released
  pure
    { path := namespaceTarget
      method := .atomicRename
      atomic := true
      durable := durable
      cleanupError := cleanupError }

/-- The destination inside the authority, with its parent prepared, and the directories created
    for it. -/
def prepareDestination (requestedTarget : Path) (target : LocalNamespacePath) (create : Bool) :
    TempM ρ LocalPersistError (Path × List Path) := do
  let resolvedTarget := some target.namespaceAbsolute
  let s ← Proc.get
  match s.core.scope with
  | .host => do
    let resolved ← resolvePath .host target.authorityRelative s.core.symlinkPolicy
    let path ← orPersistError requestedTarget resolvedTarget .resolveTarget
      (resolved.mapError (·.intoIoError))
    let prepared ← prepareParent .host path create
    let created ← orPersistError requestedTarget resolvedTarget .prepareParent prepared
    pure (path, created)
  | .rooted => do
    let relative ← relativePath target.authorityRelative
    let relative ← orPersistError requestedTarget resolvedTarget .resolveTarget relative
    let resolved ← resolvePath .rooted relative s.core.symlinkPolicy
    let path ← orPersistError requestedTarget resolvedTarget .resolveTarget
      (resolved.mapError (·.intoIoError))
    let prepared ← prepareParent .rooted path create
    let created ← orPersistError requestedTarget resolvedTarget .prepareParent prepared
    pure (path, created)

/-- The rename and what follows it.  `synchronize` makes the publication durable and says whether
    it did. -/
def install (method : RenameMethod) (requestedTarget : Path) (target : LocalNamespacePath)
    (destination : Path) (synchronize : TempM ρ LocalPersistError (IoResult Bool))
    (sourceDurable : Bool) : TempM ρ LocalPersistError LocalPersistOutcome := do
  let resolvedTarget := some target.namespaceAbsolute
  let s ← Proc.get
  let answer ← rename method s.core.sourcePath destination
  match answer.result with
  | .error error => do
    let publication ← recordNativePersistFailure error
    persistError error requestedTarget resolvedTarget .installDestination publication
  | .ok () => do
    setState .sandboxPending
    match ← synchronize with
    | .error error =>
      persistError error requestedTarget resolvedTarget .synchronizeDestination .published
    | .ok durable => releaseAfterPublication target.namespaceAbsolute (sourceDurable && durable)

/-- The target as the namespace names it; a rooted authority cannot replace its own root. -/
def resolveTarget (base : Option Path) (target : Path) :
    TempM ρ LocalPersistError LocalNamespacePath := do
  let s ← Proc.get
  orPersistError target none .installDestination s.core.ensurePublishable
  let prepared ← preparePersistTarget s.core.scope base target
  let resolved ← orPersistError target none .resolveTarget (prepared.mapError (·.intoIoError))
  if s.core.scope = .rooted ∧ resolved.authorityRelative = [] then
    persistError ⟨.invalidInput, "cannot replace the Rooted virtual root", none⟩ target
      (some resolved.namespaceAbsolute) .resolveTarget .notPublished
  else pure resolved

def validateBase (base : Option Path) (requestedTarget : Path) (target : LocalNamespacePath) :
    TempM ρ LocalPersistError Unit := do
  match base with
  | none => pure ()
  | some base => do
    let s ← Proc.get
    let validated ← validatePersistBase s.core.scope base s.core.symlinkPolicy
    orPersistError requestedTarget (some target.namespaceAbsolute) .resolveTarget
      (validated.mapError (·.intoIoError))

/-- `<parent>/<sandbox>/<resource>` becomes `<parent>/<resource>`. -/
def generatedTarget (resource : Path) : IoResult Path :=
  match resource.reverse with
  | name :: _ :: parent => .ok (parent.reverse ++ [name])
  | _ => .error ⟨.invalidInput, "invalid temporary resource sandbox path", none⟩

end Core

end LocalFiles.Temp
