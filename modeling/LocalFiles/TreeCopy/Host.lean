import LocalFiles.TreeCopy.Scheduler

/-!
# Host — the copy pipeline over native paths

Every native call is answered by an environment that may fail it or change names between two
calls.  A regular file is copied into a staging file beside its destination and then moved over
it; a link is made again; a directory is merged with what is there.
-/

namespace LocalFiles.TreeCopy

open Interaction Walk Atomic

/-! ## 1. Native calls -/

/-- The targets between which the pipeline distinguishes. -/
inductive CopyTarget where
  | unix | windows | other
  deriving DecidableEq, Repr

/-- `symlinkDirectory` is `is_symlink_dir`, which only Windows knows. -/
structure CopyMetadata extends Metadata where
  permissions : Nat := 0
  symlinkDirectory : Bool := false
  deriving DecidableEq, Repr

def CopyMetadata.isRealDirectory (metadata : CopyMetadata) : Bool := metadata.kind == .directory

/-- A staging file under its name. -/
structure StagedCopy (H : Type) where
  path : Path
  file : H
  deriving DecidableEq, Repr

/-- `H` are the handles: directory readers, staging files and opened sources. -/
inductive HostCall (H : Type) where
  | now
  | symlinkMetadata (path : Path)
  | metadata (path : Path)
  | canonicalize (path : Path)
  | absolutePath (path : Path)
  | tryExists (path : Path)
  | readDir (path : Path)
  | nextEntry (reader : H)
  | fileType (path : Path)
  | createTempFile (parent : Path)
  | openSource (path : Path) (follows : Bool) (openRetryTimeout : Option Nat)
  | copyContents (source : H) (staged : StagedCopy H)
  | setStagedPermissions (staged : StagedCopy H) (permissions : Nat)
  | syncStaged (staged : StagedCopy H)
  | cleanupStaged (staged : StagedCopy H)
  | moveWithoutReplacing (staged : StagedCopy H) (path : Path)
  | replaceFile (staged : StagedCopy H) (path : Path)
  | removeFile (path : Path)
  | removeDirectorySymlink (path : Path)
  | deleteDirectory (path : Path) (deadline : Option (Nat × Nat)) (policy : LocalSymlinkPolicy)
  | createPrivateDir (path : Path)
  | readLink (path : Path)
  | createSymlink (target path : Path) (directory : Bool)
  | setPermissions (path : Path) (permissions : Nat)
  deriving DecidableEq, Repr

/-- `copyContents` is the bounded copy of the bytes, which reads the clock and both files. -/
def HostCall.Result {H : Type} : HostCall H → Type
  | .now => Nat
  | .symlinkMetadata _ => IoResult CopyMetadata
  | .metadata _ => IoResult CopyMetadata
  | .canonicalize _ => IoResult Path
  | .absolutePath _ => IoResult Path
  | .tryExists _ => IoResult Bool
  | .readDir _ => IoResult H
  | .nextEntry _ => Option (IoResult String)
  | .fileType _ => IoResult EntryKind
  | .createTempFile _ => IoResult (StagedCopy H)
  | .openSource _ _ _ => IoResult (H × Nat)
  | .copyContents _ _ => Except CopyError Nat
  | .setStagedPermissions _ _ => IoResult Unit
  | .syncStaged _ => IoResult Unit
  | .cleanupStaged _ => IoResult Unit
  | .moveWithoutReplacing _ _ => IoResult Unit
  | .replaceFile _ _ => IoResult Unit
  | .removeFile _ => IoResult Unit
  | .removeDirectorySymlink _ => IoResult Unit
  | .deleteDirectory _ _ _ => Except LocalFileError Unit
  | .createPrivateDir _ => IoResult Unit
  | .readLink _ => IoResult Path
  | .createSymlink _ _ _ => IoResult Unit
  | .setPermissions _ _ => IoResult Unit

/-- The identities of the active directories. -/
abbrev ActiveSources := List DirectoryIdentity

abbrev HostM [QubitBudget] (H α : Type) := TreeM (HostCall H) HostCall.Result ActiveSources α

variable {H α : Type}

namespace Host

/-- A native result where the stage allows any copy error. -/
def io (result : IoResult α) : Except CopyError α := result.mapError .io

theorem io_ok {answer : IoResult α} {a : α} (h : io answer = .ok a) : answer = .ok a := by
  cases answer with
  | ok b =>
    cases h
    rfl
  | error error => cases h

variable [QubitBudget]

def call (c : HostCall H) : HostM H c.Result := Proc.ask c

def now : HostM H Nat := call .now

def symlinkMetadata (path : Path) : HostM H (IoResult CopyMetadata) := call (.symlinkMetadata path)

def inContext (result : IoResult α) (stage : LocalCopyDirStage) (src dst : Path) : HostM H α :=
  withCopyContext (io result) stage src dst

/-- A deadline that is checked in the middle of an entry. -/
def inTime (stage : LocalCopyDirStage) (src dst : Path) : HostM H Unit := do
  withCopyContext (← checkDeadline now) stage src dst

/-- One of the counters is stepped. -/
def record (step : LocalCopyDirStats → Except CopyError LocalCopyDirStats) (src dst : Path) :
    HostM H Unit := do
  let s ← Proc.get
  let stats ← withCopyContext (step s.stats) .updateStatistics src dst
  Proc.modify fun s => { s with stats := stats }

/-! ## 2. Destinations -/

/-- A missing destination is no failure. -/
def destinationMetadataIfExists (dst : Path) : HostM H (IoResult (Option CopyMetadata)) := do
  match ← symlinkMetadata dst with
  | .ok metadata => pure (.ok (some metadata))
  | .error error => pure (if error.kind = .notFound then .ok none else .error error)

/-- What a failed recursive deletion says about the destination. -/
def deletionState (error : LocalFileError) : LocalCopyFailureState :=
  match error.effectState with
  | some .partiallyApplied | some .applied => .partiallyPublished
  | some .indeterminate | none => .indeterminate
  | some .unchanged => .unchanged

/-- Another entry than a real directory is left alone. -/
def removeDestinationDirectoryIfUnchanged (dst : Path) (policy : LocalSymlinkPolicy) :
    HostM H (Except (IoError × Option LocalCopyFailureState) Unit) := do
  match ← symlinkMetadata dst with
  | .ok metadata =>
    if metadata.isRealDirectory then do
      let s ← Proc.get
      match ← call (.deleteDirectory dst s.budget.deadline policy) with
      | .ok () => pure (.ok ())
      | .error error => pure (.error (error.intoIoError, some (deletionState error)))
    else pure (.ok ())
  | .error error => pure (if error.kind = .notFound then .ok () else .error (error, none))

/-- A directory link of Windows is removed by a call of its own. -/
def removeNonDirectory (target : CopyTarget) (metadata : CopyMetadata) (dst : Path) :
    HostM H (IoResult Unit) :=
  if target = .windows ∧ metadata.symlinkDirectory then call (.removeDirectorySymlink dst)
  else call (.removeFile dst)

/-- Whether the entry has been removed: one that is gone or a directory by now is not. -/
def removeDestinationNonDirectoryIfUnchanged (target : CopyTarget) (dst : Path) :
    HostM H (Except CopyError Bool) := do
  match ← checkDeadline now with
  | .error error => pure (.error error)
  | .ok () => do
    match ← symlinkMetadata dst with
    | .error error =>
      if error.kind = .notFound then do
        match ← checkDeadline now with
        | .error error => pure (.error error)
        | .ok () => pure (.ok false)
      else pure (.error (.io error))
    | .ok metadata => do
      match ← checkDeadline now with
      | .error error => pure (.error error)
      | .ok () =>
        if metadata.isRealDirectory then pure (.ok false)
        else do
          match ← removeNonDirectory target metadata dst with
          | .ok () => pure (.ok true)
          | .error error => pure (.error (.io error))

/-- `Path::display` -/
def display (path : Path) : String := "/".intercalate path

def typeConflictError (dst : Path) : CopyError :=
  .io ⟨.alreadyExists, "destination type conflicts with source directory: " ++ display dst, none⟩

/-- The action, and whether a conflicting entry has been removed. -/
def prepareExistingDirectoryDestination (target : CopyTarget) (options : LocalCopyDirOptions)
    (dst : Path) : HostM H (Except CopyError CopyDestinationAction × Bool) := do
  match ← destinationMetadataIfExists dst with
  | .error error => pure (.error (.io error), false)
  | .ok none => do
    match ← checkDeadline now with
    | .error error => pure (.error error, false)
    | .ok () => pure (.ok .create, false)
  | .ok (some metadata) => do
    match ← checkDeadline now with
    | .error error => pure (.error error, false)
    | .ok () =>
      match decideCopyDestination true (some metadata.isRealDirectory) options.conflict
          options.typeConflict with
      | none => pure (.error (typeConflictError dst), false)
      | some .replace => do
        match ← removeDestinationNonDirectoryIfUnchanged target dst with
        | .error error => pure (.error error, false)
        | .ok removed => pure (.ok .replace, removed)
      | some action => pure (.ok action, false)

/-- Whether this call made the directory: another one may have been faster. -/
def createCopyDestinationDir (dst : Path) : HostM H (Except CopyError Bool) := do
  match ← checkDeadline now with
  | .error error => pure (.error error)
  | .ok () => do
    match ← checkDeadline now with
    | .error error => pure (.error error)
    | .ok () => do
      match ← call (.createPrivateDir dst) with
      | .ok () => pure (.ok true)
      | .error error =>
        if error.kind = .alreadyExists then do
          match ← symlinkMetadata dst with
          | .error error => pure (.error (.io error))
          | .ok metadata =>
            if metadata.isRealDirectory then pure (.ok false) else pure (.error (.io error))
        else pure (.error (.io error))

/-- The action with whether a directory was made, and whether an entry has been removed. -/
def ensureCopyDestinationDir (target : CopyTarget) (options : LocalCopyDirOptions) (dst : Path) :
    HostM H (Except CopyError (CopyDestinationAction × Bool) × Bool) := do
  match ← checkDeadline now with
  | .error error => pure (.error error, false)
  | .ok () => do
    match ← prepareExistingDirectoryDestination target options dst with
    | (.error error, removed) => pure (.error error, removed)
    | (.ok action, removed) =>
      if action = .create ∨ action = .replace then do
        match ← createCopyDestinationDir dst with
        | .error error => pure (.error error, removed)
        | .ok created =>
          let action := if created = false ∧ action = .create then .merge else action
          pure (.ok (action, created), removed)
      else pure (.ok (action, false), removed)

/-! ## 3. Regular files -/

/-- `copy_dir_error_with_staging`: the staging file is cleaned up first. -/
def failWithStaging (adjust : LocalCopyDirError → LocalCopyDirError) (stage : LocalCopyDirStage)
    (src dst : Path) (error : CopyError) (staged : StagedCopy H) : HostM H α := do
  let cleanup ← call (.cleanupStaged staged)
  let cleanupError := match cleanup with
    | .ok () => none
    | .error error => some error
  failAs (fun failure => adjust (failure.withStagingContext staged.path cleanupError)) stage src dst
    error

def withStaging (result : Except CopyError α) (adjust : LocalCopyDirError → LocalCopyDirError)
    (stage : LocalCopyDirStage) (src dst : Path) (staged : StagedCopy H) : HostM H α :=
  match result with
  | .ok a => pure a
  | .error error => failWithStaging adjust stage src dst error staged

def atomicallyUnchanged (failure : LocalCopyDirError) : LocalCopyDirError :=
  failure.withAtomicDestinationState .unchanged

/-- `parent_dir_for` -/
def parentDirFor (path : Path) : Path := path.dropLast

/-- The last part of `stage_copy_file`. -/
def synchronizeStaged (options : LocalCopyDirOptions) (src dst : Path) (staged : StagedCopy H)
    (copied : Nat) : HostM H (StagedCopy H × Nat × Bool) :=
  match options.durability with
  | .notRequired => pure (staged, copied, false)
  | .preferred => do
    match ← call (.syncStaged staged) with
    | .ok () => pure (staged, copied, true)
    | .error _ => pure (staged, copied, false)
  | .required => do
    let synced ← call (.syncStaged staged)
    withStaging (io synced) id .synchronizeFile src dst staged
    pure (staged, copied, true)

/-- The part of `stage_copy_file` after the bytes. -/
def completeStaged (options : LocalCopyDirOptions) (src dst : Path) (staged : StagedCopy H)
    (permissions copied : Nat) : HostM H (StagedCopy H × Nat × Bool) := do
  withStaging (← checkDeadline now) atomicallyUnchanged .copyFileContents src dst staged
  if options.preservePermissions then do
    let applied ← call (.setStagedPermissions staged permissions)
    withStaging (io applied) id .preservePermissions src dst staged
  synchronizeStaged options src dst staged copied

/-- What `budget.copy` leaves in the budget. -/
def chargeStaged (src dst : Path) (staged : StagedCopy H) (copied : Nat) : HostM H Unit := do
  let s ← Proc.get
  let budget ← withStaging (s.budget.chargeCopied copied) id .copyFileContents src dst staged
  Proc.modify fun s => { s with budget := budget }

/-- The staging file with its handle closed, the bytes copied, and whether they are durable. -/
def stageCopyFile (options : LocalCopyDirOptions) (src dst : Path) :
    HostM H (StagedCopy H × Nat × Bool) := do
  let staged ← inContext (← call (.createTempFile (parentDirFor dst))) .prepareDestination src dst
  let opened ← call (.openSource src options.symlinkPolicy.follows options.openRetryTimeout)
  let (source, permissions) ← withStaging (io opened) id .copyFileContents src dst staged
  let copied ← withStaging (← call (.copyContents source staged)) id .copyFileContents src dst staged
  chargeStaged src dst staged copied
  completeStaged options src dst staged permissions copied

/-- The staging file is moved to its destination. -/
def commitCall (options : LocalCopyDirOptions) (dst : Path) (staged : StagedCopy H) :
    HostM H (IoResult Unit) :=
  match options.conflict with
  | .fail | .skip => call (.moveWithoutReplacing staged dst)
  | .overwrite => call (.replaceFile staged dst)

/-- The last part of `commit_staged_copy_file`. -/
def installStaged (options : LocalCopyDirOptions) (src dst : Path) (staged : StagedCopy H) :
    HostM H Bool := do
  match ← commitCall options dst staged with
  | .ok () => pure true
  | .error error =>
    if options.conflict = .skip ∧ error.kind = .alreadyExists then do
      match ← call (.cleanupStaged staged) with
      | .ok () => pure false
      | .error source =>
        failAs (fun failure => failure.withStagingContext staged.path none) .cleanupTemporaryFile
          src dst (.io source)
    else failWithStaging id .commitFile src dst (.io error) staged

/-- A deadline that passes before the commit. -/
def lateCommit (removes : Bool) (failure : LocalCopyDirError) : LocalCopyDirError :=
  if removes then failure.withFailureState .partiallyPublished
  else failure.withAtomicDestinationState .unchanged

/-- `options.remove_destination_directory` is `removes` here.  The result is `false` where a racing
    destination is skipped. -/
def commitStagedCopyFile (options : LocalCopyDirOptions) (src dst : Path) (removes : Bool)
    (staged : StagedCopy H) : HostM H Bool := do
  withStaging (← checkDeadline now) atomicallyUnchanged
    (if removes then .prepareDestination else .commitFile) src dst staged
  if removes then do
    match ← removeDestinationDirectoryIfUnchanged dst options.symlinkPolicy with
    | .ok () => pure ()
    | .error (error, state) =>
      failWithStaging (fun failure => { failure with failureState := state }) .prepareDestination
        src dst (.io error) staged
  withStaging (← checkDeadline now) (lateCommit removes) .commitFile src dst staged
  installStaged options src dst staged

/-- What `copy_file_with_options` does with the destination it finds: `none` skips the entry,
    and otherwise it says whether a directory has to be removed. -/
def fileDestination (options : LocalCopyDirOptions) (src dst : Path)
    (metadata : Option CopyMetadata) : HostM H (Option Bool) :=
  match metadata with
  | none => pure (some false)
  | some metadata =>
    if metadata.isRealDirectory then
      match decideCopyDestination false (some true) options.conflict options.typeConflict with
      | some .replace => pure (some true)
      | some .skip => pure none
      | _ => fail .prepareDestination src dst
          (.io ⟨.alreadyExists, "destination type conflicts with source file: " ++ display dst, none⟩)
    else
      match options.conflict with
      | .fail => fail .prepareDestination src dst
          (.io ⟨.alreadyExists, "destination already exists: " ++ display dst, none⟩)
      | .skip => pure none
      | .overwrite => pure (some false)

def copyFileWithOptions (options : LocalCopyDirOptions) (src dst : Path) : HostM H Unit := do
  let metadata ← inContext (← destinationMetadataIfExists dst) .prepareDestination src dst
  match ← fileDestination options src dst metadata with
  | none => record recordSkippedFile src dst
  | some removes => do
    let (staged, copied, durable) ← stageCopyFile options src dst
    if ← commitStagedCopyFile options src dst removes staged then do
      record (recordCopiedFile copied) src dst
      if metadata.isSome then record recordOverwrittenEntry src dst
      Proc.modify fun s => { s with stats := { s.stats with
        nonAtomicPublication := s.stats.nonAtomicPublication || removes
        filesDurable := s.stats.filesDurable && durable } }
    else record recordSkippedFile src dst

/-! ## 4. Links -/

/-- Windows asks for the kind of the link once more. -/
def createSymlinkEntry (target : CopyTarget) (linkTarget src dst : Path) : HostM H (IoResult Unit) :=
  match target with
  | .unix => call (.createSymlink linkTarget dst false)
  | .windows => do
    match ← symlinkMetadata src with
    | .error error => pure (.error error)
    | .ok metadata => call (.createSymlink linkTarget dst metadata.symlinkDirectory)
  | .other =>
    pure (.error ⟨.unsupported, "symbolic links are unsupported on this platform", none⟩)

/-- The destination that a link replaces. -/
def removeLinkDestination (target : CopyTarget) (options : LocalCopyDirOptions) (dst : Path)
    (metadata : Option CopyMetadata) :
    HostM H (Except (IoError × Option LocalCopyFailureState) Unit) :=
  match metadata with
  | some metadata =>
    if metadata.isRealDirectory then removeDestinationDirectoryIfUnchanged dst options.symlinkPolicy
    else do
      let removed ← removeNonDirectory target metadata dst
      pure (removed.mapError fun error => (error, none))
  | none => do
    let removed ← call (.removeFile dst)
    pure (Except.mapError (fun error => (error, none)) removed)

/-- The stage of the last steps says whether the name has been cleared. -/
def linkStage (replaces : Bool) : LocalCopyDirStage :=
  if replaces then .publishSymlinkPartially else .publishSymlinkUnchanged

/-- The last part of `copy_symlink_with_options`. -/
def publishSymlink (target : CopyTarget) (linkTarget src dst : Path) (replaces overwrites : Bool) :
    HostM H Unit := do
  inTime (linkStage replaces) src dst
  inContext (← createSymlinkEntry target linkTarget src dst) (linkStage replaces) src dst
  record (recordCopiedFile 0) src dst
  if overwrites then record recordOverwrittenEntry src dst
  Proc.modify fun s => { s with stats := { s.stats with
    nonAtomicPublication := true
    filesDurable := false } }

def copySymlinkWithOptions (target : CopyTarget) (options : LocalCopyDirOptions) (src dst : Path) :
    HostM H Unit := do
  inTime .publishSymlinkUnchanged src dst
  let metadata ← inContext (← destinationMetadataIfExists dst) .prepareDestination src dst
  match decideCopyDestination false (metadata.map CopyMetadata.isRealDirectory) options.conflict
      options.typeConflict with
  | none => fail .prepareDestination src dst (.io ⟨.alreadyExists, "", none⟩)
  | some .skip => record recordSkippedFile src dst
  | some action => do
    let linkTarget ← inContext (← call (.readLink src)) .copyFileContents src dst
    inTime .publishSymlinkUnchanged src dst
    if action = .replace then do
      match ← removeLinkDestination target options dst metadata with
      | .ok () => pure ()
      | .error (error, state) =>
        failAs (fun failure => { failure with failureState := state }) .prepareDestination src dst
          (.io error)
    publishSymlink target linkTarget src dst (action = .replace) metadata.isSome

/-! ## 5. Directories -/

/-- `Path::starts_with`, component by component. -/
def startsWith (path base : Path) : Bool := base.isPrefixOf path

def metadataForCopySource (path : Path) (policy : LocalSymlinkPolicy) :
    HostM H (IoResult CopyMetadata) := do
  match ← symlinkMetadata path with
  | .error error => pure (.error error)
  | .ok metadata =>
    if metadata.kind = .symlink then
      if policy.follows then call (.metadata path)
      else pure (.error ⟨.unsupported, "symbolic links are not followed: " ++ display path, none⟩)
    else pure (.ok metadata)

/-- The metadata and the identity of a source that may be entered. -/
def inspectCopySourceDirectory (options : LocalCopyDirOptions) (destinationRoot src : Path) :
    HostM H (IoResult (CopyMetadata × DirectoryIdentity)) := do
  match ← metadataForCopySource src options.symlinkPolicy with
  | .error error => pure (.error error)
  | .ok metadata =>
    if metadata.kind ≠ .directory then
      pure (.error ⟨.invalidInput, "source is not a directory: " ++ display src, none⟩)
    else do
      match ← call (.canonicalize src) with
      | .error error => pure (.error error)
      | .ok canonical =>
        if startsWith destinationRoot canonical || startsWith canonical destinationRoot then
          pure (.error ⟨.invalidInput,
            "destination must not be inside source or be its ancestor: source=" ++ display src ++
              ", destination=" ++ display destinationRoot, none⟩)
        else pure (.ok (metadata, .fromRootedMetadata metadata.toMetadata canonical))

structure CopyDirFrame (H : Type) where
  src : Path
  dst : Path
  depth : Nat
  sourceIdentity : DirectoryIdentity
  sourcePermissions : Nat
  entries : H
  deriving DecidableEq, Repr

/-- The end of `enter_copy_directory`: the source is opened and becomes active. -/
def readCopyDirectory (src dst : Path) (depth : Nat) (metadata : CopyMetadata)
    (identity : DirectoryIdentity) : HostM H (Option (CopyDirFrame H)) := do
  let s ← Proc.get
  let budget ← withCopyContext s.budget.acquireDirectory .readSourceDirectory src dst
  Proc.modify fun s => { s with budget := budget }
  let entries ← inContext (← call (.readDir src)) .readSourceDirectory src dst
  Proc.modify fun s => { s with backend := identity :: s.backend }
  pure (some ⟨src, dst, depth, identity, metadata.permissions, entries⟩)

/-- The part of `enter_copy_directory` after the destination is there. -/
def openCopyDirectory (options : LocalCopyDirOptions) (src dst : Path) (depth : Nat)
    (metadata : CopyMetadata) (identity : DirectoryIdentity) (action : CopyDestinationAction) :
    HostM H (Option (CopyDirFrame H)) := do
  if action = .replace ∨ (action = .merge ∧ options.conflict = .overwrite) then
    record recordOverwrittenEntry src dst
  readCopyDirectory src dst depth metadata identity

/-- `None` skips the directory. -/
def enterCopyDirectory (target : CopyTarget) (options : LocalCopyDirOptions) (destinationRoot : Path)
    (src dst : Path) (depth : Nat) : HostM H (Option (CopyDirFrame H)) := do
  inTime .inspectSource src dst
  let s ← Proc.get
  withCopyContext (s.budget.checkDepth depth) .inspectSource src dst
  let (metadata, identity) ← inContext (← inspectCopySourceDirectory options destinationRoot src)
    .inspectSource src dst
  if identity ∈ s.backend then
    fail .inspectSource src dst
      (.io ⟨.invalidInput, "source directory cycle detected: " ++ display src, none⟩)
  let (prepared, removed) ← ensureCopyDestinationDir target options dst
  match prepared with
  | .error error =>
    failAs (fun failure => if removed then failure.withFailureState .partiallyPublished
      else failure) .prepareDestination src dst error
  | .ok (action, created) =>
    if action = .skip then do
      record recordSkippedFile src dst
      pure none
    else do
      if created then record recordCreatedDirectory src dst
      openCopyDirectory options src dst depth metadata identity action

/-- A directory that a link leads to has to lie below the canonical scope. -/
def checkScope (src dst : Path) : Option Path → HostM H Unit
  | none => pure ()
  | some scopeRoot => do
    let canonical ← inContext (← call (.canonicalize src)) .inspectSourceEntry src dst
    if startsWith canonical scopeRoot then pure ()
    else
      fail .inspectSourceEntry src dst
        (.io ⟨.invalidInput,
          "followed symbolic-link directory escaped copy scope: " ++ display src, none⟩)

/-- Whether a link that may be followed leads to a directory. -/
def symlinkTargetIsDirectory (src dst : Path) (scopeRoot : Option Path) : HostM H Bool := do
  checkScope src dst scopeRoot
  match ← call (.metadata src) with
  | .error error =>
    if error.kind = .notFound then pure false
    else fail .inspectSourceEntry src dst (.io error)
  | .ok metadata =>
    match metadata.kind with
    | .directory => pure true
    | .file => pure false
    | .symlink | .other =>
      fail .inspectSourceEntry src dst
        (.io ⟨.unsupported, "unsupported symbolic link target type: " ++ display src, none⟩)

/-- The frame's end: its identity is no longer active, and its permit goes back. -/
def finishFrame (options : LocalCopyDirOptions) (frame : CopyDirFrame H) : HostM H Unit := do
  Proc.modify fun s => { s with
    backend := s.backend.filter (· ≠ frame.sourceIdentity)
    budget := s.budget.releaseDirectory }
  if options.preservePermissions then do
    let s ← Proc.get
    let previousEffect := s.stats.metadataEffect
    Proc.modify fun s => { s with stats := { s.stats with metadataEffect := .indeterminate } }
    inContext (← call (.setPermissions frame.dst frame.sourcePermissions)) .preservePermissions
      frame.src frame.dst
    if previousEffect ≠ .indeterminate then
      Proc.modify fun s => { s with stats := { s.stats with metadataEffect := .applied } }

/-- What the listing of a directory says about one entry. -/
structure DirEntry where
  path : Path
  fileName : String
  deriving DecidableEq, Repr

def processEntry (target : CopyTarget) (options : LocalCopyDirOptions) (destinationRoot : Path)
    (scopeRoot : Option Path) (entry : DirEntry) (frame : CopyTreeFrameContext) :
    HostM H (Option (CopyDirFrame H)) := do
  let kind ← inContext (← call (.fileType entry.path)) .inspectSourceEntry frame.source
    frame.destination
  match kind with
  | .directory =>
    enterCopyDirectory target options destinationRoot frame.source frame.destination frame.depth
  | .symlink => do
    let follows ← if options.symlinkPolicy.follows then
        symlinkTargetIsDirectory frame.source frame.destination scopeRoot
      else pure false
    if follows then
      enterCopyDirectory target options destinationRoot frame.source frame.destination frame.depth
    else do
      copySymlinkWithOptions target options frame.source frame.destination
      pure none
  | .file | .other => do
    copyFileWithOptions options frame.source frame.destination
    pure none

/-- `HostCopyBackend` -/
def backend (target : CopyTarget) (options : LocalCopyDirOptions) (destinationRoot : Path)
    (scopeRoot : Option Path) :
    CopyTreeBackend (HostCall H) HostCall.Result ActiveSources (CopyDirFrame H) DirEntry where
  now := now
  frameContext frame := ⟨frame.src, frame.dst, frame.depth⟩
  nextEntry frame := do
    match ← call (.nextEntry frame.entries) with
    | none => pure none
    | some result => do
      let name ← inContext result .readSourceDirectory frame.src frame.dst
      pure (some ⟨frame.src ++ [name], name⟩)
  childContext frame entry :=
    ⟨entry.path, frame.destination ++ [entry.fileName], frame.depth + 1⟩
  processEntry := processEntry target options destinationRoot scopeRoot
  finishFrame := finishFrame options

/-- For at most `bound` turns of the scheduler. -/
def copyDirIterative (target : CopyTarget) (options : LocalCopyDirOptions) (src dst : Path)
    (destinationRoot : Path) (scopeRoot : Option Path) (bound : Nat) : HostM H Unit := do
  match ← enterCopyDirectory target options destinationRoot src dst 0 with
  | none => pure ()
  | some root => copyTree (backend target options destinationRoot scopeRoot) bound [root]

/-! ## 6. The whole pipeline -/

def noExistingPrefix (path : Path) : IoError :=
  ⟨.notFound, "path has no existing prefix: " ++ display path, none⟩

/-- The loop of `canonicalize_existing_prefix`: `current` is reversed, `missing` what was popped. -/
def existingPrefix (path : Path) : List String → Path → HostM H (IoResult Path)
  | current, missing => do
    match ← call (.tryExists current.reverse) with
    | .error error => pure (.error error)
    | .ok true => do
      let canonical ← call (.canonicalize current.reverse)
      pure (Except.map (· ++ missing) canonical)
    | .ok false =>
      match current with
      | [] => pure (.error (noExistingPrefix path))
      | name :: current =>
        if name = ".." then pure (.error (noExistingPrefix path))
        else existingPrefix path current (name :: missing)

def canonicalizeExistingPrefix (path : Path) : HostM H (IoResult Path) := do
  match ← call (.tryExists path) with
  | .error error => pure (.error error)
  | .ok true => call (.canonicalize path)
  | .ok false =>
    if path = [] then call (.canonicalize path)
    else do
      match ← call (.absolutePath path) with
      | .error error => pure (.error error)
      | .ok current => existingPrefix path current.reverse []

/-- An empty destination is reported by what comes after. -/
def absoluteDestination (dst : Path) : HostM H (IoResult Path) :=
  if dst = [] then pure (.ok dst) else call (.absolutePath dst)

def canonicalScope (src dst : Path) : Option Path → HostM H (Option Path)
  | none => pure none
  | some scopeRoot => do
    let canonical ← inContext (← call (.canonicalize scopeRoot)) .inspectSource src dst
    pure (some canonical)

/-- The public pipeline; the statistics of a copy that succeeds are those left behind. -/
def copyDirAllWithScope (target : CopyTarget) (options : LocalCopyDirOptions) (src dst : Path)
    (scopeRoot : Option Path) (bound : Nat) : HostM H LocalCopyDirStats := do
  let source ← inContext (← call (.absolutePath src)) .inspectSource src dst
  let destination ← inContext (← absoluteDestination dst) .prepareDestination source dst
  let destinationRoot ← inContext (← canonicalizeExistingPrefix destination) .prepareDestination
    source destination
  let scope ← canonicalScope source destination scopeRoot
  copyDirIterative target options source destination destinationRoot scope bound
  let s ← Proc.get
  pure s.stats

/-! ## 7. Denial -/

def denied : IoError := ⟨.permissionDenied, "denied", none⟩

/-- What an environment answers that denies every call. -/
def deniedAnswer : (c : HostCall H) → c.Result
  | .now => (0 : Nat)
  | .nextEntry _ => (none : Option (IoResult String))
  | .symlinkMetadata _ => (.error denied : IoResult CopyMetadata)
  | .metadata _ => (.error denied : IoResult CopyMetadata)
  | .canonicalize _ => (.error denied : IoResult Path)
  | .absolutePath _ => (.error denied : IoResult Path)
  | .tryExists _ => (.error denied : IoResult Bool)
  | .readDir _ => (.error denied : IoResult H)
  | .fileType _ => (.error denied : IoResult EntryKind)
  | .createTempFile _ => (.error denied : IoResult (StagedCopy H))
  | .openSource _ _ _ => (.error denied : IoResult (H × Nat))
  | .copyContents _ _ => (.error (.io denied) : Except CopyError Nat)
  | .setStagedPermissions _ _ => (.error denied : IoResult Unit)
  | .syncStaged _ => (.error denied : IoResult Unit)
  | .cleanupStaged _ => (.error denied : IoResult Unit)
  | .moveWithoutReplacing _ _ => (.error denied : IoResult Unit)
  | .replaceFile _ _ => (.error denied : IoResult Unit)
  | .removeFile _ => (.error denied : IoResult Unit)
  | .removeDirectorySymlink _ => (.error denied : IoResult Unit)
  | .deleteDirectory _ _ _ => (.error (.fromIo .copy none none denied) : Except LocalFileError Unit)
  | .createPrivateDir _ => (.error denied : IoResult Unit)
  | .readLink _ => (.error denied : IoResult Path)
  | .createSymlink _ _ _ => (.error denied : IoResult Unit)
  | .setPermissions _ _ => (.error denied : IoResult Unit)

end Host

end LocalFiles.TreeCopy
