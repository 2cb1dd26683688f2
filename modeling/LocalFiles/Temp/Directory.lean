import LocalFiles.Temp.Resource

/-!
# Temp.Directory — temporary directories

A temporary directory is removed with everything in it.  The limits of a cleanup are retained;
each attempt starts with a budget of its own, and the removal of the sandbox shares its deadline.
-/

namespace LocalFiles.Temp

open Interaction

/-! ## 1. The resource -/

structure LocalTempCleanupLimits where
  maxDepth : Option Nat := none
  maxEntries : Option Nat := none
  maxPendingPathBytes : Option UInt64 := none
  deadline : Option Nat := none
  deriving DecidableEq, Repr

def LocalTempCleanupLimits.deleteOptions (limits : LocalTempCleanupLimits) :
    Delete.LocalDeleteOptions where
  maxDepth := limits.maxDepth
  maxEntries := limits.maxEntries
  maxPendingPathBytes := limits.maxPendingPathBytes
  deadline := limits.deadline

structure DirectoryFields where
  cleanupLimits : LocalTempCleanupLimits := {}
  deriving DecidableEq, Repr

abbrev LocalTempDirectory := LocalTemp DirectoryFields

/-- A directory right after its creation. -/
def LocalTempDirectory.new (path : Path) (backend : LocalTempResourceBackend)
    (policy : LocalSymlinkPolicy) (directory : Option Path) : LocalTempDirectory where
  core :=
    { path := path
      backend := backend
      state := .owned
      symlinkPolicy := policy
      creationCurrentDirectory := directory }
  own := {}

abbrev DirectoryM (ε α : Type) := TempM DirectoryFields ε α

def elapsed {ε : Type} : DirectoryM ε Nat := call .elapsed

def setCleanupLimits {ε : Type} (limits : LocalTempCleanupLimits) : DirectoryM ε Unit :=
  Proc.modify fun s => { s with own := { s.own with cleanupLimits := limits } }

/-! ## 2. Cleanup -/

section Cleanup

variable [QubitBudget] {ε α : Type}

/-- `TempDirectoryDeleteBackend` and the host backend: links are leaves. -/
def deleteBackend (encodedLen : Path → UInt64) : Delete.DeleteBackend Path Metadata where
  path := id
  encodedLen := encodedLen
  isDirectory metadata := metadata.kind == .directory

/-- A deletion with local variables of its own, inside an operation of the directory. -/
def relay : Prog (Delete.Locals Path × Delete.DeleteCall Path Metadata File)
    (fun c => c.2.Result) α → DirectoryM ε α
  | .ret a => pure a
  | .call c k => do
    let answer ← call (.tree c.2)
    relay (k answer)

/-- An exit without a result stands for a deletion longer than the bound considered. -/
abbrev CleanupM (α : Type) := DirectoryM (Option (Halt LocalFileError)) α

def orCleanup (convert : LocalTempResourceCore → IoError → LocalFileError) :
    IoResult α → CleanupM α
  | .ok a => pure a
  | .error error => do
    let s ← Proc.get
    Proc.exit (some (.error (s.core.contextualizeError (convert s.core error))))

def sourceFailure (core : LocalTempResourceCore) (error : IoError) : LocalFileError :=
  .fromIo .cleanup (some core.path) none error

/-- After the source is gone a failure leaves a change behind. -/
def sandboxFailure (removedSource : Bool) (core : LocalTempResourceCore)
    (source : Delete.DeleteSource) : LocalFileError :=
  (Delete.directoryMutationError core.cleanupPath removedSource source).withOperation .cleanup

variable (encodedLen : Path → UInt64) (bound : Nat)

/-- `remove_resource`, for deletions within `bound`. -/
def removeDirectoryResource : CleanupM Unit := do
  orCleanup sourceFailure (← ensureIdentityMatches)
  let s ← Proc.get
  let deletion := Delete.removeDirectoryTree (R := File) (deleteBackend encodedLen) bound
    s.core.sourcePath
  match (← relay (deletion (Delete.start s.own.cleanupLimits.deleteOptions))).1 with
  | .ok () => pure ()
  | .error (some (.error error)) =>
    Proc.exit (some (.error (s.core.contextualizeError (error.withOperation .cleanup))))
  | .error other => Proc.exit other

def checkCleanupDeadline (removedSource : Bool) : CleanupM Unit := do
  let s ← Proc.get
  match s.own.cleanupLimits.deadline with
  | none => pure ()
  | some limit =>
    let time ← elapsed
    if limit ≤ time then
      Proc.exit (some (.error (s.core.contextualizeError
        (sandboxFailure removedSource s.core Delete.DeleteBudget.timedOut))))

/-- The second half of `cleanup`. -/
def cleanupDirectorySandbox (removedSource : Bool) : CleanupM Unit := do
  let s ← Proc.get
  if s.core.state = .sandboxPending then do
    checkCleanupDeadline removedSource
    orCleanup (fun core error => sandboxFailure removedSource core (.io error)) (← releaseSandbox)
    setState .released

def cleanupDirectory : CleanupM Unit := do
  let s ← Proc.get
  orCleanup sourceFailure s.core.ensureCleanupSafe
  let removedSource := s.core.state == .owned
  if removedSource then do
    removeDirectoryResource encodedLen bound
    setState .sandboxPending
  cleanupDirectorySandbox removedSource

/-- A panic or a deletion beyond the bound is not caught by the drop. -/
def dropDirectory : DirectoryM (Option (Halt LocalFileError)) Unit := do
  match ← (cleanupDirectory encodedLen bound).outcome with
  | .ok () => pure ()
  | .error (some (.error _)) => pure ()
  | .error other => Proc.exit other

end Cleanup

/-! ## 3. Publication -/

section Publication

variable {α : Type}

def directoryRenameMethod (scope : LocalFileSystemScope) (overwrites : Bool) : RenameMethod :=
  match scope, overwrites with
  | .host, true => .renameDirectory
  | .host, false => .moveDirectoryWithoutReplacing
  | .rooted, true => .rootedRename
  | .rooted, false => .rootedRenameWithoutReplacing

def contentDurabilityUnavailable : IoError :=
  ⟨.unsupported, "required temporary-directory content durability cannot be guaranteed", none⟩

/-- The contents of a directory cannot be made durable. -/
def rejectRequiredDurability (options : LocalPersistOptions)
    (requestedTarget resolvedTarget : Path) : DirectoryM LocalPersistError Unit := do
  if options.durability = .required then do
    let s ← Proc.get
    Proc.exit ((s.core.persistError contentDurabilityUnavailable requestedTarget
      (some resolvedTarget) .synchronizeSource .notPublished).withKind .requirementNotMet)

def persistDirectoryWithPath (target : Path) (base : Option Path) (options : LocalPersistOptions) :
    DirectoryM LocalPersistError LocalPersistOutcome := do
  let resolved ← resolveTarget base target
  validateBase base target resolved
  orPersistError target (some resolved.namespaceAbsolute) .installDestination
    (← ensureIdentityMatches)
  rejectRequiredDurability options target resolved.namespaceAbsolute
  let (destination, _) ← prepareDestination target resolved options.createsParent
  let s ← Proc.get
  install (directoryRenameMethod s.core.scope options.overwrites) target resolved destination
    (pure (.ok false)) false

def persistDirectoryWith (target : Path) (options : LocalPersistOptions) :
    DirectoryM LocalPersistError LocalPersistOutcome :=
  persistDirectoryWithPath target none options

def persistDirectoryAt (base target : Path) (options : LocalPersistOptions) :
    DirectoryM LocalPersistError LocalPersistOutcome := do
  match ← (persistDirectoryWithPath target (some base) options).outcome with
  | .ok outcome => pure outcome
  | .error error => Proc.exit (error.withCurrentDirectory base)

def keepDirectory : DirectoryM LocalPersistError LocalPersistOutcome := do
  let s ← Proc.get
  orPersistError s.core.path none .installDestination s.core.ensurePublishable
  let target ← orPersistError s.core.path none .resolveTarget (generatedTarget s.core.path)
  persistDirectoryWithPath target none {}

end Publication

end LocalFiles.Temp
