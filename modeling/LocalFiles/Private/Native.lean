import LocalFiles.Contract
import LocalFiles.Types
import LocalFiles.Atomic.Install

/-!
# Private.Native — the creation and the removal of private entries on Unix

An entry is created relative to the handle of its parent and then looked at once more.  When
something is wrong with it, it is not removed: parent, name, handle and identity are handed to the
caller.  A recovery owner removes such entries later, each only while it still is what was created.
-/

namespace LocalFiles.Private

open Interaction
open Atomic (UnixTarget)

/-! ## 1. Native calls -/

/-- What `File::metadata` tells; `owned` means that the user is the effective one. -/
structure FileMetadata (I : Type) where
  identity : I
  kind : EntryKind
  owned : Bool
  mode : Nat
  deriving DecidableEq, Repr

/-- What `fstat` and `fstatat` tell; the nanoseconds of the times may be invalid. -/
structure FileStat (I : Type) where
  identity : I
  kind : EntryKind
  timesValid : Bool := true
  deriving DecidableEq, Repr

/-- Handles are named by the files they lead to.  The calls by path start at the directory in which
    temporary entries are created. -/
inductive EntryCall (I : Type) where
  | clone (file : I)
  | metadata (file : I)
  | fileStat (file : I)
  | nameStat (parent : I) (name : String)
  | createFile (parent : I) (name : String) (mode : Nat)
  | makeDirectory (parent : I) (name : String) (mode : Nat)
  | openDirectory (parent : I) (name : String)
  | changeMode (file : I) (mode : Nat)
  | hasAcl (file : I) (default : Bool)
  | unlink (parent : I) (name : String) (directory : Bool)
  | prepareParent
  | openPath (below : Path)
  | createFilePath (below : Path) (mode : Nat)
  | makeDirectoryPath (below : Path) (mode : Nat)
  | pathMetadata (below : Path)
  | randomName
  deriving DecidableEq, Repr

/-- `prepareParent` stands for the steps that bind, create and check the parent. -/
def EntryCall.Result {I : Type} : EntryCall I → Type
  | .clone _ => IoResult Unit
  | .metadata _ => IoResult (FileMetadata I)
  | .fileStat _ => IoResult (FileStat I)
  | .nameStat _ _ => IoResult (FileStat I)
  | .createFile _ _ _ => IoResult I
  | .makeDirectory _ _ _ => IoResult Unit
  | .openDirectory _ _ => IoResult I
  | .changeMode _ _ => IoResult Unit
  | .hasAcl _ _ => IoResult Bool
  | .unlink _ _ _ => IoResult Unit
  | .prepareParent => Except LocalFileError Unit
  | .openPath _ => IoResult I
  | .createFilePath _ _ => IoResult I
  | .makeDirectoryPath _ _ => IoResult Unit
  | .pathMetadata _ => IoResult (FileMetadata I)
  | .randomName => IoResult String

abbrev EntryM (I : Type) := Prog (EntryCall I) EntryCall.Result

abbrev EntryEvent (I : Type) := Event (EntryCall I) EntryCall.Result

section Calls

variable {I : Type}

def entryCall (c : EntryCall I) : EntryM I c.Result := Prog.request c
def tryClone (file : I) : EntryM I (IoResult Unit) := entryCall (.clone file)
def readMetadata (file : I) : EntryM I (IoResult (FileMetadata I)) := entryCall (.metadata file)
def fstat (file : I) : EntryM I (IoResult (FileStat I)) := entryCall (.fileStat file)
def fstatat (parent : I) (name : String) : EntryM I (IoResult (FileStat I)) :=
  entryCall (.nameStat parent name)
def openExclusive (parent : I) (name : String) (mode : Nat) : EntryM I (IoResult I) :=
  entryCall (.createFile parent name mode)
def mkdirat (parent : I) (name : String) (mode : Nat) : EntryM I (IoResult Unit) :=
  entryCall (.makeDirectory parent name mode)
def openDirectoryAt (parent : I) (name : String) : EntryM I (IoResult I) :=
  entryCall (.openDirectory parent name)
def fchmod (file : I) (mode : Nat) : EntryM I (IoResult Unit) := entryCall (.changeMode file mode)
def fgetxattr (file : I) (default : Bool) : EntryM I (IoResult Bool) :=
  entryCall (.hasAcl file default)
def unlinkat (parent : I) (name : String) (directory : Bool) : EntryM I (IoResult Unit) :=
  entryCall (.unlink parent name directory)

end Calls

/-! ## 2. Entries that are kept -/

/-- Parent and name lead to the entry; `file` is its handle. -/
structure NativePrivateEntry (I : Type) where
  parent : I
  name : String
  file : Option I
  identity : Option I
  directory : Bool
  deriving DecidableEq, Repr

structure NativePrivateCreateError (I : Type) where
  source : IoError
  retained : Option (NativePrivateEntry I)
  deriving DecidableEq, Repr

section Create

variable {I : Type}

def createError (directory : Bool) (source : IoError) (parent : I) (name : String)
    (file identity : Option I) : NativePrivateCreateError I where
  source := source
  retained := some ⟨parent, name, file, identity, directory⟩

def preCreateError (source : IoError) : NativePrivateCreateError I := ⟨source, none⟩

def denied (message : String) : IoError := ⟨.permissionDenied, message, none⟩

/-! ## 3. Creation -/

def componentName (name : String) : IoResult Unit :=
  if name = "" ∨ name = "." ∨ name = ".." ∨ name.toList.contains '/' then
    .error ⟨.invalidInput, "name must be one native path component", none⟩
  else if name.toList.contains (Char.ofNat 0) then
    .error ⟨.invalidInput, "name contains a nul byte", none⟩
  else .ok ()

def identityForFile (file : I) : EntryM I (IoResult I) := do
  pure ((← readMetadata file).map FileMetadata.identity)

def identityForName (parent : I) (name : String) : EntryM I (IoResult I) :=
  match componentName name with
  | .error error => pure (.error error)
  | .ok () => do pure ((← fstatat parent name).map FileStat.identity)

/-- `create_private_file_at_impl` -/
def createPrivateFileAt (parent : I) (name : String) :
    EntryM I (Except (NativePrivateCreateError I) I) :=
  match componentName name with
  | .error source => pure (.error (preCreateError source))
  | .ok () => do
  match ← tryClone parent with
  | .error source => pure (.error (preCreateError source))
  | .ok () =>
  match ← openExclusive parent name 0o600 with
  | .error source => pure (.error (preCreateError source))
  | .ok file =>
  match ← readMetadata file with
  | .error source => do
    let identity ← identityForFile file
    pure (.error (createError false source parent name (some file) identity.toOption))
  | .ok metadata => do
    let identity ← identityForFile file
    let mode := metadata.mode &&& 0o777
    if metadata.kind ≠ .file ∨ metadata.owned = false then
      pure (.error (createError false (denied "created entry is not an owned regular file") parent
        name (some file) identity.toOption))
    else if mode &&& 0o077 ≠ 0 ∨ mode &&& 0o600 ≠ 0o600 then
      pure (.error (createError false
        (denied "umask prevented required private file mode 0600") parent name (some file)
        identity.toOption))
    else pure (.ok file)

variable [DecidableEq I]

/-- `create_private_directory_at_impl` -/
def createPrivateDirectoryAt (parent : I) (name : String) :
    EntryM I (Except (NativePrivateCreateError I) I) :=
  match componentName name with
  | .error source => pure (.error (preCreateError source))
  | .ok () => do
  match ← tryClone parent with
  | .error source => pure (.error (preCreateError source))
  | .ok () =>
  match ← mkdirat parent name 0o700 with
  | .error source => pure (.error (preCreateError source))
  | .ok () =>
  match ← openDirectoryAt parent name with
  | .error source => pure (.error (createError true source parent name none none))
  | .ok directory =>
  match ← readMetadata directory with
  | .error source => do
    let identity ← identityForFile directory
    pure (.error (createError true source parent name (some directory) identity.toOption))
  | .ok metadata => do
    let identity ← identityForFile directory
    match ← identityForName parent name with
    | .error source =>
      pure (.error (createError true source parent name (some directory) identity.toOption))
    | .ok nameIdentity =>
      let mode := metadata.mode &&& 0o777
      if identity.toOption ≠ some nameIdentity then
        pure (.error (createError true (denied "directory entry changed after handle acquisition")
          parent name (some directory) identity.toOption))
      else if metadata.kind ≠ .directory ∨ metadata.owned = false then
        pure (.error (createError true (denied "created entry is not an owned directory") parent
          name (some directory) identity.toOption))
      else if mode &&& 0o077 ≠ 0 ∨ mode &&& 0o700 ≠ 0o700 then
        pure (.error (createError true
          (denied "umask prevented required private directory mode 0700") parent name
          (some directory) identity.toOption))
      else pure (.ok directory)

/-! ## 4. Creation for an owner -/

/-- The permission bits of directories and of files. -/
structure LocalOwnerAccessPolicy where
  unixModes : Option (Nat × Nat)
  deriving DecidableEq, Repr

def ownerMode (policy : LocalOwnerAccessPolicy) (directory : Bool) : IoResult Nat :=
  match policy.unixModes with
  | none => .error ⟨.invalidInput, "Unix owner access policy is not configured", none⟩
  | some (directoryMode, fileMode) =>
    if directoryMode ||| 0o700 ≠ 0o700 ∨ fileMode ||| 0o700 ≠ 0o700 then
      .error ⟨.invalidInput, "Unix owner modes may contain only 0o700 permission bits", none⟩
    else .ok (if directory then directoryMode else fileMode)

def aclUnsupported : IoError :=
  ⟨.unsupported, "exact Unix owner ACL verification is not implemented on this platform", none⟩

def ensureAclBackendSupported (system : UnixTarget) : IoResult Unit :=
  if system = .linux then .ok () else .error aclUnsupported

def verifyOwnerAndType (file : I) (directory : Bool) : EntryM I (IoResult Unit) := do
  match ← readMetadata file with
  | .error error => pure (.error error)
  | .ok metadata =>
    if metadata.kind ≠ (if directory then EntryKind.directory else .file) ∨ metadata.owned = false then
      pure (.error (denied "handle is not an owned entry of the expected type"))
    else pure (.ok ())

/-- One attribute of the two that `verify_no_extra_acl` asks for. -/
def verifyNoAcl (file : I) (default : Bool) : EntryM I (IoResult Unit) := do
  match ← fgetxattr file default with
  | .error error => pure (.error error)
  | .ok true => pure (.error (denied "entry has an extended POSIX ACL"))
  | .ok false => pure (.ok ())

def verifyNoExtraAcl (system : UnixTarget) (file : I) (directory : Bool) :
    EntryM I (IoResult Unit) :=
  if system = .linux then
    (verifyNoAcl file false).andThen fun _ =>
      if directory then verifyNoAcl file true else pure (.ok ())
  else pure (.error aclUnsupported)

def verifyMode (file : I) (expected : Nat) : EntryM I (IoResult Unit) := do
  match ← readMetadata file with
  | .error error => pure (.error error)
  | .ok metadata =>
    if metadata.mode &&& 0o7777 ≠ expected then
      pure (.error (denied "entry mode does not exactly match owner policy"))
    else pure (.ok ())

def verifyOwnerAccess (system : UnixTarget) (file : I) (directory : Bool)
    (policy : LocalOwnerAccessPolicy) : EntryM I (IoResult Unit) :=
  match ownerMode policy directory, ensureAclBackendSupported system with
  | .error error, _ => pure (.error error)
  | .ok _, .error error => pure (.error error)
  | .ok expected, .ok () =>
    (verifyOwnerAndType file directory).andThen fun _ =>
      (verifyMode file expected).andThen fun _ => verifyNoExtraAcl system file directory

/-- The name of a directory must still lead to its handle. -/
def verifyName (parent : I) (name : String) (identity : Option I) : EntryM I (IoResult Unit) := do
  match ← identityForName parent name with
  | .error error => pure (.error error)
  | .ok found =>
    if identity ≠ some found then
      pure (.error (denied "directory entry changed after handle acquisition"))
    else pure (.ok ())

def finishOwnerCreation (system : UnixTarget) (parent : I) (name : String) (file : I)
    (directory : Bool) (policy : LocalOwnerAccessPolicy) :
    EntryM I (Except (NativePrivateCreateError I) I) := do
  let identity ← identityForFile file
  let applied : EntryM I (IoResult Unit) :=
    match ownerMode policy directory with
    | .error error => pure (.error error)
    | .ok mode => (fchmod file mode).andThen fun _ =>
      (if directory then verifyName parent name identity.toOption else pure (.ok ())).andThen
        fun _ => verifyOwnerAccess system file directory policy
  match ← applied with
  | .ok () => pure (.ok file)
  | .error source =>
    pure (.error (createError directory source parent name (some file) identity.toOption))

/-- `create_owner_entry_at` -/
def createOwnerEntryAt (system : UnixTarget) (parent : I) (name : String) (directory : Bool)
    (policy : LocalOwnerAccessPolicy) : EntryM I (Except (NativePrivateCreateError I) I) :=
  match ownerMode policy directory, ensureAclBackendSupported system, componentName name with
  | .error source, _, _ => pure (.error (preCreateError source))
  | .ok _, .error source, _ => pure (.error (preCreateError source))
  | .ok _, .ok (), .error source => pure (.error (preCreateError source))
  | .ok mode, .ok (), .ok () => do
  match ← tryClone parent with
  | .error source => pure (.error (preCreateError source))
  | .ok () =>
    if directory then
      match ← mkdirat parent name mode with
      | .error source => pure (.error (preCreateError source))
      | .ok () =>
        match ← openDirectoryAt parent name with
        | .error source => pure (.error (createError true source parent name none none))
        | .ok file => finishOwnerCreation system parent name file true policy
    else
      match ← openExclusive parent name mode with
      | .error source => pure (.error (preCreateError source))
      | .ok file => finishOwnerCreation system parent name file false policy

end Create

/-! ## 5. Recovery -/

inductive LocalObservationRequirement where
  | required | optional
  deriving DecidableEq, Repr

/-- On Unix an observation that succeeds always has an identity. -/
structure LocalFileObservation (I : Type) where
  kind : EntryKind
  identity : Option I
  deriving DecidableEq, Repr

/-- `query_native` -/
def queryObservation {I : Type} (file : I) (requirement : LocalObservationRequirement) :
    EntryM I (Except LocalFileError (LocalFileObservation I)) := do
  match ← readMetadata file with
  | .error error => pure (.error (.fromIo .metadata none none error))
  | .ok metadata =>
  match ← fstat file with
  | .error error => pure (.error (.fromIo .metadata none none error))
  | .ok stat =>
    if requirement = .required ∧ stat.timesValid = false then
      pure (.error ((LocalFileError.new .requirementNotMet .metadata).withReason
        "required Unix identity or timestamp details are unavailable"))
    else pure (.ok ⟨metadata.kind, some stat.identity⟩)

/-- The identity as far as it can be had: `.ok().and_then(..)`. -/
def observedIdentity {I : Type} (file : I) : EntryM I (Option I) := do
  match ← queryObservation file .optional with
  | .ok observation => pure observation.identity
  | .error _ => pure none

/-- The owner of entries in the order of their cleanup.  A failed creation never leaves a live
    file, so that the resource is always a list of entries; after its cleanup there is none. -/
structure LocalTempRecovery (I : Type) where
  path : Path
  identity : Option I
  resource : Option (List (Path × NativePrivateEntry I))
  deriving DecidableEq, Repr

namespace LocalTempRecovery

variable {I : Type}

def fromNative (path : Path) (entry : NativePrivateEntry I) : LocalTempRecovery I where
  path := path
  identity := entry.identity
  resource := some [(path, entry)]

def fromNativeEntries (path : Path) (entries : List (NativePrivateEntry I)) :
    LocalTempRecovery I where
  path := path
  identity := entries.head?.bind (·.identity)
  resource := some (entries.map (path, ·))

def fromNativeEntriesWithPaths (path : Path) (entries : List (Path × NativePrivateEntry I)) :
    LocalTempRecovery I where
  path := path
  identity := entries.head?.bind (·.2.identity)
  resource := some entries

/-- `append_native_owner`: the owners are given back when one has nothing left. -/
def appendNativeOwner (owner other : LocalTempRecovery I) :
    Except (LocalTempRecovery I × LocalTempRecovery I) (LocalTempRecovery I) :=
  match other.resource with
  | none => .error (owner, other)
  | some otherEntries =>
    match owner.resource with
    | none => .error (owner, other)
    | some entries => .ok { owner with resource := some (entries ++ otherEntries) }

/-- The entries that are still owned. -/
def entries (owner : LocalTempRecovery I) : List (NativePrivateEntry I) :=
  (owner.resource.getD []).map Prod.snd

end LocalTempRecovery

section Cleanup

variable {I : Type} [DecidableEq I]

def notRemovable : LocalFileError := .new .requirementNotMet .cleanup

def cleanupIo (path : Path) (error : IoError) : LocalFileError :=
  .fromIo .cleanup (some path) none error

/-- Handle and name must both still show the entry. -/
def cleanupNativeEntry (entry : NativePrivateEntry I) (path : Path) :
    EntryM I (Except LocalFileError Unit) :=
  match entry.file with
  | none => pure (.error (notRemovable.withPath path))
  | some file =>
  match entry.identity with
  | none => pure (.error (notRemovable.withPath path))
  | some expected => do
  match ← queryObservation file .required with
  | .error error => pure (.error error)
  | .ok observed =>
    if observed.identity ≠ some expected then pure (.error notRemovable)
    else do
    match ← readMetadata file with
    | .error _ => pure (.error notRemovable)
    | .ok metadata =>
      if (decide (metadata.kind = .directory)) ≠ entry.directory then pure (.error notRemovable)
      else if entry.name.toList.contains (Char.ofNat 0) then
        pure (.error (.new .invalidPath .cleanup))
      else do
      match ← fstatat entry.parent entry.name with
      | .error error => pure (.error (cleanupIo path error))
      | .ok named =>
        if named.identity ≠ expected ∨
            named.kind ≠ (if entry.directory then EntryKind.directory else .file) then
          pure (.error notRemovable)
        else do
        match ← unlinkat entry.parent entry.name entry.directory with
        | .error error => pure (.error (cleanupIo path error))
        | .ok () => pure (.ok ())

/-- The loop over the entries: the first failure, and what is left. -/
def cleanupEntries : List (Path × NativePrivateEntry I) →
    EntryM I (Except LocalFileError Unit × List (Path × NativePrivateEntry I))
  | [] => pure (.ok (), [])
  | (path, entry) :: rest => do
    match ← cleanupNativeEntry entry path with
    | .error error =>
      pure (.error ((error.withOperation .cleanup).withPath path), (path, entry) :: rest)
    | .ok () => cleanupEntries rest

namespace LocalTempRecovery

def cleanup (owner : LocalTempRecovery I) :
    EntryM I (Except LocalFileError Unit × LocalTempRecovery I) :=
  match owner.resource with
  | none => pure (.ok (), owner)
  | some entries => do
    match ← cleanupEntries entries with
    | (.ok (), _) => pure (.ok (), { owner with resource := none })
    | (.error error, left) => pure (.error error, { owner with resource := some left })

end LocalTempRecovery

end Cleanup

/-! ## 6. Errors that own entries -/

/-- A public failure with its cleanup chain and the owner of what could not be removed. -/
structure OwningError (I : Type) where
  cause : LocalFileError
  cleanupErrors : List (LocalFileError × Option (LocalTempRecovery I)) := []
  recovery : Option (LocalTempRecovery I) := none
  deriving DecidableEq, Repr

namespace OwningError

variable {I : Type}

def of (cause : LocalFileError) : OwningError I where
  cause := cause

def withTempRecovery (error : OwningError I) (recovery : LocalTempRecovery I) : OwningError I :=
  { error with recovery := some recovery }

/-- `with_cleanup_error` replaces the chain. -/
def withCleanupError (error : OwningError I) (cleanup : LocalFileError)
    (recovery : Option (LocalTempRecovery I)) : OwningError I :=
  { error with cleanupErrors := [(cleanup, recovery)] }

/-- `with_additional_cleanup_error` appends to it. -/
def withAdditionalCleanupError (error : OwningError I) (cleanup : LocalFileError) : OwningError I :=
  { error with cleanupErrors := error.cleanupErrors ++ [(cleanup, none)] }

/-- `into_temp_recovery_parts` -/
def intoTempRecoveryParts (error : OwningError I) :
    OwningError I × Option (LocalTempRecovery I) :=
  ({ error with recovery := none }, error.recovery)

end OwningError

end LocalFiles.Private
