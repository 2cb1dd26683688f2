import LocalFiles.Private.Native

/-!
# Private.Temp — the creation of temporary files and directories on the Host

A temporary entry is created inside a sandbox directory of its own.  Without required privacy both
are created by path; with it both are created relative to a handle and checked.  Whatever fails
behind the first creation hands the entries over to the recovery owner of the error.  Paths start
at the parent.
-/

namespace LocalFiles.Private

open Interaction

variable {I : Type}

/-! ## 1. The resource -/

/-- What a temporary file or directory of the Host owns; the paths start at the parent. -/
structure HostTempResource (I : Type) where
  path : Path
  sandboxPath : Path
  identity : I
  file : Option I
  fileIdentity : Option I
  deriving DecidableEq, Repr

/-- `LocalTempFile::host` -/
def hostTempFile (path sandboxPath : Path) (file : I) : EntryM I (IoResult (HostTempResource I)) := do
  match ← readMetadata file with
  | .error error => pure (.error error)
  | .ok metadata => do
    let fileIdentity ← observedIdentity file
    pure (.ok ⟨path, sandboxPath, metadata.identity, some file, fileIdentity⟩)

/-- `LocalTempDirectory::host` -/
def hostTempDirectory (path sandboxPath : Path) : EntryM I (IoResult (HostTempResource I)) := do
  match ← entryCall (.pathMetadata path) with
  | .error error => pure (.error error)
  | .ok metadata => pure (.ok ⟨path, sandboxPath, metadata.identity, none, none⟩)

/-! ## 2. Names -/

def retryCountZero : IoError :=
  ⟨.invalidInput, "temporary entry retry count must be greater than zero", none⟩

def shouldRetryCollision (error : IoError) (attempt : Nat) (maxTries : Option Nat) : Bool :=
  error.kind = .alreadyExists && maxTries.all (attempt < ·)

/-- `add_path_context` -/
def addPathContext (error : IoError) (action : String) (path : Path) : IoError :=
  ⟨error.kind, "failed to " ++ action ++ " '" ++ "/".intercalate path ++ "': " ++ error.message,
    none⟩

/-- The loop over generated names.  `none` is a run with more collisions than `bound`. -/
def createUnderRandomName {α : Type} (create : Path → EntryM I (IoResult α)) (action : String)
    (dir : Path) (maxTries : Option Nat) : Nat → Nat → EntryM I (Option (IoResult (Path × α)))
  | 0, _ => pure none
  | bound + 1, attempt => do
    match ← entryCall .randomName with
    | .error error => pure (some (.error error))
    | .ok name => do
      match ← create (dir ++ [name]) with
      | .ok a => pure (some (.ok (dir ++ [name], a)))
      | .error error =>
        if shouldRetryCollision error (attempt + 1) maxTries then
          createUnderRandomName create action dir maxTries bound (attempt + 1)
        else pure (some (.error (addPathContext error action (dir ++ [name]))))

def createTempFileInDir (dir : Path) (maxTries : Option Nat) (bound : Nat) :
    EntryM I (Option (IoResult (Path × I))) :=
  if maxTries = some 0 then pure (some (.error retryCountZero))
  else createUnderRandomName (fun path => entryCall (.createFilePath path 0o600))
    "create temporary file" dir maxTries bound 0

def createTempDirInDirWithAffixes (dir : Path) (maxTries : Option Nat) (bound : Nat) :
    EntryM I (Option (IoResult (Path × Unit))) :=
  if maxTries = some 0 then pure (some (.error retryCountZero))
  else createUnderRandomName (fun path => entryCall (.makeDirectoryPath path 0o700))
    "create temporary directory" dir maxTries bound 0

/-! ## 3. Creation by path -/

/-- How a creation ends without a resource; `unfinished` is a run that is longer than the bound
    considered. -/
inductive TempExit (I : Type) where
  | failed (error : OwningError I)
  | panicked (message : String)
  | unfinished
  deriving DecidableEq, Repr

abbrev TempResult (I α : Type) := Except (TempExit I) α

def fail {α : Type} (error : OwningError I) : TempResult I α := .error (.failed error)

def ioFailure (operation : LocalFileOperation) (path : Path) (error : IoError) : OwningError I :=
  .of (.fromIo operation (some path) none error)

def invalidPath (operation : LocalFileOperation) (path : Path) : OwningError I :=
  .of ((LocalFileError.new .invalidPath operation).withPath path)

/-- `create_host_temp_directory_entry` -/
def createHostTempDirectoryEntry (dir : Path) (parentHandle : I) (maxAttempts : Option Nat)
    (operation : LocalFileOperation) (bound : Nat) : EntryM I (TempResult I (Path × I)) := do
  match ← createTempDirInDirWithAffixes dir maxAttempts bound with
  | none => pure (.error .unfinished)
  | some (.error error) =>
    let failure := LocalFileError.fromIo operation (some dir) none error
    pure (fail (.of
      (if error.kind = .invalidInput then failure.withKind .invalidOptions else failure)))
  | some (.ok (path, ())) => do
    match ← entryCall (.openPath path) with
    | .ok handle => pure (.ok (path, handle))
    | .error error =>
      match path.getLast? with
      | none => pure (fail (invalidPath operation path))
      | some name =>
        pure (fail ((ioFailure operation path error).withTempRecovery
          (.fromNative path ⟨parentHandle, name, none, none, true⟩)))

section Cleanup

variable [DecidableEq I]

/-- `cleanup_failed_temp_owner` -/
def cleanupFailedTempOwner (primary : OwningError I) (owner : LocalTempRecovery I) :
    EntryM I (OwningError I) :=
  let (primary, priorOwner) := primary.intoTempRecoveryParts
  let merged : Except (LocalTempRecovery I × LocalTempRecovery I) (LocalTempRecovery I) :=
    match priorOwner with
    | none => .ok owner
    | some priorOwner => priorOwner.appendNativeOwner owner
  match merged with
  | .error (priorOwner, sandboxOwner) =>
    pure ((primary.withCleanupError notRemovable (some sandboxOwner)).withTempRecovery priorOwner)
  | .ok owner => do
    match ← owner.cleanup with
    | (.ok (), _) => pure primary
    | (.error error, owner) =>
      pure ((primary.withCleanupError error none).withTempRecovery owner)

/-- `cleanup_failed_temp_creation_owner` -/
def cleanupFailedTempCreationOwner (primary : OwningError I) : EntryM I (OwningError I) :=
  let (primary, recovery) := primary.intoTempRecoveryParts
  match recovery with
  | none => pure primary
  | some recovery => do
    match ← recovery.cleanup with
    | (.ok (), _) => pure primary
    | (.error error, recovery) =>
      pure ((primary.withCleanupError error none).withTempRecovery recovery)

/-- `create_host_temp_sandbox` -/
def createHostTempSandbox (operation : LocalFileOperation) (maxAttempts : Option Nat)
    (bound : Nat) : EntryM I (TempResult I (Path × NativePrivateEntry I)) := do
  match ← entryCall (.openPath []) with
  | .error error => pure (fail (ioFailure operation [] error))
  | .ok parentHandle => do
  match ← createHostTempDirectoryEntry [] parentHandle maxAttempts operation bound with
  | .error (.failed error) => do pure (fail (← cleanupFailedTempCreationOwner error))
  | .error exit => pure (.error exit)
  | .ok (sandbox, sandboxHandle) => do
    let identity ← observedIdentity sandboxHandle
    match sandbox.getLast? with
    | none => pure (fail (invalidPath operation sandbox))
    | some name =>
      pure (.ok (sandbox, ⟨parentHandle, name, some sandboxHandle, identity, true⟩))

/-- `host_temp_recovery_entries` with a child: the child comes first. -/
def hostTempRecoveryEntries (sandboxPath : Path) (sandbox : NativePrivateEntry I)
    (childPath : Path) (childHandle : I) (childIsDirectory : Bool) :
    EntryM I (Except (OwningError I) (List (Path × NativePrivateEntry I))) :=
  match sandbox.file with
  | none =>
    pure (.error (.of ((LocalFileError.new .requirementNotMet .cleanup).withPath childPath)))
  | some childParent => do
    let identity ← observedIdentity childHandle
    match childPath.getLast? with
    | none => pure (.error (invalidPath .cleanup childPath))
    | some name =>
      pure (.ok [(childPath, ⟨childParent, name, some childHandle, identity, childIsDirectory⟩),
        (sandboxPath, sandbox)])

/-- Both routes end alike once the child is created: `adopt` makes the resource of it. -/
def adoptHostChild (operation : LocalFileOperation) (sandbox : Path)
    (sandboxEntry : NativePrivateEntry I) (path : Path) (child : I) (childIsDirectory : Bool)
    (adopt : EntryM I (IoResult (HostTempResource I))) :
    EntryM I (TempResult I (HostTempResource I)) := do
  match ← hostTempRecoveryEntries sandbox sandboxEntry path child childIsDirectory with
  | .error error => pure (fail error)
  | .ok recoveryEntries => do
    match ← adopt with
    | .ok resource => pure (.ok resource)
    | .error error => do
      pure (fail (← cleanupFailedTempOwner (ioFailure operation path error)
        (.fromNativeEntriesWithPaths path recoveryEntries)))

/-- The route of a file without required privacy, in its sandbox. -/
def createHostTempFile (maxAttempts : Option Nat) (bound : Nat) :
    EntryM I (TempResult I (HostTempResource I)) :=
  (createHostTempSandbox .createTempFile maxAttempts bound).andThen fun (sandbox, sandboxEntry) => do
    match ← createTempFileInDir sandbox maxAttempts bound with
    | none => pure (.error .unfinished)
    | some (.error error) => do
      pure (fail (← cleanupFailedTempOwner (ioFailure .createTempFile sandbox error)
        (.fromNativeEntries sandbox [sandboxEntry])))
    | some (.ok (path, file)) => do
      match ← tryClone file with
      | .error error => do
        match ← hostTempRecoveryEntries sandbox sandboxEntry path file false with
        | .error error => pure (fail error)
        | .ok recoveryEntries => do
          pure (fail (← cleanupFailedTempOwner (ioFailure .createTempFile path error)
            (.fromNativeEntriesWithPaths path recoveryEntries)))
      | .ok () =>
        adoptHostChild .createTempFile sandbox sandboxEntry path file false
          (hostTempFile path sandbox file)

/-- The route of a directory without required privacy. -/
def createHostTempDirectory (maxAttempts : Option Nat) (bound : Nat) :
    EntryM I (TempResult I (HostTempResource I)) :=
  (createHostTempSandbox .createTempDirectory maxAttempts bound).andThen
    fun (sandbox, sandboxEntry) => do
    match sandboxEntry.file with
    | none =>
      pure (.error (.panicked "created sandbox retains its open directory handle"))
    | some handle => do
    match ← createHostTempDirectoryEntry sandbox handle maxAttempts .createTempDirectory bound with
    | .error (.failed primary) => do
      pure (fail (← cleanupFailedTempOwner primary (.fromNativeEntries sandbox [sandboxEntry])))
    | .error exit => pure (.error exit)
    | .ok (path, child) =>
      adoptHostChild .createTempDirectory sandbox sandboxEntry path child true
        (hostTempDirectory path sandbox)

/-! ## 4. Creation with required privacy -/

/-- `private_create_error` -/
def privateCreateError (operation : LocalFileOperation) (path : Path)
    (error : NativePrivateCreateError I) (extra : Option (NativePrivateEntry I)) : OwningError I :=
  let entries := error.retained.toList.map (path, ·) ++ extra.toList.map (path.dropLast, ·)
  if entries = [] then ioFailure operation path error.source
  else (ioFailure operation path error.source).withTempRecovery
    (.fromNativeEntriesWithPaths path entries)

/-- `native_temp_recovery` -/
def nativeTempRecovery (path : Path) (parent : I) (name : String) (file : I) (directory : Bool)
    (sandbox : Option (NativePrivateEntry I)) : EntryM I (LocalTempRecovery I) := do
  let identity ← observedIdentity file
  pure (.fromNativeEntriesWithPaths path
    ((path, ⟨parent, name, some file, identity, directory⟩) ::
      sandbox.toList.map (path.dropLast, ·)))

/-- `reserve_private_directory_guard` -/
def reservePrivateDirectoryGuard (parent : I) (name : String) (directory : I) :
    EntryM I (IoResult (NativePrivateEntry I)) := do
  match ← tryClone directory with
  | .error error => pure (.error error)
  | .ok () => do
    let identity ← observedIdentity directory
    pure (.ok ⟨parent, name, some directory, identity, true⟩)

/-- `sandbox_failure` -/
def sandboxFailure (operation : LocalFileOperation) (path : Path) (source : IoError)
    (entry : NativePrivateEntry I) : OwningError I :=
  (ioFailure operation path source).withTempRecovery (.fromNative path entry)

/-- `cleanup_private_sandbox` -/
def cleanupPrivateSandbox (path : Path) (entry : NativePrivateEntry I) :
    EntryM I (Except (OwningError I) Unit) := do
  match ← (LocalTempRecovery.fromNative path entry).cleanup with
  | (.ok (), _) => pure (.ok ())
  | (.error error, owner) => pure (.error ((OwningError.of error).withTempRecovery owner))

/-- What the two private routes do differently: how the child is created, and how it becomes the
    resource. -/
structure PrivateChild (I : Type) where
  operation : LocalFileOperation
  directory : Bool
  create : I → String → EntryM I (Except (NativePrivateCreateError I) I)
  adopt : Path → Path → I → EntryM I (IoResult (HostTempResource I))

def PrivateChild.file : PrivateChild I where
  operation := .createTempFile
  directory := false
  create := createPrivateFileAt
  adopt target sandbox file :=
    (tryClone file).andThen fun _ => hostTempFile target sandbox file

def PrivateChild.subdirectory : PrivateChild I where
  operation := .createTempDirectory
  directory := true
  create := createPrivateDirectoryAt
  adopt target sandbox _ := hostTempDirectory target sandbox

/-- A collision: nothing was created. -/
def NativePrivateCreateError.isCollision (error : NativePrivateCreateError I) : Bool :=
  error.retained.isNone && error.source.kind = .alreadyExists

/-- The child in its sandbox; nothing is returned after a collision. -/
def createPrivateChild (kind : PrivateChild I) (sandbox : Path) (sandboxHandle : I)
    (sandboxGuard : NativePrivateEntry I) :
    EntryM I (Except (OwningError I) (Option (HostTempResource I))) := do
  match ← entryCall .randomName with
  | .error error =>
    pure (.error (sandboxFailure kind.operation sandbox error sandboxGuard))
  | .ok name => do
  let target := sandbox ++ [name]
  match ← kind.create sandboxHandle name with
  | .error error =>
    if error.isCollision then do
      match ← cleanupPrivateSandbox sandbox sandboxGuard with
      | .error error => pure (.error error)
      | .ok () => pure (.ok none)
    else pure (.error (privateCreateError kind.operation target error (some sandboxGuard)))
  | .ok child => do
    match ← kind.adopt target sandbox child with
    | .ok resource => pure (.ok (some resource))
    | .error error => do
      let recovery ← nativeTempRecovery target sandboxHandle name child kind.directory
        (some sandboxGuard)
      pure (.error ((ioFailure kind.operation target error).withTempRecovery recovery))

/-- One turn of the loop; nothing is returned after a collision. -/
def privateAttempt (kind : PrivateChild I) (parentHandle : I) :
    EntryM I (Except (OwningError I) (Option (HostTempResource I))) := do
  match ← tryClone parentHandle with
  | .error error => pure (.error (ioFailure kind.operation [] error))
  | .ok () => do
  match ← entryCall .randomName with
  | .error error => pure (.error (ioFailure kind.operation [] error))
  | .ok sandboxName => do
  match ← createPrivateDirectoryAt parentHandle sandboxName with
  | .error error =>
    if error.isCollision then pure (.ok none)
    else pure (.error (privateCreateError kind.operation [sandboxName] error none))
  | .ok sandboxHandle => do
    match ← reservePrivateDirectoryGuard parentHandle sandboxName sandboxHandle with
    | .error error => do
      let owner ← nativeTempRecovery [sandboxName] parentHandle sandboxName sandboxHandle true none
      pure (.error ((ioFailure kind.operation [sandboxName] error).withTempRecovery owner))
    | .ok sandboxGuard => createPrivateChild kind [sandboxName] sandboxHandle sandboxGuard

def attemptsExhausted : IoError :=
  ⟨.alreadyExists, "private temp name attempts exhausted", none⟩

def privateLoop (kind : PrivateChild I) (parentHandle : I) (maxAttempts : Option Nat) :
    Nat → Nat → EntryM I (TempResult I (HostTempResource I))
  | 0, _ => pure (.error .unfinished)
  | bound + 1, attempts =>
    if maxAttempts.any (· ≤ attempts) then
      pure (fail (ioFailure kind.operation [] attemptsExhausted))
    else do
      match ← privateAttempt kind parentHandle with
      | .error error => pure (fail error)
      | .ok (some resource) => pure (.ok resource)
      | .ok none => privateLoop kind parentHandle maxAttempts bound (attempts + 1)

def privateRetryCountZero : IoError :=
  ⟨.invalidInput, "temporary entry retry count must be positive", none⟩

/-- `create_private_host_temp_file` and `create_private_host_temp_directory` -/
def createPrivateHostTemp (kind : PrivateChild I) (maxAttempts : Option Nat) (bound : Nat) :
    EntryM I (TempResult I (HostTempResource I)) :=
  if maxAttempts = some 0 then
    pure (fail (.of ((LocalFileError.fromIo kind.operation (some []) none
      privateRetryCountZero).withKind .invalidOptions)))
  else do
    match ← entryCall (.openPath []) with
    | .error error => pure (fail (ioFailure kind.operation [] error))
    | .ok parentHandle => privateLoop kind parentHandle maxAttempts bound 0

def createPrivateHostTempFile (maxAttempts : Option Nat) (bound : Nat) :
    EntryM I (TempResult I (HostTempResource I)) := createPrivateHostTemp .file maxAttempts bound

def createPrivateHostTempDirectory (maxAttempts : Option Nat) (bound : Nat) :
    EntryM I (TempResult I (HostTempResource I)) :=
  createPrivateHostTemp .subdirectory maxAttempts bound

/-! ## 5. The entry points -/

inductive LocalPrivacyRequirement where
  | notRequired | required
  deriving DecidableEq, Repr

/-- The two kinds of temporary resources. -/
inductive TempKind where
  | file | directory
  deriving DecidableEq, Repr

/-- The route that the kind and the privacy select. -/
def createTempInParent (kind : TempKind) (privacy : LocalPrivacyRequirement)
    (maxAttempts : Option Nat) (bound : Nat) : EntryM I (TempResult I (HostTempResource I)) :=
  match kind, privacy with
  | .file, .required => createPrivateHostTempFile maxAttempts bound
  | .file, .notRequired => createHostTempFile maxAttempts bound
  | .directory, .required => createPrivateHostTempDirectory maxAttempts bound
  | .directory, .notRequired => createHostTempDirectory maxAttempts bound

/-- `create_temp_file_with_policy` and `create_temp_directory_with_policy` -/
def createTempWithPolicy (kind : TempKind) (privacy : LocalPrivacyRequirement)
    (maxAttempts : Option Nat) (bound : Nat) : EntryM I (TempResult I (HostTempResource I)) := do
  match ← entryCall .prepareParent with
  | .error error => pure (fail (.of error))
  | .ok () => createTempInParent kind privacy maxAttempts bound

end Cleanup

end LocalFiles.Private
