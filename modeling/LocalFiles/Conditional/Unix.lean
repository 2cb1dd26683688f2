import LocalFiles.Atomic.Install
import LocalFiles.Conditional.Commit

/-!
# Unix — the conditional backend over a retained directory descriptor

Every method of `UnixConditionalBackend` is a program over the native calls on the parent
directory.  The test hooks of the backend are left out: without them a checkpoint does nothing,
no publication is cut short and no rollback action is deferred.
-/

namespace LocalFiles.Conditional.Unix

open Interaction Atomic

/-! ## 1. Native calls that leave the names alone -/

inductive FileCall (I : Type) where
  | cloneParent (name : String)
  | adoptReader (file : I)
  | copyContents (source copy : I)
  | sameContents (left right : I)
  | seekStart (file : I)
  | readAll (file : I)
  | flush (file : I)
  | syncFile (file : I)
  | syncParent
  | preserveMetadata (source candidate : I)
  deriving DecidableEq, Repr

def FileCall.Result {I : Type} : FileCall I → Type
  | .sameContents _ _ => IoResult Bool
  | .readAll _ => IoResult (List UInt8)
  | .cloneParent _ => IoResult Unit
  | .adoptReader _ => IoResult Unit
  | .copyContents _ _ => IoResult Unit
  | .seekStart _ => IoResult Unit
  | .flush _ => IoResult Unit
  | .syncFile _ => IoResult Unit
  | .syncParent => IoResult Unit
  | .preserveMetadata _ _ => IoResult Unit

abbrev UnixM (I : Type) := NativeM String I (FileCall I) FileCall.Result

abbrev NativeTrace (I : Type) :=
  List (Event (Syscall String I (FileCall I)) (Syscall.Result FileCall.Result))

/-- `EIO`: the one error after which the backend does not know whether the exchange happened. -/
def eio : Nat := 5

/-! ## 2. Entries and their readers -/

/-- The retained access of an entry: its name in the directory and the identity it was observed
    with. -/
structure EntryAccess (I : Type) where
  name : String
  identity : I
  diagnostic : Option Path
  deriving DecidableEq, Repr

abbrev UnixEntry (I : Type) := ConditionalEntry (EntryAccess I)

structure Namespace (I : Type) where
  targetName : String
  syncDirs : List I
  namespacePath : Path
  diagnosticPath : Option Path
  deriving DecidableEq, Repr

def parentPath (path : Path) : Option Path := if path = [] then none else some path.dropLast

def Namespace.pathOf {I : Type} (space : Namespace I) (name : String) : Path :=
  (parentPath space.namespacePath).getD [] ++ [name]

section Programs

variable {I : Type}

def stat (name : String) : UnixM I (IoResult (Status I)) := native (.stat name)
def fileStat (file : I) : UnixM I (IoResult (Status I)) := native (.fileStat file)
def openRead (name : String) : UnixM I (IoResult I) := native (.openRead name)
def createExclusive (name : String) : UnixM I (IoResult I) := native (.createExclusive name)
def unlinkAt (name : String) : UnixM I (IoResult Unit) := native (.unlink name)
def renameExchange (left right : String) : UnixM I (IoResult Unit) :=
  native (.renameExchange left right)
def tryRandomFileName : UnixM I (IoResult String) := native .randomName
def fileCall (o : FileCall I) : UnixM I o.Result := native (.inert o)
def cloneParent (name : String) : UnixM I (IoResult Unit) := fileCall (.cloneParent name)
def adoptReader (file : I) : UnixM I (IoResult Unit) := fileCall (.adoptReader file)
def copyContents (source copy : I) : UnixM I (IoResult Unit) := fileCall (.copyContents source copy)
def sameContents (left right : I) : UnixM I (IoResult Bool) := fileCall (.sameContents left right)
def seekFile (file : I) : UnixM I (IoResult Unit) := fileCall (.seekStart file)
def readFile (file : I) : UnixM I (IoResult (List UInt8)) := fileCall (.readAll file)
def flushFile (file : I) : UnixM I (IoResult Unit) := fileCall (.flush file)
def syncFile (file : I) : UnixM I (IoResult Unit) := fileCall (.syncFile file)
def syncParent : UnixM I (IoResult Unit) := fileCall .syncParent
def preserveAtomicMetadata (source candidate : I) : UnixM I (IoResult Unit) :=
  fileCall (.preserveMetadata source candidate)

def identityAt (name : String) : UnixM I (IoResult I) :=
  (stat name).andThen fun status => pure (.ok status.identity)

def fileIdentity (file : I) : UnixM I (IoResult I) :=
  (fileStat file).andThen fun status => pure (.ok status.identity)

def Namespace.newEntry (space : Namespace I) (role : LocalRecoveryFileRole) (name : String)
    (identity : I) : UnixEntry I :=
  let diagnostic := (space.diagnosticPath.bind parentPath).map (· ++ [name])
  { role := role
    namespacePath := space.pathOf name
    diagnosticPath := diagnostic
    access := ⟨name, identity, diagnostic⟩ }

def Namespace.entry (space : Namespace I) (role : LocalRecoveryFileRole) (name : String) :
    UnixM I (IoResult (UnixEntry I)) :=
  (identityAt name).andThen fun identity =>
    (cloneParent name).andThen fun _ => pure (.ok (space.newEntry role name identity))

variable [DecidableEq I]

/-- The body of `EntryAccess::open_reader`, before its errors get their context: the name must
    still lead to the regular file that was observed. -/
def EntryAccess.openFile (access : EntryAccess I) : UnixM I (IoResult I) :=
  (openRead access.name).andThen fun file =>
    (fileStat file).andThen fun status =>
      if !status.regular || status.identity ≠ access.identity then
        pure (.error ⟨.notFound, "recovery entry identity changed", none⟩)
      else
        (adoptReader file).andThen fun _ => pure (.ok file)

def EntryAccess.openReader (access : EntryAccess I) : UnixM I (Except LocalFileError I) := do
  match ← access.openFile with
  | .error error => pure (.error (.fromIo .openReader access.diagnostic none error))
  | .ok file => pure (.ok file)

/-- `open_reader().map_err(io::Error::other)` -/
def reopen (entry : UnixEntry I) : UnixM I (IoResult I) := do
  match ← entry.access.openReader with
  | .error error => pure (.error (.wrapping error))
  | .ok file => pure (.ok file)

def EntryAccess.syncFile (access : EntryAccess I) : UnixM I (IoResult Unit) :=
  (openRead access.name).andThen fun file =>
    (fileStat file).andThen fun status =>
      if !status.regular || status.identity ≠ access.identity then
        pure (.error ⟨.invalidData,
          "conditional entry identity changed before file synchronization", none⟩)
      else Unix.syncFile file

def entryIdentity (entry : UnixEntry I) : UnixM I (IoResult I) :=
  (reopen entry).andThen fun file => fileIdentity file

def verify (entry : UnixEntry I) : UnixM I (IoResult Unit) :=
  (entryIdentity entry).andThen fun _ => pure (.ok ())

/-- The identity behind an entry, as far as it can be observed. -/
def observedIdentity : Option (UnixEntry I) → UnixM I (Option I)
  | none => pure none
  | some entry => do pure (← entryIdentity entry).toOption

def nameOf (entry : UnixEntry I) : IoResult String :=
  match entry.namespacePath.getLast? with
  | none => .error ⟨.invalidInput, "entry path has no final component", none⟩
  | some name =>
    if name.toList.contains (Char.ofNat 0) then
      .error ⟨.invalidInput, "entry name contains NUL", none⟩
    else .ok name

def remove (entry : UnixEntry I) : UnixM I (IoResult Unit) :=
  (verify entry).andThen fun _ =>
    match nameOf entry with
    | .error error => pure (.error error)
    | .ok name => unlinkAt name

def openRegularAt (name : String) : UnixM I (IoResult I) :=
  (openRead name).andThen fun file =>
    (fileStat file).andThen fun status =>
      if !status.regular then
        pure (.error ⟨.invalidInput, "conditional entry is not a regular file", none⟩)
      else pure (.ok file)

/-! ## 3. Private entries -/

/-- The attempts to create a private entry under a generated name. -/
def createPrivateLoop : Nat → UnixM I (IoResult (String × I))
  | 0 => pure (.error ⟨.alreadyExists,
      "could not allocate a unique conditional staging entry", none⟩)
  | more + 1 =>
    tryRandomFileName.andThen fun name => do
      match ← createExclusive name with
      | .ok file => pure (.ok (name, file))
      | .error error =>
        if error.kind = .alreadyExists then createPrivateLoop more else pure (.error error)

def createPrivate : UnixM I (IoResult (String × I)) := createPrivateLoop 128

structure PrivateEntryGuard (I : Type) where
  name : String
  path : Path
  identity : Option I

def displayPath (path : Path) : String := String.intercalate "/" path

def PrivateEntryGuard.cleanup (guard : PrivateEntryGuard I) : UnixM I (IoResult Unit) :=
  match guard.identity with
  | none => pure (.error ⟨.invalidData,
      "cannot verify newly created private entry identity at " ++ displayPath guard.path, none⟩)
  | some expected =>
    (identityAt guard.name).andThen fun identity =>
      if identity ≠ expected then
        pure (.error ⟨.invalidData,
          "newly created private entry identity changed at " ++ displayPath guard.path, none⟩)
      else unlinkAt guard.name

/-- `finish_with`, together with the cleanup that the drop of a still armed guard runs again. -/
def PrivateEntryGuard.finishWith (guard : PrivateEntryGuard I) (primary : IoError) :
    UnixM I IoError := do
  match ← guard.cleanup with
  | .ok () => pure primary
  | .error cleanup => do
    let _ ← guard.cleanup
    pure ⟨primary.kind, primary.message ++ "; private-entry cleanup failed at " ++
      displayPath guard.path ++ ": " ++ cleanup.message, none⟩

/-- A step of the setup of a private entry: its failure removes the entry again. -/
def PrivateEntryGuard.protect {α : Type} (guard : PrivateEntryGuard I)
    (step : UnixM I (IoResult α)) : UnixM I (IoResult α) := do
  match ← step with
  | .ok a => pure (.ok a)
  | .error primary => do pure (.error (← guard.finishWith primary))

/-- `PrivateEntryGuard::new`: a guard that could not learn the identity cannot clean up either. -/
def PrivateEntryGuard.new (space : Namespace I) (name : String) (file : I) :
    UnixM I (IoResult (PrivateEntryGuard I)) := do
  let guard : PrivateEntryGuard I := ⟨name, space.pathOf name, none⟩
  match ← fileIdentity file with
  | .ok identity => pure (.ok { guard with identity := some identity })
  | .error primary => do pure (.error (← guard.finishWith primary))

end Programs

/-! ## 4. The backend -/

structure UnixConditionalBackend (I : Type) where
  system : UnixTarget
  space : Namespace I
  candidateName : String
  candidate : I
  candidateIdentity : I
  candidateCopyName : Option String
  candidateCopyIdentity : Option I
  candidateEntry : UnixEntry I
  candidateGuard : Bool
  recoveryEntries : List (UnixEntry I)
  deriving DecidableEq, Repr

namespace UnixConditionalBackend

variable {I : Type} [DecidableEq I]

/-- `open` is a keyword. -/
def openIn (system : UnixTarget) (space : Namespace I) :
    UnixM I (IoResult (UnixConditionalBackend I)) :=
  createPrivate.andThen fun (candidateName, candidate) =>
    (PrivateEntryGuard.new space candidateName candidate).andThen fun guard =>
      (guard.protect (fileIdentity candidate)).andThen fun candidateIdentity =>
        (guard.protect (space.entry .stagedCandidate candidateName)).andThen fun candidateEntry =>
          pure (.ok {
            system := system
            space := space
            candidateName := candidateName
            candidate := candidate
            candidateIdentity := candidateIdentity
            candidateCopyName := none
            candidateCopyIdentity := none
            candidateEntry := candidateEntry
            candidateGuard := true
            recoveryEntries := [] })

variable (b : UnixConditionalBackend I)

def entry (role : LocalRecoveryFileRole) (name : String) : UnixM I (IoResult (UnixEntry I)) :=
  b.space.entry role name

/-- `self.entry(role, name).ok()` -/
def observe (role : LocalRecoveryFileRole) (name : String) : UnixM I (Option (UnixEntry I)) := do
  pure (← b.entry role name).toOption

def observeWhen (condition : Bool) (role : LocalRecoveryFileRole) (name : String) :
    UnixM I (Option (UnixEntry I)) :=
  if condition then b.observe role name else pure none

def exchange (left right : String) : UnixM I (IoResult Unit) :=
  match b.system with
  | .linux | .macos => renameExchange left right
  | .freebsd | .other => pure (.error ⟨.unsupported,
      "atomic conditional exchange is unsupported on this Unix target", none⟩)

def publicationAfterExchange (failed installedIsCandidate stagedIsCandidate displaced : Bool) :
    LocalConditionalPublicationState :=
  match failed, installedIsCandidate, stagedIsCandidate, displaced with
  | false, true, _, true => .published
  | true, _, true, _ => .notPublished
  | _, true, _, true => .published
  | _, _, _, _ => .indeterminate

def attemptAfterExchange (error : Option IoError) :
    UnixM I (NativeAttempt (EntryAccess I)) := do
  let installed ← b.observe .stagedCandidate b.space.targetName
  let displaced ← b.observe .displaced b.candidateName
  let candidateIdentity := (← fileIdentity b.candidate).toOption
  let installedIdentity ← observedIdentity installed
  let staged ← b.observe .stagedCandidate b.candidateName
  let stagedIdentity ← observedIdentity staged
  let installedIsCandidate := candidateIdentity.isSome && installedIdentity = candidateIdentity
  let stagedIsCandidate := candidateIdentity.isSome && stagedIdentity = candidateIdentity
  let publication := publicationAfterExchange error.isSome installedIsCandidate stagedIsCandidate
    displaced.isSome
  pure {
    publicationMethod := .atomicExchange
    error := error
    publication := publication
    installed := if publication = .notPublished then none else installed
    displaced := if publication = .notPublished then [] else displaced.toList }

def openVerifiedCandidateTarget : UnixM I (IoResult (UnixEntry I)) :=
  (b.entry .displaced b.space.targetName).andThen fun target =>
    (reopen target).andThen fun targetFile =>
      (fileIdentity targetFile).andThen fun identity =>
        if identity ≠ b.candidateIdentity then
          pure (.error ⟨.invalidData,
            "rollback target no longer has the candidate identity", none⟩)
        else
          match b.candidateCopyName, b.candidateCopyIdentity with
          | some copyName, some copyIdentity =>
            (b.entry .candidateCopy copyName).andThen fun copy =>
              (reopen copy).andThen fun copyFile =>
                (fileIdentity copyFile).andThen fun identity => do
                  let refused : IoError := ⟨.invalidData,
                    "rollback target content no longer matches the verified candidate copy", none⟩
                  if identity ≠ copyIdentity then pure (.error refused)
                  else
                    (sameContents targetFile copyFile).andThen fun same =>
                      pure (if same then .ok target else .error refused)
          | _, _ =>
            pure (.error ⟨.invalidData,
              "verified candidate copy is unavailable for rollback", none⟩)

def matchesCandidateCopy (entry : UnixEntry I) : UnixM I (IoResult Bool) :=
  match b.candidateCopyName, b.candidateCopyIdentity with
  | some copyName, some copyIdentity =>
    (b.entry .candidateCopy copyName).andThen fun copy =>
      (reopen copy).andThen fun copyFile =>
        (fileIdentity copyFile).andThen fun identity =>
          (reopen entry).andThen fun movedFile =>
            (fileIdentity movedFile).andThen fun movedIdentity =>
              if identity = copyIdentity ∧ movedIdentity = b.candidateIdentity then
                sameContents movedFile copyFile
              else pure (.ok false)
  | _, _ => pure (.ok false)

def movedMatchesCandidate (moved : Option (UnixEntry I)) (movedIdentity : Option I) :
    UnixM I Bool :=
  match moved with
  | none => pure false
  | some entry =>
    if movedIdentity = some b.candidateIdentity then do
      pure ((← b.matchesCandidateCopy entry).toOption.getD false)
    else pure false

def rollbackReceipt (oldIdentity : I) (syscallError : Option IoError) :
    UnixM I (NativeAttempt (EntryAccess I)) := do
  let restored ← b.observe .displaced b.space.targetName
  let moved ← b.observe .rollbackDisplaced b.candidateName
  let restoredIdentity ← observedIdentity restored
  let movedIdentity ← observedIdentity moved
  let movedMatchesCandidate ← b.movedMatchesCandidate moved movedIdentity
  let publication : LocalConditionalPublicationState :=
    if syscallError.isSome then .indeterminate else .restored
  pure {
    publicationMethod := .atomicExchange
    error := syscallError
    publication :=
      if restoredIdentity = some oldIdentity ∧ movedMatchesCandidate then publication
      else .indeterminate
    installed := restored
    displaced := moved.toList }

def indeterminateRollback (error : IoError) : NativeAttempt (EntryAccess I) where
  publicationMethod := .atomicExchange
  error := some error
  publication := .indeterminate
  installed := none
  displaced := []

/-- The copy registered as a recovery entry; the copying itself; the entry taken back. -/
def copyCandidate (name : String) (copy : I) (entry recoveryEntry : UnixEntry I) :
    UnixM I (IoResult (UnixEntry I) × UnixConditionalBackend I) := do
  let copied ← (openRegularAt b.candidateName).andThen fun reader =>
    (copyContents reader copy).andThen fun _ => (flushFile copy).andThen fun _ => fileIdentity copy
  match copied with
  | .error error =>
    pure (.error error, { b with recoveryEntries := b.recoveryEntries ++ [recoveryEntry] })
  | .ok identity =>
    pure (.ok entry,
      { b with candidateCopyName := some name, candidateCopyIdentity := some identity })

def createCandidateCopy : UnixM I (IoResult (UnixEntry I) × UnixConditionalBackend I) := do
  let prepared ← createPrivate.andThen fun (name, copy) =>
    (PrivateEntryGuard.new b.space name copy).andThen fun guard =>
      (guard.protect (b.entry .stagedCandidate name)).andThen fun entry =>
        (guard.protect (b.entry .stagedCandidate name)).andThen fun recoveryEntry =>
          pure (.ok (name, copy, entry, recoveryEntry))
  match prepared with
  | .error error => pure (.error error, b)
  | .ok (name, copy, entry, recoveryEntry) => b.copyCandidate name copy entry recoveryEntry

def syncDirectories : List I → UnixM I (IoResult Unit)
  | [] => pure (.ok ())
  | directory :: rest => (syncFile directory).andThen fun _ => syncDirectories rest

def syncNamespace : UnixM I (IoResult Unit) :=
  syncParent.andThen fun _ => syncDirectories b.space.syncDirs.reverse

def isCandidate (entry : UnixEntry I) : UnixM I (IoResult Bool) :=
  (reopen entry).andThen fun installed =>
    (fileIdentity b.candidate).andThen fun candidate =>
      (fileIdentity installed).andThen fun installed => pure (.ok (candidate = installed))

def installAbsent :
    UnixM I (Except (IoError × LocalConditionalPublicationState) Unit) := do
  match ← installNewAtomicFileAt b.system b.candidateName b.space.targetName with
  | .ok () => pure (.ok ())
  | .error (error, destination, _) =>
    let publication : LocalConditionalPublicationState :=
      match destination with
      | .replaced => .published
      | .indeterminate => .indeterminate
      | .unchanged | .missing => .notPublished
    pure (.error (error, publication))

def publishAbsent : UnixM I (NativeAttempt (EntryAccess I) × UnixConditionalBackend I) := do
  match ← b.installAbsent with
  | .ok () => do
    let installed ← b.observe .stagedCandidate b.space.targetName
    pure ({
      publicationMethod := .atomicRename
      error := none
      publication := if installed.isSome then .published else .indeterminate
      installed := installed
      displaced := [] }, { b with candidateGuard := false })
  | .error (error, publication) => do
    let installed ←
      b.observeWhen (publication ≠ .notPublished) .stagedCandidate b.space.targetName
    let stagedAlias ← b.observeWhen (publication = .published) .stagedCandidate b.candidateName
    pure ({
      publicationMethod := .atomicRename
      error := some error
      publication := publication
      installed := installed
      displaced := stagedAlias.toList }, b)

def publishContent : UnixM I (NativeAttempt (EntryAccess I) × UnixConditionalBackend I) := do
  match ← b.exchange b.candidateName b.space.targetName with
  | .ok () => do pure (← b.attemptAfterExchange none, { b with candidateGuard := false })
  | .error error =>
    if error.osCode = some eio then do pure (← b.attemptAfterExchange (some error), b)
    else
      pure ({
        publicationMethod := .atomicExchange
        error := some error
        publication := .notPublished
        installed := none
        displaced := [] }, b)

/-- The checks before the reverse exchange: the identity and the name of the displaced entry. -/
def rollbackPrepared (displaced : UnixEntry I) : UnixM I (IoResult (I × String)) :=
  (entryIdentity displaced).andThen fun oldIdentity =>
    match nameOf displaced with
    | .error error => pure (.error error)
    | .ok displacedName =>
      (verify displaced).andThen fun _ =>
        b.openVerifiedCandidateTarget.andThen fun _ => pure (.ok (oldIdentity, displacedName))

def rollback (displaced : UnixEntry I) : UnixM I (NativeAttempt (EntryAccess I)) := do
  match ← b.rollbackPrepared displaced with
  | .error error => pure (indeterminateRollback error)
  | .ok (oldIdentity, displacedName) => do
    match ← b.exchange displacedName b.space.targetName with
    | .ok () => b.rollbackReceipt oldIdentity none
    | .error error => b.rollbackReceipt oldIdentity (some error)

/-- Whether the staging name still leads to the candidate and no recovery entry has it yet. -/
def stagedCandidateRemains : UnixM I Bool := do
  match ← identityAt b.candidateName with
  | .error _ => pure false
  | .ok identity =>
    match ← fileIdentity b.candidate with
    | .error _ => pure false
    | .ok candidate =>
      pure (candidate = identity && !b.recoveryEntries.any fun entry =>
        entry.namespacePath.getLast? = b.candidateEntry.namespacePath.getLast?)

def takeRecoveryEntries : UnixM I (List (UnixEntry I) × UnixConditionalBackend I) := do
  let remains ← b.stagedCandidateRemains
  let staged ← b.observeWhen remains .stagedCandidate b.candidateName
  pure (b.recoveryEntries ++ staged.toList, { b with recoveryEntries := [] })

/-- The backend as an implementation of the calls of the commit protocol. -/
def handle : (c : Call (EntryAccess I)) → UnixConditionalBackend I →
    UnixM I (Answer (EntryAccess I) c × UnixConditionalBackend I)
  | .flush, b => do return (← flushFile b.candidate, b)
  | .candidate, b => return (b.candidateEntry, b)
  | .openReader entry, b => do
    match ← entry.access.openReader with
    | .error error => return (.error error, b)
    | .ok _ => return (.ok (), b)
  | .seekStart entry, b => do return (← seekFile entry.access.identity, b)
  | .readAll entry, b => do return (← readFile entry.access.identity, b)
  | .checkpoint _, b => return (.ok (), b)
  | .createCandidateCopy, b => b.createCandidateCopy
  | .openTarget, b => do return (← b.entry .displaced b.space.targetName, b)
  | .preserveMetadata observed, b => do
    return (← (reopen observed).andThen fun source =>
      preserveAtomicMetadata source b.candidate, b)
  | .syncCandidate, b => do return (← syncFile b.candidate, b)
  | .syncEntry entry, b => do return (← entry.access.syncFile, b)
  | .syncNamespace, b => do return (← b.syncNamespace, b)
  | .isCandidate entry, b => do return (← b.isCandidate entry, b)
  | .verifyEntry entry, b => do return (← verify entry, b)
  | .beginPublication, b => return (.ok (), { b with candidateGuard := false })
  | .publishAbsent, b => b.publishAbsent
  | .publishContent, b => b.publishContent
  | .rollback displaced, b => do return (← b.rollback displaced, b)
  | .removeObserved entry, b => do return (← remove entry, b)
  | .takeRecoveryEntries, b => b.takeRecoveryEntries
  | .takeCleanupErrors, b => return ([], b)

end UnixConditionalBackend

end LocalFiles.Conditional.Unix
