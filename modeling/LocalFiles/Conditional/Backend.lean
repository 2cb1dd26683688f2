import LocalFiles.Interaction
import LocalFiles.Types

/-!
# Backend — the calls a conditional commit makes and what they answer

The commit protocol is written against the backend trait: every method of the trait that the
protocol uses is one `Call`, and so are the reads through the access object of an entry.  A
backend is whatever answers these calls, so a statement about all runs of a program over `Call`
is a statement about all backends, with a concurrent writer acting between any two calls.
-/

namespace LocalFiles.Conditional

open Interaction

/-! ## 1. Entries and native receipts -/

inductive LocalRecoveryFileRole where
  | candidateCopy | stagedCandidate | displaced | rollbackDisplaced
  deriving DecidableEq, Repr

/-- An observed namespace entry.  `access` stands for the retained access object, through which
    the entry is read and synchronized. -/
structure ConditionalEntry (A : Type) where
  role : LocalRecoveryFileRole
  namespacePath : Path
  diagnosticPath : Option Path
  access : A
  deriving DecidableEq, Repr

structure LocalRecoveryFile (A : Type) where
  role : LocalRecoveryFileRole
  namespacePath : Path
  diagnosticPath : Option Path
  access : A
  deriving DecidableEq, Repr

namespace ConditionalEntry

variable {A : Type}

def setRole (role : LocalRecoveryFileRole) (entry : ConditionalEntry A) : ConditionalEntry A :=
  { entry with role := role }

/-- Transfer of an entry to the caller under the role it has. -/
def intoRecovery (entry : ConditionalEntry A) : LocalRecoveryFile A where
  role := entry.role
  namespacePath := entry.namespacePath
  diagnosticPath := entry.diagnosticPath
  access := entry.access

@[simp] theorem setRole_role (role : LocalRecoveryFileRole) (entry : ConditionalEntry A) :
    (entry.setRole role).role = role := rfl

@[simp] theorem setRole_namespacePath (role : LocalRecoveryFileRole) (entry : ConditionalEntry A) :
    (entry.setRole role).namespacePath = entry.namespacePath := rfl

@[simp] theorem setRole_access (role : LocalRecoveryFileRole) (entry : ConditionalEntry A) :
    (entry.setRole role).access = entry.access := rfl

@[simp] theorem intoRecovery_role (entry : ConditionalEntry A) :
    entry.intoRecovery.role = entry.role := rfl

@[simp] theorem intoRecovery_namespacePath (entry : ConditionalEntry A) :
    entry.intoRecovery.namespacePath = entry.namespacePath := rfl

end ConditionalEntry

inductive LocalConditionalPublicationState where
  | notPublished | published | restored | indeterminate
  deriving DecidableEq, Repr

structure NativeAttempt (A : Type) where
  publicationMethod : LocalWritePublicationMethod
  error : Option IoError
  publication : LocalConditionalPublicationState
  installed : Option (ConditionalEntry A)
  displaced : List (ConditionalEntry A)
  deriving DecidableEq, Repr

/-! ## 2. Calls and answers -/

inductive ConditionalPoint where
  | prepareCandidateCopy | candidateCopyCreated | verifyCandidateCopy | syncInstalled | precheck
  | afterPrecheck | publish | afterPublish | verifyDisplaced | verifyInstalled | rollbackPrecheck
  | rollbackValidated | rollback | rollbackCompleted | verifyRollback | syncRollback
  | saveComplete | cleanupOld | cleanupCopy | cleanupSync | beforeRequiredFileSync
  | beforeRequiredParentSync
  deriving DecidableEq, Repr

inductive Call (A : Type) where
  | flush
  | candidate
  | openReader (entry : ConditionalEntry A)
  | seekStart (entry : ConditionalEntry A)
  | readAll (entry : ConditionalEntry A)
  | checkpoint (point : ConditionalPoint)
  | createCandidateCopy
  | openTarget
  | preserveMetadata (observed : ConditionalEntry A)
  | syncCandidate
  | syncEntry (entry : ConditionalEntry A)
  | syncNamespace
  | isCandidate (entry : ConditionalEntry A)
  | verifyEntry (entry : ConditionalEntry A)
  | beginPublication
  | publishAbsent
  | publishContent
  | rollback (displaced : ConditionalEntry A)
  | removeObserved (entry : ConditionalEntry A)
  | takeRecoveryEntries
  | takeCleanupErrors
  deriving DecidableEq, Repr

def Answer (A : Type) : Call A → Type
  | .candidate => ConditionalEntry A
  | .openReader _ => Except LocalFileError Unit
  | .readAll _ => IoResult (List UInt8)
  | .createCandidateCopy => IoResult (ConditionalEntry A)
  | .openTarget => IoResult (ConditionalEntry A)
  | .isCandidate _ => IoResult Bool
  | .publishAbsent => NativeAttempt A
  | .publishContent => NativeAttempt A
  | .rollback _ => NativeAttempt A
  | .takeRecoveryEntries => List (ConditionalEntry A)
  | .takeCleanupErrors => List LocalFileError
  | .flush => IoResult Unit
  | .seekStart _ => IoResult Unit
  | .checkpoint _ => IoResult Unit
  | .preserveMetadata _ => IoResult Unit
  | .syncCandidate => IoResult Unit
  | .syncEntry _ => IoResult Unit
  | .syncNamespace => IoResult Unit
  | .verifyEntry _ => IoResult Unit
  | .beginPublication => IoResult Unit
  | .removeObserved _ => IoResult Unit

abbrev BackendM (A : Type) := Prog (Call A) (Answer A)

abbrev Trace (A : Type) := List (Event (Call A) (Answer A))

section Calls

variable {A : Type}

def ask (c : Call A) : BackendM A (Answer A c) := Prog.request c

def flush : BackendM A (IoResult Unit) := ask .flush
def candidate : BackendM A (ConditionalEntry A) := ask .candidate
def openReader (entry : ConditionalEntry A) : BackendM A (Except LocalFileError Unit) :=
  ask (.openReader entry)
def seekStart (entry : ConditionalEntry A) : BackendM A (IoResult Unit) :=
  ask (.seekStart entry)
def readAll (entry : ConditionalEntry A) : BackendM A (IoResult (List UInt8)) :=
  ask (.readAll entry)
def checkpoint (point : ConditionalPoint) : BackendM A (IoResult Unit) :=
  ask (.checkpoint point)
def createCandidateCopy : BackendM A (IoResult (ConditionalEntry A)) :=
  ask .createCandidateCopy
def openTarget : BackendM A (IoResult (ConditionalEntry A)) := ask .openTarget
def preserveMetadata (observed : ConditionalEntry A) : BackendM A (IoResult Unit) :=
  ask (.preserveMetadata observed)
def syncCandidate : BackendM A (IoResult Unit) := ask .syncCandidate
def syncEntry (entry : ConditionalEntry A) : BackendM A (IoResult Unit) :=
  ask (.syncEntry entry)
def syncNamespace : BackendM A (IoResult Unit) := ask .syncNamespace
def isCandidate (entry : ConditionalEntry A) : BackendM A (IoResult Bool) :=
  ask (.isCandidate entry)
def verifyEntry (entry : ConditionalEntry A) : BackendM A (IoResult Unit) :=
  ask (.verifyEntry entry)
def beginPublication : BackendM A (IoResult Unit) := ask .beginPublication
def publishAbsent : BackendM A (NativeAttempt A) := ask .publishAbsent
def publishContent : BackendM A (NativeAttempt A) := ask .publishContent
def rollback (displaced : ConditionalEntry A) : BackendM A (NativeAttempt A) :=
  ask (.rollback displaced)
def removeObserved (entry : ConditionalEntry A) : BackendM A (IoResult Unit) :=
  ask (.removeObserved entry)
def takeRecoveryEntries : BackendM A (List (ConditionalEntry A)) :=
  ask .takeRecoveryEntries
def takeCleanupErrors : BackendM A (List LocalFileError) := ask .takeCleanupErrors

variable {tr : Trace A} {entry : ConditionalEntry A} {point : ConditionalPoint}

@[simp] theorem runs_flush {b : IoResult Unit} :
    Prog.Runs flush tr b ↔ tr = [⟨.flush, b⟩] := Prog.runs_request

@[simp] theorem runs_candidate {b : ConditionalEntry A} :
    Prog.Runs candidate tr b ↔ tr = [⟨.candidate, b⟩] := Prog.runs_request

@[simp] theorem runs_openReader {b : Except LocalFileError Unit} :
    (openReader entry).Runs tr b ↔ tr = [⟨.openReader entry, b⟩] := Prog.runs_request

@[simp] theorem runs_seekStart {b : IoResult Unit} :
    (seekStart entry).Runs tr b ↔ tr = [⟨.seekStart entry, b⟩] := Prog.runs_request

@[simp] theorem runs_readAll {b : IoResult (List UInt8)} :
    (readAll entry).Runs tr b ↔ tr = [⟨.readAll entry, b⟩] := Prog.runs_request

@[simp] theorem runs_checkpoint {b : IoResult Unit} :
    (checkpoint point).Runs tr b ↔ tr = [⟨.checkpoint point, b⟩] := Prog.runs_request

@[simp] theorem runs_createCandidateCopy {b : IoResult (ConditionalEntry A)} :
    Prog.Runs createCandidateCopy tr b ↔ tr = [⟨.createCandidateCopy, b⟩] := Prog.runs_request

@[simp] theorem runs_openTarget {b : IoResult (ConditionalEntry A)} :
    Prog.Runs openTarget tr b ↔ tr = [⟨.openTarget, b⟩] := Prog.runs_request

@[simp] theorem runs_preserveMetadata {b : IoResult Unit} :
    (preserveMetadata entry).Runs tr b ↔ tr = [⟨.preserveMetadata entry, b⟩] := Prog.runs_request

@[simp] theorem runs_syncCandidate {b : IoResult Unit} :
    Prog.Runs syncCandidate tr b ↔ tr = [⟨.syncCandidate, b⟩] := Prog.runs_request

@[simp] theorem runs_syncEntry {b : IoResult Unit} :
    (syncEntry entry).Runs tr b ↔ tr = [⟨.syncEntry entry, b⟩] := Prog.runs_request

@[simp] theorem runs_syncNamespace {b : IoResult Unit} :
    Prog.Runs syncNamespace tr b ↔ tr = [⟨.syncNamespace, b⟩] := Prog.runs_request

@[simp] theorem runs_isCandidate {b : IoResult Bool} :
    (isCandidate entry).Runs tr b ↔ tr = [⟨.isCandidate entry, b⟩] := Prog.runs_request

@[simp] theorem runs_verifyEntry {b : IoResult Unit} :
    (verifyEntry entry).Runs tr b ↔ tr = [⟨.verifyEntry entry, b⟩] := Prog.runs_request

@[simp] theorem runs_beginPublication {b : IoResult Unit} :
    Prog.Runs beginPublication tr b ↔ tr = [⟨.beginPublication, b⟩] := Prog.runs_request

@[simp] theorem runs_publishAbsent {b : NativeAttempt A} :
    Prog.Runs publishAbsent tr b ↔ tr = [⟨.publishAbsent, b⟩] := Prog.runs_request

@[simp] theorem runs_publishContent {b : NativeAttempt A} :
    Prog.Runs publishContent tr b ↔ tr = [⟨.publishContent, b⟩] := Prog.runs_request

@[simp] theorem runs_rollback {b : NativeAttempt A} :
    (rollback entry).Runs tr b ↔ tr = [⟨.rollback entry, b⟩] := Prog.runs_request

@[simp] theorem runs_removeObserved {b : IoResult Unit} :
    (removeObserved entry).Runs tr b ↔ tr = [⟨.removeObserved entry, b⟩] := Prog.runs_request

@[simp] theorem runs_takeRecoveryEntries {b : List (ConditionalEntry A)} :
    Prog.Runs takeRecoveryEntries tr b ↔ tr = [⟨.takeRecoveryEntries, b⟩] := Prog.runs_request

@[simp] theorem runs_takeCleanupErrors {b : List LocalFileError} :
    Prog.Runs takeCleanupErrors tr b ↔ tr = [⟨.takeCleanupErrors, b⟩] := Prog.runs_request

end Calls

/-! ## 3. Reading an entry back -/

section Digest

variable {A δ : Type}

/-- `digest_entry`: opens the entry through its access object, rewinds and digests every byte.
    The failure to open it is wrapped into a native error of kind `other`. -/
def digestEntry (D : List UInt8 → δ) (entry : ConditionalEntry A) : BackendM A (IoResult δ) := do
  match ← openReader entry with
  | .error error => pure (.error (.wrapping error))
  | .ok () =>
    (seekStart entry).andThen fun _ => (readAll entry).andThen fun bytes => pure (.ok (D bytes))

/-- The events of a complete read of `entry` that saw `bytes`. -/
def readBack (entry : ConditionalEntry A) (bytes : List UInt8) : Trace A :=
  [⟨.openReader entry, Except.ok ()⟩, ⟨.seekStart entry, Except.ok ()⟩,
    ⟨.readAll entry, Except.ok bytes⟩]

end Digest

end LocalFiles.Conditional
