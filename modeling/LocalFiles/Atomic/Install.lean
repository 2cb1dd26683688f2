import LocalFiles.Posix

/-!
# Install — installation of a staged file under a new name on Unix

`install_new_atomic_file_at` gives the staged file its final name without replacing an entry that
another process created: by an exclusive rename where the system has one, else by a hard link
followed by the removal of the staging name.
-/

namespace LocalFiles.Atomic

open Interaction

inductive LocalAtomicDestinationState where
  | unchanged | replaced | missing | indeterminate
  deriving DecidableEq, Repr

inductive AtomicStagingState where
  | present | indeterminate
  deriving DecidableEq, Repr

/-- The Unix targets between which the installation distinguishes. -/
inductive UnixTarget where
  | linux | macos | freebsd | other
  deriving DecidableEq, Repr

def enosys : Nat := 38
def einval : Nat := 22
def eopnotsupp : Nat := 95

abbrev InstallFailure := IoError × LocalAtomicDestinationState × AtomicStagingState

def unchangedError (error : IoError) : InstallFailure := (error, .unchanged, .present)

section Programs

variable {N I O : Type} {P : O → Type}

abbrev NativeM (N I O : Type) (P : O → Type) :=
  Prog (Syscall N I O) (Syscall.Result P)

def native (c : Syscall N I O) : NativeM N I O P (c.Result P) := Prog.request c

def renameNoReplace (staging destination : N) : NativeM N I O P (IoResult Unit) :=
  native (.renameNoReplace staging destination)

def linkat (staging destination : N) : NativeM N I O P (IoResult Unit) :=
  native (.link staging destination)

def unlinkStagingName (staging : N) : NativeM N I O P (IoResult Unit) := native (.unlink staging)

/-- The unlink attempts: one and then at most `more`.  A staging name that is already gone counts
    as removed. -/
def unlinkAttempts (staging : N) : Nat → NativeM N I O P (IoResult Unit)
  | 0 => do
    match ← unlinkStagingName staging with
    | .ok () => pure (.ok ())
    | .error error => if error.kind = .notFound then pure (.ok ()) else pure (.error error)
  | more + 1 => do
    match ← unlinkStagingName staging with
    | .ok () => pure (.ok ())
    | .error error =>
      if error.kind = .notFound then pure (.ok ()) else unlinkAttempts staging more

def maxUnlinkAttempts : Nat := 2

def linkThenUnlink (staging destination : N) : NativeM N I O P (Except InstallFailure Unit) := do
  match ← linkat staging destination with
  | .error error => pure (.error (unchangedError error))
  | .ok () =>
    match ← unlinkAttempts staging (maxUnlinkAttempts - 1) with
    | .ok () => pure (.ok ())
    | .error lastError => pure (.error (lastError, .replaced, .present))

/-- The errors after which Linux falls back to linking: the exclusive rename is not available. -/
def fallsBack (error : IoError) : Bool :=
  error.osCode = some enosys || error.osCode = some einval || error.osCode = some eopnotsupp

def installNewAtomicFileAt (system : UnixTarget) (staging destination : N) :
    NativeM N I O P (Except InstallFailure Unit) :=
  match system with
  | .linux => do
    match ← renameNoReplace staging destination with
    | .ok () => pure (.ok ())
    | .error error =>
      if fallsBack error then linkThenUnlink staging destination
      else pure (.error (unchangedError error))
  | .macos => do
    match ← renameNoReplace staging destination with
    | .ok () => pure (.ok ())
    | .error error => pure (.error (unchangedError error))
  | .freebsd => linkThenUnlink staging destination
  | .other =>
    pure (.error (unchangedError
      ⟨.unsupported, "atomic no-replace installation is unsupported on this target", none⟩))

end Programs

end LocalFiles.Atomic
