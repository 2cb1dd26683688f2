import LocalFiles.Atomic.Install

/-!
# Staging — the guards of uncommitted staging files

A guard owns the name and the handle of a staging file until the file is published.  The Host
guard (`StagedFile`) works with paths, the rooted guard (`RootedStagedFile`) with a retained
directory descriptor; both hold the same data and differ in how they clean up.
-/

namespace LocalFiles.Atomic

open Interaction

/-! ## 1. Native calls that leave the names alone -/

inductive AtomicCall (I : Type) where
  | write (file : I) (bytes : List UInt8)
  | writeVectored (file : I) (buffers : List (List UInt8))
  | flush (file : I)
  | syncFile (file : I)
  | syncParent
  | syncDirectory (directory : Path)
  | prepareParent
  | preserveMetadata (source staging : I)
  | setPermissions (file : I)
  | clearNonblocking (file : I)
  | representable (file : I)
  | isSymlink (file : I)
  | panic (message : String)
  deriving DecidableEq, Repr

/-- A panic gets no answer: the program does not go on. -/
def AtomicCall.Result {I : Type} : AtomicCall I → Type
  | .write _ _ => IoResult Nat
  | .writeVectored _ _ => IoResult Nat
  | .flush _ => IoResult Unit
  | .syncFile _ => IoResult Unit
  | .syncParent => IoResult Unit
  | .syncDirectory _ => IoResult Unit
  | .prepareParent => IoResult Unit
  | .preserveMetadata _ _ => IoResult Unit
  | .setPermissions _ => IoResult Unit
  | .clearNonblocking _ => IoResult Unit
  | .representable _ => IoResult Unit
  | .isSymlink _ => Bool
  | .panic _ => Empty

abbrev AtomicM (I : Type) := NativeM String I (AtomicCall I) AtomicCall.Result

abbrev AtomicEvent (I : Type) :=
  Event (Syscall String I (AtomicCall I)) (Syscall.Result AtomicCall.Result)

section Calls

variable {I α : Type}

def stat (name : String) : AtomicM I (IoResult (Status I)) := native (.stat name)
def fileStat (file : I) : AtomicM I (IoResult (Status I)) := native (.fileStat file)
def openRead (name : String) : AtomicM I (IoResult I) := native (.openRead name)
def createExclusive (name : String) : AtomicM I (IoResult I) := native (.createExclusive name)
def rename (source destination : String) : AtomicM I (IoResult Unit) :=
  native (.rename source destination)
def unlink (name : String) : AtomicM I (IoResult Unit) := native (.unlink name)
def tryRandomFileName : AtomicM I (IoResult String) := native .randomName
def atomicCall (o : AtomicCall I) : AtomicM I o.Result := native (.inert o)
def writeFile (file : I) (bytes : List UInt8) : AtomicM I (IoResult Nat) :=
  atomicCall (.write file bytes)
def writeFileVectored (file : I) (buffers : List (List UInt8)) : AtomicM I (IoResult Nat) :=
  atomicCall (.writeVectored file buffers)
def flushFile (file : I) : AtomicM I (IoResult Unit) := atomicCall (.flush file)
def syncFile (file : I) : AtomicM I (IoResult Unit) := atomicCall (.syncFile file)
def syncParent : AtomicM I (IoResult Unit) := atomicCall .syncParent
def syncDirectory (directory : Path) : AtomicM I (IoResult Unit) :=
  atomicCall (.syncDirectory directory)
def prepareParent : AtomicM I (IoResult Unit) := atomicCall .prepareParent
def preserveAtomicMetadata (source staging : I) : AtomicM I (IoResult Unit) :=
  atomicCall (.preserveMetadata source staging)
def setPermissions (file : I) : AtomicM I (IoResult Unit) := atomicCall (.setPermissions file)
def clearNonblocking (file : I) : AtomicM I (IoResult Unit) := atomicCall (.clearNonblocking file)
def representable (file : I) : AtomicM I (IoResult Unit) := atomicCall (.representable file)
def isSymlink (file : I) : AtomicM I Bool := atomicCall (.isSymlink file)
def panic (message : String) : AtomicM I α := .call (.inert (.panic message)) Empty.elim

/-- `Option::expect` -/
def expectSome (value : Option α) (message : String) : AtomicM I α :=
  match value with
  | some a => pure a
  | none => panic message

end Calls

/-! ## 2. The guards -/

/-- The two atomic writers: by path, or relative to an opened root. -/
inductive Scope where
  | host | rooted
  deriving DecidableEq, Repr

/-- `name` is the staging entry while cleanup is armed, `file` the data handle until it is closed,
    `identity` what the creation handle reported; without it nothing is ever removed. -/
structure StagedFile (I : Type) where
  name : Option String
  file : Option I
  identity : Option I
  diagnosticPath : Path
  deriving DecidableEq, Repr

namespace StagedFile

variable {I : Type} (staged : StagedFile I)

def new (name : String) (file : I) (diagnosticPath : Path) : AtomicM I (StagedFile I) := do
  let identity := (← fileStat file).toOption.map Status.identity
  pure { name := some name, file := some file, identity := identity,
         diagnosticPath := diagnosticPath }

def isOpen : Bool := staged.file.isSome

def close : StagedFile I := { staged with file := none }

def disarm : StagedFile I := { staged with file := none, name := none }

/-- `file()` and `file_mut()` of the two guards. -/
def handle (scope : Scope) : AtomicM I I :=
  match scope with
  | .host => expectSome staged.file "staging file handle has already been closed"
  | .rooted => expectSome staged.file "rooted staging file handle has already been closed"

def armedName (scope : Scope) : AtomicM I String :=
  match scope with
  | .host => expectSome staged.name "staging path has already been disarmed"
  | .rooted => expectSome staged.name "rooted staging entry has already been disarmed"

/-- The staging path of an error: the Host guard has one only while it is armed. -/
def temporaryPath (scope : Scope) : AtomicM I Path :=
  match scope with
  | .host => do
    let _ ← staged.armedName .host
    pure staged.diagnosticPath
  | .rooted => pure staged.diagnosticPath

end StagedFile

/-! ## 3. Cleanup -/

section Cleanup

variable {I : Type}

/-- The identity under a path; nothing when the path is free or leads to no regular file. -/
def pathIdentity (name : String) : AtomicM I (IoResult (Option I)) := do
  match ← stat name with
  | .ok status => pure (.ok (if status.regular then some status.identity else none))
  | .error error => if error.kind = .notFound then pure (.ok none) else pure (.error error)

/-- The last step of a cleanup: a name is given up only once it is removed. -/
def StagedFile.remove (staged : StagedFile I) (name : String) :
    AtomicM I (IoResult Unit × StagedFile I) := do
  match ← unlink name with
  | .ok () => pure (.ok (), { staged with name := none })
  | .error error => pure (.error error, staged)

variable [DecidableEq I]

/-- `StagedFile::cleanup` over the way the target learns the identity under a path. -/
def StagedFile.cleanupBy (identityOf : String → AtomicM I (IoResult (Option I)))
    (staged : StagedFile I) : AtomicM I (IoResult Unit × StagedFile I) :=
  let closed := staged.close
  match closed.name with
  | none => pure (.ok (), closed)
  | some name => do
    match ← identityOf name with
    | .error error => pure (.error error, closed)
    | .ok none => pure (.ok (), { closed with name := none })
    | .ok (some current) =>
      if closed.identity ≠ some current then
        pure (.error ⟨.invalidInput, "staging file identity changed before cleanup", none⟩, closed)
      else closed.remove name

def StagedFile.cleanup (staged : StagedFile I) : AtomicM I (IoResult Unit × StagedFile I) :=
  staged.cleanupBy pathIdentity

def RootedStagedFile.cleanup (staged : StagedFile I) : AtomicM I (IoResult Unit × StagedFile I) :=
  let closed := staged.close
  match closed.name with
  | none => pure (.ok (), closed)
  | some name =>
    match closed.identity with
    | none => pure (.error ⟨.invalidData, "staging file identity is unavailable", none⟩, closed)
    | some identity => do
      match ← stat name with
      | .error error =>
        if error.kind = .notFound then pure (.ok (), { closed with name := none })
        else pure (.error error, closed)
      | .ok status =>
        if !status.regular || status.identity ≠ identity then
          pure (.error ⟨.invalidInput,
            "rooted staging entry identity changed before cleanup", none⟩, closed)
        else closed.remove name

def Scope.cleanup : Scope → StagedFile I → AtomicM I (IoResult Unit × StagedFile I)
  | .host => StagedFile.cleanup
  | .rooted => RootedStagedFile.cleanup

/-- The drop of a guard cleans up as far as it can. -/
def Scope.drop (scope : Scope) (staged : StagedFile I) : AtomicM I Unit := do
  let _ ← scope.cleanup staged
  pure ()

end Cleanup

end LocalFiles.Atomic
