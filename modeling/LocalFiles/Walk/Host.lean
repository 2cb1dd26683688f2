import LocalFiles.Walk.Walker

/-!
# Host — the walker over native paths

One turn is one pass through a loop of `next_entry`: reopening the top frame, or taking one
name from its reader.  Nothing inside these loops can end the walk without an item, so the
check at the head of `next_entry` is made on every turn.
-/

namespace LocalFiles.Walk

/-- What the native calls answer during one turn. -/
structure HostNative where
  now : Nat
  symlinkMetadata : Path → IoResult Metadata
  metadata : Path → IoResult Metadata
  readDir : Path → IoResult Listing
  directoryIdentity : Metadata → Path → IoResult DirectoryIdentity
  measure : NameMeasure

def HostNative.at (native : HostNative) (now : Nat) : HostNative := { native with now := now }

@[simp] theorem HostNative.at_now (native : HostNative) (now : Nat) : (native.at now).now = now :=
  rfl

abbrev HostWalker [QubitBudget] := LocalDirectoryWalker Path

namespace HostWalker

variable [QubitBudget] (native : HostNative)

def nativeDirectoryIdentity (metadata : Metadata) (path : Path) :
    Except LocalFileError DirectoryIdentity :=
  (native.directoryIdentity metadata path).mapError (walkIoError path)

/-- `WalkFrame`s keep the path of their directory relative to the root. -/
def frameOf (options : LocalListOptions) (relative : Path) (identity : DirectoryIdentity)
    (entryDepth : Nat) (entries : Listing) (permit : Bool) : WalkFrame Path where
  place := relative
  reader := some entries
  directoryPermit := permit
  seen := LocalDirectoryWalker.freshSeen options
  identity := some identity
  entryDepth := entryDepth

/-- The pool after the permit of the root, which its `expect` takes for granted, and with a depth
    limit of zero after that permit is dropped again. -/
def rootPool (options : LocalListOptions) : Option ManagedResourcePool :=
  (directoryPool options).map fun pool =>
    let acquired := pool.tryAcquire.toOption.getD pool
    if options.maxDepth = some 0 then acquired.release 1 else acquired

/-- `open_with_diagnostic`. -/
def openWithDiagnostic (clockEnd : Nat) (backendRoot diagnosticRoot : Path)
    (options : LocalListOptions) (symlinkPolicy : LocalSymlinkPolicy) (startedAt : Nat) :
    Except LocalFileError HostWalker := do
  validateOptions diagnosticRoot options
  let deadline ← walkerDeadline clockEnd diagnosticRoot options startedAt
  let metadata ← (native.symlinkMetadata backendRoot).mapError (walkIoError diagnosticRoot)
  if metadata.kind ≠ .directory then
    throw ((LocalFileError.new .typeConflict .list).withPath diagnosticRoot)
  let entries ← (native.readDir backendRoot).mapError (walkIoError diagnosticRoot)
  let rootIdentity ← nativeDirectoryIdentity native metadata backendRoot
  return .start diagnosticRoot backendRoot options symlinkPolicy deadline (rootPool options)
    (frameOf options [] rootIdentity 1 entries options.maxOpenDirectories.isSome) rootIdentity

variable (w : HostWalker)

def descend (path : Path) (metadata : Metadata) (relative : Path) (entryDepth : Nat) :
    HostWalker × Except LocalFileError Unit :=
  match nativeDirectoryIdentity native metadata path with
  | .error error => (w, .error error)
  | .ok identity =>
    if identity ∈ w.followedDirectories then
      (w, .error (invalidPath "directory identity cycle detected" path))
    else
      match w.acquireDirectory path with
      | (w, .error error) => (w, .error error)
      | (w, .ok permit) =>
        match native.readDir path with
        | .error error => (w.releasePermits permit.toNat, .error (walkIoError path error))
        | .ok entries =>
          (w.enterDirectory (frameOf w.options relative identity (entryDepth + 1) entries permit)
            identity, .ok ())

def handleReopenError (error : LocalFileError) : HostWalker × Except LocalFileError Unit :=
  if w.options.errorPolicy = .failFast then (w.terminate, .error error)
  else (w.leaveDirectory, .error error)

def reopenHostFrame (relativeParent : Path) : HostWalker × Except LocalFileError Unit :=
  let directory := w.backendRoot ++ relativeParent
  let diagnosticDirectory := w.root ++ relativeParent
  let metadata :=
    if w.symlinkPolicy.follows then native.metadata directory
    else native.symlinkMetadata directory
  match metadata with
  | .error error => handleReopenError w (walkIoError diagnosticDirectory error)
  | .ok metadata =>
    if metadata.kind ≠ .directory then
      handleReopenError w
        (invalidPath "directory entry changed while reopening walker frame" diagnosticDirectory)
    else
      match nativeDirectoryIdentity native metadata directory with
      | .error error => handleReopenError w error
      | .ok identity =>
        if w.topIdentity ≠ some identity then
          handleReopenError w (invalidPath
            "directory identity changed while reopening walker frame" diagnosticDirectory)
        else
          match w.acquireDirectory directory with
          | (w, .error error) => handleReopenError w error
          | (w, .ok permit) =>
            match native.readDir directory with
            | .error error =>
              handleReopenError (w.releasePermits permit.toNat)
                (walkIoError diagnosticDirectory error)
            | .ok entries => (w.openTop entries permit, .ok ())

/-- The metadata that decides on descending: the target's where a link is followed. -/
def descentMetadata (path : Path) (entryMetadata : Metadata) (mayDescend : Bool) :
    IoResult Metadata :=
  if entryMetadata.kind = .symlink ∧ mayDescend ∧ w.symlinkPolicy.follows then
    native.metadata path
  else .ok entryMetadata

/-- The entry `name` of the top directory, once it is known to be new. -/
def visit (relativeParent : Path) (entryDepth : Nat) (name : String) : Step Item HostWalker :=
  if w.options.tooDeep entryDepth then .again w
  else
    match w.charge native.measure name with
    | (w, .error error) =>
      .yield (.error (directoryLimitError (w.root ++ relativeParent) error)) w.terminate
    | (w, .ok ()) =>
      let path := w.backendRoot ++ relativeParent ++ [name]
      let relative := relativeParent ++ [name]
      match native.symlinkMetadata path with
      | .error error => .yield (.error (walkIoError path error)) w.afterError
      | .ok entryMetadata =>
        let mayDescend := w.options.mayDescend entryDepth
        match descentMetadata native w path entryMetadata mayDescend with
        | .error error => .yield (.error (walkIoError path error)) w.afterError
        | .ok descentMetadata =>
          let entry : LocalDirectoryEntry :=
            ⟨w.root ++ relative, some path, relative, entryMetadata⟩
          if descentMetadata.kind = .directory ∧ mayDescend then
            match descend native w path descentMetadata relative entryDepth with
            | (w, .error error) => .yield (.error error) w.afterError
            | (w, .ok ()) => .yield (.ok entry) w
          else .yield (.ok entry) w

/-- One name from the top reader. -/
def read (frame : WalkFrame Path) (listing : Listing) : Step Item HostWalker :=
  match listing.next with
  | .entry name rest =>
    let frame := { frame with reader := some rest }
    if frame.hasSeen name then .again (w.setTop frame)
    else visit native (w.setTop (frame.remember name)) frame.place frame.entryDepth name
  | .failed error rest =>
    .yield (.error (walkIoError (w.root ++ frame.place) error))
      (w.setTop { frame with reader := some rest }).afterError
  | .done => .again w.leaveDirectory

/-- `next_entry`. -/
def nextEntry : Step Item HostWalker :=
  if w.terminated then .stop
  else if w.expired native.now then
    .yield (.error (walkIoError w.root deadlineExceeded)) w.terminate
  else
    match w.stack with
    | [] => .stop
    | frame :: _ =>
      match frame.reader with
      | none =>
        match reopenHostFrame native w frame.place with
        | (w, .ok ()) => .again w
        | (w, .error error) => .yield (.error error) w
      | some listing => read native w frame listing

/-- One turn of the iterator. -/
def next : Step Item HostWalker := (nextEntry native w).map w.withContext

end HostWalker

end LocalFiles.Walk
