import LocalFiles.Walk.Walker

/-!
# Rooted — the walker below an opened root

A Rooted frame opens its reader on the turn it is first on top.  Every entry is resolved
through the root before it is yielded, and an error ends the walk by `is_terminal_walk_error`.
-/

namespace LocalFiles.Walk

/-- What the root authority answers during one turn. -/
structure RootedNative where
  now : Nat
  path : Path
  openDirReader : Path → IoResult Listing
  openedMetadata : Path → IoResult Metadata
  entryMetadata : Path → IoResult Metadata
  symlinkMetadata : Path → IoResult Metadata
  resolve : Path → Bool → Except LocalFileError Path
  measure : NameMeasure

def RootedNative.at (native : RootedNative) (now : Nat) : RootedNative :=
  { native with now := now }

@[simp] theorem RootedNative.at_now (native : RootedNative) (now : Nat) :
    (native.at now).now = now := rfl

/-- A Rooted frame keeps the path below the root and the path it yields. -/
structure RootedPlace where
  authorityParent : Path
  outputParent : Path
  deriving DecidableEq, Repr

abbrev RootedWalker [QubitBudget] := LocalDirectoryWalker RootedPlace

namespace RootedWalker

variable [QubitBudget] (native : RootedNative)

def frameOf (options : LocalListOptions) (place : RootedPlace) (identity : DirectoryIdentity)
    (entryDepth : Nat) : WalkFrame RootedPlace where
  place := place
  reader := none
  directoryPermit := false
  seen := LocalDirectoryWalker.freshSeen options
  identity := some identity
  entryDepth := entryDepth

/-- `open_rooted_with_output`; the empty path selects the root itself. -/
def openRootedWithOutput (clockEnd : Nat) (authorityParent outputParent namespaceRoot : Path)
    (options : LocalListOptions) (symlinkPolicy : LocalSymlinkPolicy) (startedAt : Nat) :
    Except LocalFileError RootedWalker := do
  let diagnosticRoot := native.path ++ authorityParent
  validateOptions diagnosticRoot options
  let deadline ← walkerDeadline clockEnd diagnosticRoot options startedAt
  let startMetadata ←
    (native.symlinkMetadata authorityParent).mapError (walkIoError namespaceRoot)
  let startIdentity := DirectoryIdentity.fromRootedMetadata startMetadata authorityParent
  return .start namespaceRoot [] options symlinkPolicy deadline (directoryPool options)
    (frameOf options ⟨authorityParent, outputParent⟩ startIdentity 1) startIdentity

def openRooted (clockEnd : Nat) (authorityParent namespaceRoot : Path)
    (options : LocalListOptions) (symlinkPolicy : LocalSymlinkPolicy) (startedAt : Nat) :
    Except LocalFileError RootedWalker :=
  openRootedWithOutput native clockEnd authorityParent [] namespaceRoot options symlinkPolicy
    startedAt

variable (w : RootedWalker)

/-- Opens the reader of the top frame; a frame that cannot be opened is popped. -/
def openReader (place : RootedPlace) : RootedWalker × Except LocalFileError Unit :=
  let publicParent := w.root ++ place.outputParent
  match w.acquireDirectory publicParent with
  | (w, .error error) => (w.leaveDirectory, .error error)
  | (w, .ok permit) =>
    let abandon (error : LocalFileError) : RootedWalker × Except LocalFileError Unit :=
      ((w.releasePermits permit.toNat).leaveDirectory, .error error)
    match native.openDirReader place.authorityParent with
    | .error error => abandon (walkIoError publicParent error)
    | .ok reader =>
      match native.openedMetadata place.authorityParent with
      | .error error => abandon (walkIoError publicParent error)
      | .ok metadata =>
        let observed := DirectoryIdentity.fromRootedMetadata metadata place.authorityParent
        if w.topIdentity ≠ some observed then
          abandon (invalidPath
            "directory identity changed while reopening walker frame" publicParent)
        else (w.openTop reader permit, .ok ())

/-- A directory the walk may enter, unless it is on the stack already. -/
def unlessFollowed (reason : String) (output target : Path) (metadata : Metadata) :
    Except LocalFileError (Option (Path × DirectoryIdentity)) :=
  let identity := DirectoryIdentity.fromRootedMetadata metadata target
  if identity ∈ w.followedDirectories then .error (invalidPath reason output)
  else .ok (some (target, identity))

/-- The directory an entry leads to. -/
def followedDirectory (place : RootedPlace) (name : String) (metadata : Metadata)
    (mayDescend : Bool) : Except LocalFileError (Option (Path × DirectoryIdentity)) :=
  let authorityPath := place.authorityParent ++ [name]
  let output := w.root ++ (place.outputParent ++ [name])
  if metadata.kind = .directory then
    unlessFollowed w "directory identity cycle detected" output authorityPath metadata
  else if metadata.kind = .symlink ∧ w.symlinkPolicy.follows ∧ mayDescend then
    match native.resolve authorityPath true with
    | .error error => .error (error.withPath output)
    | .ok target =>
      match native.symlinkMetadata target with
      | .error error => .error (walkIoError output error)
      | .ok targetMetadata =>
        if targetMetadata.kind = .directory then
          unlessFollowed w "symbolic-link directory cycle detected" output target targetMetadata
        else .ok none
  else .ok none

/-- The entry `name` of the top directory, once it is known to be new. -/
def visit (place : RootedPlace) (entryDepth : Nat) (name : String) (metadata : Metadata) :
    Step Item RootedWalker :=
  if w.options.tooDeep entryDepth then .again w
  else
    match w.charge native.measure name with
    | (w, .error error) => .yield (.error (directoryLimitError w.root error)) w
    | (w, .ok ()) =>
      let authorityPath := place.authorityParent ++ [name]
      let outputPath := place.outputParent ++ [name]
      let mayDescend := w.options.mayDescend entryDepth
      match native.resolve authorityPath false with
      | .error error => .yield (.error (error.withPath (w.root ++ outputPath))) w
      | .ok _ =>
        match followedDirectory native w place name metadata mayDescend with
        | .error error => .yield (.error error) w
        | .ok followed =>
          let entry : LocalDirectoryEntry :=
            ⟨w.root ++ outputPath, some (native.path ++ authorityPath), outputPath, metadata⟩
          match followed with
          | some (target, identity) =>
            if mayDescend then
              .yield (.ok entry) (w.enterDirectory
                (frameOf w.options ⟨target, outputPath⟩ identity (entryDepth + 1)) identity)
            else .yield (.ok entry) w
          | none => .yield (.ok entry) w

/-- A new name.  When its entry cannot be inspected, the name is charged and reported. -/
def take (place : RootedPlace) (entryDepth : Nat) (name : String) : Step Item RootedWalker :=
  match native.entryMetadata (place.authorityParent ++ [name]) with
  | .ok metadata => visit native w place entryDepth name metadata
  | .error error =>
    match w.chargeName native.measure name with
    | .error limit => .yield (.error (directoryLimitError w.root limit)) w
    | .ok w => .yield (.error (walkIoError (w.root ++ place.outputParent ++ [name]) error)) w

/-- One name from the top reader. -/
def read (frame : WalkFrame RootedPlace) (listing : Listing) : Step Item RootedWalker :=
  match listing.next with
  | .entry name rest =>
    let frame := { frame with reader := some rest }
    if frame.hasSeen name then .again (w.setTop frame)
    else take native (w.setTop (frame.remember name)) frame.place frame.entryDepth name
  | .failed error _ =>
    .yield (.error (walkIoError (w.root ++ frame.place.outputParent) error)) w.leaveDirectory
  | .done => .again w.leaveDirectory

/-- `next_rooted_entry`. -/
def nextRootedEntry : Step Item RootedWalker :=
  if w.expired native.now then .yield (.error (walkIoError w.root deadlineExceeded)) w
  else
    match w.stack with
    | [] => .stop
    | frame :: _ =>
      match frame.reader with
      | none =>
        match openReader native w frame.place with
        | (w, .ok ()) => .again w
        | (w, .error error) => .yield (.error error) w
      | some listing => read native w frame listing

/-- Marks the walk as ended after an error that is terminal. -/
def settle : Step Item RootedWalker → Step Item RootedWalker
  | .yield (.error error) w =>
    .yield (.error error)
      (if isTerminalWalkError error w.options.errorPolicy then w.terminate else w)
  | r => r

/-- `next_entry` of a Rooted walker. -/
def nextEntry : Step Item RootedWalker :=
  if w.terminated then .stop else settle (nextRootedEntry native w)

/-- One turn of the iterator. -/
def next : Step Item RootedWalker := (nextEntry native w).map w.withContext

end RootedWalker

end LocalFiles.Walk
