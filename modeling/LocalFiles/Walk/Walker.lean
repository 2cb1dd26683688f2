import Mathlib.Data.Finset.Insert
import Mathlib.Data.Finset.Erase
import LocalFiles.Iteration
import LocalFiles.QubitBudget
import LocalFiles.Utf16

/-!
# Walker — the state of a directory walker

A walker is a depth-first traversal with an explicit stack of directory frames; the head of the
list is the top of the stack.  The Host and the Rooted walker keep frames of the same shape and
differ in what a frame says about its place, so the state is generic in that.
-/

namespace LocalFiles.Walk

/-! ## 1. Options -/

inductive LocalDirectoryReopenPolicy where
  | fail | reopen
  deriving DecidableEq, Repr

inductive LocalWalkErrorPolicy where
  | failFast | continueWalk
  deriving DecidableEq, Repr

structure LocalListOptions where
  maxOpenDirectories : Option Nat := none
  reopenPolicy : LocalDirectoryReopenPolicy := .reopen
  recursive : Bool := false
  maxDepth : Option Nat := none
  maxEntries : Option Nat := none
  maxSeenNameBytes : Option Nat := none
  deadline : Option Nat := none
  errorPolicy : LocalWalkErrorPolicy := .failFast
  deriving DecidableEq, Repr

namespace LocalListOptions

variable (options : LocalListOptions)

def mayDescend (entryDepth : Nat) : Bool :=
  options.recursive && options.maxDepth.all fun maxDepth => entryDepth < maxDepth

def canDescend : Bool := options.recursive && options.maxDepth.all fun maxDepth => 1 < maxDepth

def canReopen : Bool :=
  options.canDescend && options.maxOpenDirectories.isSome && options.reopenPolicy == .reopen

def needsSeenNames : Bool := options.maxSeenNameBytes.isSome || options.canReopen

/-- Entries below the depth limit are passed over. -/
def tooDeep (entryDepth : Nat) : Bool := options.maxDepth.any fun maxDepth => maxDepth < entryDepth

end LocalListOptions

/-! ## 2. Readers, permits and identities -/

/-- What an open native reader still gives: names, then at most one failure, then the end. -/
structure Listing where
  entries : List String
  failure : Option IoError := none
  deriving DecidableEq, Repr

inductive Reading where
  | entry (name : String) (rest : Listing)
  | failed (error : IoError) (rest : Listing)
  | done
  deriving DecidableEq, Repr

def Listing.next (listing : Listing) : Reading :=
  match listing.entries with
  | name :: entries => .entry name { listing with entries := entries }
  | [] =>
    match listing.failure with
    | some error => .failed error { listing with failure := none }
    | none => .done

def directoryPool [QubitBudget] (options : LocalListOptions) : Option ManagedResourcePool :=
  options.maxOpenDirectories.map (.new .openDirectory)

inductive DirectoryIdentity where
  | native (identity : LocalFileIdentity)
  | canonical (path : Path)
  deriving DecidableEq, Repr

def DirectoryIdentity.fromRootedMetadata (metadata : Metadata) (fallback : Path) :
    DirectoryIdentity :=
  match metadata.identity with
  | some identity => .native identity
  | none => .canonical fallback

/-- How a platform counts what names take: `name_bytes`, and the bytes of one separator. -/
structure NameMeasure where
  nameBytes : String → Nat
  separatorBytes : Nat

def NameMeasure.unix : NameMeasure := ⟨String.utf8ByteSize, 1⟩

/-- Two bytes for each UTF-16 unit. -/
def NameMeasure.windows : NameMeasure :=
  ⟨fun name => (Utf16.encodeUtf16 name.toList).length * 2, 2⟩

/-! ## 3. Errors and items -/

def walkIoError (path : Path) (error : IoError) : LocalFileError :=
  .fromIo .list (some path) none error

def directoryLimitError (path : Path) (error : LocalResourceLimitError) : LocalFileError :=
  .fromResourceLimit .list (some path) error

def deadlineExceeded : IoError := ⟨.timedOut, "local listing deadline exceeded", none⟩

def invalidPath (reason : String) (path : Path) : LocalFileError :=
  ((LocalFileError.new .invalidPath .list).withReason reason).withPath path

def isTerminalWalkError (error : LocalFileError) (policy : LocalWalkErrorPolicy) : Bool :=
  policy == .failFast ||
    (error.resourceLimitError.any fun limit => limit.resource != .openDirectory) ||
    error.ioError.any fun source => source.kind == .timedOut

structure LocalDirectoryEntry where
  path : Path
  diagnosticPath : Option Path
  relativePath : Path
  metadata : Metadata
  deriving DecidableEq, Repr

abbrev Item := Except LocalFileError LocalDirectoryEntry

/-! ## 4. Frames and walkers -/

structure WalkFrame (π : Type) where
  place : π
  reader : Option Listing
  directoryPermit : Bool
  seen : Option (Finset String)
  identity : Option DirectoryIdentity
  entryDepth : Nat

namespace WalkFrame

variable {π : Type} (frame : WalkFrame π)

/-- `close_host_frame` and `close_rooted_frame`. -/
def close : WalkFrame π := { frame with reader := none, directoryPermit := false }

def hasSeen (name : String) : Bool := frame.seen.any fun seen => name ∈ seen

def remember (name : String) : WalkFrame π :=
  { frame with seen := frame.seen.map (insert name) }

end WalkFrame

structure LocalDirectoryWalker [QubitBudget] (π : Type) where
  root : Path
  backendRoot : Path
  currentDirectory : Option Path := none
  options : LocalListOptions
  stack : List (WalkFrame π)
  openDirectories : Option ManagedResourcePool
  followedDirectories : Finset DirectoryIdentity
  terminated : Bool := false
  symlinkPolicy : LocalSymlinkPolicy
  entryBudget : Option ResourceBudget
  seenNameBudget : Option ResourceBudget
  deadline : Option Nat

namespace LocalDirectoryWalker

variable [QubitBudget] {π : Type} (w : LocalDirectoryWalker π)

/-- Dropping `n` permits returns their capacity to the pool. -/
def releasePermits (n : Nat) : LocalDirectoryWalker π :=
  { w with openDirectories := w.openDirectories.map (·.release n) }

/-- `close_all_host_frames` and `close_all_rooted_frames`. -/
def closeAllFrames : LocalDirectoryWalker π :=
  { w.releasePermits (w.stack.countP (·.directoryPermit)) with
    stack := w.stack.map WalkFrame.close }

/-- Pops the top frame (`pop_host_frame`, `pop_rooted_frame`) and forgets its identity. -/
def leaveDirectory : LocalDirectoryWalker π :=
  match w.stack with
  | [] => w
  | frame :: below =>
    { w.releasePermits frame.directoryPermit.toNat with
      stack := below
      followedDirectories := match frame.identity with
        | some identity => w.followedDirectories.erase identity
        | none => w.followedDirectories }

theorem leaveDirectory_cons {w : LocalDirectoryWalker π} {frame : WalkFrame π}
    {below : List (WalkFrame π)} (h : w.stack = frame :: below) :
    w.leaveDirectory =
      { w.releasePermits frame.directoryPermit.toNat with
        stack := below
        followedDirectories := match frame.identity with
          | some identity => w.followedDirectories.erase identity
          | none => w.followedDirectories } := by
  unfold leaveDirectory
  rw [h]

def tryAcquire : Except LocalResourceLimitError (LocalDirectoryWalker π × Bool) :=
  match w.openDirectories with
  | none => .ok (w, false)
  | some pool => pool.tryAcquire.map fun pool => ({ w with openDirectories := some pool }, true)

/-- `acquire_host_directory` and `acquire_rooted_directory`: under `Reopen` an exhausted pool
    is tried again once every reader is closed. -/
def acquireDirectory (path : Path) : LocalDirectoryWalker π × Except LocalFileError Bool :=
  match w.tryAcquire with
  | .ok (w, permit) => (w, .ok permit)
  | .error error =>
    if w.options.reopenPolicy = .reopen then
      match w.closeAllFrames.tryAcquire with
      | .ok (w, permit) => (w, .ok permit)
      | .error error => (w.closeAllFrames, .error (directoryLimitError path error))
    else (w, .error (directoryLimitError path error))

def setTop (frame : WalkFrame π) : LocalDirectoryWalker π :=
  { w with stack := frame :: w.stack.tail }

theorem setTop_stack {w : LocalDirectoryWalker π} {frame : WalkFrame π}
    {below : List (WalkFrame π)} (h : w.stack = frame :: below) (frame' : WalkFrame π) :
    (w.setTop frame').stack = frame' :: below := by
  unfold setTop
  rw [h]
  rfl

/-- Leaving a directory does not depend on how far its reader was. -/
theorem leaveDirectory_setTop {w : LocalDirectoryWalker π} {frame frame' : WalkFrame π}
    {below : List (WalkFrame π)} (h : w.stack = frame :: below)
    (hidentity : frame'.identity = frame.identity)
    (hpermit : frame'.directoryPermit = frame.directoryPermit) :
    (w.setTop frame').leaveDirectory = w.leaveDirectory := by
  rw [leaveDirectory_cons (setTop_stack h frame'), leaveDirectory_cons h, hidentity, hpermit]
  rfl

/-- Gives the top frame its reader and the permit that goes with it. -/
def openTop (entries : Listing) (permit : Bool) : LocalDirectoryWalker π :=
  match w.stack with
  | [] => w
  | frame :: below =>
    { w with stack := { frame with reader := some entries, directoryPermit := permit } :: below }

def enterDirectory (frame : WalkFrame π) (identity : DirectoryIdentity) :
    LocalDirectoryWalker π :=
  { w with
    stack := frame :: w.stack
    followedDirectories := insert identity w.followedDirectories }

def topIdentity : Option DirectoryIdentity := w.stack.head?.bind (·.identity)

def terminate : LocalDirectoryWalker π := { w with terminated := true }

/-- What `FailFast` does after an error. -/
def afterError : LocalDirectoryWalker π :=
  if w.options.errorPolicy = .failFast then w.terminate else w

def chargeEntry : Except LocalResourceLimitError (LocalDirectoryWalker π) :=
  match w.entryBudget with
  | none => .ok w
  | some budget => (budget.tryConsume 1).map fun budget => { w with entryBudget := some budget }

def chargeName (measure : NameMeasure) (name : String) :
    Except LocalResourceLimitError (LocalDirectoryWalker π) :=
  match w.seenNameBudget with
  | none => .ok w
  | some budget =>
    (budget.tryConsume (measure.nameBytes name)).map fun budget => { w with seenNameBudget := some budget }

/-- A yielded entry is charged before its name. -/
def charge (measure : NameMeasure) (name : String) :
    LocalDirectoryWalker π × Except LocalResourceLimitError Unit :=
  match w.chargeEntry with
  | .error error => (w, .error error)
  | .ok w =>
    match w.chargeName measure name with
    | .error error => (w, .error error)
    | .ok w => (w, .ok ())

def expired (now : Nat) : Bool := w.deadline.any fun deadline => deadline ≤ now

/-- The seen names a new frame starts with. -/
def freshSeen (options : LocalListOptions) : Option (Finset String) :=
  if options.needsSeenNames then some ∅ else none

def bindCurrentDirectory (currentDirectory : Option Path) : LocalDirectoryWalker π :=
  { w with currentDirectory := currentDirectory }

/-- `Iterator::next` adds the snapshot of the current directory to an error. -/
def withContext (item : Item) : Item :=
  item.mapError fun error =>
    match w.currentDirectory with
    | some directory => error.withCurrentDirectory directory
    | none => error

end LocalDirectoryWalker

/-! ## 5. Creation -/

def validateOptions (root : Path) (options : LocalListOptions) : Except LocalFileError Unit :=
  if options.maxOpenDirectories = some 0 then
    .error (((LocalFileError.new .invalidOptions .list).withPath root).withReason
      "maximum open directory count must be greater than zero")
  else .ok ()

/-- `clockEnd` is the last instant of the monotonic clock. -/
def walkerDeadline (clockEnd : Nat) (root : Path) (options : LocalListOptions)
    (startedAt : Nat) : Except LocalFileError (Option Nat) :=
  match options.deadline with
  | none => .ok none
  | some duration =>
    if startedAt + duration ≤ clockEnd then .ok (some (startedAt + duration))
    else .error (((LocalFileError.new .invalidOptions .list).withPath root).withReason
      "listing deadline exceeds the monotonic clock range")

/-- The walker both constructors build: no frame when the depth limit is zero. -/
def LocalDirectoryWalker.start [QubitBudget] {π : Type} (root backendRoot : Path) (options : LocalListOptions)
    (symlinkPolicy : LocalSymlinkPolicy) (deadline : Option Nat) (pool : Option ManagedResourcePool)
    (frame : WalkFrame π) (identity : DirectoryIdentity) : LocalDirectoryWalker π where
  root := root
  backendRoot := backendRoot
  options := options
  stack := if options.maxDepth = some 0 then [] else [frame]
  openDirectories := pool
  followedDirectories := if options.maxDepth = some 0 then ∅ else {identity}
  symlinkPolicy := symlinkPolicy
  entryBudget := options.maxEntries.map (.new .entry)
  seenNameBudget := options.maxSeenNameBytes.map (.new .seenNameBytes)
  deadline := deadline

end LocalFiles.Walk
