import LocalFiles.Atomic.Writer
import LocalFiles.Contract
import Mathlib.Data.List.Induction
import Mathlib.Data.List.Nodup

/-!
# Parents — the directories an atomic write creates on the way to its destination

The Host writer looks upward for the missing directories, creates them in one call and keeps their
paths; the rooted writer opens the directories one below the other and keeps the descriptor of each
one it created an entry in.  Both lists are what the commit synchronizes behind the destination's
own parent.
-/

namespace LocalFiles.Atomic

open Interaction

/-! ## 1. By path -/

inductive HostCall where
  | metadata (path : Path)
  | mkdir (path : Path)
  | isDir (path : Path)
  deriving DecidableEq, Repr

/-- `metadata` says whether the path leads to a directory. -/
def HostCall.Result : HostCall → Type
  | .metadata _ => IoResult Bool
  | .mkdir _ => IoResult Unit
  | .isDir _ => Bool

abbrev HostM := Prog HostCall HostCall.Result

def readMetadata (path : Path) : HostM (IoResult Bool) := Prog.request (HostCall.metadata path)
def createDir (path : Path) : HostM (IoResult Unit) := Prog.request (HostCall.mkdir path)
def isDirectory (path : Path) : HostM Bool := Prog.request (HostCall.isDir path)

/-- `Path::display` of an absolute path. -/
def displayPath (path : Path) : String := "/" ++ "/".intercalate path

/-- The attempt at a directory that may be there already. -/
def createDirUnlessPresent (path : Path) : HostM (IoResult Unit) := do
  match ← createDir path with
  | .ok () => pure (.ok ())
  | .error error =>
    if error.kind = .alreadyExists then do
      if ← isDirectory path then pure (.ok ()) else pure (.error error)
    else pure (.error error)

/-- `fs::create_dir_all` for the first components of the path. -/
def createDirAll (path : Path) : Nat → HostM (IoResult Unit)
  | 0 => pure (.ok ())
  | n + 1 => do
    match ← createDir (path.take (n + 1)) with
    | .ok () => pure (.ok ())
    | .error error =>
      if error.kind = .notFound then
        (createDirAll path n).andThen fun _ => createDirUnlessPresent (path.take (n + 1))
      else if error.kind = .alreadyExists then do
        if ← isDirectory (path.take (n + 1)) then pure (.ok ()) else pure (.error error)
      else pure (.error error)

def ensureDirPath (path : Path) : HostM (IoResult Unit) := createDirAll path path.length

/-- The upward scan of `ensure_parent_path_with_sync_dirs`; the current directory is given by the
    first components of the parent. -/
def scanMissing (parent : Path) : Nat → List Path → HostM (IoResult (List Path))
  | n, missing => do
    match ← readMetadata (parent.take n) with
    | .ok true => pure (.ok missing)
    | .ok false =>
      pure (.error ⟨.alreadyExists,
        "parent path component is not a directory: " ++ displayPath (parent.take n), none⟩)
    | .error error =>
      if error.kind = .notFound then
        match n with
        | 0 => pure (.ok (missing ++ [parent.take 0]))
        | n + 1 => scanMissing parent n (missing ++ [parent.take (n + 1)])
      else pure (.error error)

/-- The directories observed as missing, the shallowest first. -/
def ensureParentPathWithSyncDirs (path : Path) : HostM (IoResult (List Path)) :=
  match path with
  | [] => pure (.ok [])
  | _ :: _ =>
    let parent := path.dropLast
    (scanMissing parent parent.length []).andThen fun missing =>
      (ensureDirPath parent).andThen fun _ => pure (.ok missing.reverse)

/-- How `LocalAtomicWriter::new` prepares the parent of its destination. -/
def prepareHostParent (createParent : Bool) (operationPath : Path) :
    HostM (IoResult (List Path)) :=
  if createParent then ensureParentPathWithSyncDirs operationPath
  else do
    match ← readMetadata operationPath.dropLast with
    | .error error => pure (.error error)
    | .ok true => pure (.ok [])
    | .ok false =>
      pure (.error ⟨.notADirectory, "atomic write parent must be a directory", none⟩)

/-! ## 2. By descriptor -/

/-- A descriptor is named by the components that lead to its directory from the root. -/
inductive RootedCall where
  | tryClone (directory : Path)
  | openDirectory (parent : Path) (name : String)
  | mkdirAt (parent : Path) (name : String)
  | statDirectory (directory : Path)
  deriving DecidableEq, Repr

/-- `statDirectory` says whether the descriptor is one of a directory. -/
def RootedCall.Result : RootedCall → Type
  | .tryClone _ => IoResult Unit
  | .openDirectory _ _ => IoResult Unit
  | .mkdirAt _ _ => IoResult Unit
  | .statDirectory _ => IoResult Bool

abbrev RootedM := Prog RootedCall RootedCall.Result

def tryClone (directory : Path) : RootedM (IoResult Unit) :=
  Prog.request (RootedCall.tryClone directory)
def openat (parent : Path) (name : String) : RootedM (IoResult Unit) :=
  Prog.request (RootedCall.openDirectory parent name)
def mkdirat (parent : Path) (name : String) : RootedM (IoResult Unit) :=
  Prog.request (RootedCall.mkdirAt parent name)
def fstatDirectory (directory : Path) : RootedM (IoResult Bool) :=
  Prog.request (RootedCall.statDirectory directory)

inductive RootedParentMode where
  | openExisting | createMissing | createMissingAndTrackSync
  deriving DecidableEq, Repr

def RootedParentMode.createsMissing (mode : RootedParentMode) : Bool :=
  mode = .createMissing || mode = .createMissingAndTrackSync

def RootedParentMode.tracksSync (mode : RootedParentMode) : Bool :=
  mode = .createMissingAndTrackSync

def addPathContext (error : IoError) (operation : String) (path : Path) : IoError :=
  ⟨error.kind, "failed to " ++ operation ++ " '" ++ displayPath path ++ "': " ++ error.message,
    none⟩

def enotdir : Nat := 20

/-- Links and other entries in the place of a directory are reported alike on every system. -/
def rootedOpenError (error : IoError) (operation : String) (path : Path) : IoError :=
  if error.osCode = some eloop ∨ error.osCode = some enotdir then
    addPathContext ⟨.invalidInput, error.message, none⟩ operation path
  else addPathContext error operation path

def rootedTypeError (path : Path) (expected : String) : IoError :=
  ⟨.invalidInput, "rooted path is not a " ++ expected ++ ": " ++ displayPath path, none⟩

def openDirectoryAt (parent : Path) (name : String) : RootedM (IoResult Path) := do
  match ← openat parent name with
  | .ok () => pure (.ok (parent ++ [name]))
  | .error error => pure (.error error)

/-- An entry that exists already is no failure. -/
def createDirectoryAt (parent : Path) (name : String) (diagnosticPath : Path) :
    RootedM (IoResult Unit) := do
  match ← mkdirat parent name with
  | .ok () => pure (.ok ())
  | .error error =>
    if error.kind ≠ .alreadyExists then
      pure (.error (addPathContext error "create rooted directory" diagnosticPath))
    else pure (.ok ())

def tryCloneDirectory (directory : Path) (operation : String) (path : Path) :
    RootedM (IoResult Path) := do
  match ← tryClone directory with
  | .ok () => pure (.ok directory)
  | .error error => pure (.error (addPathContext error operation path))

def verifyOpenedDirectory (directory : Path) (operation : String) (diagnosticPath : Path) :
    RootedM (IoResult Unit) := do
  match ← fstatDirectory directory with
  | .error error => pure (.error (addPathContext error operation diagnosticPath))
  | .ok true => pure (.ok ())
  | .ok false => pure (.error (rootedTypeError diagnosticPath "directory"))

/-- The descriptor that is kept for an entry about to be created, where the mode asks for it. -/
def parentToSync (mode : RootedParentMode) (directory componentPath : Path) :
    RootedM (IoResult (List Path)) :=
  if mode.tracksSync then
    (tryCloneDirectory directory "clone rooted parent for synchronization" componentPath).andThen
      fun clone => pure (.ok [clone])
  else pure (.ok [])

/-- One component of `open_rooted_parent`: the directory below and the descriptors to keep. -/
def openComponent (mode : RootedParentMode) (directory : Path) (name : String)
    (componentPath : Path) : RootedM (IoResult (Path × List Path)) := do
  match ← openDirectoryAt directory name with
  | .ok next => pure (.ok (next, []))
  | .error error =>
    if mode.createsMissing && error.kind = .notFound then
      (parentToSync mode directory componentPath).andThen fun kept =>
        (createDirectoryAt directory name componentPath).andThen fun _ => do
          match ← openDirectoryAt directory name with
          | .ok next => pure (.ok (next, kept))
          | .error error =>
            pure (.error (rootedOpenError error "open created rooted directory" componentPath))
    else
      pure (.error (rootedOpenError error "open rooted directory component" componentPath))

/-- The loop of `open_rooted_parent` over the components that are left. -/
def openComponents (mode : RootedParentMode) (diagnosticRoot : Path) :
    List String → Path → List Path → RootedM (IoResult (Path × List Path))
  | [], directory, parentDirsToSync => pure (.ok (directory, parentDirsToSync))
  | name :: rest, directory, parentDirsToSync =>
    let componentPath := diagnosticRoot ++ directory ++ [name]
    (openComponent mode directory name componentPath).andThen fun (next, kept) =>
      (verifyOpenedDirectory next "inspect rooted directory component" componentPath).andThen
        fun _ => openComponents mode diagnosticRoot rest next (parentDirsToSync ++ kept)

/-- The parent directory of the relative path and the descriptors to synchronize. -/
def openRootedParent (diagnosticRoot path : Path) (mode : RootedParentMode) :
    RootedM (IoResult (Path × List Path)) :=
  (tryCloneDirectory [] "clone root directory" (diagnosticRoot ++ path)).andThen fun root =>
    openComponents mode diagnosticRoot path.dropLast root []

/-- How `LocalRootAtomicWriter::new` prepares the parent of its destination. -/
def prepareRootedParent (createParent : Bool) (diagnosticRoot path : Path) :
    RootedM (IoResult (Path × List Path)) :=
  openRootedParent diagnosticRoot path
    (if createParent then .createMissingAndTrackSync else .openExisting)

/-! ## 3. A file system that only this request changes -/

inductive TreeEntry where
  | directory
  | other
  | link (target : Path)
  deriving DecidableEq, Repr

/-- The entries by their real paths; the root itself is always a directory, and the target of a
    link is a real path. -/
abbrev DirectoryTree := Path → Option TreeEntry

inductive Node where
  | directory (place : Path)
  | other
  deriving DecidableEq, Repr

def Node.isDirectory : Node → Bool
  | .directory _ => true
  | .other => false

namespace DirectoryTree

def real (t : DirectoryTree) (place : Path) : Option Node :=
  if place = [] then some (.directory [])
  else match t place with
    | some .directory => some (.directory place)
    | some .other => some .other
    | _ => none

/-- What a name leads to from a real directory. -/
def child (t : DirectoryTree) (place : Path) (name : String) : Option Node :=
  if name = ".." then some (.directory place.dropLast)
  else match t (place ++ [name]) with
    | none => none
    | some .directory => some (.directory (place ++ [name]))
    | some .other => some .other
    | some (.link target) => t.real target

def step (t : DirectoryTree) : Option Node → String → Option Node
  | some (.directory place), name => t.child place name
  | _, _ => none

/-- What a path leads to, links followed. -/
def locate (t : DirectoryTree) (path : Path) : Option Node :=
  path.foldl t.step (some (.directory []))

/-- Nothing is at a place or below it. -/
def Vacant (t : DirectoryTree) (place : Path) : Prop := ∀ below, t (place ++ below) = none

def create (t : DirectoryTree) (place : Path) : DirectoryTree :=
  fun q => if q = place then some .directory else t q

/-- The answers of the calls by path.  A call may fail for any reason, but only a path that leads
    nowhere is reported missing. -/
def HostEffect (t : DirectoryTree) : (c : HostCall) → c.Result → DirectoryTree → Prop
  | .metadata path, .ok isDir, t' =>
      t' = t ∧ ∃ node, t.locate path = some node ∧ isDir = node.isDirectory
  | .metadata path, .error e, t' => t' = t ∧ (e.kind = .notFound → t.locate path = none)
  | .mkdir path, .ok (), t' => ∃ parent name place, path = parent ++ [name] ∧ name ≠ ".." ∧
      t.locate parent = some (.directory place) ∧ t.Vacant (place ++ [name]) ∧
      t' = t.create (place ++ [name])
  | .mkdir _, .error _, t' => t' = t
  | .isDir path, answer, t' =>
      t' = t ∧ (answer = true → ∃ place, t.locate path = some (.directory place))

/-- The answers of the calls by descriptor, which never follow a link. -/
def RootedEffect (t : DirectoryTree) : (c : RootedCall) → c.Result → DirectoryTree → Prop
  | .tryClone _, _, t' => t' = t
  | .openDirectory parent name, .ok (), t' => t' = t ∧ t (parent ++ [name]) = some .directory
  | .openDirectory parent name, .error e, t' =>
      t' = t ∧ (e.kind = .notFound → t (parent ++ [name]) = none)
  | .mkdirAt parent name, .ok (), t' =>
      t.Vacant (parent ++ [name]) ∧ t' = t.create (parent ++ [name])
  | .mkdirAt parent name, .error e, t' =>
      t' = t ∧ (e.kind = .alreadyExists → t (parent ++ [name]) ≠ none)
  | .statDirectory _, _, t' => t' = t

/-! ## 4. Paths in a growing tree -/

variable {t t' : DirectoryTree}

theorem locate_concat (path : Path) (name : String) :
    t.locate (path ++ [name]) = t.step (t.locate path) name := by
  unfold locate
  rw [List.foldl_append]
  rfl

theorem foldl_step_none (more : Path) : more.foldl t.step none = none := by
  induction more with
  | nil => rfl
  | cons name more ih => exact ih

/-- Nothing is below a path that leads nowhere. -/
theorem locate_append_none {path : Path} (h : t.locate path = none) (more : Path) :
    t.locate (path ++ more) = none := by
  unfold locate at h ⊢
  rw [List.foldl_append, h, foldl_step_none]

theorem locate_take_none {path : Path} {j k : Nat} (hjk : j ≤ k)
    (h : t.locate (path.take j) = none) : t.locate (path.take k) = none := by
  obtain ⟨more, rfl⟩ := Nat.exists_eq_add_of_le hjk
  rw [List.take_add]
  exact locate_append_none h _

/-- What is in one tree is in another one. -/
def Within (t t' : DirectoryTree) : Prop := ∀ place entry, t place = some entry → t' place = some entry

theorem Within.refl (t : DirectoryTree) : t.Within t := fun _ _ h => h

theorem within_create {place : Path} (h : t place = none) : t.Within (t.create place) := by
  intro q entry hq
  unfold create
  rw [if_neg]
  · exact hq
  · rintro rfl
    rw [h] at hq
    cases hq

theorem Within.real (h : t.Within t') {place : Path} {node : Node} (hnode : t.real place = some node) :
    t'.real place = some node := by
  unfold DirectoryTree.real at hnode ⊢
  split at hnode
  next hroot => rw [if_pos hroot, hnode]
  next hroot =>
    rw [if_neg hroot]
    split at hnode
    next hentry => rw [h _ _ hentry, ← hnode]
    next hentry => rw [h _ _ hentry, ← hnode]
    next => cases hnode

theorem Within.child (h : t.Within t') {place : Path} {name : String} {node : Node}
    (hnode : t.child place name = some node) : t'.child place name = some node := by
  unfold DirectoryTree.child at hnode ⊢
  split at hnode
  next hup => rw [if_pos hup, hnode]
  next hup =>
    rw [if_neg hup]
    cases hentry : t (place ++ [name]) with
    | none =>
      rw [hentry] at hnode
      cases hnode
    | some entry =>
      rw [hentry] at hnode
      rw [h _ _ hentry]
      cases entry with
      | directory => exact hnode
      | other => exact hnode
      | link target => exact h.real hnode

/-- A path that leads somewhere goes on leading there. -/
theorem Within.locate (h : t.Within t') {path : Path} {node : Node}
    (hnode : t.locate path = some node) : t'.locate path = some node := by
  induction path using List.reverseRecOn generalizing node with
  | nil => exact hnode
  | append_singleton path name ih =>
    rw [locate_concat] at hnode ⊢
    cases hparent : t.locate path with
    | none =>
      rw [hparent] at hnode
      cases hnode
    | some parent =>
      rw [hparent] at hnode
      rw [ih hparent]
      cases parent with
      | directory place => exact h.child hnode
      | other => cases hnode

theorem create_self (t : DirectoryTree) (place : Path) : t.create place place = some .directory :=
  if_pos rfl

/-- A created directory is found under the path it was created by. -/
theorem locate_created {parent : Path} {name : String} {place : Path} (hname : name ≠ "..")
    (hparent : t.locate parent = some (.directory place)) (hvacant : t.Vacant (place ++ [name])) :
    (t.create (place ++ [name])).locate (parent ++ [name]) =
      some (.directory (place ++ [name])) := by
  have hfree := hvacant []
  rw [List.append_nil] at hfree
  rw [locate_concat, (within_create hfree).locate hparent]
  show DirectoryTree.child _ place name = _
  unfold DirectoryTree.child
  rw [if_neg hname, create_self]

/-- Before its creation the path led nowhere. -/
theorem locate_vacant {parent : Path} {name : String} {place : Path} (hname : name ≠ "..")
    (hparent : t.locate parent = some (.directory place)) (hvacant : t.Vacant (place ++ [name])) :
    t.locate (parent ++ [name]) = none := by
  have hfree := hvacant []
  rw [List.append_nil] at hfree
  rw [locate_concat, hparent]
  show t.child place name = none
  unfold DirectoryTree.child
  rw [if_neg hname, hfree]

/-- A new directory is empty. -/
theorem locate_below_created {parent : Path} {name next : String} {place : Path}
    (hname : name ≠ "..") (hnext : next ≠ "..")
    (hparent : t.locate parent = some (.directory place)) (hvacant : t.Vacant (place ++ [name])) :
    (t.create (place ++ [name])).locate (parent ++ [name] ++ [next]) = none := by
  have hbelow := hvacant [next]
  rw [locate_concat, locate_created hname hparent hvacant]
  show DirectoryTree.child _ (place ++ [name]) next = none
  unfold DirectoryTree.child
  rw [if_neg hnext]
  have hother : (t.create (place ++ [name])) (place ++ [name] ++ [next]) = none := by
    unfold create
    rw [if_neg (by simp), hbelow]
  rw [hother]

end DirectoryTree

/-! ## 5. The directories a request creates -/

abbrev HostEvent := Event HostCall HostCall.Result

abbrev RootedEvent := Event RootedCall RootedCall.Result

def HostCall.made : (c : HostCall) → c.Result → Option Path
  | .mkdir path, .ok () => some path
  | _, _ => none

def RootedCall.made : (c : RootedCall) → c.Result → Option Path
  | .mkdirAt parent name, .ok () => some (parent ++ [name])
  | _, _ => none

/-- The directories created along a run by path. -/
def madeByPath (tr : List HostEvent) : List Path := tr.filterMap fun ev => ev.call.made ev.answer

theorem madeByPath_cons_none {ev : HostEvent} (h : ev.call.made ev.answer = none)
    (tr : List HostEvent) : madeByPath (ev :: tr) = madeByPath tr :=
  List.filterMap_cons_none h

theorem madeByPath_cons_some {ev : HostEvent} {path : Path} (h : ev.call.made ev.answer = some path)
    (tr : List HostEvent) : madeByPath (ev :: tr) = path :: madeByPath tr :=
  List.filterMap_cons_some h

theorem mkdir_of_made {tr : List HostEvent} {path : Path} (h : path ∈ madeByPath tr) :
    ∃ ev ∈ tr, ev.call = .mkdir path := by
  obtain ⟨⟨c, answer⟩, hev, hmade⟩ := List.mem_filterMap.mp h
  refine ⟨_, hev, ?_⟩
  cases c with
  | metadata p => cases hmade
  | mkdir p =>
    cases answer with
    | ok _ =>
      cases hmade
      rfl
    | error e => cases hmade
  | isDir p => cases hmade

/-- The directories created along a run by descriptor. -/
def madeByDescriptor (tr : List RootedEvent) : List Path :=
  tr.filterMap fun ev => ev.call.made ev.answer

/-- The modes of the atomic writer, which keep a descriptor for every directory they create. -/
def RootedParentMode.Tracks (mode : RootedParentMode) : Prop :=
  mode.createsMissing = mode.tracksSync

namespace DirectoryTree

variable {t t' : DirectoryTree}

/-- A step either changes nothing or creates one directory. -/
theorem HostEffect.cases {c : HostCall} {answer : c.Result} (h : t.HostEffect c answer t') :
    (t' = t ∧ c.made answer = none) ∨
    ∃ parent name place, c = .mkdir (parent ++ [name]) ∧ c.made answer = some (parent ++ [name]) ∧
      name ≠ ".." ∧ t.locate parent = some (.directory place) ∧ t.Vacant (place ++ [name]) ∧
      t' = t.create (place ++ [name]) := by
  cases c with
  | metadata path =>
    cases answer with
    | ok isDir => exact .inl ⟨h.1, rfl⟩
    | error e => exact .inl ⟨h.1, rfl⟩
  | mkdir path =>
    cases answer with
    | ok _ =>
      obtain ⟨parent, name, place, rfl, hname, hparent, hvacant, rfl⟩ := h
      exact .inr ⟨parent, name, place, rfl, rfl, hname, hparent, hvacant, rfl⟩
    | error e => exact .inl ⟨h, rfl⟩
  | isDir path => exact .inl ⟨h.1, rfl⟩

theorem HostEffect.within {c : HostCall} {answer : c.Result} (h : t.HostEffect c answer t') :
    t.Within t' := by
  rcases h.cases with ⟨rfl, -⟩ | ⟨parent, name, place, -, -, -, -, hvacant, rfl⟩
  · exact Within.refl t'
  · apply within_create
    have hfree := hvacant []
    rwa [List.append_nil] at hfree

/-- What a run created was missing before it. -/
theorem missing_of_made {tr : List HostEvent} (h : Along HostEffect t tr t') {path : Path}
    (hmade : path ∈ madeByPath tr) : t.locate path = none := by
  induction tr generalizing t with
  | nil => cases hmade
  | cons ev rest ih =>
    obtain ⟨next, heffect, hrest⟩ := h
    have hlater (hmem : path ∈ madeByPath rest) : t.locate path = none := by
      cases hpath : t.locate path with
      | none => rfl
      | some node =>
        have hnext := ih hrest hmem
        rw [heffect.within.locate hpath] at hnext
        cases hnext
    rcases heffect.cases with ⟨-, hnone⟩ | ⟨parent, name, place, -, hsome, hname, hparent, hvacant, -⟩
    · rw [madeByPath_cons_none hnone] at hmade
      exact hlater hmade
    · rw [madeByPath_cons_some hsome] at hmade
      rcases List.mem_cons.mp hmade with rfl | hmem
      · exact locate_vacant hname hparent hvacant
      · exact hlater hmem

/-- The creation of one directory on a path without `..` leads no further than to itself. -/
theorem locate_take_created {path parent : Path} {name : String} {place : Path} {j k : Nat}
    (hdots : ".." ∉ path) (hj : parent ++ [name] = path.take j)
    (hother : path.take k ≠ parent ++ [name]) (hname : name ≠ "..")
    (hparent : t.locate parent = some (.directory place)) (hvacant : t.Vacant (place ++ [name]))
    (hmissing : t.locate (path.take k) = none) :
    (t.create (place ++ [name])).locate (path.take k) = none := by
  have hself : parent ++ [name] = path.take (parent.length + 1) := by
    have hlen := List.prefix_iff_eq_take.mp (hj ▸ List.take_prefix j path)
    rwa [List.length_append, List.length_singleton] at hlen
  have hparentTake : parent = path.take parent.length := by
    have hdrop := congrArg (List.take parent.length) hself
    rwa [List.take_left, List.take_take, Nat.min_eq_left (Nat.le_succ _)] at hdrop
  -- A shorter path leads to the parent, which was there already.
  by_cases hshort : k ≤ parent.length
  · have hnone := locate_take_none hshort hmissing
    rw [← hparentTake, hparent] at hnone
    cases hnone
  obtain ⟨more, rfl⟩ := Nat.exists_eq_add_of_le (show parent.length + 1 ≤ k by omega)
  rw [List.take_add, ← hself] at hother ⊢
  cases hbelow : (path.drop (parent.length + 1)).take more with
  | nil =>
    rw [hbelow, List.append_nil] at hother
    exact absurd rfl hother
  | cons next rest =>
    have hnext : next ≠ ".." := by
      rintro rfl
      have hmem : ".." ∈ (path.drop (parent.length + 1)).take more := by
        rw [hbelow]
        exact List.mem_cons_self
      exact hdots (List.mem_of_mem_drop (List.mem_of_mem_take hmem))
    have hnone :=
      locate_append_none (locate_below_created hname hnext hparent hvacant) rest
    rw [List.append_assoc] at hnone
    exact hnone

/-- Where all directories are created on the way down one path without `..`, a directory on it that
    was missing and is found in the end was created. -/
theorem made_of_found {path : Path} (hdots : ".." ∉ path) {tr : List HostEvent}
    (hcalls : ∀ ev ∈ tr, ∀ p, ev.call = .mkdir p → ∃ j, p = path.take j)
    (h : Along HostEffect t tr t') {k : Nat} (hmissing : t.locate (path.take k) = none)
    (hfound : t'.locate (path.take k) ≠ none) : path.take k ∈ madeByPath tr := by
  induction tr generalizing t with
  | nil =>
    cases h
    exact absurd hmissing hfound
  | cons ev rest ih =>
    obtain ⟨next, heffect, hrest⟩ := h
    have hcallsRest : ∀ ev ∈ rest, ∀ p, ev.call = .mkdir p → ∃ j, p = path.take j :=
      fun ev hev => hcalls ev (List.mem_cons_of_mem _ hev)
    rcases heffect.cases with ⟨rfl, hnone⟩ |
      ⟨parent, name, place, hmkdir, hsome, hname, hparent, hvacant, rfl⟩
    · rw [madeByPath_cons_none hnone]
      exact ih hcallsRest hrest hmissing
    · rw [madeByPath_cons_some hsome]
      by_cases hself : path.take k = parent ++ [name]
      · rw [hself]
        exact List.mem_cons_self
      · obtain ⟨j, hj⟩ := hcalls ev List.mem_cons_self _ hmkdir
        apply List.mem_cons_of_mem
        apply ih hcallsRest hrest
        exact locate_take_created hdots hj hself hname hparent hvacant hmissing

/-! ## 6. What the two preparations keep -/

theorem wp_createDir {path : Path} {post : IoResult Unit → DirectoryTree → Prop} :
    (createDir path).Wp HostEffect post t ↔
      ∀ (answer : IoResult Unit) t', t.HostEffect (.mkdir path) answer t' → post answer t' := Iff.rfl

theorem wp_isDirectory {path : Path} {post : Bool → DirectoryTree → Prop} :
    (isDirectory path).Wp HostEffect post t ↔
      ∀ (answer : Bool) t', t.HostEffect (.isDir path) answer t' → post answer t' := Iff.rfl

theorem wp_readMetadata {path : Path} {post : IoResult Bool → DirectoryTree → Prop} :
    (readMetadata path).Wp HostEffect post t ↔
      ∀ (answer : IoResult Bool) t', t.HostEffect (.metadata path) answer t' → post answer t' :=
  Iff.rfl

/-- The result of a creation says that the directory is there. -/
def Found (path : Path) (r : IoResult Unit) (t' : DirectoryTree) : Prop :=
  r = .ok () → ∃ place, t'.locate path = some (.directory place)

theorem found_error {path : Path} {e : IoError} : Found path (.error e) t := nofun

theorem found_created {path : Path} (h : t.HostEffect (.mkdir path) (.ok ()) t') :
    Found path (.ok ()) t' := by
  obtain ⟨parent, name, place, rfl, hname, hparent, hvacant, rfl⟩ := h
  exact fun _ => ⟨_, locate_created hname hparent hvacant⟩

/-- What the look at an entry that exists already adds. -/
theorem isDirectory_found (path : Path) (error : IoError) :
    (do if ← isDirectory path then pure (.ok ()) else pure (.error error) :
      HostM (IoResult Unit)).Wp HostEffect (Found path) t := by
  rw [Prog.wp_bind, wp_isDirectory]
  intro isDir t' heffect
  cases isDir with
  | true =>
    obtain ⟨rfl, hplace⟩ := heffect
    exact fun _ => hplace rfl
  | false => exact found_error

theorem createDirUnlessPresent_found (path : Path) :
    (createDirUnlessPresent path).Wp HostEffect (Found path) t := by
  unfold createDirUnlessPresent
  rw [Prog.wp_bind, wp_createDir]
  intro answer t' heffect
  cases answer with
  | ok _ => exact found_created heffect
  | error error =>
    dsimp only
    split
    · exact isDirectory_found path error
    · exact found_error

theorem createDirAll_found (path : Path) (n : Nat) :
    (createDirAll path n).Wp HostEffect (Found (path.take n)) t := by
  induction n generalizing t with
  | zero => exact fun _ => ⟨[], rfl⟩
  | succ n ih =>
    unfold createDirAll
    rw [Prog.wp_bind, wp_createDir]
    intro answer t' heffect
    cases answer with
    | ok _ => exact found_created heffect
    | error error =>
      dsimp only
      split
      · rw [Prog.wp_andThen]
        refine (ih (t := t')).mono fun r t'' _ => ?_
        exact ⟨fun e _ => found_error, fun a _ => createDirUnlessPresent_found _⟩
      split
      · exact isDirectory_found _ error
      · exact found_error

/-- The calls of a creation name directories on the way. -/
def CreatesOn (path : Path) : HostCall → Prop
  | .mkdir p => ∃ j, p = path.take j
  | _ => True

theorem createDirUnlessPresent_calls (path : Path) (j : Nat) :
    (createDirUnlessPresent (path.take j)).Makes (CreatesOn path) := by
  unfold createDirUnlessPresent
  refine Prog.Makes.bind ⟨⟨j, rfl⟩, fun _ => trivial⟩ fun answer => ?_
  cases answer with
  | ok _ => trivial
  | error error =>
    dsimp only
    split
    · refine Prog.Makes.bind ⟨trivial, fun _ => trivial⟩ fun isDir => ?_
      split <;> trivial
    · trivial

theorem createDirAll_calls (path : Path) (n : Nat) :
    (createDirAll path n).Makes (CreatesOn path) := by
  induction n with
  | zero => trivial
  | succ n ih =>
    unfold createDirAll
    refine Prog.Makes.bind ⟨⟨n + 1, rfl⟩, fun _ => trivial⟩ fun answer => ?_
    cases answer with
    | ok _ => trivial
    | error error =>
      dsimp only
      split
      · exact ih.andThen fun _ => createDirUnlessPresent_calls path (n + 1)
      split
      · refine Prog.Makes.bind ⟨trivial, fun _ => trivial⟩ fun isDir => ?_
        split <;> trivial
      · trivial

/-- The scan finds what is missing: the directories below some directory that is there. -/
structure Scanned (t : DirectoryTree) (parent : Path) (n : Nat) (missing found : List Path) : Prop where
  kept : ∀ path, path ∈ found ↔ path ∈ missing ∨ ∃ j ≤ n, t.locate (parent.take j) = none ∧
    path = parent.take j
  nodup : missing.Nodup → (∀ path ∈ missing, n < path.length) → n ≤ parent.length → found.Nodup

/-- Where the scan meets a directory, nothing above it is missing. -/
theorem scanned_of_found {parent : Path} {n : Nat} {missing : List Path}
    (h : t.locate (parent.take n) ≠ none) : Scanned t parent n missing missing := by
  constructor
  · intro path
    constructor
    · exact .inl
    · rintro (hmem | ⟨j, hj, hnone, -⟩)
      · exact hmem
      · exact absurd (locate_take_none hj hnone) h
  · exact fun hnodup _ _ => hnodup

/-- Where the scan meets nothing, it notes the directory and goes on above it. -/
theorem Scanned.above {parent : Path} {n : Nat} {missing found : List Path}
    (hnone : t.locate (parent.take (n + 1)) = none)
    (h : Scanned t parent n (missing ++ [parent.take (n + 1)]) found) :
    Scanned t parent (n + 1) missing found := by
  constructor
  · intro path
    rw [h.kept, List.mem_append, List.mem_singleton]
    constructor
    · rintro ((hmem | rfl) | ⟨j, hj, hmissing, rfl⟩)
      · exact .inl hmem
      · exact .inr ⟨n + 1, Nat.le_refl _, hnone, rfl⟩
      · exact .inr ⟨j, by omega, hmissing, rfl⟩
    · rintro (hmem | ⟨j, hj, hmissing, rfl⟩)
      · exact .inl (.inl hmem)
      · by_cases hlast : j = n + 1
        · subst hlast
          exact .inl (.inr rfl)
        · exact .inr ⟨j, by omega, hmissing, rfl⟩
  · intro hnodup hlong hn
    have hlen : (parent.take (n + 1)).length = n + 1 := List.length_take_of_le hn
    apply h.nodup
    · rw [List.nodup_append]
      refine ⟨hnodup, List.nodup_cons.mpr ⟨nofun, List.nodup_nil⟩, ?_⟩
      rintro path hmem last hlast rfl
      have hlonger := hlong path hmem
      rw [List.mem_singleton.mp hlast] at hlonger
      omega
    · intro path hmem
      rcases List.mem_append.mp hmem with hmem | hlast
      · have hlonger := hlong path hmem
        omega
      · rw [List.mem_singleton.mp hlast]
        omega
    · omega

theorem scanMissing_scanned (parent : Path) (n : Nat) (missing : List Path) :
    (scanMissing parent n missing).Wp HostEffect
      (fun r t' => ∀ found, r = .ok found → t' = t ∧ Scanned t parent n missing found) t := by
  induction n generalizing missing with
  | zero =>
    unfold scanMissing
    rw [Prog.wp_bind, wp_readMetadata]
    intro answer t' heffect
    cases answer with
    | ok isDir =>
      obtain ⟨rfl, node, hnode, -⟩ := heffect
      cases isDir with
      | true =>
        rintro _ ⟨⟩
        exact ⟨rfl, scanned_of_found (by rw [hnode]; nofun)⟩
      | false => nofun
    | error e =>
      dsimp only
      split
      next hkind => cases heffect.2 hkind
      next => nofun
  | succ n ih =>
    unfold scanMissing
    rw [Prog.wp_bind, wp_readMetadata]
    intro answer t' heffect
    cases answer with
    | ok isDir =>
      obtain ⟨rfl, node, hnode, -⟩ := heffect
      cases isDir with
      | true =>
        rintro _ ⟨⟩
        exact ⟨rfl, scanned_of_found (by rw [hnode]; nofun)⟩
      | false => nofun
    | error e =>
      obtain ⟨rfl, hmissing⟩ := heffect
      dsimp only
      split
      next hkind =>
        refine (ih _).mono fun r t'' h found hok => ?_
        obtain ⟨rfl, hscanned⟩ := h found hok
        exact ⟨rfl, hscanned.above (hmissing hkind)⟩
      next => nofun

/-- The calls of the scan create nothing. -/
theorem scanMissing_calls (parent : Path) (n : Nat) (missing : List Path) :
    (scanMissing parent n missing).Makes fun c => ∃ path, c = .metadata path := by
  induction n generalizing missing with
  | zero =>
    unfold scanMissing
    refine Prog.Makes.bind ⟨⟨_, rfl⟩, fun _ => trivial⟩ fun answer => ?_
    cases answer with
    | ok isDir => cases isDir <;> trivial
    | error e =>
      dsimp only
      split <;> trivial
  | succ n ih =>
    unfold scanMissing
    refine Prog.Makes.bind ⟨⟨_, rfl⟩, fun _ => trivial⟩ fun answer => ?_
    cases answer with
    | ok isDir => cases isDir <;> trivial
    | error e =>
      dsimp only
      split
      · exact ih _
      · trivial

theorem madeByPath_of_metadata {tr : List HostEvent}
    (h : ∀ ev ∈ tr, ∃ path, ev.call = .metadata path) : madeByPath tr = [] := by
  unfold madeByPath
  rw [List.filterMap_eq_nil_iff]
  intro ev hev
  obtain ⟨path, hcall⟩ := h ev hev
  obtain ⟨c, answer⟩ := ev
  dsimp only at hcall
  subst hcall
  rfl

/-- What the preparation by path keeps: every directory the request creates, and where the path has
    no `..` no other directory. -/
structure HostPrepared (path : Path) (dirs made : List Path) : Prop where
  nodup : dirs.Nodup
  onPath : ∀ p ∈ dirs, p ≠ [] ∧ ∃ j, p = path.take j
  covers : ∀ p ∈ made, p ∈ dirs
  exact : ".." ∉ path → ∀ p ∈ dirs, p ∈ made

theorem hostPrepared_nil {path : Path} : HostPrepared path [] [] where
  nodup := List.nodup_nil
  onPath := nofun
  covers := nofun
  exact := nofun

theorem ensureParentPathWithSyncDirs_prepared {path : Path} {dirs : List Path}
    {tr : List HostEvent}
    (h : (ensureParentPathWithSyncDirs path).RunsIn HostEffect t tr t' (.ok dirs)) :
    HostPrepared path dirs (madeByPath tr) := by
  cases path with
  | nil =>
    obtain ⟨rfl, -, ⟨⟩⟩ := h
    exact hostPrepared_nil
  | cons first rest =>
    let parent := (first :: rest).dropLast
    have hparent : parent = (first :: rest).take rest.length := List.dropLast_eq_take
    rcases Prog.runsIn_andThen.mp h with ⟨e, ⟨⟩, -⟩ | ⟨scan, tr', mid, missing, rfl, hscan, h'⟩
    rcases Prog.runsIn_andThen.mp h' with ⟨e, ⟨⟩, -⟩ | ⟨create, end_, last, u, rfl, hcreate, hend⟩
    obtain ⟨rfl, rfl, ⟨⟩⟩ := hend
    obtain ⟨rfl, hscanned⟩ :=
      (scanMissing_scanned parent parent.length []).runsIn hscan missing rfl
    -- looking for the parents makes nothing
    have hmade : madeByPath (scan ++ (create ++ [])) = madeByPath create := by
      have hnone := madeByPath_of_metadata ((scanMissing_calls _ _ _).calls hscan.runs)
      unfold madeByPath at hnone ⊢
      rw [List.filterMap_append, hnone, List.nil_append, List.append_nil]
    have hcalls : ∀ ev ∈ create, ∀ p, ev.call = .mkdir p → ∃ j, p = parent.take j := by
      intro ev hev p hcall
      have hon := (createDirAll_calls parent parent.length).calls hcreate.runs ev hev
      rwa [hcall] at hon
    have halong := (Prog.runsIn_iff.mp hcreate).2
    -- kept are the ancestors that were missing
    have hkept (p : Path) : p ∈ missing.reverse ↔
        ∃ j ≤ parent.length, mid.locate (parent.take j) = none ∧ p = parent.take j := by
      rw [List.mem_reverse, hscanned.kept]
      simp only [List.not_mem_nil, false_or]
    rw [hmade]
    constructor
    · rw [List.nodup_reverse]
      exact hscanned.nodup List.nodup_nil nofun (Nat.le_refl _)
    · intro p hp
      obtain ⟨j, hj, hnone, rfl⟩ := (hkept p).mp hp
      constructor
      · intro hempty
        rw [hempty] at hnone
        cases hnone
      · exact ⟨min j rest.length, by rw [hparent, List.take_take]⟩
    · intro p hp
      obtain ⟨ev, hev, hcall⟩ := mkdir_of_made hp
      obtain ⟨j, rfl⟩ := hcalls ev hev p hcall
      rw [hkept]
      refine ⟨min j parent.length, Nat.min_le_right _ _, ?_, ?_⟩
      · rw [List.take_eq_take_min.symm]
        exact missing_of_made halong hp
      · exact List.take_eq_take_min
    · -- an ancestor that was missing and is there in the end was made in between
      intro hdots p hp
      obtain ⟨j, hj, hnone, rfl⟩ := (hkept p).mp hp
      have hdotsParent : ".." ∉ parent := fun hmem => hdots (List.dropLast_subset _ hmem)
      apply made_of_found hdotsParent hcalls halong hnone
      obtain ⟨place, hplace⟩ :=
        (createDirAll_found parent parent.length).runsIn hcreate (by cases u; rfl)
      intro hgone
      rw [locate_take_none hj hgone] at hplace
      cases hplace

theorem prepareHostParent_prepared {createParent : Bool} {path : Path} {dirs : List Path}
    {tr : List HostEvent}
    (h : (prepareHostParent createParent path).RunsIn HostEffect t tr t' (.ok dirs)) :
    HostPrepared path dirs (madeByPath tr) := by
  unfold prepareHostParent at h
  split at h
  · exact ensureParentPathWithSyncDirs_prepared h
  · obtain ⟨answer, next, rest, rfl, heffect, hrest⟩ := h
    cases answer with
    | error e => cases hrest.2.2
    | ok isDir =>
      cases isDir with
      | false => cases hrest.2.2
      | true =>
        obtain ⟨rfl, rfl, ⟨⟩⟩ := hrest
        exact hostPrepared_nil

theorem madeByDescriptor_append (tr more : List RootedEvent) :
    madeByDescriptor (tr ++ more) = madeByDescriptor tr ++ madeByDescriptor more :=
  List.filterMap_append

theorem openDirectoryAt_runsIn {directory : Path} {name : String} {tr : List RootedEvent}
    {r : IoResult Path}
    (h : (openDirectoryAt directory name).RunsIn RootedEffect t tr t' r) :
    t' = t ∧ madeByDescriptor tr = [] ∧ (∀ next, r = .ok next → next = directory ++ [name]) ∧
      ∀ e, r = .error e → e.kind = .notFound → t (directory ++ [name]) = none := by
  obtain ⟨answer, next, rest, rfl, heffect, hrest⟩ := h
  cases answer with
  | ok _ =>
    obtain ⟨rfl, rfl, rfl⟩ := hrest
    refine ⟨heffect.1, rfl, ?_, nofun⟩
    rintro _ ⟨⟩
    rfl
  | error e =>
    obtain ⟨rfl, rfl, rfl⟩ := hrest
    refine ⟨heffect.1, rfl, nofun, ?_⟩
    rintro _ ⟨⟩ hkind
    exact heffect.2 hkind

theorem createDirectoryAt_runsIn {directory componentPath : Path} {name : String}
    {tr : List RootedEvent} (hnone : t (directory ++ [name]) = none)
    (h : (createDirectoryAt directory name componentPath).RunsIn RootedEffect t tr t' (.ok ())) :
    madeByDescriptor tr = [directory ++ [name]] := by
  obtain ⟨answer, next, rest, rfl, heffect, hrest⟩ := h
  cases answer with
  | ok _ =>
    obtain ⟨rfl, -, -⟩ := hrest
    rfl
  | error e =>
    -- The name was free, so the entry cannot have existed already.
    dsimp only [Prog.bind] at hrest
    split at hrest
    next => cases hrest.2.2
    next hkind =>
      rw [not_not] at hkind
      exact absurd hnone (heffect.2 hkind)

theorem parentToSync_runsIn {mode : RootedParentMode} {directory componentPath : Path}
    {tr : List RootedEvent} {kept : List Path} (hmode : mode.tracksSync = true)
    (h : (parentToSync mode directory componentPath).RunsIn RootedEffect t tr t' (.ok kept)) :
    t' = t ∧ madeByDescriptor tr = [] ∧ kept = [directory] := by
  unfold parentToSync at h
  rw [if_pos hmode] at h
  rcases Prog.runsIn_andThen.mp h with ⟨e, ⟨⟩, -⟩ | ⟨clone, tr', mid, directory', rfl, hclone, h'⟩
  obtain ⟨answer, next, rest, rfl, heffect, hrest⟩ := hclone
  obtain ⟨rfl, rfl, ⟨⟩⟩ := h'
  cases answer with
  | ok _ =>
    obtain ⟨rfl, rfl, ⟨⟩⟩ := hrest
    exact ⟨heffect, rfl, rfl⟩
  | error e => cases hrest.2.2

theorem openComponent_runsIn {mode : RootedParentMode} (hmode : mode.Tracks)
    {directory componentPath next : Path} {name : String} {kept : List Path}
    {tr : List RootedEvent}
    (h : (openComponent mode directory name componentPath).RunsIn RootedEffect t tr t'
      (.ok (next, kept))) :
    next = directory ++ [name] ∧ kept = (madeByDescriptor tr).map List.dropLast ∧
      (kept = [] ∨ kept = [directory]) := by
  obtain ⟨opened, tr', mid, r, rfl, hopened, h⟩ := Prog.runsIn_bind.mp h
  obtain ⟨rfl, hmade, hok, herror⟩ := openDirectoryAt_runsIn hopened
  rw [madeByDescriptor_append, hmade, List.nil_append]
  cases r with
  | ok next' =>
    obtain ⟨rfl, rfl, heq⟩ := h
    cases heq
    exact ⟨hok _ rfl, rfl, .inl rfl⟩
  | error error =>
    dsimp only at h
    split at h
    next hmissing =>
      rw [Bool.and_eq_true, decide_eq_true_eq] at hmissing
      have htracks : mode.tracksSync = true := hmode ▸ hmissing.1
      rcases Prog.runsIn_andThen.mp h with ⟨e, ⟨⟩, -⟩ |
        ⟨keep, tr₁, mid₁, kept', rfl, hkeep, h⟩
      obtain ⟨rfl, hkeepMade, rfl⟩ := parentToSync_runsIn htracks hkeep
      rcases Prog.runsIn_andThen.mp h with ⟨e, ⟨⟩, -⟩ | ⟨mk, tr₂, mid₂, a, rfl, hmk, h⟩
      have hmkMade := createDirectoryAt_runsIn (herror _ rfl hmissing.2) hmk
      obtain ⟨reopened, tr₃, mid₃, r, rfl, hreopened, h⟩ := Prog.runsIn_bind.mp h
      obtain ⟨-, hreopenedMade, hnext, -⟩ := openDirectoryAt_runsIn hreopened
      cases r with
      | error e => cases h.2.2
      | ok next' =>
        obtain ⟨rfl, rfl, heq⟩ := h
        cases heq
        rw [madeByDescriptor_append, madeByDescriptor_append, madeByDescriptor_append, hkeepMade,
          hmkMade, hreopenedMade]
        refine ⟨hnext _ rfl, ?_, .inr rfl⟩
        show [directory] = [(directory ++ [name]).dropLast]
        rw [List.dropLast_concat]
    next => cases h.2.2

theorem verifyOpenedDirectory_made {directory componentPath : Path} {operation : String}
    {tr : List RootedEvent} {r : IoResult Unit}
    (h : (verifyOpenedDirectory directory operation componentPath).RunsIn RootedEffect t tr t' r) :
    madeByDescriptor tr = [] := by
  obtain ⟨answer, next, rest, rfl, heffect, hrest⟩ := h
  have hrest : rest = [] := by
    cases answer with
    | error e => exact hrest.1
    | ok isDir => cases isDir <;> exact hrest.1
  rw [hrest]
  rfl

theorem openComponents_runsIn {mode : RootedParentMode} (hmode : mode.Tracks)
    {diagnosticRoot : Path} {names : List String} {directory parent : Path}
    {kept dirs : List Path} {tr : List RootedEvent}
    (h : (openComponents mode diagnosticRoot names directory kept).RunsIn RootedEffect t tr t'
      (.ok (parent, dirs))) :
    dirs = kept ++ (madeByDescriptor tr).map List.dropLast ∧
      (kept.Nodup → (∀ d ∈ kept, d.length < directory.length) → dirs.Nodup) := by
  induction names generalizing t tr directory kept with
  | nil =>
    obtain ⟨rfl, rfl, heq⟩ := h
    cases heq
    exact ⟨(List.append_nil _).symm, fun hnodup _ => hnodup⟩
  | cons name names ih =>
    unfold openComponents at h
    rcases Prog.runsIn_andThen.mp h with ⟨e, ⟨⟩, -⟩ |
      ⟨opened, tr₁, mid₁, ⟨next, more⟩, rfl, hopened, h⟩
    obtain ⟨rfl, hmore, hself⟩ := openComponent_runsIn hmode hopened
    rcases Prog.runsIn_andThen.mp h with ⟨e, ⟨⟩, -⟩ | ⟨verified, tr₂, mid₂, a, rfl, hverified, h⟩
    obtain ⟨rfl, hnodup⟩ := ih h
    rw [madeByDescriptor_append, madeByDescriptor_append, verifyOpenedDirectory_made hverified,
      List.nil_append, List.map_append, ← hmore, ← List.append_assoc]
    refine ⟨rfl, fun hkept hlong => hnodup ?_ ?_⟩
    · rcases hself with rfl | rfl
      · rwa [List.append_nil]
      · rw [List.nodup_append]
        refine ⟨hkept, List.nodup_singleton _, ?_⟩
        rintro d hd _ hd' rfl
        have hlonger := hlong d hd
        rw [List.mem_singleton.mp hd'] at hlonger
        omega
    · intro d hd
      rw [List.length_append, List.length_singleton]
      rcases List.mem_append.mp hd with hd | hd
      · have hlonger := hlong d hd
        omega
      · rcases hself with rfl | rfl
        · cases hd
        · rw [List.mem_singleton.mp hd]
          omega

/-- The preparation by descriptor keeps the parent of every directory it creates, and no other. -/
theorem prepareRootedParent_prepared {createParent : Bool} {diagnosticRoot path parent : Path}
    {dirs : List Path} {tr : List RootedEvent}
    (h : (prepareRootedParent createParent diagnosticRoot path).RunsIn RootedEffect t tr t'
      (.ok (parent, dirs))) :
    dirs = (madeByDescriptor tr).map List.dropLast ∧ dirs.Nodup := by
  have hmode : RootedParentMode.Tracks
      (if createParent then .createMissingAndTrackSync else .openExisting) := by
    cases createParent <;> rfl
  rcases Prog.runsIn_andThen.mp h with ⟨e, ⟨⟩, -⟩ | ⟨clone, tr', mid, root, rfl, hclone, hopen⟩
  obtain ⟨answer, next, rest, rfl, heffect, hrest⟩ := hclone
  cases answer with
  | error e => cases hrest.2.2
  | ok _ =>
    obtain ⟨rfl, rfl, heq⟩ := hrest
    obtain ⟨rfl, hnodup⟩ := openComponents_runsIn hmode hopen
    exact ⟨rfl, hnodup List.nodup_nil nofun⟩

end DirectoryTree

end LocalFiles.Atomic
