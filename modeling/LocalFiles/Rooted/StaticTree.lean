import LocalFiles.NativePath
import Mathlib.Data.Finset.Card

/-!
# StaticTree — a directory tree that nobody changes, and its native calls

Directories, files, links and special entries below an opened root.  Every call answers from the
tree: a cursor names the directory it is in, and a path is opened component by component without
following links.
-/

namespace LocalFiles.Rooted

inductive Node where
  | directory | file | other
  | symlink (target : UnixPath)
  deriving DecidableEq

def Node.kind : Node → EntryKind
  | directory => .directory
  | file => .file
  | other => .other
  | symlink _ => .symlink

/-- A finite tree.  Paths are relative to its root; every entry is in a directory. -/
structure StaticTree where
  node : List OsString → Option Node
  identity : List OsString → Option LocalFileIdentity
  paths : Finset (List OsString)
  mem_paths : ∀ path, (node path).isSome → path ∈ paths
  root : node [] = some .directory
  parent : ∀ path name, (node (path ++ [name])).isSome → node path = some .directory

namespace StaticTree

variable (tree : StaticTree)

def IsDirectory (path : List OsString) : Prop := tree.node path = some .directory

instance (path : List OsString) : Decidable (tree.IsDirectory path) :=
  inferInstanceAs (Decidable (tree.node path = some .directory))

/-! ## 1. Native calls -/

def noEntry : IoError := ⟨.notFound, "No such file or directory", some 2⟩

def notDirectory : IoError := ⟨.notADirectory, "Not a directory", some 20⟩

def notLink : IoError := ⟨.invalidInput, "Invalid argument", some 22⟩

/-- `rooted_open_error`: a component that is no directory becomes invalid input. -/
def wrongDirectory : IoError := ⟨.invalidInput, "open rooted directory component", none⟩

def metadataOf (path : List OsString) (node : Node) : Metadata := ⟨node.kind, tree.identity path⟩

/-- `RootedResolutionCursor::metadata`. -/
def metadata (cursor : List OsString) (name : OsString) : IoResult Metadata :=
  match tree.node (cursor ++ [name]) with
  | some node => .ok (tree.metadataOf (cursor ++ [name]) node)
  | none => .error noEntry

/-- `RootedResolutionCursor::descend`. -/
def descend (cursor : List OsString) (name : OsString) : IoResult (List OsString) :=
  match tree.node (cursor ++ [name]) with
  | some .directory => .ok (cursor ++ [name])
  | some _ => .error notDirectory
  | none => .error noEntry

/-- `open_rooted_parent`, with the components left to open. -/
def openRootedParent (directory : List OsString) : List OsString → IoResult (List OsString)
  | [] => .ok directory
  | name :: rest =>
    match tree.node (directory ++ [name]) with
    | some .directory => openRootedParent (directory ++ [name]) rest
    | some _ => .error wrongDirectory
    | none => .error noEntry

def symlinkMetadata (path : LocalRelativePath) : IoResult Metadata := do
  let parent ← tree.openRootedParent [] path.names.dropLast
  tree.metadata parent (path.names.getLastD [])

/-- `read_rooted_link`: a target beyond the maximum is read one byte too far and dropped. -/
def readRootedLink (path : LocalRelativePath) (maximumBytes : Option Nat) :
    IoResult (Option UnixPath × Nat) := do
  let parent ← tree.openRootedParent [] path.names.dropLast
  match tree.node (parent ++ [path.names.getLastD []]) with
  | some (.symlink target) =>
    match maximumBytes with
    | some maximum =>
      if maximum < target.bytes.length then return (none, maximum + 1)
      else return (some target, target.bytes.length)
    | none => return (some target, target.bytes.length)
  | some _ => throw notLink
  | none => throw noEntry

/-! ## 2. What is below what -/

variable {tree}

theorem isDirectory_of_append {path rest : List OsString}
    (h : (tree.node (path ++ rest)).isSome) (hne : rest ≠ []) : tree.IsDirectory path := by
  induction rest using List.reverseRecOn with
  | nil => exact absurd rfl hne
  | append_singleton rest name ih =>
    rw [← List.append_assoc] at h
    have hparent := tree.parent _ _ h
    by_cases hrest : rest = []
    · subst hrest
      rw [List.append_nil] at hparent
      exact hparent
    · exact ih (by rw [hparent]; rfl) hrest

theorem node_append_none {path rest : List OsString} (h : tree.node path = none) :
    tree.node (path ++ rest) = none := by
  by_contra hsome
  by_cases hrest : rest = []
  · rw [hrest, List.append_nil] at hsome
    exact hsome h
  · have hdirectory := isDirectory_of_append (Option.isSome_iff_ne_none.mpr hsome) hrest
    rw [IsDirectory, h] at hdirectory
    cases hdirectory

theorem isDirectory_append_left {path rest : List OsString} (h : tree.IsDirectory (path ++ rest)) :
    tree.IsDirectory path := by
  by_cases hrest : rest = []
  · rw [hrest, List.append_nil] at h
    exact h
  · exact isDirectory_of_append (Option.isSome_iff_ne_none.mpr (by rw [h]; nofun)) hrest

/-- A path along directories, and along missing names from some point on. -/
def Clean (tree : StaticTree) (path : List OsString) : Prop :=
  ∀ front back, path = front ++ back → back ≠ [] → tree.IsDirectory front ∨ tree.node front = none

theorem clean_nil : tree.Clean [] := by
  intro front back heq hback
  exact absurd (List.append_eq_nil_iff.mp heq.symm).2 hback

theorem Clean.append {path : List OsString} (h : tree.Clean path)
    (hpath : tree.IsDirectory path ∨ tree.node path = none) (name : OsString) :
    tree.Clean (path ++ [name]) := by
  intro front back heq hback
  obtain ⟨rest, hrest⟩ | ⟨rest, hrest⟩ := List.append_eq_append_iff.mp heq
  · cases rest with
    | nil =>
      rw [List.append_nil] at hrest
      rw [hrest.1]
      exact hpath
    | cons first rest =>
      -- The back would be empty.
      have hlength : 1 = (rest.length + 1) + back.length := by
        have h := congrArg List.length hrest.2
        rwa [List.length_append] at h
      exact absurd (List.eq_nil_of_length_eq_zero (by omega)) hback
  · cases rest with
    | nil =>
      rw [List.append_nil] at hrest
      rw [← hrest.1]
      exact hpath
    | cons first rest => exact h front (first :: rest) hrest.1 (List.cons_ne_nil _ _)

theorem Clean.dropLast {path : List OsString} (h : tree.Clean path) : tree.Clean path.dropLast := by
  intro front back heq hback
  by_cases hempty : path = []
  · subst hempty
    exact clean_nil front back heq hback
  · refine h front (back ++ [path.getLast hempty]) ?_ (by simp)
    rw [← List.append_assoc, ← heq, List.dropLast_append_getLast]

/-- What a name denotes in a path resolved so far, where a missing path has only missing names. -/
def lookup (tree : StaticTree) (path : List OsString) (name : OsString) : IoResult (Option Node) :=
  match tree.node path with
  | some .directory => .ok (tree.node (path ++ [name]))
  | some _ => .error wrongDirectory
  | none => .ok none

theorem lookup_directory {path : List OsString} (h : tree.IsDirectory path) (name : OsString) :
    tree.lookup path name = .ok (tree.node (path ++ [name])) := by
  unfold lookup
  rw [show tree.node path = _ from h]

theorem lookup_missing {path : List OsString} (h : tree.node path = none) (name : OsString) :
    tree.lookup path name = .ok none := by
  unfold lookup
  rw [h]

theorem node_of_lookup {path : List OsString} {name : OsString} {node : Node}
    (h : tree.lookup path name = .ok (some node)) :
    tree.IsDirectory path ∧ tree.node (path ++ [name]) = some node := by
  unfold lookup at h
  split at h
  next hdirectory => exact ⟨hdirectory, Except.ok.inj h⟩
  next => cases h
  next => cases h

theorem openRootedParent_directory {directory rest : List OsString}
    (h : tree.IsDirectory (directory ++ rest)) :
    tree.openRootedParent directory rest = .ok (directory ++ rest) := by
  induction rest generalizing directory with
  | nil =>
    rw [List.append_nil]
    rfl
  | cons name rest ih =>
    rw [List.append_cons] at h
    have hname : tree.node (directory ++ [name]) = some .directory := isDirectory_append_left h
    unfold openRootedParent
    rw [hname, List.append_cons directory name rest]
    exact ih h

theorem openRootedParent_missing {directory rest : List OsString} (hdirectory : tree.IsDirectory directory)
    (hclean : tree.Clean (directory ++ rest)) (h : tree.node (directory ++ rest) = none) :
    tree.openRootedParent directory rest = .error noEntry := by
  induction rest generalizing directory with
  | nil =>
    rw [List.append_nil] at h
    rw [IsDirectory, h] at hdirectory
    cases hdirectory
  | cons name rest ih =>
    unfold openRootedParent
    rw [List.append_cons] at hclean h
    cases hname : tree.node (directory ++ [name]) with
    | none => rfl
    | some node =>
      by_cases hkind : node = .directory
      · subst hkind
        exact ih hname hclean h
      · have hrest : rest ≠ [] := by
          intro hempty
          rw [hempty, List.append_nil, hname] at h
          cases h
        have hor := hclean _ rest rfl hrest
        rw [IsDirectory, hname] at hor
        simp [hkind] at hor

theorem openRootedParent_wrong {directory rest : List OsString} {node : Node}
    (hclean : tree.Clean (directory ++ rest)) (hdirectory : tree.IsDirectory directory)
    (h : tree.node (directory ++ rest) = some node) (hnode : node ≠ .directory) :
    tree.openRootedParent directory rest = .error wrongDirectory := by
  induction rest generalizing directory with
  | nil =>
    rw [List.append_nil] at h
    rw [IsDirectory, h] at hdirectory
    exact absurd (Option.some.inj hdirectory) hnode
  | cons name rest ih =>
    unfold openRootedParent
    rw [List.append_cons] at hclean h
    by_cases hrest : rest = []
    · subst hrest
      rw [List.append_nil] at h
      rw [h]
      cases node with
      | directory => exact absurd rfl hnode
      | file => rfl
      | other => rfl
      | symlink => rfl
    · have hname : tree.node (directory ++ [name]) = some .directory :=
        isDirectory_of_append (by rw [h]; rfl) hrest
      rw [hname]
      exact ih hclean hname h

/-- The metadata of an entry below a path resolved so far. -/
theorem symlinkMetadata_eq {path : List OsString} {name : OsString} {relative : LocalRelativePath}
    (hclean : tree.Clean path) (hnames : relative.names = path ++ [name]) :
    tree.symlinkMetadata relative =
      (tree.lookup path name).bind fun found =>
        match found with
        | some node => .ok (tree.metadataOf (path ++ [name]) node)
        | none => .error noEntry := by
  unfold symlinkMetadata
  rw [hnames, List.dropLast_concat, show (path ++ [name]).getLastD [] = name by simp]
  cases hpath : tree.node path with
  | none =>
    rw [openRootedParent_missing tree.root hclean hpath, lookup_missing hpath]
    rfl
  | some node =>
    by_cases hnode : node = .directory
    · subst hnode
      have hopen : tree.openRootedParent [] path = .ok path := openRootedParent_directory hpath
      rw [hopen, lookup_directory hpath]
      show tree.metadata path name = _
      unfold metadata
      cases tree.node (path ++ [name]) <;> rfl
    · rw [openRootedParent_wrong hclean tree.root hpath hnode]
      unfold lookup
      rw [hpath]
      cases node with
      | directory => exact absurd rfl hnode
      | file => rfl
      | other => rfl
      | symlink => rfl

/-- The metadata of a path resolved so far. -/
theorem symlinkMetadata_path {path : List OsString} {relative : LocalRelativePath}
    (hclean : tree.Clean path) (hnames : relative.names = path) (hne : path ≠ []) :
    tree.symlinkMetadata relative =
      match tree.node path with
      | some node => .ok (tree.metadataOf path node)
      | none => .error noEntry := by
  have hsplit := List.dropLast_append_getLast hne
  have hlookup : tree.lookup path.dropLast (path.getLast hne) = .ok (tree.node path) := by
    obtain hdirectory | hmissing := hclean path.dropLast _ hsplit.symm (List.cons_ne_nil _ _)
    · rw [lookup_directory hdirectory, hsplit]
    · rw [lookup_missing hmissing, ← hsplit, node_append_none hmissing]
  rw [symlinkMetadata_eq hclean.dropLast (hnames.trans hsplit.symm), hlookup, hsplit]
  rfl

end StaticTree

end LocalFiles.Rooted
