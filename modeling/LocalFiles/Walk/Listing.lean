import Mathlib.Data.Finset.Lattice.Fold
import LocalFiles.Walk.Agreement

/-!
# Listing — what a recursive listing yields over a tree that nobody changes

Links are entries here and are not followed.  A walker that stops at its first error yields
every entry of the tree once, in the order of its directories, or it stops early; it does so
exactly when its budgets cover the tree and the contract of its root accepts every path.
-/

namespace LocalFiles.Walk

open LocalDirectoryWalker

/-! ## 1. Trees with links -/

/-- A finite tree below an opened directory, on a platform that counts its names by `measure`.
    Paths are relative to its root; directories with a native identity have one each. -/
structure EntryTree where
  measure : NameMeasure
  entry : Path → Option Metadata
  children : Path → List String
  paths : Finset Path
  mem_paths : ∀ path, (entry path).isSome → path ∈ paths
  root : ∃ metadata, entry [] = some metadata ∧ metadata.kind = .directory
  nodup : ∀ path, (children path).Nodup
  listed : ∀ path name, name ∈ children path ↔ (entry (path ++ [name])).isSome
  parent : ∀ path name, (entry (path ++ [name])).isSome →
    ∃ metadata, entry path = some metadata ∧ metadata.kind = .directory
  normal : ∀ path, (entry path).isSome → path.all isNormalComponent
  distinct : ∀ path path' metadata metadata' identity, entry path = some metadata →
    entry path' = some metadata' → metadata.kind = .directory → metadata'.kind = .directory →
    metadata.identity = some identity → metadata'.identity = some identity → path = path'

/-- The metadata of an entry that is no link. -/
def Metadata.unlinked (metadata : Metadata) : Metadata :=
  if metadata.kind = .symlink then { metadata with kind := .other } else metadata

theorem Metadata.unlinked_directory {metadata : Metadata} :
    (unlinked metadata).kind = .directory ↔ metadata.kind = .directory := by
  unfold unlinked
  split
  next h =>
    rw [h]
    exact iff_of_false nofun nofun
  next => rfl

theorem Metadata.unlinked_identity (metadata : Metadata) :
    (unlinked metadata).identity = metadata.identity := by
  unfold unlinked
  split <;> rfl

namespace EntryTree

variable (tree : EntryTree)

/-- The tree with other entries in place of its links. -/
def unlinked : FileTree where
  measure := tree.measure
  entry path := (tree.entry path).map Metadata.unlinked
  children := tree.children
  paths := tree.paths
  mem_paths path h := tree.mem_paths path (by rwa [Option.isSome_map] at h)
  nodup := tree.nodup
  listed path name := by rw [Option.isSome_map, tree.listed]
  parent path name h := by
    rw [Option.isSome_map] at h
    obtain ⟨metadata, hentry, hkind⟩ := tree.parent path name h
    exact ⟨Metadata.unlinked metadata, by rw [hentry]; rfl, Metadata.unlinked_directory.mpr hkind⟩
  normal path h := tree.normal path (by rwa [Option.isSome_map] at h)
  linkFree path metadata h := by
    obtain ⟨found, -, rfl⟩ := Option.map_eq_some_iff.mp h
    unfold Metadata.unlinked
    split
    next => nofun
    next hlink => exact hlink
  distinct path path' metadata metadata' identity h h' hkind hkind' hid hid' := by
    obtain ⟨found, hfound, rfl⟩ := Option.map_eq_some_iff.mp h
    obtain ⟨found', hfound', rfl⟩ := Option.map_eq_some_iff.mp h'
    rw [Metadata.unlinked_directory] at hkind hkind'
    rw [Metadata.unlinked_identity] at hid hid'
    exact tree.distinct path path' found found' identity hfound hfound' hkind hkind' hid hid'

def IsDirectory (path : Path) : Prop :=
  ∃ metadata, tree.entry path = some metadata ∧ metadata.kind = .directory

/-! ### Native calls -/

def find (path : Path) : IoResult Metadata :=
  match tree.entry path with
  | some metadata => .ok metadata
  | none => .error FileTree.missing

def list (path : Path) : IoResult Listing :=
  match tree.entry path with
  | some metadata =>
    if metadata.kind = .directory then .ok ⟨tree.children path, none⟩
    else .error FileTree.notDirectory
  | none => .error FileTree.missing

def resolutionNative
    (resolveSymlinks : Path → LocalSymlinkPolicy → Bool → Except LocalFileError Path) :
    ResolutionNative where
  componentMetadata cursor name := tree.find (cursor ++ [name])
  descend cursor name := (tree.list (cursor ++ [name])).map fun _ => ()
  resolveSymlinks := resolveSymlinks
  measure := tree.measure

/-- A listing of a staged tree rejects links. -/
def rootedNative (rootPath : Path) (contract : ResolutionContract)
    (resolveSymlinks : Path → LocalSymlinkPolicy → Bool → Except LocalFileError Path) :
    RootedNative where
  now := 0
  path := rootPath
  openDirReader := tree.list
  openedMetadata := tree.find
  entryMetadata := tree.find
  symlinkMetadata := tree.find
  resolve := resolveRootedPath (tree.resolutionNative resolveSymlinks) contract .reject
  measure := tree.measure

variable {tree}

theorem find_eq {path : Path} {metadata : Metadata} (h : tree.entry path = some metadata) :
    tree.find path = .ok metadata := by
  unfold find
  rw [h]

theorem entry_of_find {path : Path} {metadata : Metadata} (h : tree.find path = .ok metadata) :
    tree.entry path = some metadata := by
  unfold find at h
  split at h
  next heq => rw [heq, Except.ok.inj h]
  next => cases h

theorem list_eq {path : Path} (h : tree.IsDirectory path) :
    tree.list path = .ok ⟨tree.children path, none⟩ := by
  obtain ⟨metadata, hentry, hkind⟩ := h
  unfold list
  rw [hentry]
  exact if_pos hkind

theorem list_unlinked (path : Path) : tree.unlinked.list path = tree.list path := by
  show (match (tree.entry path).map Metadata.unlinked with
    | some metadata =>
      if metadata.kind = .directory then Except.ok ⟨tree.children path, none⟩
      else .error FileTree.notDirectory
    | none => .error FileTree.missing) = tree.list path
  unfold list
  cases tree.entry path with
  | none => rfl
  | some metadata =>
    by_cases hkind : metadata.kind = .directory
    · exact (if_pos (Metadata.unlinked_directory.mpr hkind)).trans (if_pos hkind).symm
    · exact (if_neg (mt Metadata.unlinked_directory.mp hkind)).trans (if_neg hkind).symm

theorem IsDirectory.unlinked {path : Path} (h : tree.IsDirectory path) :
    tree.unlinked.IsDirectory path := by
  obtain ⟨metadata, hentry, hkind⟩ := h
  refine ⟨Metadata.unlinked metadata, ?_, Metadata.unlinked_directory.mpr hkind⟩
  show (tree.entry path).map _ = _
  rw [hentry]
  rfl

theorem IsDirectory.of_unlinked {path : Path} (h : tree.unlinked.IsDirectory path) :
    tree.IsDirectory path := by
  obtain ⟨metadata, hentry, hkind⟩ := h
  obtain ⟨found, hfound, rfl⟩ := Option.map_eq_some_iff.mp hentry
  exact ⟨found, hfound, Metadata.unlinked_directory.mp hkind⟩

variable (tree) in
/-- The identity of a directory; one without a native identity has its path. -/
def identity (path : Path) : DirectoryIdentity :=
  match (tree.entry path).bind (·.identity) with
  | some identity => .native identity
  | none => .canonical path

theorem identity_unlinked (path : Path) : tree.unlinked.identity [] path = tree.identity path := by
  unfold FileTree.identity identity
  show (match ((tree.entry path).map Metadata.unlinked).bind (·.identity) with
    | some identity => DirectoryIdentity.native identity
    | none => .canonical path) = _
  cases tree.entry path with
  | none => rfl
  | some metadata =>
    show (match (Metadata.unlinked metadata).identity with
      | some identity => DirectoryIdentity.native identity
      | none => .canonical path) = _
    rw [Metadata.unlinked_identity]
    rfl

theorem identity_eq {path : Path} {metadata : Metadata} (h : tree.entry path = some metadata) :
    .fromRootedMetadata metadata path = tree.identity path := by
  unfold identity DirectoryIdentity.fromRootedMetadata
  rw [h]
  rfl

/-- Two directories of the tree have different identities. -/
theorem identity_injective {path path' : Path} (h : tree.IsDirectory path)
    (h' : tree.IsDirectory path') (heq : tree.identity path = tree.identity path') :
    path = path' := by
  apply FileTree.identity_injective h.unlinked h'.unlinked
  rw [identity_unlinked, identity_unlinked, heq]

/-- What a path of the tree leads over are directories. -/
theorem directory_before {before after : Path} {name : String} (hafter : after ≠ [])
    (h : (tree.entry (before ++ name :: after)).isSome) : tree.IsDirectory (before ++ [name]) := by
  apply IsDirectory.of_unlinked
  apply FileTree.directory_before hafter
  show ((tree.entry _).map _).isSome
  rwa [Option.isSome_map]

/-- The entries that come first in the path of an entry are there. -/
theorem isSome_before {before after : Path} (h : (tree.entry (before ++ after)).isSome) :
    (tree.entry before).isSome := by
  cases after with
  | nil => rwa [List.append_nil] at h
  | cons name after =>
    cases before using List.reverseRecOn with
    | nil =>
      obtain ⟨metadata, hroot, -⟩ := tree.root
      rw [hroot]
      rfl
    | append_singleton before last =>
      rw [List.append_assoc] at h
      obtain ⟨metadata, hentry, -⟩ := directory_before (List.cons_ne_nil name after) h
      rw [hentry]
      rfl

theorem find_over {path : Path} {metadata : Metadata} (h : tree.find path = .ok metadata) :
    .fromRootedMetadata metadata path ∈ (tree.unlinked.graph []).directories := by
  have hentry := entry_of_find h
  rw [identity_eq hentry, ← identity_unlinked]
  apply FileTree.identity_mem
  show ((tree.entry path).map _).isSome
  rw [hentry]
  rfl

theorem rootedNative_over {rootPath : Path} {contract : ResolutionContract}
    {resolveSymlinks : Path → LocalSymlinkPolicy → Bool → Except LocalFileError Path} :
    (tree.rootedNative rootPath contract resolveSymlinks).Over (tree.unlinked.graph []) where
  openDirReader path listing h := by
    have hlist : tree.unlinked.list path = .ok listing := (list_unlinked path).trans h
    exact FileTree.list_lists [] hlist
  entryMetadata _ _ h _ := find_over h
  symlinkMetadata _ _ h _ := find_over h

/-! ## 2. The entries in the order of a listing -/

section Order

variable (tree)

/-- Everything down to `levels` below a directory, each entry before what is below it. -/
def belowWithin : Nat → Path → List Path
  | 0, _ => []
  | levels + 1, path =>
    (tree.children path).flatMap fun name => (path ++ [name]) :: belowWithin levels (path ++ [name])

def height : Nat := tree.paths.sup List.length

/-- Everything below a directory. -/
def below (path : Path) : List Path := tree.belowWithin (tree.height + 1 - path.length) path

/-- Every entry but the root. -/
def entries : List Path := tree.below []

/-- What is left of a directory whose names `names` have not been read. -/
def unread (path : Path) (names : List String) : List Path :=
  names.flatMap fun name => (path ++ [name]) :: tree.below (path ++ [name])

variable {tree}

theorem length_le_height {path : Path} (h : (tree.entry path).isSome) :
    path.length ≤ tree.height :=
  Finset.le_sup (f := List.length) (tree.mem_paths path h)

theorem below_eq (path : Path) : tree.below path = tree.unread path (tree.children path) := by
  by_cases hdeep : tree.height + 1 ≤ path.length
  · have hleaf : tree.children path = [] := by
      by_contra hne
      obtain ⟨name, hname⟩ := List.exists_mem_of_ne_nil _ hne
      have hlength := length_le_height ((tree.listed path name).mp hname)
      rw [List.length_append] at hlength
      omega
    have hzero : tree.height + 1 - path.length = 0 := by omega
    unfold below unread
    rw [hzero, hleaf]
    rfl
  · have hlevels : tree.height + 1 - path.length =
        (tree.height + 1 - (path.length + 1)) + 1 := by omega
    unfold below
    rw [hlevels]
    unfold belowWithin unread below
    have hlength (name : String) : (path ++ [name]).length = path.length + 1 := by
      rw [List.length_append]
      rfl
    simp only [hlength]

theorem unread_cons (path : Path) (name : String) (names : List String) :
    tree.unread path (name :: names) =
      (path ++ [name]) :: (tree.below (path ++ [name]) ++ tree.unread path names) := by
  unfold unread
  rw [List.flatMap_cons, List.cons_append]

theorem mem_belowWithin {levels : Nat} {path other : Path} :
    other ∈ tree.belowWithin levels path ↔ ∃ rest, rest ≠ [] ∧ rest.length ≤ levels ∧
      other = path ++ rest ∧ (tree.entry other).isSome := by
  induction levels generalizing path with
  | zero =>
    refine ⟨nofun, ?_⟩
    rintro ⟨rest, hne, hlength, -, -⟩
    exact absurd (List.eq_nil_of_length_eq_zero (Nat.le_zero.mp hlength)) hne
  | succ levels ih =>
    unfold belowWithin
    simp only [List.mem_flatMap, List.mem_cons, ih]
    constructor
    · rintro ⟨name, hname, rfl | ⟨rest, hne, hlength, rfl, hsome⟩⟩
      · exact ⟨[name], List.cons_ne_nil _ _, by simp, rfl, (tree.listed path name).mp hname⟩
      · exact ⟨name :: rest, List.cons_ne_nil _ _, by simpa using hlength, by simp, by simpa using hsome⟩
    · rintro ⟨rest, hne, hlength, rfl, hsome⟩
      cases rest with
      | nil => exact absurd rfl hne
      | cons name rest =>
        rw [← List.singleton_append, ← List.append_assoc] at hsome
        refine ⟨name, (tree.listed path name).mpr (isSome_before hsome), ?_⟩
        by_cases hrest : rest = []
        · exact .inl (by rw [hrest])
        · refine .inr ⟨rest, hrest, ?_, by simp, by simpa using hsome⟩
          rw [List.length_cons] at hlength
          omega

theorem mem_below {path other : Path} : other ∈ tree.below path ↔
    ∃ rest, rest ≠ [] ∧ other = path ++ rest ∧ (tree.entry other).isSome := by
  unfold below
  rw [mem_belowWithin]
  constructor
  · rintro ⟨rest, hne, -, heq, hsome⟩
    exact ⟨rest, hne, heq, hsome⟩
  · rintro ⟨rest, hne, heq, hsome⟩
    refine ⟨rest, hne, ?_, heq, hsome⟩
    have hlength := length_le_height hsome
    rw [heq, List.length_append] at hlength
    omega

theorem mem_entries {path : Path} :
    path ∈ tree.entries ↔ path ≠ [] ∧ (tree.entry path).isSome := by
  unfold entries
  rw [mem_below]
  constructor
  · rintro ⟨rest, hne, rfl, hsome⟩
    exact ⟨hne, hsome⟩
  · rintro ⟨hne, hsome⟩
    exact ⟨path, hne, rfl, hsome⟩

theorem nodup_belowWithin (levels : Nat) (path : Path) : (tree.belowWithin levels path).Nodup := by
  induction levels generalizing path with
  | zero => exact List.nodup_nil
  | succ levels ih =>
    unfold belowWithin
    rw [List.nodup_flatMap]
    constructor
    · intro name hname
      rw [List.nodup_cons]
      refine ⟨?_, ih _⟩
      intro hmem
      obtain ⟨rest, hne, -, heq, -⟩ := mem_belowWithin.mp hmem
      exact hne (List.self_eq_append_right.mp heq)
    · refine (tree.nodup path).imp ?_
      intro name name' hne other hother hother'
      -- both lists hold paths that go on with their own name
      have hstarts (name : String) (h : other ∈ (path ++ [name]) ::
          tree.belowWithin levels (path ++ [name])) : ∃ rest, other = path ++ name :: rest := by
        rcases List.mem_cons.mp h with rfl | hmem
        · exact ⟨[], rfl⟩
        · obtain ⟨rest, -, -, heq, -⟩ := mem_belowWithin.mp hmem
          exact ⟨rest, by rw [heq, List.append_assoc]; rfl⟩
      obtain ⟨rest, heq⟩ := hstarts name hother
      obtain ⟨rest', heq'⟩ := hstarts name' hother'
      rw [heq] at heq'
      exact hne (List.cons.inj (List.append_cancel_left heq')).1

theorem nodup_entries : tree.entries.Nodup := nodup_belowWithin _ _

end Order

/-! ## 3. What the contract of the root lets through -/

section Contract

variable {contract : ResolutionContract}
  {resolveSymlinks : Path → LocalSymlinkPolicy → Bool → Except LocalFileError Path}

theorem leads_over_directories {path : Path} (h : (tree.entry path).isSome) (before : Path)
    (name : String) (after : Path) (heq : path = before ++ name :: after) (hafter : after ≠ []) :
    ∃ metadata, (tree.resolutionNative resolveSymlinks).componentMetadata before name =
        .ok metadata ∧ metadata.kind = .directory ∧
      (tree.resolutionNative resolveSymlinks).descend before name = .ok () := by
  have hdirectory : tree.IsDirectory (before ++ [name]) :=
    directory_before hafter (by rw [← heq]; exact h)
  have hlist := list_eq hdirectory
  obtain ⟨metadata, hentry, hkind⟩ := hdirectory
  refine ⟨metadata, find_eq hentry, hkind, ?_⟩
  show (tree.list (before ++ [name])).map _ = _
  rw [hlist]
  rfl

/-- The paths of the tree that the contract accepts are resolved to themselves. -/
theorem resolve_eq {path : Path} (h : (tree.entry path).isSome) (haccepts : contract.Accepts tree.measure path) :
    resolveRootedPath (tree.resolutionNative resolveSymlinks) contract .reject path false =
      .ok path :=
  resolveRootedPath_ok (by decide) (tree.normal path h) haccepts (leads_over_directories h)

/-- No other path of the tree is resolved. -/
theorem accepts_of_resolve {path resolved : Path} (h : (tree.entry path).isSome)
    (hne : path ≠ [])
    (hresolve : resolveRootedPath (tree.resolutionNative resolveSymlinks) contract .reject path
      false = .ok resolved) : contract.Accepts tree.measure path :=
  accepts_of_resolveRootedPath (by decide) (tree.normal path h) hne (leads_over_directories h)
    hresolve

end Contract

/-! ## 4. The walker on its way through the tree -/

section Walker

variable (tree) (contract : ResolutionContract)

/-- A frame that still has to yield `names` of the directory `path`, and what is below them. -/
structure FrameAt (frame : WalkFrame RootedPlace) (path : Path) (names : List String) : Prop where
  place : frame.place = ⟨path, path⟩
  directory : tree.IsDirectory path
  identity : frame.identity = some (tree.identity path)
  listed : ∀ name ∈ names, name ∈ tree.children path
  nodup : names.Nodup
  unseen : ∀ name ∈ names, frame.hasSeen name = false
  reader : frame.reader = some ⟨names, none⟩ ∨
    frame.reader = none ∧ names = tree.children path

/-- The frames of a stack, and the paths they still have to yield. -/
inductive Stands : List (WalkFrame RootedPlace) → List Path → Prop
  | nil : Stands [] []
  | cons {frame : WalkFrame RootedPlace} {below : List (WalkFrame RootedPlace)} {path : Path}
      {names : List String} {rest : List Path} (top : tree.FrameAt frame path names)
      (level : path.length = below.length) (under : Stands below rest) :
      Stands (frame :: below) (tree.unread path names ++ rest)

variable {tree}

theorem Stands.identity {stack : List (WalkFrame RootedPlace)} {paths : List Path}
    (h : tree.Stands stack paths) {frame : WalkFrame RootedPlace} (hframe : frame ∈ stack) :
    ∃ path, tree.IsDirectory path ∧ path.length < stack.length ∧
      frame.identity = some (tree.identity path) := by
  induction h with
  | nil => cases hframe
  | @cons top below path names rest htop hlevel _ ih =>
    rw [List.length_cons]
    rcases List.mem_cons.mp hframe with rfl | hmem
    · exact ⟨path, htop.directory, by omega, htop.identity⟩
    · obtain ⟨other, hdirectory, hlength, hidentity⟩ := ih hmem
      exact ⟨other, hdirectory, by omega, hidentity⟩

theorem hasSeen_remember {frame : WalkFrame RootedPlace} {name other : String}
    (h : frame.hasSeen other = false) (hne : other ≠ name) :
    (frame.remember name).hasSeen other = false := by
  unfold WalkFrame.hasSeen WalkFrame.remember at *
  cases hseen : frame.seen with
  | none => rfl
  | some seen =>
    rw [hseen] at h
    simp only [Option.any_some, decide_eq_false_iff_not] at h
    simp [hne, h]

theorem FrameAt.tail {frame : WalkFrame RootedPlace} {path : Path} {name : String}
    {names : List String} (h : tree.FrameAt frame path (name :: names)) :
    tree.FrameAt ({ frame with reader := some ⟨names, none⟩ }.remember name) path names where
  place := h.place
  directory := h.directory
  identity := h.identity
  listed other hother := h.listed other (List.mem_cons_of_mem _ hother)
  nodup := (List.nodup_cons.mp h.nodup).2
  unseen other hother := by
    apply hasSeen_remember (h.unseen other (List.mem_cons_of_mem _ hother))
    rintro rfl
    exact (List.nodup_cons.mp h.nodup).1 hother
  reader := .inl rfl

/-- A directory that was just entered has everything below it still to yield. -/
theorem frameAt_entered (options : LocalListOptions) {path : Path} (entryDepth : Nat)
    (hdirectory : tree.IsDirectory path) :
    tree.FrameAt (RootedWalker.frameOf options ⟨path, path⟩ (tree.identity path) entryDepth) path
      (tree.children path) where
  place := rfl
  directory := hdirectory
  identity := rfl
  listed _ hname := hname
  nodup := tree.nodup path
  unseen name _ := by
    show ((LocalDirectoryWalker.freshSeen options).any fun seen => decide (name ∈ seen)) = false
    unfold LocalDirectoryWalker.freshSeen
    split <;> rfl
  reader := .inr ⟨rfl, rfl⟩

theorem below_leaf {path : Path} (h : ¬ tree.IsDirectory path) : tree.below path = [] := by
  rw [below_eq]
  cases hchildren : tree.children path with
  | nil => rfl
  | cons name names =>
    refine absurd ?_ h
    exact tree.parent path name ((tree.listed path name).mp (hchildren ▸ List.mem_cons_self))

variable [QubitBudget] (tree)

/-- The walker has to yield `paths`, and stops at the first error. -/
structure Remains (w : RootedWalker) (paths : List Path) : Prop where
  stands : tree.Stands w.stack paths
  follows : w.FollowsStack
  unlimited : w.openDirectories = none
  running : w.terminated = false
  recursive : w.options.recursive = true
  unbounded : w.options.maxDepth = none
  failFast : w.options.errorPolicy = .failFast
  rejects : w.symlinkPolicy = .reject

/-- The bytes of the last name of a path, which is what a listing charges for it. -/
def lastBytes (path : Path) : Nat := tree.measure.nameBytes (path.getLastD "")

/-- The budgets cover the paths, and the contract accepts them. -/
structure Affords (entryBudget seenNameBudget : Option ResourceBudget) (paths : List Path) :
    Prop where
  entries : ∀ budget ∈ entryBudget, paths.length ≤ budget.remaining
  names : ∀ budget ∈ seenNameBudget, (paths.map tree.lastBytes).sum ≤ budget.remaining
  accepts : ∀ path ∈ paths, contract.Accepts tree.measure path

/-- Bounds the turns up to the end: a name costs up to three more of them. -/
def effort (w : RootedWalker) (paths : List Path) : Nat :=
  4 * paths.length + 2 * w.stack.length + w.stack.countP (·.reader.isNone)

/-- What one turn does to a walker that has to yield `paths`. -/
inductive Advances (w : RootedWalker) : List Path → Step Item RootedWalker → Prop
  | stop : Advances w [] .stop
  | again {paths : List Path} {w' : RootedWalker} (remains : tree.Remains w' paths)
      (entryBudget : w'.entryBudget = w.entryBudget)
      (seenNameBudget : w'.seenNameBudget = w.seenNameBudget) (deadline : w'.deadline = w.deadline)
      (effort : effort w' paths < effort w paths) : Advances w paths (.again w')
  | entry {path : Path} {rest : List Path} {w' : RootedWalker} {entry : LocalDirectoryEntry}
      (relativePath : entry.relativePath = path) (accepts : contract.Accepts tree.measure path)
      (remains : tree.Remains w' rest)
      (entryBudget : chargeBudget w.entryBudget 1 = .ok w'.entryBudget)
      (seenNameBudget : chargeBudget w.seenNameBudget (tree.lastBytes path) = .ok w'.seenNameBudget)
      (deadline : w'.deadline = w.deadline)
      (effort : effort w' rest < effort w (path :: rest)) :
      Advances w (path :: rest) (.yield (.ok entry) w')
  | refused {path : Path} {rest : List Path} {w' : RootedWalker} {error : LocalFileError}
      (short : ¬ Affords tree contract w.entryBudget w.seenNameBudget (path :: rest))
      (terminated : w'.terminated = true) :
      Advances w (path :: rest) (.yield (.error error) w')

/-! ### Budgets -/

theorem covers_of_charged {budget budget' : Option ResourceBudget} {n m : Nat}
    (h : chargeBudget budget n = .ok budget') :
    (∀ value ∈ budget, n + m ≤ value.remaining) ↔ ∀ value ∈ budget', m ≤ value.remaining := by
  cases budget with
  | none =>
    cases h
    exact iff_of_true (fun _ hmem => by cases hmem) fun _ hmem => by cases hmem
  | some value =>
    obtain ⟨value', rfl, hconsumed⟩ := chargeBudget_ok h
    have hfits := hconsumed.fits
    have hremaining := hconsumed.remaining
    simp only [Option.mem_def, Option.some.injEq, forall_eq']
    omega

theorem not_covers_of_refused {budget : Option ResourceBudget} {n m : Nat}
    {error : LocalResourceLimitError} (h : chargeBudget budget n = .error error) :
    ¬ ∀ value ∈ budget, n + m ≤ value.remaining := by
  cases budget with
  | none => cases h
  | some value =>
    obtain ⟨hexceeds, -⟩ := chargeBudget_error h
    intro hcovers
    have hle := hcovers value rfl
    omega

variable {tree contract}

theorem affords_nil {entryBudget seenNameBudget : Option ResourceBudget} :
    Affords tree contract entryBudget seenNameBudget [] :=
  ⟨fun _ _ => Nat.zero_le _, fun _ _ => Nat.zero_le _, nofun⟩

theorem affords_cons {entryBudget entryBudget' seenNameBudget seenNameBudget' : Option ResourceBudget}
    {path : Path} {rest : List Path} (hentry : chargeBudget entryBudget 1 = .ok entryBudget')
    (hname : chargeBudget seenNameBudget (tree.lastBytes path) = .ok seenNameBudget') :
    Affords tree contract entryBudget seenNameBudget (path :: rest) ↔
      contract.Accepts tree.measure path ∧ Affords tree contract entryBudget' seenNameBudget' rest := by
  have hentries := covers_of_charged (m := rest.length) hentry
  have hnames := covers_of_charged (m := (rest.map tree.lastBytes).sum) hname
  rw [Nat.add_comm] at hentries
  constructor
  · intro h
    have haccepts := List.forall_mem_cons.mp h.accepts
    exact ⟨haccepts.1, hentries.mp h.entries, hnames.mp h.names, haccepts.2⟩
  · rintro ⟨hpath, h⟩
    exact ⟨hentries.mpr h.entries, hnames.mpr h.names, List.forall_mem_cons.mpr ⟨hpath, h.accepts⟩⟩

/-- What the walker charges for a name is what the path adds to the sums. -/
theorem charge_cases (tree : EntryTree) (w : RootedWalker) (contract : ResolutionContract) (path : Path)
    (name : String) (rest : List Path) :
    (∃ w' error, w.charge tree.measure name = (w', .error error) ∧ w'.options = w.options ∧
      ¬ Affords tree contract w.entryBudget w.seenNameBudget ((path ++ [name]) :: rest)) ∨
    ∃ w', w.charge tree.measure name = (w', .ok ()) ∧ w'.Same w ∧ w'.terminated = w.terminated ∧
      w'.deadline = w.deadline ∧ chargeBudget w.entryBudget 1 = .ok w'.entryBudget ∧
      chargeBudget w.seenNameBudget (tree.lastBytes (path ++ [name])) = .ok w'.seenNameBudget := by
  have hlast : tree.lastBytes (path ++ [name]) = tree.measure.nameBytes name := by
    unfold lastBytes
    rw [List.getLastD_concat]
  unfold LocalDirectoryWalker.charge
  rw [chargeEntry_eq]
  cases hentry : chargeBudget w.entryBudget 1 with
  | error error =>
    refine .inl ⟨w, error, rfl, rfl, fun h => ?_⟩
    have hcovers := h.entries
    rw [List.length_cons, Nat.add_comm] at hcovers
    exact not_covers_of_refused hentry hcovers
  | ok entryBudget =>
    dsimp only [Except.map]
    rw [chargeName_eq, hlast]
    dsimp only
    cases hname : chargeBudget w.seenNameBudget (tree.measure.nameBytes name) with
    | error error =>
      refine .inl ⟨_, error, rfl, rfl, fun h => ?_⟩
      have hcovers := h.names
      rw [List.map_cons, List.sum_cons, hlast] at hcovers
      exact not_covers_of_refused hname hcovers
    | ok seenNameBudget =>
      exact .inr ⟨_, rfl, ⟨rfl, rfl, rfl, rfl, rfl, rfl⟩, rfl, rfl, rfl, rfl⟩

/-- A directory further down than every frame is not followed yet. -/
theorem Remains.fresh {w : RootedWalker} {paths : List Path} (h : tree.Remains w paths)
    {path : Path} (hdirectory : tree.IsDirectory path) (hlength : w.stack.length ≤ path.length) :
    tree.identity path ∉ w.followedDirectories := by
  intro hmem
  obtain ⟨frame, hframe, hidentity⟩ := List.mem_map.mp ((h.follows.followed _).mp hmem)
  obtain ⟨other, hother, hlt, heq⟩ := h.stands.identity hframe
  rw [hidentity] at heq
  have hsame := identity_injective hdirectory hother (Option.some.inj heq)
  rw [hsame] at hlength
  omega

/-! ### Turns -/

variable {rootPath : Path}
  {resolveSymlinks : Path → LocalSymlinkPolicy → Bool → Except LocalFileError Path}

theorem Advances.congr {w w₀ : RootedWalker} {paths : List Path} {r : Step Item RootedWalker}
    (h : Advances tree contract w paths r) (hentry : w.entryBudget = w₀.entryBudget)
    (hname : w.seenNameBudget = w₀.seenNameBudget) (hdeadline : w.deadline = w₀.deadline)
    (heffort : effort w paths = effort w₀ paths) : Advances tree contract w₀ paths r := by
  cases h with
  | stop => exact .stop
  | again hremains hentry' hname' hdeadline' heffort' =>
    exact .again hremains (hentry'.trans hentry) (hname'.trans hname) (hdeadline'.trans hdeadline)
      (heffort ▸ heffort')
  | entry hpath haccepts hremains hentry' hname' hdeadline' heffort' =>
    exact .entry hpath haccepts hremains (hentry ▸ hentry') (hname ▸ hname')
      (hdeadline'.trans hdeadline) (heffort ▸ heffort')
  | refused hshort hended => exact .refused (hentry ▸ hname ▸ hshort) hended

theorem settle_error {w : RootedWalker} (error : LocalFileError)
    (h : w.options.errorPolicy = .failFast) :
    RootedWalker.settle (.yield (.error error) w) = .yield (.error error) w.terminate := by
  have hterminal : isTerminalWalkError error w.options.errorPolicy = true := by
    rw [h]
    rfl
  unfold RootedWalker.settle
  dsimp only
  rw [if_pos hterminal]

theorem mayDescend_of_remains {w : RootedWalker} {paths : List Path} (h : tree.Remains w paths)
    (entryDepth : Nat) :
    w.options.mayDescend entryDepth = true ∧ w.options.tooDeep entryDepth = false := by
  unfold LocalListOptions.mayDescend LocalListOptions.tooDeep
  rw [h.recursive, h.unbounded]
  exact ⟨rfl, rfl⟩

/-- A walker that only paid for a name has the same paths left. -/
theorem Remains.same {w w' : RootedWalker} {paths : List Path} (h : tree.Remains w paths)
    (hsame : w'.Same w) (hrunning : w'.terminated = w.terminated) : tree.Remains w' paths where
  stands := hsame.stack ▸ h.stands
  follows := h.follows.of_identities (by rw [hsame.stack]) hsame.followed.symm
  unlimited := hsame.pool.symm.trans h.unlimited
  running := hrunning.trans h.running
  recursive := hsame.options ▸ h.recursive
  unbounded := hsame.options ▸ h.unbounded
  failFast := hsame.options ▸ h.failFast
  rejects := hsame.symlinks.symm.trans h.rejects

/-- Entering a directory adds the paths below it. -/
theorem Remains.enter {w : RootedWalker} {paths : List Path} (h : tree.Remains w paths)
    {path : Path} (hdirectory : tree.IsDirectory path) (hlength : path.length = w.stack.length)
    (entryDepth : Nat) :
    tree.Remains (w.enterDirectory
      (RootedWalker.frameOf w.options ⟨path, path⟩ (tree.identity path) entryDepth)
      (tree.identity path)) (tree.below path ++ paths) := by
  rw [below_eq]
  exact ⟨.cons (frameAt_entered w.options entryDepth hdirectory) hlength h.stands,
    h.follows.push rfl (h.fresh hdirectory (Nat.le_of_eq hlength.symm)) rfl rfl, h.unlimited,
    h.running, h.recursive, h.unbounded, h.failFast, h.rejects⟩

/-- An entry of the tree is let through; a directory is entered, and a link is not followed. -/
theorem followedDirectory_eq {w : RootedWalker} {paths : List Path} (h : tree.Remains w paths)
    (native : RootedNative) {path : Path} {name : String} {metadata : Metadata} (mayDescend : Bool)
    (hentry : tree.entry (path ++ [name]) = some metadata)
    (hlength : (path ++ [name]).length = w.stack.length) :
    RootedWalker.followedDirectory native w ⟨path, path⟩ name metadata mayDescend =
      .ok (if metadata.kind = .directory then
        some (path ++ [name], tree.identity (path ++ [name])) else none) := by
  unfold RootedWalker.followedDirectory RootedWalker.unlessFollowed
  dsimp only
  by_cases hkind : metadata.kind = .directory
  · rw [if_pos hkind, if_pos hkind, identity_eq hentry]
    exact if_neg (h.fresh ⟨metadata, hentry, hkind⟩ (Nat.le_of_eq hlength.symm))
  · rw [if_neg hkind, if_neg hkind, h.rejects]
    exact if_neg fun hfollows => Bool.false_ne_true hfollows.2.1

/-- The walker has taken the name of an entry; the paths after the entry remain. -/
theorem visit_advances {w : RootedWalker} {paths : List Path} (h : tree.Remains w paths)
    (now entryDepth : Nat) {path : Path} {name : String} {metadata : Metadata}
    (hentry : tree.entry (path ++ [name]) = some metadata)
    (hlength : (path ++ [name]).length = w.stack.length) :
    Advances tree contract w ((path ++ [name]) :: (tree.below (path ++ [name]) ++ paths))
      (RootedWalker.settle (RootedWalker.visit
        ((tree.rootedNative rootPath contract resolveSymlinks).at now) w ⟨path, path⟩ entryDepth
        name metadata)) := by
  have hsome : (tree.entry (path ++ [name])).isSome := by rw [hentry]; rfl
  obtain ⟨hmay, hdeep⟩ := mayDescend_of_remains h entryDepth
  unfold RootedWalker.visit
  rw [if_neg (by rw [hdeep]; exact Bool.false_ne_true)]
  rw [show ((tree.rootedNative rootPath contract resolveSymlinks).at now).measure = tree.measure
    from rfl]
  rcases charge_cases tree w contract path name (tree.below (path ++ [name]) ++ paths) with
    ⟨w', error, hcharge, hoptions, hshort⟩ |
    ⟨w', hcharge, hsame, hrunning, hdeadline, hpaid, hpaid'⟩
  · rw [hcharge]
    dsimp only
    rw [settle_error _ (by rw [hoptions]; exact h.failFast)]
    exact .refused hshort rfl
  have hw := h.same hsame hrunning
  rw [hcharge]
  dsimp only
  rw [← hsame.options, hmay]
  -- a path that can be paid for resolves to itself
  cases hresolve : ((tree.rootedNative rootPath contract resolveSymlinks).at now).resolve
      (path ++ [name]) false with
  | error error =>
    dsimp only
    rw [settle_error _ hw.failFast]
    refine .refused (fun hafford => ?_) rfl
    have haccepts := ((affords_cons hpaid hpaid').mp hafford).1
    have hok : ((tree.rootedNative rootPath contract resolveSymlinks).at now).resolve
        (path ++ [name]) false = .ok (path ++ [name]) := resolve_eq hsome haccepts
    rw [hok] at hresolve
    cases hresolve
  | ok resolved =>
    have haccepts : contract.Accepts tree.measure (path ++ [name]) :=
      accepts_of_resolve hsome (List.append_ne_nil_of_right_ne_nil _ (List.cons_ne_nil _ _))
        hresolve
    dsimp only
    rw [followedDirectory_eq hw _ true hentry (by rw [← hsame.stack]; exact hlength)]
    dsimp only
    by_cases hkind : metadata.kind = .directory
    · rw [if_pos hkind]
      refine .entry rfl haccepts (hsame.options ▸ hw.enter ⟨metadata, hentry, hkind⟩
        (by rw [← hsame.stack]; exact hlength) (entryDepth + 1)) hpaid hpaid' hdeadline ?_
      -- an entry has gone from the measure, which pays for the frame that is entered
      show 4 * _ + 2 * (w'.stack.length + 1) + List.countP _ (_ :: w'.stack) < 4 * (_ + 1) + _ + _
      rw [List.countP_cons, ← hsame.stack]
      split <;> omega
    · have hleaf : ¬ tree.IsDirectory (path ++ [name]) := by
        rintro ⟨found, hfound, hdirectory⟩
        rw [hentry] at hfound
        exact hkind (Option.some.inj hfound ▸ hdirectory)
      rw [if_neg hkind, below_leaf hleaf]
      refine .entry rfl haccepts hw hpaid hpaid' hdeadline ?_
      show 4 * paths.length + 2 * w'.stack.length + _ < 4 * (paths.length + 1) + _ + _
      rw [← hsame.stack]
      omega

/-- The top frame is exchanged for one that has other names left. -/
theorem Remains.setTop {w : RootedWalker} {paths rest : List Path} (h : tree.Remains w paths)
    {frame : WalkFrame RootedPlace} {below : List (WalkFrame RootedPlace)} {path : Path}
    {names : List String} (hstack : w.stack = frame :: below) (frame' : WalkFrame RootedPlace)
    (hidentity : frame'.identity = frame.identity) (htop : tree.FrameAt frame' path names)
    (hlevel : path.length = below.length) (hunder : tree.Stands below rest) :
    tree.Remains (w.setTop frame') (tree.unread path names ++ rest) where
  stands := by
    rw [setTop_stack hstack]
    exact .cons htop hlevel hunder
  follows := h.follows.of_identities
    (by rw [setTop_stack hstack, hstack, List.map_cons, List.map_cons, hidentity]) rfl
  unlimited := h.unlimited
  running := h.running
  recursive := h.recursive
  unbounded := h.unbounded
  failFast := h.failFast
  rejects := h.rejects

/-- Reading on in the top directory. -/
theorem read_advances {w : RootedWalker} {rest : List Path} (now : Nat)
    {frame : WalkFrame RootedPlace} {below : List (WalkFrame RootedPlace)} {path : Path}
    {names : List String} (h : tree.Remains w (tree.unread path names ++ rest))
    (hstack : w.stack = frame :: below) (hframe : tree.FrameAt frame path names)
    (hlevel : path.length = below.length) (hunder : tree.Stands below rest)
    (hreader : frame.reader = some ⟨names, none⟩) :
    Advances tree contract w (tree.unread path names ++ rest)
      (RootedWalker.settle (RootedWalker.read
        ((tree.rootedNative rootPath contract resolveSymlinks).at now) w frame ⟨names, none⟩)) := by
  cases names with
  | nil =>
    -- the directory has been read to its end
    have hleft := leaveDirectory_cons hstack
    refine .again ⟨?_, ?_, ?_, ?_, ?_, ?_, ?_, ?_⟩ ?_ ?_ ?_ ?_
    · rw [hleft]
      exact hunder
    · exact h.follows.pop hstack hframe.identity (by rw [hleft])
        (by rw [hleft, hframe.identity])
    · rw [hleft]
      show w.openDirectories.map _ = none
      rw [h.unlimited]
      rfl
    · rw [hleft]
      exact h.running
    · rw [hleft]
      exact h.recursive
    · rw [hleft]
      exact h.unbounded
    · rw [hleft]
      exact h.failFast
    · rw [hleft]
      exact h.rejects
    · rw [hleft]
      rfl
    · rw [hleft]
      rfl
    · rw [hleft]
      rfl
    · unfold effort
      rw [hleft, hstack, List.length_cons, List.countP_cons]
      dsimp only
      omega
  | cons name names =>
    have hunseen := hframe.unseen name List.mem_cons_self
    have hread : RootedWalker.read
        ((tree.rootedNative rootPath contract resolveSymlinks).at now) w frame
        ⟨name :: names, none⟩ =
        RootedWalker.take ((tree.rootedNative rootPath contract resolveSymlinks).at now)
          (w.setTop ({ frame with reader := some ⟨names, none⟩ }.remember name)) ⟨path, path⟩
          frame.entryDepth name := by
      rw [← hframe.place]
      exact if_neg fun hseen => Bool.false_ne_true (hunseen.symm.trans hseen)
    obtain ⟨metadata, hentry⟩ := Option.isSome_iff_exists.mp
      ((tree.listed path name).mp (hframe.listed name List.mem_cons_self))
    have hset := h.setTop hstack ({ frame with reader := some ⟨names, none⟩ }.remember name)
      rfl hframe.tail hlevel hunder
    rw [hread]
    unfold RootedWalker.take
    dsimp only
    rw [show ((tree.rootedNative rootPath contract resolveSymlinks).at now).entryMetadata
      (path ++ [name]) = .ok metadata from find_eq hentry]
    dsimp only
    rw [unread_cons, List.cons_append, List.append_assoc]
    refine (visit_advances hset now frame.entryDepth hentry ?_).congr rfl rfl rfl ?_
    · rw [setTop_stack hstack, List.length_append, List.length_cons, hlevel]
      rfl
    · unfold effort
      rw [setTop_stack hstack, hstack, List.countP_cons, List.countP_cons, hreader]
      rfl

variable (contract rootPath resolveSymlinks) in
/-- Opening the directory of the top frame. -/
theorem openReader_advances {w : RootedWalker} {rest : List Path} (now : Nat)
    {frame : WalkFrame RootedPlace} {below : List (WalkFrame RootedPlace)} {path : Path}
    {names : List String} (h : tree.Remains w (tree.unread path names ++ rest))
    (hstack : w.stack = frame :: below) (hframe : tree.FrameAt frame path names)
    (hlevel : path.length = below.length) (hunder : tree.Stands below rest)
    (hreader : frame.reader = none) :
    ∃ w', RootedWalker.openReader ((tree.rootedNative rootPath contract resolveSymlinks).at now) w
        frame.place = (w', .ok ()) ∧
      Advances tree contract w (tree.unread path names ++ rest) (.again w') := by
  -- no reader is open, so all the children are still unread
  have hnames : names = tree.children path := by
    rcases hframe.reader with hopen | ⟨-, hnames⟩
    · rw [hreader] at hopen
      cases hopen
    · exact hnames
  have hlist : ((tree.rootedNative rootPath contract resolveSymlinks).at now).openDirReader
      frame.place.authorityParent = .ok ⟨tree.children path, none⟩ := by
    rw [hframe.place]
    exact list_eq hframe.directory
  obtain ⟨metadata, hentry, -⟩ := hframe.directory
  have hmetadata : ((tree.rootedNative rootPath contract resolveSymlinks).at now).openedMetadata
      frame.place.authorityParent = .ok metadata := by
    rw [hframe.place]
    exact find_eq hentry
  have hidentity : w.topIdentity =
      some (.fromRootedMetadata metadata frame.place.authorityParent) := by
    unfold topIdentity
    rw [hstack, hframe.place, identity_eq hentry]
    exact hframe.identity
  have hopened : w.openTop ⟨tree.children path, none⟩ false =
      w.setTop { frame with
        reader := some ⟨tree.children path, none⟩
        directoryPermit := false } := by
    unfold openTop setTop
    rw [hstack]
    rfl
  refine ⟨w.openTop ⟨tree.children path, none⟩ false, ?_, ?_⟩
  · unfold RootedWalker.openReader
    dsimp only
    rw [acquireDirectory_unlimited h.unlimited]
    dsimp only
    rw [hlist]
    dsimp only
    rw [hmetadata]
    dsimp only
    rw [if_neg (by rw [hidentity]; exact fun hne => hne rfl)]
  · rw [hopened]
    refine .again (h.setTop hstack _ rfl { hframe with reader := .inl (by rw [hnames]) } hlevel hunder)
      rfl rfl rfl ?_
    -- an open frame counts for less
    unfold effort
    rw [setTop_stack hstack, hstack, List.countP_cons, List.countP_cons, hreader]
    exact Nat.lt_succ_self _

/-- Every turn before the deadline leads on through the tree. -/
theorem nextEntry_advances {w : RootedWalker} {paths : List Path} (h : tree.Remains w paths)
    {now : Nat} (hexpired : w.expired now = false) :
    Advances tree contract w paths (RootedWalker.nextEntry
      ((tree.rootedNative rootPath contract resolveSymlinks).at now) w) := by
  unfold RootedWalker.nextEntry RootedWalker.nextRootedEntry
  rw [if_neg (by rw [h.running]; decide), RootedNative.at_now, if_neg (by rw [hexpired]; decide)]
  have hstands := h.stands
  cases hstack : w.stack with
  | nil =>
    rw [hstack] at hstands
    cases hstands
    exact .stop
  | cons frame below =>
    rw [hstack] at hstands
    cases hstands with
    | @cons _ _ path names rest hframe hlevel hunder =>
      dsimp only
      rcases hframe.reader with hreader | ⟨hreader, -⟩
      · rw [hreader]
        exact read_advances now h hstack hframe hlevel hunder hreader
      · obtain ⟨w', hopen, hadvances⟩ := openReader_advances contract rootPath resolveSymlinks now
          h hstack hframe hlevel hunder hreader
        rw [hreader]
        dsimp only
        rw [hopen]
        exact hadvances

end Walker

/-! ## 5. Whole listings -/

theorem walkerDeadline_ok {clockEnd startedAt : Nat} {root : Path} {options : LocalListOptions}
    {deadline : Option Nat}
    (h : walkerDeadline clockEnd root options startedAt = .ok deadline) :
    deadline = options.deadline.map (startedAt + ·) := by
  unfold walkerDeadline at h
  split at h
  next hnone =>
    cases h
    rw [hnone]
    rfl
  next duration hsome =>
    split at h
    next =>
      cases h
      rw [hsome]
      rfl
    next => cases h

section Runs

variable (tree) (rootPath : Path) (contract : ResolutionContract)
  (resolveSymlinks : Path → LocalSymlinkPolicy → Bool → Except LocalFileError Path)
  (clock : Nat → Nat)

/-- A listing that yields all of `paths`, or fails before it has done so. -/
structure Lists (complete : Prop) (paths : List Path) (items : List Item) : Prop where
  all : complete → items.map outcome = paths.map .ok
  short : ¬ complete → ∃ n resource, n < paths.length ∧
    items.map outcome = (paths.take n).map .ok ++ [.error resource]

theorem Lists.cons {complete : Prop} {path : Path} {paths : List Path} {item : Item}
    {items : List Item} (h : Lists complete paths items) (hitem : outcome item = .ok path) :
    Lists complete (path :: paths) (item :: items) where
  all hcomplete := by rw [List.map_cons, List.map_cons, hitem, h.all hcomplete]
  short hshort := by
    obtain ⟨n, resource, hn, heq⟩ := h.short hshort
    refine ⟨n + 1, resource, Nat.succ_lt_succ hn, ?_⟩
    rw [List.map_cons, hitem, heq, List.take_succ_cons, List.map_cons, List.cons_append]

theorem Lists.congr {complete complete' : Prop} {paths : List Path} {items : List Item}
    (h : Lists complete paths items) (hiff : complete' ↔ complete) :
    Lists complete' paths items :=
  ⟨fun hc => h.all (hiff.mp hc), fun hc => h.short (mt hiff.mpr hc)⟩

variable [QubitBudget]

/-- The turns of a listing whose `k`th entry is asked for at `clock k`. -/
def turns (k : Nat) (w : RootedWalker) : Step Item RootedWalker :=
  RootedWalker.next ((tree.rootedNative rootPath contract resolveSymlinks).at (clock k)) w

variable {tree contract clock}

/-- A walker that never sees its deadline pass comes to the end of its paths or of a budget. -/
theorem remains_ends {w : RootedWalker} {paths : List Path} (h : tree.Remains w paths)
    (hclock : ∀ k, w.expired (clock k) = false) (k : Nat) :
    ∃ items, Ends (counted (tree.turns rootPath contract resolveSymlinks clock)) (w, k) items ∧
      Lists (Affords tree contract w.entryBudget w.seenNameBudget paths) paths items := by
  induction hn : effort w paths using Nat.strongRecOn generalizing w paths k with
  | ind n ih =>
    subst hn
    have hturn : Advances tree contract w paths (RootedWalker.nextEntry
        ((tree.rootedNative rootPath contract resolveSymlinks).at (clock k)) w) :=
      nextEntry_advances h (hclock k)
    have hnext : tree.turns rootPath contract resolveSymlinks clock k w = (RootedWalker.nextEntry
        ((tree.rootedNative rootPath contract resolveSymlinks).at (clock k)) w).map
          w.withContext := rfl
    generalize RootedWalker.nextEntry _ w = r at hturn hnext
    cases hturn with
    | stop => exact ⟨[], ends_stop (counted_stop hnext), fun _ => rfl, fun h => absurd affords_nil h⟩
    | @again _ w' hremains hentry hname hdeadline heffort =>
      have hclock' (k : Nat) : w'.expired (clock k) = false := by
        rw [← hclock k]
        exact congrArg (Option.any _) hdeadline
      obtain ⟨items, hends, hlists⟩ := ih _ heffort hremains hclock' k rfl
      rw [hentry, hname] at hlists
      exact ⟨items, hends.again (counted_again hnext), hlists⟩
    | @entry path rest w' entry hpath haccepts hremains hentry hname hdeadline heffort =>
      have hclock' (k : Nat) : w'.expired (clock k) = false := by
        rw [← hclock k]
        exact congrArg (Option.any _) hdeadline
      obtain ⟨items, hends, hlists⟩ := ih _ heffort hremains hclock' (k + 1) rfl
      refine ⟨_, hends.yield (counted_yield hnext), (hlists.cons ?_).congr ?_⟩
      · rw [outcome_withContext, ← hpath]
        rfl
      · rw [affords_cons hentry hname, and_iff_right haccepts]
    | @refused path rest w' error hshort hended =>
      have hstop : tree.turns rootPath contract resolveSymlinks clock (k + 1) w' = .stop := by
        show (RootedWalker.nextEntry _ w').map _ = _
        unfold RootedWalker.nextEntry
        rw [if_pos hended]
        rfl
      refine ⟨_, (ends_stop (counted_stop hstop)).yield (counted_yield hnext),
        fun h => absurd h hshort, fun _ => ⟨0, error.resourceLimitError.map (·.resource),
          Nat.succ_pos _, ?_⟩⟩
      rw [List.map_singleton, outcome_withContext]
      rfl

/-! ### Opening -/

variable (tree contract) in
/-- The limits of a listing cover the tree, and the contract accepts its paths. -/
structure Covers (options : LocalListOptions) : Prop where
  entries : ∀ limit ∈ options.maxEntries, tree.entries.length ≤ limit
  names : ∀ limit ∈ options.maxSeenNameBytes, (tree.entries.map tree.lastBytes).sum ≤ limit
  accepts : ∀ path ∈ tree.entries, contract.Accepts tree.measure path

theorem affords_start (options : LocalListOptions) :
    Affords tree contract (options.maxEntries.map (.new .entry))
      (options.maxSeenNameBytes.map (.new .seenNameBytes)) tree.entries ↔
      Covers tree contract options := by
  have hlimit (resource : LocalResourceKind) (limit : Option Nat) (n : Nat) :
      (∀ budget ∈ limit.map (ResourceBudget.new resource), n ≤ budget.remaining) ↔
        ∀ value ∈ limit, n ≤ value := by
    cases limit with
    | none => exact iff_of_true nofun nofun
    | some limit => simp
  constructor
  · intro h
    exact ⟨(hlimit _ _ _).mp h.entries, (hlimit _ _ _).mp h.names, h.accepts⟩
  · intro h
    exact ⟨(hlimit _ _ _).mpr h.entries, (hlimit _ _ _).mpr h.names, h.accepts⟩

variable {clockEnd startedAt : Nat} {options : LocalListOptions}

/-- A listing of the root opens unless its options are refused. -/
theorem openRooted_eq (namespaceRoot : Path) {deadline : Option Nat}
    (hvalid : validateOptions (rootPath ++ []) options = .ok ())
    (hdeadline : walkerDeadline clockEnd (rootPath ++ []) options startedAt = .ok deadline) :
    RootedWalker.openRooted (tree.rootedNative rootPath contract resolveSymlinks) clockEnd []
        namespaceRoot options .reject startedAt =
      .ok (LocalDirectoryWalker.start namespaceRoot [] options .reject deadline
        (directoryPool options) (RootedWalker.frameOf options ⟨[], []⟩ (tree.identity []) 1)
        (tree.identity [])) := by
  obtain ⟨metadata, hentry, -⟩ := tree.root
  have hmetadata : (tree.rootedNative rootPath contract resolveSymlinks).symlinkMetadata [] =
      .ok metadata := find_eq hentry
  have hvalid' : validateOptions ((tree.rootedNative rootPath contract resolveSymlinks).path ++ [])
      options = .ok () := hvalid
  have hdeadline' : walkerDeadline clockEnd ((tree.rootedNative rootPath contract
      resolveSymlinks).path ++ []) options startedAt = .ok deadline := hdeadline
  unfold RootedWalker.openRooted RootedWalker.openRootedWithOutput
  dsimp only
  rw [hvalid', hdeadline', hmetadata, ← identity_eq hentry]
  rfl

/-- A walker that was just opened has the whole tree to yield. -/
theorem start_remains (namespaceRoot : Path) (deadline : Option Nat)
    (hunlimited : options.maxOpenDirectories = none) (hrecursive : options.recursive = true)
    (hdepth : options.maxDepth = none) (hfailFast : options.errorPolicy = .failFast)
    (currentDirectory : Option Path) :
    tree.Remains ((LocalDirectoryWalker.start namespaceRoot [] options .reject deadline
      (directoryPool options) (RootedWalker.frameOf options ⟨[], []⟩ (tree.identity []) 1)
      (tree.identity [])).bindCurrentDirectory currentDirectory) tree.entries := by
  have hnotZero : options.maxDepth ≠ some 0 := by
    rw [hdepth]
    nofun
  have hentries : tree.entries = tree.unread [] (tree.children []) ++ [] := by
    rw [List.append_nil]
    exact below_eq []
  have hpool : directoryPool options = none := by
    unfold directoryPool
    rw [hunlimited]
    rfl
  unfold LocalDirectoryWalker.start
  rw [if_neg hnotZero, if_neg hnotZero, hpool]
  refine ⟨?_, ⟨?_, ?_, ?_⟩, rfl, rfl, hrecursive, hdepth, hfailFast, rfl⟩
  · rw [hentries]
    exact .cons (frameAt_entered options 1 tree.root) rfl .nil
  · intro frame hframe
    rw [List.mem_singleton.mp hframe]
    rfl
  · exact List.nodup_singleton _
  · intro identity
    show identity ∈ ({tree.identity []} : Finset DirectoryIdentity) ↔
      some identity ∈ [some (tree.identity [])]
    rw [Finset.mem_singleton, List.mem_singleton, Option.some.injEq]

/-- A recursive listing of the root that stops at its first error, opened before its deadline. -/
theorem unlimited_ends {w : RootedWalker} {namespaceRoot : Path}
    (hopen : RootedWalker.openRooted (tree.rootedNative rootPath contract resolveSymlinks) clockEnd
      [] namespaceRoot options .reject startedAt = .ok w)
    (hunlimited : options.maxOpenDirectories = none) (hrecursive : options.recursive = true)
    (hdepth : options.maxDepth = none) (hfailFast : options.errorPolicy = .failFast)
    (hclock : ∀ duration ∈ options.deadline, ∀ k, clock k < startedAt + duration)
    (currentDirectory : Option Path) :
    ∃ items, Ends (counted (tree.turns rootPath contract resolveSymlinks clock))
        (w.bindCurrentDirectory currentDirectory, 0) items ∧
      Lists (Covers tree contract options) tree.entries items := by
  obtain ⟨deadline, metadata, hvalid, hdeadline, -, -⟩ :=
    RootedWalker.openRootedWithOutput_ok hopen
  rw [openRooted_eq rootPath resolveSymlinks namespaceRoot hvalid hdeadline] at hopen
  cases hopen
  have hexpired (k : Nat) : expired ((LocalDirectoryWalker.start namespaceRoot [] options .reject
      deadline (directoryPool options) (RootedWalker.frameOf options ⟨[], []⟩ (tree.identity []) 1)
      (tree.identity [])).bindCurrentDirectory currentDirectory) (clock k) = false := by
    show (deadline.any fun deadline => decide (deadline ≤ clock k)) = false
    rw [walkerDeadline_ok hdeadline]
    cases hduration : options.deadline with
    | none => rfl
    | some duration =>
      have hlt := hclock duration hduration k
      show decide (startedAt + duration ≤ clock k) = false
      exact decide_eq_false (by omega)
  obtain ⟨items, hends, hlists⟩ := remains_ends rootPath resolveSymlinks
    (start_remains namespaceRoot deadline hunlimited hrecursive hdepth hfailFast currentDirectory)
    hexpired 0
  exact ⟨items, hends, hlists.congr (affords_start options).symm⟩

/-- A limit on open directories with the policy `Reopen` makes no difference to the listing. -/
theorem listing_ends {w : RootedWalker} {namespaceRoot : Path}
    (hopen : RootedWalker.openRooted (tree.rootedNative rootPath contract resolveSymlinks) clockEnd
      [] namespaceRoot options .reject startedAt = .ok w)
    (hreopen : options.maxOpenDirectories = none ∨ options.reopenPolicy = .reopen)
    (hrecursive : options.recursive = true) (hdepth : options.maxDepth = none)
    (hfailFast : options.errorPolicy = .failFast)
    (hclock : ∀ duration ∈ options.deadline, ∀ k, clock k < startedAt + duration)
    (currentDirectory : Option Path) :
    ∃ items, Ends (counted (tree.turns rootPath contract resolveSymlinks clock))
        (w.bindCurrentDirectory currentDirectory, 0) items ∧
      Lists (Covers tree contract options) tree.entries items := by
  cases hlimit : options.maxOpenDirectories with
  | none =>
    exact unlimited_ends rootPath resolveSymlinks hopen hlimit hrecursive hdepth hfailFast hclock
      currentDirectory
  | some n =>
    have hpolicy : options.reopenPolicy = .reopen := by
      rcases hreopen with hnone | hpolicy
      · rw [hlimit] at hnone
        cases hnone
      · exact hpolicy
    obtain ⟨v, hopen', ⟨items, hbounded, hends⟩, -⟩ := RootedWalker.open_sameItems rootedNative_over
      hlimit hpolicy hopen currentDirectory clock
    obtain ⟨all, hall, hlists⟩ := unlimited_ends rootPath resolveSymlinks hopen' rfl hrecursive
      hdepth hfailFast hclock currentDirectory
    rw [hall.unique hends] at hlists
    exact ⟨items, hbounded, hlists.congr ⟨fun h => ⟨h.entries, h.names, h.accepts⟩,
      fun h => ⟨h.entries, h.names, h.accepts⟩⟩⟩

end Runs

end EntryTree

end LocalFiles.Walk
