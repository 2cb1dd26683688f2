import Mathlib.Order.Lattice.Nat
import LocalFiles.Walk.HandleLimit
import LocalFiles.Walk.Resolution

/-!
# Tree — a file tree without links, and what native calls answer over it

A tree is given by its entries and the order in which each directory lists them.  The Host
walker sees it below a mount point, the Rooted walker below an opened root.
-/

namespace LocalFiles.Walk

/-- A finite tree without links, on a platform that counts its names by `measure`.  Paths are
    relative to its root; directories with a native identity have one each. -/
structure FileTree where
  measure : NameMeasure
  entry : Path → Option Metadata
  children : Path → List String
  paths : Finset Path
  mem_paths : ∀ path, (entry path).isSome → path ∈ paths
  nodup : ∀ path, (children path).Nodup
  listed : ∀ path name, name ∈ children path ↔ (entry (path ++ [name])).isSome
  parent : ∀ path name, (entry (path ++ [name])).isSome →
    ∃ metadata, entry path = some metadata ∧ metadata.kind = .directory
  normal : ∀ path, (entry path).isSome → path.all isNormalComponent
  linkFree : ∀ path metadata, entry path = some metadata → metadata.kind ≠ .symlink
  distinct : ∀ path path' metadata metadata' identity, entry path = some metadata →
    entry path' = some metadata' → metadata.kind = .directory → metadata'.kind = .directory →
    metadata.identity = some identity → metadata'.identity = some identity → path = path'

namespace FileTree

variable (tree : FileTree)

def IsDirectory (path : Path) : Prop :=
  ∃ metadata, tree.entry path = some metadata ∧ metadata.kind = .directory

/-! ## 1. Native calls -/

def missing : IoError := ⟨.notFound, "No such file or directory", some 2⟩

def notDirectory : IoError := ⟨.notADirectory, "Not a directory", some 20⟩

def find (path : Path) : IoResult Metadata :=
  match tree.entry path with
  | some metadata => .ok metadata
  | none => .error missing

def list (path : Path) : IoResult Listing :=
  match tree.entry path with
  | some metadata =>
    if metadata.kind = .directory then .ok ⟨tree.children path, none⟩ else .error notDirectory
  | none => .error missing

/-- The identity of a directory; one without a native identity has its path, below `base`. -/
def identity (base path : Path) : DirectoryIdentity :=
  match (tree.entry path).bind (·.identity) with
  | some identity => .native identity
  | none => .canonical (base ++ path)

/-- The path below the mount point. -/
def below (mount path : Path) : Option Path :=
  if path.take mount.length = mount then some (path.drop mount.length) else none

@[simp] theorem below_append (mount path : Path) : below mount (mount ++ path) = some path := by
  unfold below
  rw [List.take_left, if_pos rfl, List.drop_left]

/-- What `call` answers below the mount point; nothing is known beside it. -/
def mounted {α : Type} (mount : Path) (call : Path → IoResult α) (path : Path) : IoResult α :=
  match below mount path with
  | some path => call path
  | none => .error missing

@[simp] theorem mounted_append {α : Type} (mount path : Path) (call : Path → IoResult α) :
    mounted mount call (mount ++ path) = call path := by
  unfold mounted
  rw [below_append]

def hostNative (mount : Path) : HostNative where
  now := 0
  symlinkMetadata := mounted mount tree.find
  metadata := mounted mount tree.find
  readDir := mounted mount tree.list
  directoryIdentity _ :=
    mounted mount fun path => (tree.find path).map fun _ => tree.identity mount path
  measure := tree.measure

def resolutionNative
    (resolveSymlinks : Path → LocalSymlinkPolicy → Bool → Except LocalFileError Path) :
    ResolutionNative where
  componentMetadata cursor name := tree.find (cursor ++ [name])
  descend cursor name := (tree.list (cursor ++ [name])).map fun _ => ()
  resolveSymlinks := resolveSymlinks
  measure := tree.measure

def rootedNative (rootPath : Path) (contract : ResolutionContract)
    (symlinkPolicy : LocalSymlinkPolicy)
    (resolveSymlinks : Path → LocalSymlinkPolicy → Bool → Except LocalFileError Path) :
    RootedNative where
  now := 0
  path := rootPath
  openDirReader := tree.list
  openedMetadata := tree.find
  entryMetadata := tree.find
  symlinkMetadata := tree.find
  resolve := resolveRootedPath (tree.resolutionNative resolveSymlinks) contract symlinkPolicy
  measure := tree.measure

variable {tree}

theorem find_eq {path : Path} {metadata : Metadata} (h : tree.entry path = some metadata) :
    tree.find path = .ok metadata := by
  unfold find
  rw [h]

theorem entry_of_find {path : Path} {metadata : Metadata} (h : tree.find path = .ok metadata) :
    tree.entry path = some metadata := by
  unfold find at h
  split at h
  next heq => rw [heq, Except.ok.inj h]
  next => cases h

theorem list_eq {path : Path} (h : tree.IsDirectory path) :
    tree.list path = .ok ⟨tree.children path, none⟩ := by
  obtain ⟨metadata, hentry, hkind⟩ := h
  unfold list
  rw [hentry]
  exact if_pos hkind

theorem directory_of_list {path : Path} {listing : Listing} (h : tree.list path = .ok listing) :
    tree.IsDirectory path ∧ listing = ⟨tree.children path, none⟩ := by
  unfold list at h
  split at h
  next metadata hentry =>
    split at h
    next hkind => exact ⟨⟨metadata, hentry, hkind⟩, (Except.ok.inj h).symm⟩
    next => cases h
  next => cases h

theorem identity_eq {path : Path} {metadata : Metadata} (base : Path)
    (h : tree.entry path = some metadata) :
    .fromRootedMetadata metadata (base ++ path) = tree.identity base path := by
  unfold identity DirectoryIdentity.fromRootedMetadata
  rw [h]
  rfl

/-- Two directories of the tree have different identities. -/
theorem identity_injective {base path path' : Path} (h : tree.IsDirectory path)
    (h' : tree.IsDirectory path') (heq : tree.identity base path = tree.identity base path') :
    path = path' := by
  obtain ⟨metadata, hentry, hkind⟩ := h
  obtain ⟨metadata', hentry', hkind'⟩ := h'
  unfold identity at heq
  rw [hentry, hentry'] at heq
  dsimp only [Option.bind] at heq
  cases hid : metadata.identity with
  | some identity =>
    cases hid' : metadata'.identity with
    | some identity' =>
      rw [hid, hid'] at heq
      obtain rfl := DirectoryIdentity.native.inj heq
      exact tree.distinct _ _ _ _ _ hentry hentry' hkind hkind' hid hid'
    | none =>
      rw [hid, hid'] at heq
      cases heq
  | none =>
    cases hid' : metadata'.identity with
    | some identity' =>
      rw [hid, hid'] at heq
      cases heq
    | none =>
      rw [hid, hid'] at heq
      exact List.append_cancel_left (DirectoryIdentity.canonical.inj heq)

/-! ## 2. The tree is a finite graph -/

variable (tree) in
def graph (base : Path) : DirectoryGraph where
  directories := tree.paths.image (tree.identity base)
  names _ := tree.paths.biUnion fun path => (tree.children path).toFinset

theorem identity_mem {base path : Path} (h : (tree.entry path).isSome) :
    tree.identity base path ∈ (tree.graph base).directories :=
  Finset.mem_image_of_mem _ (tree.mem_paths path h)

theorem list_lists {path : Path} {listing : Listing} (base : Path)
    (h : tree.list path = .ok listing) : (tree.graph base).Lists listing := by
  obtain ⟨⟨metadata, hentry, -⟩, rfl⟩ := directory_of_list h
  have hsome : (tree.entry path).isSome := by rw [hentry]; rfl
  refine ⟨tree.identity base path, identity_mem hsome, tree.nodup path, ?_⟩
  intro name hname
  exact Finset.mem_biUnion.mpr ⟨path, tree.mem_paths path hsome, List.mem_toFinset.mpr hname⟩

theorem of_mounted {α : Type} {mount path : Path} {call : Path → IoResult α} {value : α}
    (h : mounted mount call path = .ok value) : ∃ inner, call inner = .ok value := by
  unfold mounted at h
  split at h
  next inner _ => exact ⟨inner, h⟩
  next => cases h

theorem hostNative_over (mount : Path) : (tree.hostNative mount).Over (tree.graph mount) where
  readDir path listing h := by
    obtain ⟨inner, hinner⟩ := of_mounted h
    exact list_lists mount hinner
  identity metadata path identity h := by
    obtain ⟨inner, hinner⟩ := of_mounted h
    cases hfind : tree.find inner with
    | error error => rw [hfind] at hinner; cases hinner
    | ok found =>
      rw [hfind] at hinner
      cases hinner
      exact identity_mem (by rw [entry_of_find hfind]; rfl)

theorem hostNative_static (mount : Path) : (tree.hostNative mount).Static :=
  ⟨fun _ _ h _ => h⟩

variable {rootPath : Path} {contract : ResolutionContract} {symlinkPolicy : LocalSymlinkPolicy}
  {resolveSymlinks : Path → LocalSymlinkPolicy → Bool → Except LocalFileError Path}

theorem rootedNative_over :
    (tree.rootedNative rootPath contract symlinkPolicy resolveSymlinks).Over (tree.graph []) := by
  have hknown (path : Path) (metadata : Metadata) (h : tree.find path = .ok metadata) :
      .fromRootedMetadata metadata path ∈ (tree.graph []).directories := by
    have hentry := entry_of_find h
    rw [show DirectoryIdentity.fromRootedMetadata metadata path = tree.identity [] path from
      identity_eq [] hentry]
    exact identity_mem (by rw [hentry]; rfl)
  exact ⟨fun _ _ h => list_lists [] h, fun path metadata h _ => hknown path metadata h,
    fun path metadata h _ => hknown path metadata h⟩

/-! ## 3. Resolution over the tree -/

/-- What a path of the tree leads over are directories. -/
theorem directory_before {before after : Path} {name : String} (hafter : after ≠ [])
    (h : (tree.entry (before ++ name :: after)).isSome) : tree.IsDirectory (before ++ [name]) := by
  induction after using List.reverseRecOn with
  | nil => exact absurd rfl hafter
  | append_singleton init last ih =>
    have hparent : tree.IsDirectory (before ++ name :: init) := by
      apply tree.parent _ last
      rw [List.append_assoc, List.cons_append]
      exact h
    cases init with
    | nil => exact hparent
    | cons head tail =>
      obtain ⟨metadata, hentry, -⟩ := hparent
      exact ih (List.cons_ne_nil _ _) (by rw [hentry]; rfl)

/-- The paths of the tree that the contract accepts are resolved to themselves. -/
theorem resolve_eq {path : Path} (h : (tree.entry path).isSome)
    (hpolicy : symlinkPolicy ≠ .followAcrossScope) (haccepts : contract.Accepts tree.measure path) :
    resolveRootedPath (tree.resolutionNative resolveSymlinks) contract symlinkPolicy path false =
      .ok path := by
  apply resolveRootedPath_ok hpolicy (tree.normal path h) haccepts
  intro before name after heq hafter
  have hdirectory : tree.IsDirectory (before ++ [name]) :=
    directory_before hafter (by rw [← heq]; exact h)
  have hlist := list_eq hdirectory
  obtain ⟨metadata, hentry, hkind⟩ := hdirectory
  refine ⟨metadata, find_eq hentry, hkind, ?_⟩
  show (tree.list (before ++ [name])).map _ = _
  rw [hlist]
  rfl

end FileTree

end LocalFiles.Walk
