import LocalFiles.Directory
import LocalFiles.Private.Native

/-!
# Private.World — directories that nobody else changes

The names in every directory, and what the calls do to them: a call that fails does nothing, and a
new entry is a file that was nowhere before.  `Owned` says which entries stand beside those that
were there at first, and `Holds` that the entries of an owner are these.
-/

namespace LocalFiles.Private

open Interaction

variable {I : Type} [DecidableEq I]

/-! ## 1. Names -/

abbrev Entries (I : Type) := I → Directory String I

namespace Entries

variable (entries : Entries I)

def bindIn (parent : I) (name : String) (file : I) : Entries I :=
  Function.update entries parent ((entries parent).bind name file)

def unbindIn (parent : I) (name : String) : Entries I :=
  Function.update entries parent ((entries parent).unbind name)

/-- The file that a path from the root leads to. -/
def locate (root : I) (path : Path) : Option I :=
  path.foldlM (fun directory name => entries directory name) root

variable {entries} {parent : I} {name : String} {file : I}

theorem bindIn_self : entries.bindIn parent name file parent name = some file := by
  unfold bindIn
  rw [Function.update_self, Directory.bind_self]

theorem bindIn_of_ne {directory : I} {other : String} (h : directory ≠ parent ∨ other ≠ name) :
    entries.bindIn parent name file directory other = entries directory other := by
  unfold bindIn
  by_cases hparent : directory = parent
  · subst hparent
    rw [Function.update_self, Directory.bind_of_ne (h.resolve_left (not_not.mpr rfl))]
  · rw [Function.update_of_ne hparent]

theorem unbindIn_of_ne {other : String} (h : other ≠ name) :
    entries.unbindIn parent name parent other = entries parent other := by
  unfold unbindIn
  rw [Function.update_self, Directory.unbind_of_ne h]

theorem unbindIn_bindIn (h : entries parent name = none) :
    (entries.bindIn parent name file).unbindIn parent name = entries := by
  unfold bindIn unbindIn Directory.bind Directory.unbind
  rw [Function.update_idem, Function.update_self, Function.update_idem, ← h,
    Function.update_eq_self, Function.update_eq_self]

end Entries

/-- A file that no name leads to, and that has no names in it. -/
structure Fresh (root : I) (entries : Entries I) (file : I) : Prop where
  ne_root : file ≠ root
  unnamed : ∀ directory name, entries directory name ≠ some file
  empty : ∀ name, entries file name = none

omit [DecidableEq I] in
theorem Entries.locate_concat (entries : Entries I) (root : I) (path : Path) (name : String) :
    entries.locate root (path ++ [name]) =
      (entries.locate root path).bind fun directory => entries directory name := by
  unfold Entries.locate
  rw [List.foldlM_append]
  cases path.foldlM (fun directory name => entries directory name) root with
  | none => rfl
  | some directory =>
    show (entries directory name).bind some = entries directory name
    cases entries directory name <;> rfl

omit [DecidableEq I] in
/-- A path still leads where it led when names are only added. -/
theorem Entries.locate_mono {entries entries' : Entries I} {root directory : I} {path : Path}
    (hadded : ∀ parent name file, entries parent name = some file →
      entries' parent name = some file)
    (h : entries.locate root path = some directory) :
    entries'.locate root path = some directory := by
  induction path generalizing root with
  | nil => exact h
  | cons name path ih =>
    have hstep (e : Entries I) : e.locate root (name :: path) =
        (e root name).bind fun next => e.locate next path := rfl
    rw [hstep] at h ⊢
    cases hname : entries root name with
    | none =>
      rw [hname] at h
      cases h
    | some next =>
      rw [hname] at h
      rw [hadded root name next hname]
      exact ih h

/-! ## 2. The calls -/

structure EntryWorld (I : Type) where
  entries : Entries I
  kind : I → EntryKind

variable (root : I)

/-- The file `file` appears under a free name; the system takes no name with a NUL in it. -/
def EntryWorld.Creates (w : EntryWorld I) (parent : I) (name : String) (file : I)
    (kind : EntryKind) (w' : EntryWorld I) : Prop :=
  name.toList.contains (Char.ofNat 0) = false ∧ w.entries parent name = none ∧
    Fresh root w.entries file ∧ w' = ⟨w.entries.bindIn parent name file, Function.update w.kind file kind⟩

/-- A directory is removed when it is empty. -/
def EntryWorld.Removes (w : EntryWorld I) (parent : I) (name : String) (directory : Bool)
    (w' : EntryWorld I) : Prop :=
  ∃ file, w.entries parent name = some file ∧ (directory = true ↔ w.kind file = .directory) ∧
    (directory = true → ∀ other, w.entries file other = none) ∧
    w' = { w with entries := w.entries.unbindIn parent name }

def Effect : EntryWorld I → (c : EntryCall I) → c.Result → EntryWorld I → Prop
  | w, .clone _, _, w' => w' = w
  | w, .metadata _, .error _, w' => w' = w
  | w, .metadata file, .ok metadata, w' =>
    w' = w ∧ metadata.identity = file ∧ metadata.kind = w.kind file
  | w, .fileStat _, .error _, w' => w' = w
  | w, .fileStat file, .ok stat, w' => w' = w ∧ stat.identity = file ∧ stat.kind = w.kind file
  | w, .nameStat _ _, .error _, w' => w' = w
  | w, .nameStat parent name, .ok stat, w' =>
    w' = w ∧ w.entries parent name = some stat.identity ∧ stat.kind = w.kind stat.identity
  | w, .createFile _ _ _, .error _, w' => w' = w
  | w, .createFile parent name _, .ok file, w' => w.Creates root parent name file .file w'
  | w, .makeDirectory _ _ _, .error _, w' => w' = w
  | w, .makeDirectory parent name _, .ok (), w' =>
    ∃ file, w.Creates root parent name file .directory w'
  | w, .openDirectory _ _, .error _, w' => w' = w
  | w, .openDirectory parent name, .ok file, w' =>
    w' = w ∧ w.entries parent name = some file ∧ w.kind file = .directory
  | w, .changeMode _ _, _, w' => w' = w
  | w, .hasAcl _ _, _, w' => w' = w
  | w, .unlink _ _ _, .error _, w' => w' = w
  | w, .unlink parent name directory, .ok (), w' => w.Removes parent name directory w'
  | w, .prepareParent, _, w' => w' = w
  | w, .openPath _, .error _, w' => w' = w
  | w, .openPath path, .ok file, w' => w' = w ∧ w.entries.locate root path = some file
  | w, .createFilePath _ _, .error _, w' => w' = w
  | w, .createFilePath path _, .ok file, w' => ∃ above name parent, path = above ++ [name] ∧
      w.entries.locate root above = some parent ∧ w.Creates root parent name file .file w'
  | w, .makeDirectoryPath _ _, .error _, w' => w' = w
  | w, .makeDirectoryPath path _, .ok (), w' => ∃ above name parent file, path = above ++ [name] ∧
      w.entries.locate root above = some parent ∧ w.Creates root parent name file .directory w'
  | w, .pathMetadata _, .error _, w' => w' = w
  | w, .pathMetadata path, .ok metadata, w' =>
    w' = w ∧ w.entries.locate root path = some metadata.identity
  | w, .randomName, _, w' => w' = w

/-! ## 3. What stands beside the first entries -/

/-- An entry that was created. -/
structure Placed (I : Type) where
  parent : I
  name : String
  file : I
  directory : Bool
  deriving DecidableEq, Repr

/-- Where the next entry is created: in the last one, or in the root. -/
def place (entries : List (Placed I)) : I := (entries.head?.map Placed.file).getD root

/-- The entries `placed` were added to the names `base`, each inside the one behind it. -/
inductive Stands (base : Entries I) : Entries I → List (Placed I) → Prop
  | nil : Stands base base []
  | cons {entries : Entries I} {placed : List (Placed I)} (added : Placed I)
      (rest : Stands base entries placed) (parent : added.parent = place root placed)
      (free : entries added.parent added.name = none) (fresh : Fresh root entries added.file) :
      Stands base (entries.bindIn added.parent added.name added.file) (added :: placed)

/-- The path of the last entry. -/
def pathOf (entries : List (Placed I)) : Path := (entries.map Placed.name).reverse

omit [DecidableEq I] in
theorem pathOf_cons (added : Placed I) (entries : List (Placed I)) :
    pathOf (added :: entries) = pathOf entries ++ [added.name] := List.reverse_cons

variable {root} {base entries : Entries I} {placed : List (Placed I)} {added : Placed I}

namespace Stands

/-- The path of the last entry leads to it. -/
theorem locate (h : Stands root base entries placed) :
    entries.locate root (pathOf placed) = some (place root placed) := by
  induction h with
  | nil => rfl
  | @cons entries placed added rest parent free fresh ih =>
    have hadded (directory : I) (name : String) (file : I)
        (hfile : entries directory name = some file) :
        entries.bindIn added.parent added.name added.file directory name = some file := by
      rw [Entries.bindIn_of_ne, hfile]
      by_contra hsame
      obtain ⟨rfl, rfl⟩ := not_or.mp hsame |>.imp not_not.mp not_not.mp
      rw [free] at hfile
      cases hfile
    rw [pathOf_cons, Entries.locate_concat, Entries.locate_mono hadded ih, ← parent]
    exact Entries.bindIn_self

theorem bound (h : Stands root base entries placed) :
    ∀ p ∈ placed, entries p.parent p.name = some p.file := by
  induction h with
  | nil => exact fun p hp => absurd hp List.not_mem_nil
  | @cons entries placed added rest parent free fresh ih =>
    intro p hp
    by_cases hsame : p.parent = added.parent ∧ p.name = added.name
    · obtain hp | hp := List.mem_cons.mp hp
      · rw [hp, Entries.bindIn_self]
      · have hbound := ih p hp
        rw [hsame.1, hsame.2, free] at hbound
        cases hbound
    · obtain hp | hp := List.mem_cons.mp hp
      · exact absurd ⟨congrArg Placed.parent hp, congrArg Placed.name hp⟩ hsame
      · rw [Entries.bindIn_of_ne (not_and_or.mp hsame), ih p hp]

/-- Nothing is lost of what was there at first. -/
theorem keeps (h : Stands root base entries placed) {parent file : I} {name : String}
    (hbase : base parent name = some file) : entries parent name = some file := by
  induction h with
  | nil => exact hbase
  | @cons entries placed added rest _ free fresh ih =>
    by_cases hsame : parent = added.parent ∧ name = added.name
    · rw [hsame.1, hsame.2, free] at ih
      cases ih
    · rw [Entries.bindIn_of_ne (not_and_or.mp hsame), ih]

/-- An entry was there at first or was created. -/
theorem accounts (h : Stands root base entries placed) {parent file : I} {name : String}
    (hentry : entries parent name = some file) :
    base parent name = some file ∨ ⟨parent, name⟩ ∈ placed.map fun p => (p.parent, p.name) := by
  induction h with
  | nil => exact .inl hentry
  | @cons entries placed added rest _ free fresh ih =>
    by_cases hsame : parent = added.parent ∧ name = added.name
    · rw [hsame.1, hsame.2]
      exact .inr List.mem_cons_self
    · rw [Entries.bindIn_of_ne (not_and_or.mp hsame)] at hentry
      exact (ih hentry).imp_right (List.mem_cons_of_mem _)

/-- The names of the entries were free. -/
theorem created (h : Stands root base entries placed) :
    ∀ p ∈ placed, base p.parent p.name = none := by
  induction h with
  | nil => exact fun p hp => absurd hp List.not_mem_nil
  | @cons entries placed added rest _ free _ ih =>
    intro p hp
    obtain hp | hp := List.mem_cons.mp hp
    · subst hp
      cases hbase : base p.parent p.name with
      | none => rfl
      | some file =>
        rw [rest.keeps hbase] at free
        cases free
    · exact ih p hp

theorem eq_base (h : Stands root base entries []) : entries = base := by
  cases h
  rfl

theorem parent_eq (h : Stands root base entries (added :: placed)) :
    added.parent = place root placed := by
  cases h with
  | cons added rest parent free fresh => exact parent

/-- The last entry is empty. -/
theorem empty (h : Stands root base entries (added :: placed)) (name : String) :
    entries added.file name = none := by
  cases h with
  | @cons entries _ added rest parent free fresh =>
    have hne : added.file ≠ added.parent := by
      rw [parent]
      unfold place
      cases placed with
      | nil => exact fresh.ne_root
      | cons above placed =>
        intro heq
        exact fresh.unnamed _ _ ((rest.bound above List.mem_cons_self).trans
          (congrArg some heq.symm))
    rw [Entries.bindIn_of_ne (.inl hne), fresh.empty]

/-- The last entry can be taken away again. -/
theorem remove (h : Stands root base entries (added :: placed)) :
    Stands root base (entries.unbindIn added.parent added.name) placed := by
  cases h with
  | cons added rest parent free fresh =>
    rw [Entries.unbindIn_bindIn free]
    exact rest

/-- No entry stands inside one in front of it. -/
theorem ordered (h : Stands root base entries placed) :
    placed.Pairwise fun inner outer => outer.parent ≠ inner.file := by
  induction h with
  | nil => exact .nil
  | @cons entries placed added rest _ _ fresh ih =>
    refine .cons (fun outer houter heq => ?_) ih
    have hbound := rest.bound outer houter
    rw [heq, fresh.empty] at hbound
    cases hbound

end Stands

/-- The entries `placed` stand beside the first ones, and are what they were created as. -/
structure Owned (root : I) (base : Entries I) (w : EntryWorld I) (placed : List (Placed I)) :
    Prop where
  stands : Stands root base w.entries placed
  kinds : ∀ p ∈ placed, w.kind p.file = if p.directory then .directory else .file
  names : ∀ p ∈ placed, p.name.toList.contains (Char.ofNat 0) = false

theorem Owned.start (w : EntryWorld I) : Owned root w.entries w [] :=
  ⟨.nil, fun _ hp => absurd hp List.not_mem_nil, fun _ hp => absurd hp List.not_mem_nil⟩

variable {w w' : EntryWorld I}

theorem Owned.creates {name : String} {file : I} {directory : Bool}
    (h : Owned root base w placed)
    (hcreates : w.Creates root (place root placed) name file
      (if directory then .directory else .file) w') :
    Owned root base w' (⟨place root placed, name, file, directory⟩ :: placed) := by
  obtain ⟨hname, hfree, hfresh, rfl⟩ := hcreates
  refine ⟨.cons ⟨_, name, file, directory⟩ h.stands rfl hfree hfresh, fun p hp => ?_, fun p hp => ?_⟩
  · dsimp only
    obtain hp | hp := List.mem_cons.mp hp
    · rw [hp, Function.update_self]
    · have hne : p.file ≠ file := by
        intro heq
        exact hfresh.unnamed _ _ (heq ▸ h.stands.bound p hp)
      rw [Function.update_of_ne hne, h.kinds p hp]
  · obtain hp | hp := List.mem_cons.mp hp
    · rw [hp]
      exact hname
    · exact h.names p hp

theorem Owned.removes (h : Owned root base w (added :: placed))
    (hremoves : w.Removes added.parent added.name added.directory w') :
    Owned root base w' placed := by
  obtain ⟨file, -, -, -, rfl⟩ := hremoves
  exact ⟨h.stands.remove, fun p hp => h.kinds p (List.mem_cons_of_mem _ hp),
    fun p hp => h.names p (List.mem_cons_of_mem _ hp)⟩

/-- An entry of an owner is the one that was placed: what it knows of the file is true. -/
structure Keeps (entry : NativePrivateEntry I) (p : Placed I) : Prop where
  parent : entry.parent = p.parent
  name : entry.name = p.name
  directory : entry.directory = p.directory
  file : ∀ file ∈ entry.file, file = p.file
  identity : ∀ identity ∈ entry.identity, entry.file = some identity

def Holds (entries : List (NativePrivateEntry I)) (placed : List (Placed I)) : Prop :=
  List.Forall₂ Keeps entries placed

end LocalFiles.Private
