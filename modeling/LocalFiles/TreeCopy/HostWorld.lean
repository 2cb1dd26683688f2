import LocalFiles.TreeCopy.Host
import LocalFiles.Delivery
import LocalFiles.Overlay

/-!
# HostWorld — a file system that a copy has to itself

The source is looked at and does not change; the destination is a tree that the calls change.  Any
call may fail, but no answer is untrue: what is called missing is missing, and what is said to
exist already exists.
-/

namespace LocalFiles.TreeCopy.Host

open Interaction Overlay

/-! ## 1. Nodes -/

inductive FileNode where
  | directory (permissions : Nat)
  | file (content : List UInt8) (permissions : Nat)
  | symlink (target : Path)
  | other
  deriving DecidableEq, Repr

namespace FileNode

def kind : FileNode → EntryKind
  | directory _ => .directory
  | file _ _ => .file
  | symlink _ => .symlink
  | other => .other

def inner (node : FileNode) : Bool := node.kind == .directory

/-- What a look at the node shows. -/
def Shows (node : FileNode) (metadata : CopyMetadata) : Prop :=
  metadata.kind = node.kind ∧
    ∀ permissions, node = directory permissions → metadata.permissions = permissions

theorem Shows.isRealDirectory {node : FileNode} {metadata : CopyMetadata}
    (h : node.Shows metadata) : metadata.isRealDirectory = node.inner :=
  congrArg (· == EntryKind.directory) h.1

theorem eq_directory {node : FileNode} (h : node.kind = .directory) :
    ∃ permissions, node = directory permissions := by
  cases node with
  | directory permissions => exact ⟨permissions, rfl⟩
  | file content permissions => cases h
  | symlink target => cases h
  | other => cases h

end FileNode

/-- Only directories hold others. -/
structure FileTree where
  node : Tree String FileNode
  closed : node.Closed FileNode.inner

theorem FileTree.nothing_below (tree : FileTree) {path : Path} {node : FileNode}
    (h : tree.node path = some node) (hinner : node.inner = false) (name : String)
    (rest : List String) : tree.node (path ++ name :: rest) = none := by
  refine tree.closed path (fun found hfound => ?_) name rest
  rw [h] at hfound
  cases hfound
  exact hinner

/-! ## 2. The world of a copy -/

/-- What does not change: the source with its links and behind them, the process's directory, the
    names that staging files get, and the permissions of what is new. -/
structure Setting where
  base : Path
  look : Tree String FileNode
  follow : Tree String FileNode
  absolute : Path → Path
  reserved : String → Prop
  directoryPermissions : Nat
  filePermissions : Nat
  unreserved : ∀ path name, reserved name → look (path ++ [name]) = none
  direct : ∀ path node, look path = some node → node.kind ≠ .symlink → follow path = some node

structure World (H : Type) where
  tree : FileTree
  readers : H → Option (List String)
  opened : H → Option (List UInt8)

variable {H α : Type}

namespace World

/-- Paths below the source show the source. -/
def nodeAt (w : World H) (E : Setting) (path : Path) : Option FileNode :=
  if E.base <+: path then E.look path else w.tree.node path

/-- Nothing but the tree has changed. -/
structure Becomes (w : World H) (node : Tree String FileNode) (w' : World H) : Prop where
  node : w'.tree.node = node
  readers : w'.readers = w.readers
  opened : w'.opened = w.opened

/-- The handles of files are not counted. -/
structure Leaves (w : World H) (node : Tree String FileNode) (w' : World H) : Prop where
  node : w'.tree.node = node
  readers : w'.readers = w.readers

theorem Becomes.leaves {w w' : World H} {node : Tree String FileNode} (h : w.Becomes node w') :
    w.Leaves node w' := ⟨h.node, h.readers⟩

theorem leaves_self (w : World H) : w.Leaves w.tree.node w := ⟨rfl, rfl⟩

end World

theorem nodeAt_outside {w : World H} {E : Setting} {path : Path} (h : ¬ E.base <+: path) :
    w.nodeAt E path = w.tree.node path := if_neg h

theorem nodeAt_inside {w : World H} {E : Setting} {path : Path} (h : E.base <+: path) :
    w.nodeAt E path = E.look path := if_pos h

/-- What is at the destination where an action is decided on. -/
theorem decideCopyDestination_there {sourceIsDirectory : Bool} {there : Option Bool}
    {conflict : LocalCopyConflictPolicy} {typeConflict : LocalCopyTypeConflictPolicy}
    {action : CopyDestinationAction}
    (h : decideCopyDestination sourceIsDirectory there conflict typeConflict = some action) :
    (action = .create → there = none) ∧
      (action = .merge → sourceIsDirectory = true ∧ there = some true) ∧
      (action = .replace → there = some false ∨ sourceIsDirectory = false ∧ there = some true) := by
  revert h
  rcases there with _ | _ | _ <;> cases sourceIsDirectory <;> cases conflict <;>
    cases typeConflict <;> cases action <;> decide

/-- The policies for a directory that meets what is at the path. -/
def decided (options : LocalCopyDirOptions) (w : World H) (dst : Path) :
    Option CopyDestinationAction :=
  decideCopyDestination true ((w.tree.node dst).map FileNode.inner) options.conflict
    options.typeConflict

section Decided

variable {options : LocalCopyDirOptions} {w : World H} {dst : Path}

theorem decided_create (h : decided options w dst = some .create) : w.tree.node dst = none :=
  Option.map_eq_none_iff.mp ((decideCopyDestination_there h).1 rfl)

theorem decided_merge (h : decided options w dst = some .merge) :
    ∃ permissions, w.tree.node dst = some (.directory permissions) := by
  obtain ⟨there, hthere, hinner⟩ :=
    Option.map_eq_some_iff.mp ((decideCopyDestination_there h).2.1 rfl).2
  obtain ⟨permissions, rfl⟩ := FileNode.eq_directory (of_decide_eq_true hinner)
  exact ⟨permissions, hthere⟩

theorem decided_replace (h : decided options w dst = some .replace) :
    ∃ there, w.tree.node dst = some there ∧ there.inner = false := by
  obtain hthere | ⟨hsource, -⟩ := (decideCopyDestination_there h).2.2 rfl
  · exact Option.map_eq_some_iff.mp hthere
  · cases hsource

end Decided

/-- What an answer says, and what a failure says. -/
def Given (answer : IoResult α) (ok : α → Prop) (failed : IoError → Prop) : Prop :=
  match answer with
  | .ok a => ok a
  | .error error => failed error

/-- The next name of a listing. -/
def Lists (w : World H) [DecidableEq H] (reader : H) (w' : World H) :
    Option (IoResult String) → Prop
  | none => w' = w ∧ w.readers reader = some []
  | some (.ok name) => ∃ rest, w.readers reader = some (name :: rest) ∧
      w' = { w with readers := fun other => if other = reader then some rest else w.readers other }
  | some (.error _) => w' = w

/-- The bytes of a file, or as many as were copied.  The number that is reported stops at the largest
    `u64`. -/
def Copies (w : World H) (source : H) (staged : StagedCopy H) (w' : World H) :
    Except CopyError Nat → Prop
  | .ok copied => ∃ content before permissions, w.opened source = some content ∧
      copied = min content.length u64Max ∧ w.tree.node staged.path = some (.file before permissions) ∧
      w.Becomes (w.tree.node.set staged.path (some (.file content permissions))) w'
  | .error _ => ∀ path, path ≠ staged.path → w'.tree.node path = w.tree.node path

/-- A recursive deletion that fails may have removed a part. -/
def Deletes (w : World H) (path : Path) (w' : World H) : Except LocalFileError Unit → Prop
  | .ok () => w.Becomes (w.tree.node.graft path fun _ => none) w'
  | .error _ => ∀ other, ¬ path <+: other → w'.tree.node other = w.tree.node other

/-- A staging file takes the place of what is at the path. -/
def Moves (w : World H) (staged : StagedCopy H) (path : Path) (w' : World H) : Prop :=
  ∃ node, w.tree.node staged.path = some node ∧
    w.Becomes ((w.tree.node.set staged.path none).set path (some node)) w'

/-- The staging file has taken the place of everything at the destination. -/
structure Installs (w : World H) (staged dst : Path) (node : FileNode) (w' : World H) : Prop where
  there : w'.tree.node dst = some node
  staging : w'.tree.node staged = none
  others : ∀ p, ¬ dst <+: p → p ≠ staged → w'.tree.node p = w.tree.node p
  readers : w'.readers = w.readers

theorem Moves.installs {w : World H} {staged : StagedCopy H} {dst : Path} {node : FileNode}
    (hplace : ¬ dst <+: staged.path)
    (hstaged : w.tree.node staged.path = some node) {w' : World H}
    (h : Moves w staged dst w') :
    Installs w staged.path dst node w' := by
  obtain ⟨moved, hmoved, hbecomes⟩ := h
  rw [hstaged] at hmoved
  cases hmoved
  have hne : staged.path ≠ dst := fun heq => hplace (heq ▸ List.prefix_rfl)
  refine ⟨by rw [hbecomes.node, Tree.set_self], ?_, fun p hp hother => ?_, hbecomes.readers⟩
  · rw [hbecomes.node, Tree.set_of_ne hne, Tree.set_self]
  · rw [hbecomes.node, Tree.set_outside hp, Tree.set_of_ne hother]

variable [DecidableEq H]

def Answers (E : Setting) (w : World H) (c : HostCall H) (answer : c.Result) (w' : World H) :
    Prop :=
  match c, answer with
  | .now, _ => w' = w
  | .symlinkMetadata path, answer => w' = w ∧ Given answer
      (fun metadata => ∃ node ∈ w.nodeAt E path, node.Shows metadata)
      fun error => error.kind = .notFound → w.nodeAt E path = none
  | .metadata path, answer => w' = w ∧ (E.base <+: path → Given answer
      (fun metadata => ∃ node ∈ E.follow path, node.Shows metadata)
      fun error => error.kind = .notFound → E.follow path = none)
  | .canonicalize _, _ => w' = w
  | .absolutePath path, answer => w' = w ∧ Given answer
      (fun absolute => absolute = E.absolute path) fun _ => True
  | .tryExists _, _ => w' = w
  | .readDir path, answer => Given answer
      (fun reader => w.readers reader = none ∧ ∃ names : List String, names.Nodup ∧
        (E.base <+: path → ∀ name, name ∈ names ↔ E.look (path ++ [name]) ≠ none) ∧
        w' = { w with readers := fun other => if other = reader then some names
          else w.readers other })
      fun _ => w' = w
  | .nextEntry reader, answer => Lists w reader w' answer
  | .fileType path, answer => w' = w ∧ (E.base <+: path → Given answer
      (fun kind => ∃ node ∈ E.look path, node.kind = kind) fun _ => True)
  | .createTempFile parent, answer => Given answer
      (fun staged => ∃ name, E.reserved name ∧ staged.path = parent ++ [name] ∧
        w.tree.node staged.path = none ∧
        w.Becomes (w.tree.node.set staged.path (some (.file [] E.filePermissions))) w')
      fun _ => w' = w
  | .openSource path follows _, answer => Given answer
      (fun opened => ∃ content, (E.base <+: path →
          (if follows then E.follow path else E.look path) = some (.file content opened.2)) ∧
        w' = { w with opened := fun other => if other = opened.1 then some content
          else w.opened other })
      fun _ => w' = w
  | .copyContents source staged, answer => Copies w source staged w' answer
  | .setStagedPermissions staged permissions, answer => Given answer
      (fun _ => ∃ content before, w.tree.node staged.path = some (.file content before) ∧
        w.Becomes (w.tree.node.set staged.path (some (.file content permissions))) w')
      fun _ => w' = w
  | .syncStaged _, _ => w' = w
  | .cleanupStaged staged, answer => Given answer
      (fun _ => w.Becomes (w.tree.node.set staged.path none) w') fun _ => w' = w
  | .moveWithoutReplacing staged path, answer => Given answer
      (fun _ => w.tree.node path = none ∧ Moves w staged path w')
      fun error => w' = w ∧ (error.kind = .alreadyExists → w.tree.node path ≠ none)
  | .replaceFile staged path, answer => Given answer
      (fun _ => (∀ there ∈ w.tree.node path, there.inner = false) ∧ Moves w staged path w')
      fun _ => w' = w
  | .removeFile path, answer | .removeDirectorySymlink path, answer => Given answer
      (fun _ => (∃ there ∈ w.tree.node path, there.inner = false) ∧
        w.Becomes (w.tree.node.set path none) w')
      fun _ => w' = w
  | .deleteDirectory path _ _, answer => Deletes w path w' answer
  | .createPrivateDir path, answer => Given answer
      (fun _ => w.tree.node path = none ∧
        w.Becomes (w.tree.node.set path (some (.directory E.directoryPermissions))) w')
      fun error => w' = w ∧ (error.kind = .alreadyExists → w.tree.node path ≠ none)
  | .readLink path, answer => w' = w ∧ (E.base <+: path → Given answer
      (fun target => E.look path = some (.symlink target)) fun _ => True)
  | .createSymlink target path _, answer => Given answer
      (fun _ => w.tree.node path = none ∧
        w.Becomes (w.tree.node.set path (some (.symlink target))) w')
      fun _ => w' = w
  | .setPermissions path permissions, answer => Given answer
      (fun _ => (∃ before, w.tree.node path = some (.directory before)) ∧
        w.Becomes (w.tree.node.set path (some (.directory permissions))) w')
      fun _ => w' = w

/-! ## 3. The bytes of one file -/

section Bytes

variable [QubitBudget] {E : Setting} {w w' : World H} {source : H} {staged : StagedCopy H}
  {content : List UInt8} {permissions : Nat}

/-- What `copy_with_now` reports and leaves is an answer of the world: `copyContents` stands for its
    runs from an opened source to a new staging file.  And where it succeeds, the budget that the
    pipeline goes on with has what the copy has left of it. -/
theorem answers_copyContents {budget : CopyTreeBudget} {bound interrupts refusals : Nat}
    {tr : List (Event (CopyLocals × CopyCall) fun c => c.2.Result)}
    {result : Except (Option (Halt CopyError)) Nat} {after : CopyLocals}
    {streams : Copy.CopyStreams}
    (hopened : w.opened source = some content)
    (hstaged : w.tree.node staged.path = some (.file [] permissions))
    (hbound : content.length + interrupts + refusals < bound)
    (hrun : Copy.Run budget.toCopyBudget bound
      { source := ⟨content, interrupts⟩, sink := ⟨[], refusals⟩ } tr result after streams)
    (hbecomes : w.Becomes
      (w.tree.node.set staged.path (some (.file streams.sink.received permissions))) w') :
    ∃ answer : Except CopyError Nat, result = answer.mapError (fun error => some (.error error)) ∧
      Answers E w (.copyContents source staged) answer w' ∧
      ∀ copied, answer = .ok copied → ∃ left, budget.chargeCopied copied = .ok left ∧
        left.remainingBytes = after.budget.remainingBytes := by
  have hexact := hrun.exact hbound
  match result, hexact with
  | .ok copied, hexact =>
    obtain ⟨hcopied, hreceived, hcharged⟩ := hexact.ok copied rfl
    refine ⟨.ok copied, rfl, ⟨content, [], permissions, hopened, hcopied, hstaged, ?_⟩, ?_⟩
    · rw [← show streams.sink.received = content from hreceived]
      exact hbecomes
    · rintro _ ⟨⟩
      have hfits : ∀ remaining ∈ budget.remainingBytes, copied ≤ remaining := fun remaining h => by
        rw [hcopied]
        exact Nat.le_trans (Nat.min_le_left _ _) (hcharged.covered remaining h)
      obtain ⟨left, hleft, htaken⟩ := Copy.chargeBytes_ok hfits
      refine ⟨{ budget with toCopyBudget := left }, by rw [CopyTreeBudget.chargeCopied, hleft], ?_⟩
      rw [htaken.remaining, hcharged.remaining]
      cases hbytes : budget.remainingBytes with
      | none => rfl
      | some remaining =>
        -- a limit is a `u64`, so what fits it was counted exactly
        obtain ⟨bytes, hsome, rfl⟩ := Option.map_eq_some_iff.mp hbytes
        have hlong := hcharged.covered _ hbytes
        have hrange := budget.inRange bytes hsome
        rw [hcopied, Nat.min_eq_left (Nat.le_trans hlong hrange)]
  | .error (some (.error error)), hexact =>
    refine ⟨.error error, rfl, fun path hne => ?_, nofun⟩
    rw [hbecomes.node, Tree.set_of_ne hne]
  | .error (some (.panic message)), hexact => exact absurd rfl (hexact.noPanic message)
  | .error none, hexact => exact absurd rfl hexact.returns

end Bytes

/-! ## 4. What a copy is for -/

/-- The source as the copy takes it: a link that leads to a directory is gone into where links are
    followed, and every other link is an entry. -/
def Setting.seen (E : Setting) (options : LocalCopyDirOptions) : Tree String FileNode := fun path =>
  match E.look path with
  | some (.symlink target) =>
    match options.symlinkPolicy.follows, E.follow path with
    | true, some (.directory permissions) => some (.directory permissions)
    | _, _ => some (.symlink target)
  | node => node

/-- The permissions of a directory that is there or made. -/
def Setting.enteredPermissions (E : Setting) : Option FileNode → Nat
  | some (.directory permissions) => permissions
  | _ => E.directoryPermissions

/-- What a source leaves at its destination; special files are not copied. -/
def Setting.laid (E : Setting) (options : LocalCopyDirOptions) (there : Option FileNode) :
    FileNode → Option FileNode
  | .directory permissions => some (.directory
      (if options.preservePermissions then permissions else E.enteredPermissions there))
  | .file content permissions => some (.file content
      (if options.preservePermissions then permissions else E.filePermissions))
  | .symlink target => some (.symlink target)
  | .other => none

/-- Where the destination lies; an empty one stays empty. -/
def Setting.destination (E : Setting) (dst : Path) : Path :=
  if dst = [] then dst else E.absolute dst

/-- What an action makes of a source and what is there. -/
def Setting.carryOut (E : Setting) (options : LocalCopyDirOptions) (node : FileNode)
    (there : Option FileNode) : Option CopyDestinationAction → Option (Option FileNode)
  | none => none
  | some .skip => some none
  | some _ => (E.laid options there node).map some

/-- The policies as a rule for one node that meets another. -/
def Setting.rule (E : Setting) (options : LocalCopyDirOptions) (clash : Option FileNode) :
    Rule FileNode where
  inner := FileNode.inner
  clash := clash
  lay node there := E.carryOut options node there (decideCopyDestination node.inner
    (there.map FileNode.inner) options.conflict options.typeConflict)

section Rule

variable {E : Setting} {options : LocalCopyDirOptions} {node : FileNode} {there : Option FileNode}
  {action : CopyDestinationAction} {src : Path}

theorem lay_of_action (E : Setting) (node : FileNode) (clash : Option FileNode)
    (h : decideCopyDestination node.inner (there.map FileNode.inner) options.conflict
      options.typeConflict = some action) :
    (E.rule options clash).lay node there = if action = .skip then some none
      else (E.laid options there node).map some := by
  show E.carryOut options node there _ = _
  rw [h]
  cases action <;> rfl

/-- An entry that is no link is seen as it is. -/
theorem Setting.seen_direct (h : E.look src = some node) (hkind : node.kind ≠ .symlink) :
    E.seen options src = some node := by
  unfold Setting.seen
  rw [h]
  cases node with
  | directory permissions => rfl
  | file content permissions => rfl
  | symlink target => exact absurd rfl hkind
  | other => rfl

theorem Setting.seen_link {target : Path} (h : E.look src = some (.symlink target))
    (hstays : options.symlinkPolicy.follows = true →
      ∀ permissions, E.follow src ≠ some (.directory permissions)) :
    E.seen options src = some (.symlink target) := by
  unfold Setting.seen
  rw [h]
  dsimp only
  split
  next permissions hfollows hbehind => exact absurd hbehind (hstays hfollows permissions)
  · rfl

theorem Setting.seen_ne_none : E.seen options src ≠ none ↔ E.look src ≠ none := by
  unfold Setting.seen
  split
  next target h =>
    rw [h]
    split <;> simp
  · exact Iff.rfl

end Rule

end LocalFiles.TreeCopy.Host
