import LocalFiles.TreeCopy.HostEntries
import Mathlib.Data.List.Forall2

/-!
# HostMerge — a copy lays the source over the destination

A copy that has the file system to itself and succeeds leaves at its destination what the rule of
its policies makes of the two trees, whichever of its calls have failed, and nothing else has
changed.  The frames of the traversal are the open places of `Overlay`.
-/

namespace LocalFiles.TreeCopy.Host

open Interaction Walk Overlay

variable {H : Type} {E : Setting} {w : World H} {options : LocalCopyDirOptions}
  {clash : Option FileNode} {destination : Path}

/-! ## 1. The stack -/

/-- The permissions of a directory are set when it is closed. -/
def CopyDirFrame.closing (options : LocalCopyDirOptions) (frame : CopyDirFrame H) :
    Option FileNode :=
  if options.preservePermissions then some (.directory frame.sourcePermissions) else none

/-- A frame stands for an open place. -/
structure Matches (E : Setting) (options : LocalCopyDirOptions) (destination : Path)
    (readers : H → Option (List String)) (frame : CopyDirFrame H)
    (place : Open String FileNode) : Prop where
  src : place.src = frame.src
  dst : place.dst = frame.dst
  closing : place.closing = frame.closing options
  names : readers frame.entries = some place.names
  listed : ∀ name ∈ place.names, E.look (frame.src ++ [name]) ≠ none
  inside : E.base <+: frame.src
  within : destination <+: frame.dst

/-- What is left to do on the stack leads to the goal. -/
def Stands (E : Setting) (options : LocalCopyDirOptions) (clash : Option FileNode)
    (destination : Path) (goal : Tree String FileNode) (frames : List (CopyDirFrame H))
    (readers : H → Option (List String)) (T : Tree String FileNode) : Prop :=
  ∃ places, List.Forall₂ (Matches E options destination readers) frames places ∧
    (frames.map CopyDirFrame.entries).Nodup ∧
    (E.rule options clash).complete (E.seen options) places T = goal

section Steps

variable {goal T : Tree String FileNode} {frame : CopyDirFrame H} {frames : List (CopyDirFrame H)}
  {readers readers' : H → Option (List String)} {places : List (Open String FileNode)}

theorem matches_kept (h : List.Forall₂ (Matches E options destination readers) frames places)
    (hkept : ∀ frame ∈ frames, readers' frame.entries = readers frame.entries) :
    List.Forall₂ (Matches E options destination readers') frames places := by
  induction h with
  | nil => exact .nil
  | cons hfirst _ ih =>
    refine .cons { hfirst with names := ?_ } (ih fun frame hmem => hkept frame (.tail _ hmem))
    exact (hkept _ (.head _)).trans hfirst.names

/-- The readers of the stack are in use. -/
theorem matches_open (h : List.Forall₂ (Matches E options destination readers) frames places)
    {reader : H} (hfresh : readers reader = none) : reader ∉ frames.map CopyDirFrame.entries := by
  induction h with
  | nil => exact List.not_mem_nil
  | cons hfirst _ ih =>
    rw [List.map_cons, List.mem_cons, not_or]
    refine ⟨fun heq => ?_, ih⟩
    rw [heq, hfirst.names] at hfresh
    cases hfresh

theorem Stands.reached
    (h : Stands E options clash destination goal ([] : List (CopyDirFrame H)) readers T) :
    T = goal := by
  obtain ⟨places, hplaces, -, hgoal⟩ := h
  cases hplaces
  exact hgoal

theorem World.Leaves.stands {w w' : World H} (hleaves : w.Leaves T w')
    (h : Stands E options clash destination goal frames w.readers T) :
    Stands E options clash destination goal frames w'.readers w'.tree.node := by
  rw [hleaves.node, hleaves.readers]
  exact h

/-- What is known of the frame on top. -/
theorem Stands.top {names : List String}
    (h : Stands E options clash destination goal (frame :: frames) readers T)
    (hnames : readers frame.entries = some names) :
    (∀ name ∈ names, E.look (frame.src ++ [name]) ≠ none) ∧ E.base <+: frame.src ∧
      destination <+: frame.dst := by
  obtain ⟨places, hplaces, -, -⟩ := h
  cases hplaces with
  | cons hfirst hrest =>
    obtain rfl := Option.some_inj.mp (hfirst.names.symm.trans hnames)
    exact ⟨hfirst.listed, hfirst.inside, hfirst.within⟩

/-- A frame without names is closed. -/
theorem Stands.finish (h : Stands E options clash destination goal (frame :: frames) readers T)
    (hnames : readers frame.entries = some []) :
    Stands E options clash destination goal frames readers
      (Rule.closed frame.dst (frame.closing options) T) := by
  obtain ⟨places, hplaces, hnodup, hgoal⟩ := h
  cases hplaces with
  | @cons _ place _ places hfirst hrest =>
    obtain ⟨src, dst, names, closing⟩ := place
    obtain ⟨rfl, rfl, rfl, hopen, -, -, -⟩ := hfirst
    obtain rfl : names = [] := Option.some_inj.mp (hopen.symm.trans hnames)
    exact ⟨places, hrest, (List.nodup_cons.mp hnodup).2, hgoal⟩

variable [DecidableEq H]

/-- The next name of the frame on top is visited. -/
theorem Stands.visit {name : String} {rest : List String}
    (h : Stands E options clash destination goal (frame :: frames) readers T)
    (hnames : readers frame.entries = some (name :: rest)) :
    Stands E options clash destination goal (frame :: frames)
      (fun other => if other = frame.entries then some rest else readers other)
      ((E.rule options clash).visit (E.seen options) (frame.src ++ [name]) (frame.dst ++ [name])
        T) := by
  obtain ⟨places, hplaces, hnodup, hgoal⟩ := h
  cases hplaces with
  | @cons _ place _ places hfirst hrest =>
    obtain ⟨src, dst, names, closing⟩ := place
    obtain ⟨rfl, rfl, rfl, hopen, hlisted, hinside, hwithin⟩ := hfirst
    obtain rfl : names = name :: rest := Option.some_inj.mp (hopen.symm.trans hnames)
    refine ⟨⟨frame.src, frame.dst, rest, frame.closing options⟩ :: places,
      .cons ⟨rfl, rfl, rfl, if_pos rfl, fun other hmem => hlisted other (.tail _ hmem), hinside,
        hwithin⟩ (matches_kept hrest fun other hmem => if_neg fun heq => ?_), hnodup, hgoal⟩
    exact (List.nodup_cons.mp hnodup).1 (heq ▸ List.mem_map_of_mem hmem)

/-- A directory that is entered is on top, and what it stands for is still to be done. -/
theorem Stands.enter {src dst : Path} {names : List String} {w w' : World H}
    (h : Stands E options clash destination goal frames w.readers
      ((E.rule options clash).visit (E.seen options) src dst w.tree.node))
    (henters : Enters E options clash src dst w frame names w') (hinside : E.base <+: src)
    (hwithin : destination <+: dst) :
    Stands E options clash destination goal (frame :: frames) w'.readers w'.tree.node := by
  obtain ⟨places, hplaces, hnodup, hgoal⟩ := h
  have hnew := matches_open hplaces henters.fresh
  refine ⟨⟨src, dst, names, frame.closing options⟩ :: places, .cons ?_
    (matches_kept hplaces fun other hmem => ?_), List.nodup_cons.mpr ⟨hnew, hnodup⟩, ?_⟩
  · refine ⟨henters.source.symm, henters.destination.symm, rfl, ?_, fun name hmem => ?_, ?_, ?_⟩
    · rw [henters.readers]
      exact if_pos rfl
    · rw [henters.source]
      exact (henters.lists name).mp hmem
    · rwa [henters.source]
    · rwa [henters.destination]
  · have hne : other.entries ≠ frame.entries := fun heq => hnew (heq ▸ List.mem_map_of_mem hmem)
    rw [henters.readers]
    exact if_neg hne
  · -- the new place stands for the visit that it replaces
    rw [henters.node]
    refine (Rule.complete_enter henters.seen henters.lay rfl henters.nodup (fun name => ?_)
      ?_).trans hgoal
    · rw [henters.lists, Setting.seen_ne_none]
    · unfold CopyDirFrame.closing
      split
      · exact .inl rfl
      · exact .inr ⟨rfl, rfl⟩

end Steps

/-! ## 2. Turns -/

section Turns

variable [QubitBudget] {target : CopyTarget} {destinationRoot : Path} {scopeRoot : Option Path}
  {goal : Tree String FileNode} [DecidableEq H]

theorem delivered_finishFrame (frame : CopyDirFrame H) :
    Delivered E w (finishFrame options frame) fun _ w' =>
      w.Leaves (Rule.closed frame.dst (frame.closing options) w.tree.node) w' := by
  unfold CopyDirFrame.closing
  refine .look seen_modify fun _ _ => .ite (fun hpreserve => ?_) fun hkeeps => ?_
  · refine .get fun s => .look seen_modify fun _ _ => ?_
    refine .through (fun answer w' => Answers E w
      (.setPermissions frame.dst frame.sourcePermissions) answer w')
      (delivered_call fun _ _ hE => hE) fun answer => .fix fun v hv => .look seen_inContext
      fun done heq => ?_
    subst heq
    rw [if_pos hpreserve]
    exact Proc.Looks.delivers (.ite (fun _ => seen_modify) fun _ => .pure trivial)
      fun _ _ => hv.2.leaves
  · rw [if_neg hkeeps]
    exact .pure fun _ hs => hs ▸ w.leaves_self

theorem delivered_nextEntry (frame : CopyDirFrame H) :
    Delivered E w ((backend target options destinationRoot scopeRoot).nextEntry frame) fun r w' =>
      (r = none → w' = w ∧ w.readers frame.entries = some []) ∧
        ∀ entry, r = some entry → entry.path = frame.src ++ [entry.fileName] ∧
          ∃ rest, w.readers frame.entries = some (entry.fileName :: rest) ∧
            w' = { w with readers := fun other =>
              if other = frame.entries then some rest else w.readers other } := by
  refine .through (fun answer w' => Lists w frame.entries w' answer)
    (delivered_call fun _ _ hE => hE) fun answer => .fix fun v hv => ?_
  rcases answer with _ | result
  · exact .pure fun w' hw => ⟨fun _ => hw ▸ hv, fun _ heq => by cases heq⟩
  · refine .look seen_inContext fun name heq => .pure fun w' hw => ⟨fun heq => (by cases heq),
      fun entry heq' => ?_⟩
    subst heq
    cases heq'
    exact ⟨rfl, hw ▸ hv⟩

/-- A turn keeps what is left to do. -/
theorem delivers_copyTreeTurn (clash : Option FileNode)
    (hseparate : ∀ p, destination <+: p → ¬ E.base <+: p)
    (frame : CopyDirFrame H) (frames : List (CopyDirFrame H)) :
    Proc.Delivers (Answers E)
      (fun w => Stands E options clash destination goal (frame :: frames) w.readers w.tree.node)
      (copyTreeTurn (backend target options destinationRoot scopeRoot) frame)
      fun r w => Stands E options clash destination goal (stackAfter frame frames r) w.readers
        w.tree.node := by
  refine .fix fun w hw => .look seen_checkDeadline fun _ _ => .look seen_withCopyContext
    fun _ _ => .bind (delivered_nextEntry frame) fun r => .fix fun v hv => ?_
  cases r with
  | none =>
    obtain ⟨rfl, hnames⟩ := hv.1 rfl
    refine .look seen_checkDeadline fun _ _ => .look seen_withCopyContext fun _ _ =>
      .bind (delivered_finishFrame frame) fun _ => .pure fun w' hleaves =>
      hleaves.stands (hw.finish hnames)
  | some entry =>
    obtain ⟨path, fileName⟩ := entry
    obtain ⟨hpath, rest, hnames, hpopped⟩ := hv.2 _ rfl
    obtain ⟨hlisted, hinside, hwithin⟩ := hw.top hnames
    have hvisit := hw.visit hnames
    dsimp only at hpath hnames hlisted hvisit hpopped
    obtain rfl : path = frame.src ++ [fileName] := hpath
    have hsrc : E.base <+: frame.src ++ [fileName] := hinside.trans (List.prefix_append _ _)
    have hdst : destination <+: frame.dst ++ [fileName] := hwithin.trans (List.prefix_append _ _)
    -- no name of the source is that of a staging file
    have hname : ¬ E.reserved fileName := fun hreserved =>
      hlisted fileName List.mem_cons_self (E.unreserved frame.src fileName hreserved)
    refine .get fun s => .look seen_withCopyContext fun _ _ => .look seen_withCopyContext
      fun _ _ => .look seen_modify fun _ _ => .bind (delivered_processEntry clash
      ⟨frame.src ++ [fileName], fileName⟩ hsrc (hseparate _ hdst) hname) fun r =>
      .pure fun w' htreats => ?_
    subst hpopped
    cases r with
    | none => exact (htreats.done rfl).stands hvisit
    | some child =>
      obtain ⟨names, henters⟩ := htreats.entered child rfl
      exact Stands.enter hvisit henters hsrc hdst

/-- The stack is worked off. -/
theorem delivers_copyTree (clash : Option FileNode)
    (hseparate : ∀ p, destination <+: p → ¬ E.base <+: p) (bound : Nat)
    (frames : List (CopyDirFrame H)) :
    Proc.Delivers (Answers E)
      (fun w => Stands E options clash destination goal frames w.readers w.tree.node)
      (copyTree (backend target options destinationRoot scopeRoot) bound frames)
      fun _ w => w.tree.node = goal := by
  induction bound generalizing frames with
  | zero =>
    cases frames with
    | nil => exact .pure fun _ hs => hs.reached
    | cons frame frames => exact .exit
  | succ bound ih =>
    cases frames with
    | nil => exact .pure fun _ hs => hs.reached
    | cons frame frames =>
      refine .bind (delivers_copyTreeTurn clash hseparate frame frames) fun r => ?_
      rcases r with _ | _ | child
      · exact ih frames
      · exact ih (frame :: frames)
      · exact ih (child :: frame :: frames)

end Turns

/-! ## 3. The pipeline -/

section Pipeline

variable [QubitBudget] {target : CopyTarget} {src dst : Path} {scopeRoot : Option Path} {bound : Nat}
  [DecidableEq H]

theorem seen_existingPrefix (path current missing : List String) :
    Seen E w (existingPrefix path current missing) fun _ => True := by
  have hexists (current missing : List String) : Seen E w (do
      let canonical ← call (.canonicalize current)
      pure (Except.map (· ++ missing) canonical)) fun _ => True :=
    .bind (seen_any fun _ _ hE => hE) fun _ _ => .pure trivial
  induction current generalizing missing with
  | nil =>
    rw [existingPrefix]
    refine .bind (seen_any fun _ _ hE => hE) fun answer _ => ?_
    rcases answer with error | _ | _
    · exact .pure trivial
    · exact .pure trivial
    · exact hexists _ _
  | cons name current ih =>
    rw [existingPrefix]
    refine .bind (seen_any fun _ _ hE => hE) fun answer _ => ?_
    rcases answer with error | _ | _
    · exact .pure trivial
    · exact .ite (fun _ => .pure trivial) fun _ => ih (name :: missing)
    · exact hexists _ _

theorem seen_canonicalizeExistingPrefix (path : Path) :
    Seen E w (canonicalizeExistingPrefix path) fun _ => True := by
  have hcanonicalize : Seen E w (call (.canonicalize path)) fun _ => True :=
    seen_any fun _ _ hE => hE
  refine .bind (seen_any fun _ _ hE => hE) fun answer _ => ?_
  rcases answer with error | _ | _
  · exact .pure trivial
  · refine .ite (fun _ => hcanonicalize) fun _ => .bind (seen_any fun _ _ hE => hE.1)
      fun answer _ => ?_
    cases answer with
    | ok current => exact seen_existingPrefix path current.reverse []
    | error error => exact .pure trivial
  · exact hcanonicalize

theorem seen_canonicalScope {source destination : Path} :
    Seen E w (canonicalScope source destination scopeRoot) fun _ => True := by
  cases scopeRoot with
  | none => exact .pure trivial
  | some scopeRoot =>
    exact .bind (seen_any fun _ _ hE => hE) fun _ _ => .bind seen_inContext fun _ _ => .pure trivial

theorem seen_absolutePath (path : Path) :
    Seen E w (call (.absolutePath path)) fun answer =>
      ∀ absolute, answer = .ok absolute → absolute = E.absolute path := by
  refine seen_call fun answer w' hE => ⟨hE.1, fun absolute heq => ?_⟩
  subst heq
  exact hE.2

theorem seen_absoluteDestination (dst : Path) :
    Seen E w (absoluteDestination dst) fun answer =>
      ∀ absolute, answer = .ok absolute → absolute = E.destination dst := by
  unfold Setting.destination
  refine .ite (fun hempty => .pure fun absolute heq => ?_) fun hnonempty => ?_
  · rw [if_pos hempty]
    cases heq
    rfl
  · rw [if_neg hnonempty]
    exact seen_absolutePath dst

theorem delivered_copyDirIterative {destinationRoot : Path}
    (hseparate : ∀ p, dst <+: p → ¬ E.base <+: p) :
    Delivered E w (copyDirIterative target options E.base dst destinationRoot scopeRoot bound)
      fun _ w' => w'.tree.node =
        (E.rule options clash).visit (E.seen options) E.base dst w.tree.node := by
  have hinside : E.base <+: E.base := List.prefix_rfl
  have hroot : Delivered E w (enterCopyDirectory target options destinationRoot E.base dst 0)
      (Treats E options clash E.base dst w) :=
    delivered_enterCopyDirectory hinside (hseparate dst List.prefix_rfl)
  refine .bind hroot fun r => ?_
  cases r with
  | none => exact .pure fun _ htreats => (htreats.done rfl).node
  | some root =>
    refine (delivers_copyTree clash hseparate bound [root]).before fun w' htreats => ?_
    obtain ⟨names, henters⟩ := htreats.entered root rfl
    exact Stands.enter ⟨[], .nil, List.nodup_nil, rfl⟩ henters hinside List.prefix_rfl

/-- What follows the looks at the beginning. -/
theorem delivered_copyDirAllWithScope (hsource : E.absolute src = E.base)
    (hseparate : ∀ p, E.destination dst <+: p → ¬ E.base <+: p) :
    Delivered E w (copyDirAllWithScope target options src dst scopeRoot bound) fun _ w' =>
      w'.tree.node =
        (E.rule options clash).visit (E.seen options) E.base (E.destination dst) w.tree.node := by
  refine .look (seen_absolutePath src) fun answer habsolute => .look seen_inContext
    fun source heq => .look (seen_absoluteDestination dst) fun answer' habsolute' =>
    .look seen_inContext fun destination heq' => .look (seen_canonicalizeExistingPrefix _)
    fun _ _ => .look seen_inContext fun _ _ => .look seen_canonicalScope fun _ _ => ?_
  obtain rfl : source = E.base := (habsolute source heq).trans hsource
  obtain rfl := habsolute' destination heq'
  exact .bind (delivered_copyDirIterative hseparate) fun _ => .get fun s => .pure fun _ hs => hs

end Pipeline

section Main

variable [QubitBudget] {target : CopyTarget} {src dst : Path} {scopeRoot : Option Path} {bound : Nat}
  [DecidableEq H] {w' : World H} {s s' : TreeLocals ActiveSources}
  {tr : List (Event (TreeLocals ActiveSources × HostCall H) fun c => c.2.Result)}
  {stats : LocalCopyDirStats}

/-- A copy that succeeds has met no conflict, and it leaves the source laid over its destination
    and everything else as it was, whichever calls have failed. -/
theorem copyDirAllWithScope_merges (hsource : E.absolute src = E.base)
    (hbelow : ¬ E.base <+: E.destination dst) (habove : ¬ E.destination dst <+: E.base)
    (h : (copyDirAllWithScope target options src dst scopeRoot bound s).RunsIn
      (Proc.Behind (Answers E)) w tr w' (.ok stats, s')) :
    (E.rule options none).Fits ((E.seen options).below E.base)
        (w.tree.node.below (E.destination dst)) ∧
      w'.tree.node =
        (E.rule options none).visit (E.seen options) E.base (E.destination dst) w.tree.node := by
  have hseparate (p : Path) (hp : E.destination dst <+: p) : ¬ E.base <+: p := fun hbase =>
    (List.prefix_or_prefix_of_prefix hbase hp).elim hbelow habove
  -- the run knows nothing of what stands for a conflict
  have hmerges (clash : Option FileNode) : w'.tree.node =
      (E.rule options clash).visit (E.seen options) E.base (E.destination dst) w.tree.node :=
    (delivered_copyDirAllWithScope hsource hseparate).runsIn rfl h
  exact ⟨Rule.fits_of_every hmerges, hmerges none⟩

end Main

section Scene

open scoped QubitBudget

/-! The directory `s` with the files `f` and `g` is copied over the directory `d`, in which `f` is a
file too, `g` is a directory and `k` has no counterpart. -/

/-- The tree that a list of nodes describes. -/
def treeOf (nodes : List (Path × FileNode)) : Tree String FileNode := fun path => nodes.lookup path

theorem treeOf_cons (path : Path) (node : FileNode) (nodes : List (Path × FileNode)) :
    treeOf ((path, node) :: nodes) = (treeOf nodes).set path (some node) := by
  funext p
  unfold treeOf Tree.set
  rw [List.lookup_cons]
  by_cases h : p = path
  · rw [if_pos h, beq_iff_eq.mpr h]
  · rw [if_neg h, beq_false_of_ne h]

theorem treeOf_cons_cons (path : Path) (node before : FileNode) (nodes : List (Path × FileNode)) :
    treeOf ((path, node) :: nodes) = (treeOf ((path, before) :: nodes)).set path (some node) := by
  rw [treeOf_cons, treeOf_cons, Tree.set_set]

/-- The nodes whose paths are kept. -/
theorem treeOf_filter (keep : Path → Bool) (nodes : List (Path × FileNode)) (p : Path) :
    treeOf (nodes.filter fun entry => keep entry.1) p =
      if keep p then treeOf nodes p else none := by
  unfold treeOf
  induction nodes with
  | nil => rw [List.filter_nil, List.lookup_nil, ite_self]
  | cons entry rest ih =>
    rw [List.filter_cons, List.lookup_cons]
    by_cases hp : p = entry.1
    · subst hp
      cases hkeep : keep entry.1 with
      | true => rw [if_pos rfl, if_pos rfl, List.lookup_cons, beq_self_eq_true]
      | false => simpa [hkeep] using ih
    · rw [beq_false_of_ne hp, ← ih]
      split
      · rw [List.lookup_cons, beq_false_of_ne hp]
      · rfl

theorem treeOf_erase (nodes : List (Path × FileNode)) (path : Path) :
    treeOf (nodes.filter fun entry => entry.1 ≠ path) = (treeOf nodes).set path none := by
  funext p
  rw [treeOf_filter (fun q => decide (q ≠ path))]
  unfold Tree.set
  by_cases h : p = path <;> simp [h]

theorem treeOf_prune (nodes : List (Path × FileNode)) (path : Path) :
    treeOf (nodes.filter fun entry => ¬ path <+: entry.1) =
      (treeOf nodes).graft path fun _ => none := by
  funext p
  rw [treeOf_filter (fun q => decide (¬ path <+: q))]
  unfold Tree.graft
  by_cases h : path <+: p <;> simp [h]

/-- Two lists describe the same tree when they agree on their own paths. -/
theorem treeOf_ext {nodes nodes' : List (Path × FileNode)}
    (h : ∀ entry ∈ nodes ++ nodes', treeOf nodes entry.1 = treeOf nodes' entry.1) :
    treeOf nodes = treeOf nodes' := by
  funext p
  by_cases hp : ∃ entry ∈ nodes ++ nodes', entry.1 = p
  · obtain ⟨entry, hentry, rfl⟩ := hp
    exact h entry hentry
  · have hnone (list : List (Path × FileNode)) (hlist : list ⊆ nodes ++ nodes') :
        treeOf list p = none := by
      refine List.lookup_eq_none_iff.mpr fun entry hentry => ?_
      exact bne_iff_ne.mpr fun heq => hp ⟨entry, hlist hentry, heq.symm⟩
    rw [hnone nodes (List.subset_append_left _ _), hnone nodes' (List.subset_append_right _ _)]

theorem closed_treeOf {nodes : List (Path × FileNode)} (h : ∀ entry ∈ nodes,
    ∀ n < entry.1.length, (treeOf nodes (entry.1.take n)).any FileNode.inner = true) :
    (treeOf nodes).Closed FileNode.inner := by
  intro path hleaf name rest
  by_contra hsome
  obtain ⟨node, hnode⟩ := Option.ne_none_iff_exists'.mp hsome
  obtain ⟨before, after, hmem, -⟩ := List.lookup_eq_some_iff.mp hnode
  have habove := h (path ++ name :: rest, node) (by rw [hmem]; simp) path.length (by simp)
  dsimp only at habove
  rw [List.take_left] at habove
  obtain ⟨above, hthere, hinner⟩ := (Option.any_eq_true _ _).mp habove
  rw [hleaf above hthere] at hinner
  cases hinner

def sceneSource : List (Path × FileNode) :=
  [(["s"], .directory 5), (["s", "f"], .file [1, 2, 3] 4), (["s", "g"], .file [4] 4)]

def sceneSetting : Setting where
  base := ["s"]
  look := treeOf sceneSource
  follow := treeOf sceneSource
  absolute path := path
  reserved name := name = "t"
  directoryPermissions := 7
  filePermissions := 6
  unreserved path name h := by
    have hlast : ∀ entry ∈ sceneSource, entry.1.getLast? ≠ some "t" := by decide
    refine List.lookup_eq_none_iff.mpr fun entry hmem => ?_
    have hne : path ++ [name] ≠ entry.1 := fun heq => hlast entry hmem (by
      rw [← heq, List.getLast?_concat, h])
    simpa using hne
  direct _ _ h _ := h

def sceneOptions : LocalCopyDirOptions := { conflict := .overwrite, typeConflict := .replace }

def sceneStaged : StagedCopy Nat := ⟨["d", "t"], 1⟩

/-- The calls that change something, and their answers. -/
def sceneScript : List (Event (HostCall Nat) HostCall.Result) :=
  [⟨.readDir ["s"], (.ok 0 : IoResult Nat)⟩,
    ⟨.nextEntry 0, some (.ok "f" : IoResult String)⟩,
    ⟨.createTempFile ["d"], (.ok sceneStaged : IoResult (StagedCopy Nat))⟩,
    ⟨.openSource ["s", "f"] false none, (.ok (2, 4) : IoResult (Nat × Nat))⟩,
    ⟨.copyContents 2 sceneStaged, (.ok 3 : Except CopyError Nat)⟩,
    ⟨.replaceFile sceneStaged ["d", "f"], (.ok () : IoResult Unit)⟩,
    ⟨.nextEntry 0, some (.ok "g" : IoResult String)⟩,
    ⟨.createTempFile ["d"], (.ok sceneStaged : IoResult (StagedCopy Nat))⟩,
    ⟨.openSource ["s", "g"] false none, (.ok (3, 4) : IoResult (Nat × Nat))⟩,
    ⟨.copyContents 3 sceneStaged, (.ok 1 : Except CopyError Nat)⟩,
    ⟨.deleteDirectory ["d", "g"] none .reject, (.ok () : Except LocalFileError Unit)⟩,
    ⟨.replaceFile sceneStaged ["d", "g"], (.ok () : IoResult Unit)⟩,
    ⟨.nextEntry 0, (none : Option (IoResult String))⟩]

def sceneMetadata : Option FileNode → IoResult CopyMetadata
  | none => .error ⟨.notFound, "missing", none⟩
  | some (.directory permissions) =>
    .ok { kind := .directory, identity := none, permissions := permissions }
  | some node => .ok { kind := node.kind, identity := none }

/-- The destination before the copy. -/
def occupiedNodes : List (Path × FileNode) :=
  [(["d", "f"], .file [9] 3), (["d", "g"], .directory 8), (["d", "g", "x"], .file [7] 3),
    (["d", "k"], .file [5] 3), (["d"], .directory 9), ([], .directory 0)]

/-- The destination with its file overwritten. -/
def overwrittenNodes : List (Path × FileNode) :=
  [(["d", "f"], .file [1, 2, 3] 6), (["d", "g"], .directory 8), (["d", "g", "x"], .file [7] 3),
    (["d", "k"], .file [5] 3), (["d"], .directory 9), ([], .directory 0)]

/-- The destination without the directory that is in the way. -/
def clearedNodes : List (Path × FileNode) :=
  [(["d", "f"], .file [1, 2, 3] 6), (["d", "k"], .file [5] 3), (["d"], .directory 9),
    ([], .directory 0)]

/-- What is there after so many calls of the script. -/
def sceneNodes : Nat → List (Path × FileNode)
  | 0 | 1 | 2 => occupiedNodes
  | 3 | 4 => (["d", "t"], .file [] 6) :: occupiedNodes
  | 5 => (["d", "t"], .file [1, 2, 3] 6) :: occupiedNodes
  | 6 | 7 => overwrittenNodes
  | 8 | 9 => (["d", "t"], .file [] 6) :: overwrittenNodes
  | 10 => (["d", "t"], .file [4] 6) :: overwrittenNodes
  | 11 => (["d", "t"], .file [4] 6) :: clearedNodes
  | _ => (["d", "g"], .file [4] 6) :: clearedNodes

def sceneReaders : Nat → Nat → Option (List String)
  | 0 => fun _ => none
  | 1 => fun reader => if reader = 0 then some ["f", "g"] else none
  | 2 | 3 | 4 | 5 | 6 => fun reader =>
    if reader = 0 then some ["g"] else if reader = 0 then some ["f", "g"] else none
  | _ => fun reader =>
    if reader = 0 then some []
    else if reader = 0 then some ["g"] else if reader = 0 then some ["f", "g"] else none

def sceneOpened : Nat → Nat → Option (List UInt8)
  | 0 | 1 | 2 | 3 => fun _ => none
  | 4 | 5 | 6 | 7 | 8 => fun source => if source = 2 then some [1, 2, 3] else none
  | _ => fun source =>
    if source = 3 then some [4] else if source = 2 then some [1, 2, 3] else none

theorem closed_sceneNodes (n : Nat) : (treeOf (sceneNodes n)).Closed FileNode.inner := by
  refine closed_treeOf ?_
  match n with
  | 0 | 1 | 2 | 3 | 4 | 5 | 6 | 7 | 8 | 9 | 10 | 11 => decide
  | _ + 12 => exact (by decide : ∀ entry ∈ sceneNodes 12, ∀ n < entry.1.length,
      (treeOf (sceneNodes 12) (entry.1.take n)).any FileNode.inner = true)

def sceneWorld (n : Nat) : World Nat where
  tree := ⟨treeOf (sceneNodes n), closed_sceneNodes n⟩
  readers := sceneReaders n
  opened := sceneOpened n

/-- The calls that only look are answered truly, and all others are denied. -/
def sceneLook (n : Nat) : (c : HostCall Nat) → c.Result
  | .symlinkMetadata path => sceneMetadata ((sceneWorld n).nodeAt sceneSetting path)
  | .absolutePath path => (.ok path : IoResult Path)
  | .canonicalize path => (.ok path : IoResult Path)
  | .tryExists _ => (.ok true : IoResult Bool)
  | .fileType path =>
    match treeOf sceneSource path with
    | some node => (.ok node.kind : IoResult EntryKind)
    | none => (.error denied : IoResult EntryKind)
  | .nextEntry _ => some (.error denied : IoResult String)
  | c => deniedAnswer c

def sceneHost (n : Nat) (c : HostCall Nat) : c.Result × Nat :=
  match sceneScript[n]? with
  | none => (sceneLook n c, n)
  | some ev => if h : ev.call = c then (h ▸ ev.answer, n + 1) else (sceneLook n c, n)

/-- A staging file that takes the place of what is at the path. -/
theorem moves_scene {n : Nat} {path : Path} (content : List UInt8) (rest : List (Path × FileNode))
    (hstaged : sceneNodes n = (["d", "t"], .file content 6) :: rest)
    (hmoved : treeOf (sceneNodes (n + 1)) = treeOf ((path, .file content 6) ::
      (sceneNodes n).filter fun entry => entry.1 ≠ ["d", "t"]))
    (hreaders : sceneReaders (n + 1) = sceneReaders n) (hopened : sceneOpened (n + 1) = sceneOpened n) :
    Moves (sceneWorld n) sceneStaged path (sceneWorld (n + 1)) := by
  refine ⟨.file content 6, ?_, ?_, hreaders, hopened⟩
  · show treeOf (sceneNodes n) ["d", "t"] = _
    rw [hstaged]
    rfl
  · show treeOf (sceneNodes (n + 1)) = ((treeOf (sceneNodes n)).set ["d", "t"] none).set path _
    rw [hmoved, treeOf_cons, treeOf_erase]

theorem listed_scene (name : String) :
    name ∈ ["f", "g"] ↔ sceneSetting.look (["s"] ++ [name]) ≠ none := by
  have hthere : ∀ name ∈ ["f", "g"], sceneSetting.look (["s"] ++ [name]) ≠ none := by decide
  refine ⟨hthere name, fun hsome => ?_⟩
  by_contra hname
  refine hsome (List.lookup_eq_none_iff.mpr ?_)
  simpa [sceneSource] using hname

theorem sceneScript_answers {n : Nat} {ev : Event (HostCall Nat) HostCall.Result}
    (h : sceneScript[n]? = some ev) :
    Answers sceneSetting (sceneWorld n) ev.call ev.answer (sceneWorld (n + 1)) := by
  match n, h with
  | 0, rfl => exact ⟨rfl, ["f", "g"], by decide, fun _ => listed_scene, rfl⟩
  | 1, rfl => exact ⟨["g"], rfl, rfl⟩
  | 2, rfl => exact ⟨"t", rfl, rfl, rfl, treeOf_cons _ _ _, rfl, rfl⟩
  | 3, rfl => exact ⟨[1, 2, 3], fun _ => rfl, rfl⟩
  | 4, rfl =>
    refine ⟨[1, 2, 3], [], 6, rfl, rfl, rfl, ?_, rfl, rfl⟩
    exact treeOf_cons_cons _ _ _ _
  | 5, rfl =>
    refine ⟨fun there hthere => ?_, moves_scene [1, 2, 3] occupiedNodes rfl ?_ rfl rfl⟩
    · cases hthere
      rfl
    · exact treeOf_ext (by decide)
  | 6, rfl => exact ⟨[], rfl, rfl⟩
  | 7, rfl => exact ⟨"t", rfl, rfl, rfl, treeOf_cons _ _ _, rfl, rfl⟩
  | 8, rfl => exact ⟨[4], fun _ => rfl, rfl⟩
  | 9, rfl =>
    refine ⟨[4], [], 6, rfl, rfl, rfl, ?_, rfl, rfl⟩
    exact treeOf_cons_cons _ _ _ _
  | 10, rfl =>
    refine ⟨?_, rfl, rfl⟩
    show treeOf _ = (treeOf _).graft _ _
    rw [← treeOf_prune]
    exact treeOf_ext (by decide)
  | 11, rfl =>
    refine ⟨nofun, moves_scene [4] clearedNodes rfl ?_ rfl rfl⟩
    exact treeOf_ext (by decide)
  | 12, rfl => exact ⟨rfl, rfl⟩

theorem sceneLook_answers (n : Nat) (c : HostCall Nat) :
    Answers sceneSetting (sceneWorld n) c (sceneLook n c) (sceneWorld n) := by
  cases c with
  | symlinkMetadata path =>
    refine ⟨rfl, ?_⟩
    show Given (sceneMetadata ((sceneWorld n).nodeAt sceneSetting path)) _ _
    cases h : (sceneWorld n).nodeAt sceneSetting path with
    | none => exact fun _ => rfl
    | some node =>
      cases node with
      | directory permissions => exact ⟨_, rfl, rfl, fun _ heq => by cases heq; rfl⟩
      | file content permissions => exact ⟨_, rfl, rfl, fun _ heq => by cases heq⟩
      | symlink target => exact ⟨_, rfl, rfl, fun _ heq => by cases heq⟩
      | other => exact ⟨_, rfl, rfl, fun _ heq => by cases heq⟩
  | fileType path =>
    refine ⟨rfl, fun _ => ?_⟩
    show Given (match treeOf sceneSource path with
      | some node => .ok node.kind
      | none => .error denied) _ _
    cases h : treeOf sceneSource path with
    | none => trivial
    | some node => exact ⟨node, h, rfl⟩
  | absolutePath path => exact ⟨rfl, rfl⟩
  | metadata path => exact ⟨rfl, fun _ heq => by cases heq⟩
  | copyContents source staged => exact fun _ _ => rfl
  | deleteDirectory path deadline policy => exact fun _ _ => rfl
  | moveWithoutReplacing staged path => exact ⟨rfl, fun heq => by cases heq⟩
  | createPrivateDir path => exact ⟨rfl, fun heq => by cases heq⟩
  | readLink path => exact ⟨rfl, fun _ => trivial⟩
  | now | canonicalize | tryExists | readDir | nextEntry | createTempFile | openSource
  | setStagedPermissions | syncStaged | cleanupStaged | replaceFile | removeFile
  | removeDirectorySymlink | createSymlink | setPermissions => rfl

theorem sceneHost_answers (n : Nat) (c : HostCall Nat) :
    Answers sceneSetting (sceneWorld n) c (sceneHost n c).1 (sceneWorld (sceneHost n c).2) := by
  unfold sceneHost
  split
  next => exact sceneLook_answers n c
  next ev hev =>
    split
    next hcall =>
      subst hcall
      exact sceneScript_answers hev
    next => exact sceneLook_answers n c

def sceneStart : TreeLocals ActiveSources := ⟨{}, .new sceneOptions 0, []⟩

def sceneStats : LocalCopyDirStats :=
  { files := 2, bytes := 4, overwritten := 3, nonAtomicPublication := true, filesDurable := false }

def sceneCopy : Prog (TreeLocals ActiveSources × HostCall Nat) (fun c => c.2.Result)
    (Except (Option LocalCopyDirError) LocalCopyDirStats × TreeLocals ActiveSources) :=
  copyDirAllWithScope .unix sceneOptions ["s"] ["d"] none 5 sceneStart

theorem sceneCopy_runs : ∃ tr s', sceneCopy.RunsIn (Proc.Behind (Answers sceneSetting))
    (sceneWorld 0) tr (sceneWorld 13) (.ok sceneStats, s') := by
  have hruns : sceneCopy.RunsIn (Proc.Behind (Answers sceneSetting)) (sceneWorld 0) _
      (sceneWorld _) _ :=
    (Prog.execIn_runsIn (fun n c => sceneHost n c.2) (fun _ _ => rfl) sceneCopy 0).map sceneWorld
      fun n c answer n' (h : sceneHost n c.2 = (answer, n')) => by
        have hanswers := sceneHost_answers n c.2
        rw [h] at hanswers
        exact hanswers
  have hend : (sceneCopy.execIn (fun n c => sceneHost n c.2) 0).2.1 = 13 := by
    decide +kernel
  have hstats : (sceneCopy.execIn (fun n c => sceneHost n c.2) 0).2.2.1 = .ok sceneStats := by
    decide +kernel
  rw [hend, ← Prod.mk.eta (p := (sceneCopy.execIn _ _).2.2), hstats] at hruns
  exact ⟨_, _, hruns⟩

/-- `f` is overwritten, `g` takes the place of a directory with all that is in it, and `k` stays. -/
theorem copyDirAllWithScope_merges_scene : ∃ tr s', sceneCopy.RunsIn
    (Proc.Behind (Answers sceneSetting)) (sceneWorld 0) tr (sceneWorld 13) (.ok sceneStats, s') ∧
    (sceneSetting.rule sceneOptions none).Fits ((sceneSetting.seen sceneOptions).below ["s"])
        ((sceneWorld 0).tree.node.below ["d"]) ∧
      (sceneWorld 13).tree.node = (sceneSetting.rule sceneOptions none).visit
        (sceneSetting.seen sceneOptions) ["s"] ["d"] (sceneWorld 0).tree.node := by
  obtain ⟨tr, s', hruns⟩ := sceneCopy_runs
  exact ⟨tr, s', hruns, copyDirAllWithScope_merges rfl (by decide) (by decide) hruns⟩

end Scene

end LocalFiles.TreeCopy.Host
