import Mathlib.Algebra.Order.BigOperators.Group.List
import Mathlib.Algebra.Order.Ring.Nat
import LocalFiles.Contract
import LocalFiles.Staged.Cleanup
import LocalFiles.Walk.Listing

/-!
# Removal — a cleanup that nobody disturbs

The staged tree is an `EntryTree` here, which the deletions take apart leaf by leaf.  When no
call fails and nobody else changes the tree, a cleanup removes all of it if its limits cover the
tree, and none of it otherwise.
-/

namespace LocalFiles

/-! ## 1. Deleting leaves -/

namespace Walk.EntryTree

/-- The tree without the leaf `path`. -/
def remove (tree : EntryTree) (path : Path) (hroot : path ≠ []) (hleaf : tree.children path = []) :
    EntryTree where
  measure := tree.measure
  entry other := if other = path then none else tree.entry other
  children other := (tree.children other).filter fun name => other ++ [name] ≠ path
  paths := tree.paths
  mem_paths other h := by
    split at h
    · cases h
    · exact tree.mem_paths other h
  root := by
    rw [if_neg hroot.symm]
    exact tree.root
  nodup other := (tree.nodup other).filter _
  listed other name := by
    rw [List.mem_filter, tree.listed, decide_eq_true_eq]
    split
    next heq => exact iff_of_false (fun h => h.2 heq) (by simp)
    next hne => exact and_iff_left hne
  parent other name h := by
    split at h
    · cases h
    · have hother : other ≠ path := by
        rintro rfl
        have hname := (tree.listed other name).mpr h
        rw [hleaf] at hname
        cases hname
      rw [if_neg hother]
      exact tree.parent other name h
  normal other h := by
    split at h
    · cases h
    · exact tree.normal other h
  distinct other other' metadata metadata' identity h h' := by
    split at h
    · cases h
    · split at h'
      · cases h'
      · exact tree.distinct other other' metadata metadata' identity h h'

theorem remove_entry {tree : EntryTree} {path : Path} (hroot : path ≠ [])
    (hleaf : tree.children path = []) (other : Path) :
    (tree.remove path hroot hleaf).entry other = if other = path then none else tree.entry other :=
  rfl

end Walk.EntryTree

namespace Staged

open Interaction Walk

/-! ## 2. A store that nobody disturbs -/

/-- A handle of a staged tree, and the clock of a listing that is opened through it. -/
structure LocalDirectoryHandle where
  diagnosticPath : Path
  namespaceRoot : Path
  currentDirectory : Option Path
  contract : ResolutionContract
  resolveSymlinks : Path → LocalSymlinkPolicy → Bool → Except LocalFileError Path
  clock : Nat → Nat
  clockEnd : Nat
  startedAt : Nat

namespace LocalDirectoryHandle

variable [QubitBudget] (handle : LocalDirectoryHandle) (tree : EntryTree)

/-- `list_with_options` for the root; no listing follows links. -/
def listWithOptions (options : LocalListOptions) : Except LocalFileError RootedWalker :=
  (RootedWalker.openRooted
    (tree.rootedNative handle.diagnosticPath handle.contract handle.resolveSymlinks)
    handle.clockEnd [] handle.namespaceRoot options .reject handle.startedAt).map
      (·.bindCurrentDirectory handle.currentDirectory)

/-- The turns of a listing, counted by the entries it has yielded. -/
def turns : RootedWalker × Nat → Step Item (RootedWalker × Nat) :=
  counted (tree.turns handle.diagnosticPath handle.contract handle.resolveSymlinks handle.clock)

end LocalDirectoryHandle

/-- The tree, whose root the parent names until it is deleted. -/
structure World [QubitBudget] where
  tree : EntryTree
  named : Bool := true
  walker : Option (RootedWalker × Nat) := none

/-- An observation of what is there, or an error. -/
def Observes (found : Option Metadata) (answer : Except LocalFileError Metadata) : Prop :=
  match found with
  | some metadata => answer = .ok metadata
  | none => ∃ error, answer = .error error

/-- A non-recursive deletion: a leaf of the right kind is gone then, anything else is refused. -/
def Deletion [QubitBudget] (w : World) (path : Path) (directory : Prop) (answer : Except LocalFileError Unit)
    (w' : World) : Prop :=
  (∃ hroot hleaf metadata, w.tree.entry path = some metadata ∧
    (metadata.kind = .directory ↔ directory) ∧ answer = .ok () ∧
    w' = { w with tree := w.tree.remove path hroot hleaf }) ∨
  ((path = [] ∨ w.tree.children path ≠ [] ∨
    ∀ metadata, w.tree.entry path = some metadata → ¬ (metadata.kind = .directory ↔ directory)) ∧
    (∃ error, answer = .error error) ∧ w' = w)

def InTime (deadline : Option Nat) (now : Nat) : Prop := ∀ limit ∈ deadline, now < limit

/-- What calls are answered when none of them fails, the deadline never passes and nobody else
    changes the tree, which the parent knows as `name`. -/
def Undisturbed [QubitBudget] (handle : LocalDirectoryHandle) (name : Path) (deadline : Option Nat) :
    World → (c : CleanupCall) → c.Result → World → Prop
  | w, .elapsed, now, w' => InTime deadline now ∧ w' = w
  | w, .observe relative, answer, w' =>
    (relative = name → Observes (if w.named then w.tree.entry [] else none) answer) ∧ w' = w
  | w, .list options, answer, w' =>
    match handle.listWithOptions w.tree options with
    | .ok walker => answer = .ok () ∧ w' = { w with walker := some (walker, 0) }
    | .error error => answer = .error error ∧ w' = w
  | w, .nextEntry, answer, w' =>
    match w.walker with
    | some walker => ∃ r, Gives (handle.turns w.tree) walker r ∧
        answer = r.map (fun given => given.1.map (·.relativePath)) ∧
        w' = { w with walker := r.map (·.2) }
    | none => answer = none ∧ w' = w
  | w, .tryReserve, reserved, w' => reserved = true ∧ w' = w
  | w, .observeEntry relative, answer, w' => Observes (w.tree.entry relative) answer ∧ w' = w
  | w, .deleteDirectory relative _, answer, w' => Deletion w relative True answer w'
  | w, .deleteFile relative _, answer, w' => Deletion w relative False answer w'
  | w, .deleteRoot relative _, answer, w' =>
    if relative = name ∧ w.named ∧ w.tree.children [] = [] then
      answer = .ok () ∧ w' = { w with named := false }
    else (∃ error, answer = .error error) ∧ w' = w
  | w, .openDirectory _, _, w' => w' = w

/-! ## 3. What the limits cover -/

/-- Without a limit of its own the counter of path bytes ends where `usize` does. -/
def pendingLimit (limits : Temp.LocalTempCleanupLimits) : Nat :=
  (limits.maxPendingPathBytes.map UInt64.toNat).getD usizeMax

theorem pendingLimit_le (limits : Temp.LocalTempCleanupLimits) :
    pendingLimit limits ≤ usizeMax := by
  unfold pendingLimit usizeMax
  cases limits.maxPendingPathBytes with
  | none => exact le_rfl
  | some maximum => exact Nat.le_pred_of_lt maximum.toNat_lt

theorem pendingExceeded_iff {limits : Temp.LocalTempCleanupLimits} {pending : Nat}
    (h : pending ≤ usizeMax) :
    pendingExceeded limits pending = true ↔ pendingLimit limits < pending := by
  unfold pendingExceeded pendingLimit
  cases limits.maxPendingPathBytes with
  | none => exact iff_of_false nofun (not_lt.mpr h)
  | some maximum => exact decide_eq_true_iff

/-- The limits of a cleanup cover the root and everything below it, by number, depth and the
    bytes of the paths. -/
structure PathsFit (limits : Temp.LocalTempCleanupLimits) (pathBytes : UInt64) (tree : EntryTree) :
    Prop where
  entries : ∀ maximum ∈ limits.maxEntries, tree.entries.length + 1 ≤ maximum
  depth : ∀ maximum ∈ limits.maxDepth, ∀ path ∈ tree.entries, path.length ≤ maximum
  pathBytes : pathBytes.toNat + (tree.entries.map encodedLen).sum ≤ pendingLimit limits

/-- The listing holds its names to the limit on path bytes as well, each by what it takes on the
    platform. -/
structure Fits (limits : Temp.LocalTempCleanupLimits) (pathBytes : UInt64) (tree : EntryTree) :
    Prop extends PathsFit limits pathBytes tree where
  names : ∀ maximum ∈ limits.maxPendingPathBytes,
    (tree.entries.map tree.lastBytes).sum ≤ maximum.toNat

/-- The checks of the cleanup itself let these paths through. -/
structure Within (limits : Temp.LocalTempCleanupLimits) (pending : Nat) (paths : List Path) :
    Prop where
  depth : ∀ maximum ∈ limits.maxDepth, ∀ path ∈ paths, path.length ≤ maximum
  pathBytes : pending + (paths.map encodedLen).sum ≤ pendingLimit limits

theorem within_cons {limits : Temp.LocalTempCleanupLimits} {pending : Nat} {path : Path}
    {paths : List Path} : Within limits pending (path :: paths) ↔
      Within limits pending [path] ∧ Within limits (pending + encodedLen path) paths := by
  constructor
  · rintro ⟨hdepth, hbytes⟩
    rw [List.map_cons, List.sum_cons] at hbytes
    refine ⟨⟨fun maximum h other hother => ?_, ?_⟩, fun maximum h other hother => ?_, ?_⟩
    · exact hdepth maximum h other (List.mem_cons.mpr (.inl (List.mem_singleton.mp hother)))
    · rw [List.map_singleton, List.sum_singleton]
      omega
    · exact hdepth maximum h other (List.mem_cons_of_mem _ hother)
    · omega
  · rintro ⟨⟨hdepth, -⟩, hrest, hbytes⟩
    refine ⟨fun maximum h => List.forall_mem_cons.mpr ⟨?_, hrest maximum h⟩, ?_⟩
    · exact hdepth maximum h path List.mem_cons_self
    · rw [List.map_cons, List.sum_cons]
      omega

/-- On Unix the last name of a path is part of its encoding. -/
theorem lastBytes_le {tree : EntryTree} (hunix : tree.measure = .unix) (path : Path) :
    tree.lastBytes path ≤ encodedLen path := by
  unfold EntryTree.lastBytes encodedLen
  rw [hunix]
  by_cases hempty : path = []
  · subst hempty
    decide
  · rw [List.getLastD_eq_getLast?, List.getLast?_eq_some_getLast hempty, Option.getD_some]
    have hle := List.single_le_sum (fun _ _ => Nat.zero_le _)
      (String.utf8ByteSize (path.getLast hempty)) (List.mem_map_of_mem (List.getLast_mem hempty))
    exact hle.trans (Nat.le_add_right _ _)

/-- So the names fit there when the paths do. -/
theorem fits_unix {limits : Temp.LocalTempCleanupLimits} {pathBytes : UInt64} {tree : EntryTree}
    (hunix : tree.measure = .unix) :
    Fits limits pathBytes tree ↔ PathsFit limits pathBytes tree := by
  refine ⟨fun h => h.toPathsFit, fun h => ⟨h, fun maximum hmaximum => ?_⟩⟩
  have hbytes := h.pathBytes
  unfold pendingLimit at hbytes
  rw [Option.mem_def.mp hmaximum, Option.map_some, Option.getD_some] at hbytes
  have hle := List.sum_le_sum fun path (_ : path ∈ tree.entries) => lastBytes_le hunix path
  omega

/-- The two kinds of checks agree: the walker counts names and all entries but the root. -/
theorem fits_iff {limits : Temp.LocalTempCleanupLimits} {pathBytes : UInt64} {tree : EntryTree}
    {contract : ResolutionContract} (hzero : limits.maxEntries ≠ some 0)
    (haccepts : ∀ path ∈ tree.entries, contract.Accepts tree.measure path) :
    Fits limits pathBytes tree ↔ EntryTree.Covers tree contract (listOptions limits) ∧
      Within limits pathBytes.toNat tree.entries := by
  constructor
  · intro h
    refine ⟨⟨fun limit hlimit => ?_, fun limit hlimit => ?_, haccepts⟩, h.depth, h.pathBytes⟩
    · obtain ⟨maximum, hmaximum, rfl⟩ := Option.map_eq_some_iff.mp hlimit
      have hle := h.entries maximum hmaximum
      omega
    · obtain ⟨maximum, hmaximum, rfl⟩ := Option.map_eq_some_iff.mp hlimit
      exact h.names maximum hmaximum
  · rintro ⟨hcovers, hwithin⟩
    refine ⟨⟨fun maximum hmaximum => ?_, hwithin.depth, hwithin.pathBytes⟩,
      fun maximum hmaximum => hcovers.names _ (Option.map_eq_some_iff.mpr ⟨maximum, hmaximum, rfl⟩)⟩
    have hle := hcovers.entries (maximum - 1) (Option.map_eq_some_iff.mpr ⟨maximum, hmaximum, rfl⟩)
    have hpos : maximum ≠ 0 := by
      rintro rfl
      exact hzero hmaximum
    omega

/-! ## 4. The listing -/

theorem lists_nil {complete : Prop} {items : List Item} (h : EntryTree.Lists complete [] items) :
    complete ∧ items = [] := by
  by_cases hcomplete : complete
  · exact ⟨hcomplete, List.map_eq_nil_iff.mp (h.all hcomplete)⟩
  · obtain ⟨n, resource, hn, -⟩ := h.short hcomplete
    exact absurd hn (Nat.not_lt_zero n)

theorem ok_of_outcome {item : Item} {path : Path} (h : outcome item = .ok path) :
    ∃ entry, item = .ok entry ∧ entry.relativePath = path := by
  cases item with
  | ok entry => exact ⟨entry, rfl, Except.ok.inj h⟩
  | error error => cases h

/-- A listing goes on with its first path, or fails there. -/
theorem lists_cons {complete : Prop} {path : Path} {paths : List Path} {items : List Item}
    (h : EntryTree.Lists complete (path :: paths) items) :
    (∃ entry rest, items = .ok entry :: rest ∧ entry.relativePath = path ∧
      EntryTree.Lists complete paths rest) ∨
    ∃ error rest, items = .error error :: rest ∧ ¬ complete := by
  by_cases hcomplete : complete
  · cases items with
    | nil => cases h.all hcomplete
    | cons item rest =>
      obtain ⟨hitem, hrest⟩ := List.cons.inj (h.all hcomplete)
      obtain ⟨entry, rfl, hpath⟩ := ok_of_outcome hitem
      exact .inl ⟨entry, rest, rfl, hpath, fun _ => hrest, fun hshort => absurd hcomplete hshort⟩
  · obtain ⟨n, resource, hn, heq⟩ := h.short hcomplete
    cases items with
    | nil => cases n <;> cases heq
    | cons item rest =>
      cases n with
      | zero =>
        obtain ⟨hitem, -⟩ := List.cons.inj heq
        cases item with
        | ok entry => cases hitem
        | error error => exact .inr ⟨error, rest, rfl, hcomplete⟩
      | succ n =>
        obtain ⟨hitem, hrest⟩ := List.cons.inj heq
        obtain ⟨entry, rfl, hpath⟩ := ok_of_outcome hitem
        exact .inl ⟨entry, rest, rfl, hpath, fun hall => absurd hall hcomplete, fun _ =>
          ⟨n, resource, Nat.lt_of_succ_lt_succ hn, hrest⟩⟩

section Listing

variable [QubitBudget] {handle : LocalDirectoryHandle} {name : Path} {owner s : LocalTreeRetainedResource}
  {w : World} {α : Type} {post : Except (Option LocalFileError) α → LocalTreeRetainedResource →
    World → Prop}

/-- Total correctness of a part of the cleanup of `owner`, which nobody disturbs. -/
abbrev Ensures (handle : LocalDirectoryHandle) (name : Path) (owner : LocalTreeRetainedResource)
    (post : Except (Option LocalFileError) α → LocalTreeRetainedResource → World → Prop)
    (t : CleanupM α) (s : LocalTreeRetainedResource) (w : World) : Prop :=
  t.Ensures (Undisturbed handle name owner.cleanupLimits.deadline) post s w

theorem ensures_call {c : CleanupCall} {post : Except (Option LocalFileError) c.Result →
      LocalTreeRetainedResource → World → Prop}
    (hprogress : ∃ answer next,
      Undisturbed handle name owner.cleanupLimits.deadline w c answer next)
    (h : ∀ answer next, Undisturbed handle name owner.cleanupLimits.deadline w c answer next →
      post (.ok answer) s next) : Ensures handle name owner post (call c) s w :=
  .ask hprogress h

theorem ensures_ok {β : Type} {b : β} {f : β → CleanupM α} (h : Ensures handle name owner post (f b) s w) :
    Ensures handle name owner post (orExit (.ok b) >>= f) s w := h

/-- A deadline that some reading of the clock is still before. -/
def Pending (owner : LocalTreeRetainedResource) : Prop :=
  ∀ limit ∈ owner.cleanupLimits.deadline, 0 < limit

theorem ensures_checkDeadline {error : LocalFileError} {f : Unit → CleanupM α}
    (hpending : Pending owner) (hs : Retained owner s) (h : Ensures handle name owner post (f ()) s w) :
    Ensures handle name owner post (checkDeadline error >>= f) s w := by
  refine .bind (fun r s' w' => r = .ok () ∧ s' = s ∧ w' = w) ?_ ?_ ?_
  · refine .ask_bind ⟨(0 : Nat), w, hpending, rfl⟩ fun (now : Nat) next hanswer => .get ?_
    obtain ⟨hnow, rfl⟩ := hanswer
    have hlate : (s.cleanupLimits.deadline.any fun deadline => decide (deadline ≤ now)) = false := by
      rw [hs.cleanupLimits]
      cases hdeadline : owner.cleanupLimits.deadline with
      | none => rfl
      | some limit => exact decide_eq_false (not_le.mpr (hnow limit hdeadline))
    rw [hlate]
    exact .pure ⟨rfl, rfl, rfl⟩
  · rintro _ _ _ ⟨-, rfl, rfl⟩
    exact h
  · rintro _ _ _ ⟨⟨⟩, -, -⟩

/-- An outcome that is a value under the condition, and an error otherwise. -/
def Decides (condition : Prop) (good : α → Prop) : Except (Option LocalFileError) α → Prop
  | .ok a => condition ∧ good a
  | .error error => ¬ condition ∧ error.isSome

theorem ensures_registerEntry {relative : Path} {pending : Nat} {metadata : Metadata}
    {identity : LocalFileIdentity} (hs : Retained owner s)
    (hentry : w.tree.entry relative = some metadata) (hidentity : metadata.identity = some identity) :
    Ensures handle name owner (fun r s' w' => s' = s ∧ w' = w ∧
      Decides (Within owner.cleanupLimits pending [relative])
        (· = (pending + encodedLen relative, ⟨relative, metadata.kind, identity⟩)) r)
      (registerEntry relative pending) s w := by
  have hsum : ([relative].map encodedLen).sum = encodedLen relative := by
    rw [List.map_singleton, List.sum_singleton]
  apply Proc.Ensures.get
  rw [hs.cleanupLimits]
  dsimp only
  -- depth, word and path bytes are refused in this order
  split
  next maximum hfilter =>
    obtain ⟨hmaximum, hdeep⟩ := Option.filter_eq_some_iff.mp hfilter
    refine .exit ⟨rfl, rfl, fun hwithin => ?_, rfl⟩
    have hle := hwithin.depth maximum hmaximum relative List.mem_cons_self
    have hlt : maximum < relative.length := of_decide_eq_true hdeep
    omega
  next hfilter =>
    by_cases hword : usizeMax < pending + encodedLen relative
    · rw [if_pos hword]
      refine .exit ⟨rfl, rfl, fun hwithin => ?_, rfl⟩
      have hle := hwithin.pathBytes.trans (pendingLimit_le _)
      omega
    · rw [if_neg hword]
      by_cases hexceeded : pendingExceeded owner.cleanupLimits (pending + encodedLen relative) = true
      · rw [if_pos hexceeded]
        refine .exit ⟨rfl, rfl, fun hwithin => ?_, rfl⟩
        have hlt := (pendingExceeded_iff (not_lt.mp hword)).mp hexceeded
        have hle := hwithin.pathBytes
        omega
      · rw [if_neg hexceeded]
        have hwithin : Within owner.cleanupLimits pending [relative] := by
          refine ⟨fun maximum hmaximum path hpath => ?_, ?_⟩
          · rw [List.mem_singleton.mp hpath]
            by_contra hdeep
            have hsome : owner.cleanupLimits.maxDepth.filter (· < relative.length) = some maximum :=
              Option.filter_eq_some_iff.mpr ⟨hmaximum, decide_eq_true (not_le.mp hdeep)⟩
            rw [hfilter] at hsome
            cases hsome
          · have hle := mt (pendingExceeded_iff (not_lt.mp hword)).mpr hexceeded
            omega
        have hobserves (answer : Except LocalFileError Metadata)
            (h : Observes (w.tree.entry relative) answer) : answer = .ok metadata := by
          rw [hentry] at h
          exact h
        refine .ask_bind ⟨Except.ok metadata, w, by rw [hentry]; rfl, rfl⟩ ?_
        rintro answer next ⟨hanswer, rfl⟩
        rw [hobserves answer hanswer]
        obtain ⟨kind, known⟩ := metadata
        cases hidentity
        show Ensures handle name owner _ (tryReserve >>= _) s next
        refine .ask_bind ⟨true, next, rfl, rfl⟩ ?_
        rintro reserved next ⟨rfl, rfl⟩
        exact .pure ⟨rfl, rfl, hwithin, rfl⟩

/-- What the listing has noted of the entry at `path`. -/
structure Notes (tree : EntryTree) (path : Path) (listed : Listed) : Prop where
  relative : listed.relative = path
  entry : tree.entry path = some ⟨listed.kind, some listed.identity⟩

/-- The next item of a listing, whose turns end with one. -/
theorem undisturbed_nextEntry {deadline : Option Nat} {walker : RootedWalker × Nat}
    {r : Option (Item × RootedWalker × Nat)} (hwalker : w.walker = some walker)
    (hgives : Gives (handle.turns w.tree) walker r) {answer : Option (Except LocalFileError Path)}
    {next : World} : Undisturbed handle name deadline w .nextEntry answer next ↔
      answer = r.map (fun given => given.1.map (·.relativePath)) ∧
        next = { w with walker := r.map (·.2) } := by
  show (match w.walker with
    | some walker => ∃ r, Gives (handle.turns w.tree) walker r ∧
        answer = r.map (fun given => given.1.map (·.relativePath)) ∧
        next = { w with walker := r.map (·.2) }
    | none => answer = none ∧ next = w) ↔ _
  rw [hwalker]
  constructor
  · rintro ⟨r', hgives', hanswer, hnext⟩
    rw [hgives.unique hgives']
    exact ⟨hanswer, hnext⟩
  · exact fun h => ⟨r, hgives, h⟩

/-- The listing loop of the cleanup notes every path that is left, or fails. -/
theorem ensures_listEntries {tree : EntryTree} {complete : Prop} {bound pending : Nat}
    {paths : List Path} {items : List Item} {walker : RootedWalker × Nat} {entries : List Listed}
    (hs : Retained owner s) (hpending : Pending owner) (htree : w.tree = tree)
    (hwalker : w.walker = some walker)
    (hends : Ends (handle.turns tree) walker items) (hlists : EntryTree.Lists complete paths items)
    (hknown : ∀ path ∈ paths, ∃ listed, Notes tree path listed)
    (hwithin : Within owner.cleanupLimits pending [])
    (hbound : paths.length < bound) :
    Ensures handle name owner (fun r s' w' => s' = s ∧ w'.tree = tree ∧ w'.named = w.named ∧
      Decides (complete ∧ Within owner.cleanupLimits pending paths)
        (fun listed => ∃ more, listed = entries ++ more ∧ List.Forall₂ (Notes tree) paths more) r)
      (listEntries bound pending entries) s w := by
  induction bound generalizing pending paths items walker entries w with
  | zero => omega
  | succ bound ih =>
    subst htree
    rcases hends.gives with ⟨rfl, hgives⟩ | ⟨item, rest, walker', rfl, hgives, hends'⟩
    · -- the walker has ended, so no path is left
      refine .ask_bind ⟨none, _, (undisturbed_nextEntry hwalker hgives).mpr ⟨rfl, rfl⟩⟩ ?_
      intro answer next hanswer
      obtain ⟨rfl, rfl⟩ := (undisturbed_nextEntry hwalker hgives).mp hanswer
      cases paths with
      | nil =>
        refine .pure ⟨rfl, rfl, rfl, ⟨(lists_nil hlists).1, hwithin⟩, [], ?_, .nil⟩
        rw [List.append_nil]
      | cons path paths =>
        rcases lists_cons hlists with ⟨_, _, hitems, -⟩ | ⟨_, _, hitems, -⟩
        · cases hitems
        · cases hitems
    · refine .ask_bind ⟨_, _, (undisturbed_nextEntry hwalker hgives).mpr ⟨rfl, rfl⟩⟩ ?_
      intro answer next hanswer
      obtain ⟨rfl, rfl⟩ := (undisturbed_nextEntry hwalker hgives).mp hanswer
      refine ensures_checkDeadline hpending hs ?_
      cases paths with
      | nil => cases (lists_nil hlists).2
      | cons path paths =>
        rcases lists_cons hlists with ⟨entry, _, hitems, hpath, hlists'⟩ | ⟨error, _, hitems, hshort⟩
        · obtain ⟨rfl, rfl⟩ := List.cons.inj hitems
          subst hpath
          rw [List.forall_mem_cons] at hknown
          obtain ⟨⟨listed, hlisted⟩, hknown'⟩ := hknown
          refine ensures_ok (.bind _ (ensures_registerEntry hs hlisted.entry rfl) ?_ ?_)
          · rintro result s' w' ⟨rfl, rfl, hfirst, rfl⟩
            -- the path that is registered counts for those after it
            have hwithin' : Within owner.cleanupLimits
                (pending + encodedLen entry.relativePath) [] := by
              refine ⟨nofun, ?_⟩
              have hle := hfirst.pathBytes
              rw [List.map_singleton, List.sum_singleton] at hle
              exact hle
            refine (ih (w := { w with walker := some walker' }) rfl rfl hends' hlists' hknown'
              hwithin' (Nat.lt_of_succ_lt_succ hbound)).mono ?_
            rintro r s' w' ⟨hs', htree, hnamed, hdecides⟩
            refine ⟨hs', htree, hnamed, ?_⟩
            cases r with
            | error error =>
              exact ⟨fun h => hdecides.1 ⟨h.1, (within_cons.mp h.2).2⟩, hdecides.2⟩
            | ok all =>
              obtain ⟨⟨hcomplete, hrest⟩, more, rfl, hmore⟩ := hdecides
              exact ⟨⟨hcomplete, within_cons.mpr ⟨hfirst, hrest⟩⟩, _, List.append_assoc _ _ _,
                .cons ⟨rfl, hlisted.entry⟩ hmore⟩
          · rintro error s' w' ⟨rfl, rfl, hrefused, herror⟩
            exact ⟨rfl, rfl, rfl, fun h => hrefused (within_cons.mp h.2).1, herror⟩
        · obtain ⟨rfl, rfl⟩ := List.cons.inj hitems
          exact .exit ⟨rfl, rfl, rfl, fun h => hshort h.1, rfl⟩

end Listing

/-! ## 5. The deletions -/

/-- Besides its root the tree consists of the entries `rest`, as they were listed. -/
structure Standing (tree : EntryTree) (rest : List Listed) : Prop where
  noted : ∀ listed ∈ rest, listed.relative ≠ [] ∧ Notes tree listed.relative listed
  only : ∀ path ≠ [], (tree.entry path).isSome → ∃ listed ∈ rest, listed.relative = path
  distinct : (rest.map (·.relative)).Nodup

/-- The deepest of the entries is a leaf. -/
theorem Standing.leaf {tree : EntryTree} {entry : Listed} {rest : List Listed}
    (h : Standing tree (entry :: rest))
    (hdeepest : ∀ other ∈ rest, other.relative.length ≤ entry.relative.length) :
    tree.children entry.relative = [] := by
  by_contra hchildren
  obtain ⟨name, hname⟩ := List.exists_mem_of_ne_nil _ hchildren
  obtain ⟨other, hother, heq⟩ := h.only _ (by simp) ((tree.listed _ _).mp hname)
  have hdeeper : other.relative.length = entry.relative.length + 1 := by
    rw [heq, List.length_append]
    rfl
  rcases List.mem_cons.mp hother with rfl | hrest
  · omega
  · have hle := hdeepest other hrest
    omega

theorem Standing.remove {tree : EntryTree} {entry : Listed} {rest : List Listed}
    (h : Standing tree (entry :: rest)) (hroot : entry.relative ≠ [])
    (hleaf : tree.children entry.relative = []) :
    Standing (tree.remove entry.relative hroot hleaf) rest := by
  obtain ⟨hfresh, hdistinct⟩ := List.nodup_cons.mp h.distinct
  refine ⟨fun listed hlisted => ?_, fun path hpath hsome => ?_, hdistinct⟩
  · obtain ⟨hne, hnotes⟩ := h.noted listed (List.mem_cons_of_mem _ hlisted)
    have hother : listed.relative ≠ entry.relative := by
      intro heq
      apply hfresh
      show entry.relative ∈ _
      rw [← heq]
      exact List.mem_map_of_mem hlisted
    refine ⟨hne, rfl, ?_⟩
    rw [EntryTree.remove_entry, if_neg hother]
    exact hnotes.entry
  · rw [EntryTree.remove_entry] at hsome
    split at hsome
    · cases hsome
    · rename_i hother
      obtain ⟨listed, hlisted, heq⟩ := h.only path hpath hsome
      rcases List.mem_cons.mp hlisted with rfl | hrest
      · exact absurd heq.symm hother
      · exact ⟨listed, hrest, heq⟩

/-- A leaf of the right kind is deleted. -/
theorem deletion_leaf [QubitBudget] {w : World} {path : Path} {metadata : Metadata} {directory : Prop}
    (hroot : path ≠ []) (hleaf : w.tree.children path = [])
    (hentry : w.tree.entry path = some metadata) (hkind : metadata.kind = .directory ↔ directory)
    {answer : Except LocalFileError Unit} {w' : World} :
    Deletion w path directory answer w' ↔
      answer = .ok () ∧ w' = { w with tree := w.tree.remove path hroot hleaf } := by
  constructor
  · rintro (⟨_, _, _, _, _, hanswer, hw⟩ | ⟨hrefused, _, _⟩)
    · exact ⟨hanswer, hw⟩
    · rcases hrefused with hempty | hchildren | hother
      · exact absurd hempty hroot
      · exact absurd hleaf hchildren
      · exact absurd hkind (hother metadata hentry)
  · rintro ⟨hanswer, hw⟩
    exact .inl ⟨hroot, hleaf, metadata, hentry, hkind, hanswer, hw⟩

section Deletions

variable [QubitBudget] {handle : LocalDirectoryHandle} {name : Path} {owner s : LocalTreeRetainedResource}
  {w : World}

theorem ensures_deleteByKind {entry : Listed} (hroot : entry.relative ≠ [])
    (hleaf : w.tree.children entry.relative = []) (hnotes : Notes w.tree entry.relative entry) :
    Ensures handle name owner (fun r s' w' => r = .ok (.ok ()) ∧ s' = s ∧
      w' = { w with tree := w.tree.remove entry.relative hroot hleaf }) (deleteByKind entry) s w := by
  unfold deleteByKind
  split
  next hkind =>
    have hdeletes {answer : Except LocalFileError Unit} {w' : World} :
        Deletion w entry.relative True answer w' ↔ _ :=
      deletion_leaf hroot hleaf hnotes.entry (iff_of_true hkind trivial)
    refine ensures_call (c := .deleteDirectory entry.relative {})
      ⟨Except.ok (), _, hdeletes.mpr ⟨rfl, rfl⟩⟩ fun answer next hanswer => ?_
    obtain ⟨rfl, rfl⟩ := hdeletes.mp hanswer
    exact ⟨rfl, rfl, rfl⟩
  next hkind =>
    have hdeletes {answer : Except LocalFileError Unit} {w' : World} :
        Deletion w entry.relative False answer w' ↔ _ :=
      deletion_leaf hroot hleaf hnotes.entry (iff_of_false hkind id)
    refine ensures_call (c := .deleteFile entry.relative {})
      ⟨Except.ok (), _, hdeletes.mpr ⟨rfl, rfl⟩⟩ fun answer next hanswer => ?_
    obtain ⟨rfl, rfl⟩ := hdeletes.mp hanswer
    exact ⟨rfl, rfl, rfl⟩

/-- Nothing is left of the tree but its root and the entries `rest`. -/
structure Deleted (owner : LocalTreeRetainedResource) (w : World) (rest : List Listed)
    (r : Except (Option LocalFileError) Unit) (s' : LocalTreeRetainedResource) (w' : World) :
    Prop where
  ok : r = .ok ()
  retained : Retained owner s'
  standing : Standing w'.tree rest
  named : w'.named = w.named
  root : w'.tree.entry [] = w.tree.entry []

theorem ensures_deleteEntry {entry : Listed} {rest : List Listed} (hs : Retained owner s)
    (hpending : Pending owner) (hstanding : Standing w.tree (entry :: rest))
    (hdeepest : ∀ other ∈ rest, other.relative.length ≤ entry.relative.length)
    (howned : ∀ owned, owner.ownedEntries entry.relative = some owned → owned = entry.identity) :
    Ensures handle name owner (Deleted owner w rest) (deleteEntry entry) s w := by
  obtain ⟨hroot, hnotes⟩ := hstanding.noted entry List.mem_cons_self
  have hleaf := hstanding.leaf hdeepest
  refine ensures_checkDeadline hpending hs ?_
  refine .ask_bind ⟨Except.ok ⟨entry.kind, some entry.identity⟩, w, ?_, rfl⟩ ?_
  · rw [hnotes.entry]
    rfl
  · rintro answer next ⟨hanswer, rfl⟩
    rw [hnotes.entry] at hanswer
    obtain rfl : answer = Except.ok _ := hanswer
    refine ensures_ok (.get ?_)
    have hsame : ((s.ownedEntries entry.relative).any fun owned =>
        decide (some entry.identity ≠ some owned)) = false := by
      rw [hs.ownedEntries]
      cases hrecord : owner.ownedEntries entry.relative with
      | none => rfl
      | some owned =>
        rw [howned owned hrecord]
        exact decide_eq_false (not_not.mpr rfl)
    rw [if_neg (not_not.mpr rfl), hsame, if_neg Bool.false_ne_true]
    refine .bind _ (ensures_deleteByKind hroot hleaf hnotes) ?_ ?_
    · rintro result s' w' ⟨heq, rfl, rfl⟩
      obtain rfl := Except.ok.inj heq
      refine .modify_bind (.pure ⟨rfl, hs.mutated .started, hstanding.remove hroot hleaf, rfl, ?_⟩)
      exact if_neg hroot.symm
    · rintro error s' w' ⟨⟨⟩, -, -⟩

theorem ensures_deleteEntries {rest : List Listed} (hs : Retained owner s)
    (hpending : Pending owner) (hstanding : Standing w.tree rest)
    (hsorted : rest.Pairwise fun a b => b.relative.length ≤ a.relative.length)
    (howned : ∀ entry ∈ rest, ∀ owned, owner.ownedEntries entry.relative = some owned →
      owned = entry.identity) :
    Ensures handle name owner (Deleted owner w []) (deleteEntries rest) s w := by
  induction rest generalizing s w with
  | nil => exact .pure ⟨rfl, hs, hstanding, rfl, rfl⟩
  | cons entry rest ih =>
    obtain ⟨hdeepest, hrest⟩ := List.pairwise_cons.mp hsorted
    rw [List.forall_mem_cons] at howned
    refine .bind _ (ensures_deleteEntry hs hpending hstanding hdeepest howned.1) ?_ ?_
    · intro _ s' w' hdeleted
      refine (ih hdeleted.retained hdeleted.standing hrest howned.2).mono fun r s'' w'' h => ?_
      exact ⟨h.ok, h.retained, h.standing, h.named.trans hdeleted.named, h.root.trans hdeleted.root⟩
    · intro error s' w' hdeleted
      cases hdeleted.ok

end Deletions

/-! ## 6. The whole cleanup -/

/-- Nothing makes a call of the cleanup fail: the deadline is not reached, the handle resolves
    every path, and the tree is the one that the owner knows.  Without a handle of its own the
    owner has emptied the tree before. -/
structure Quiet [QubitBudget] (handle : LocalDirectoryHandle) (owner : LocalTreeRetainedResource) (w : World) :
    Prop where
  pending : Pending owner
  inRange : ∀ limit ∈ owner.cleanupLimits.deadline, handle.startedAt + limit ≤ handle.clockEnd
  inTime : ∀ limit ∈ owner.cleanupLimits.deadline, ∀ k, handle.clock k < handle.startedAt + limit
  accepts : ∀ path ∈ w.tree.entries, handle.contract.Accepts w.tree.measure path
  known : ∀ path ∈ w.tree.entries, ∃ kind identity, w.tree.entry path = some ⟨kind, some identity⟩ ∧
    ∀ owned, owner.ownedEntries path = some owned → owned = identity
  root : ∃ kind identity, w.tree.entry [] = some ⟨kind, some identity⟩ ∧
    owner.identity = some identity
  named : w.named = true
  child : owner.child = false → w.tree.entries = []

theorem map_relative {tree : EntryTree} {paths : List Path} {entries : List Listed}
    (h : List.Forall₂ (Notes tree) paths entries) : entries.map (·.relative) = paths := by
  induction h with
  | nil => rfl
  | cons hnotes _ ih => rw [List.map_cons, hnotes.relative, ih]

theorem notes_of_mem {tree : EntryTree} {paths : List Path} {entries : List Listed}
    (h : List.Forall₂ (Notes tree) paths entries) :
    ∀ listed ∈ entries, Notes tree listed.relative listed := by
  induction h with
  | nil => nofun
  | cons hnotes _ ih =>
    rw [List.forall_mem_cons]
    exact ⟨⟨rfl, hnotes.relative ▸ hnotes.entry⟩, ih⟩

/-- What the listing has noted is the whole tree. -/
theorem standing_of_notes {tree : EntryTree} {entries : List Listed}
    (h : List.Forall₂ (Notes tree) tree.entries entries) :
    Standing tree (deepestFirst entries) ∧ ∀ listed ∈ entries, listed.relative ∈ tree.entries := by
  have hperm := deepestFirst_perm entries
  have hpaths := map_relative h
  have hmem (listed : Listed) (hlisted : listed ∈ entries) : listed.relative ∈ tree.entries := by
    rw [← hpaths]
    exact List.mem_map_of_mem hlisted
  refine ⟨⟨fun listed hlisted => ?_, fun path hpath hsome => ?_, ?_⟩, hmem⟩
  · rw [hperm.mem_iff] at hlisted
    exact ⟨(EntryTree.mem_entries.mp (hmem listed hlisted)).1, notes_of_mem h listed hlisted⟩
  · have hentry := EntryTree.mem_entries.mpr ⟨hpath, hsome⟩
    rw [← hpaths, List.mem_map] at hentry
    obtain ⟨listed, hlisted, heq⟩ := hentry
    exact ⟨listed, hperm.mem_iff.mpr hlisted, heq⟩
  · rw [(hperm.map _).nodup_iff, hpaths]
    exact EntryTree.nodup_entries

section Whole

variable [QubitBudget] {handle : LocalDirectoryHandle} {name : Path} {owner s : LocalTreeRetainedResource}
  {w : World}

/-- The listing opens, and it comes to an end. -/
theorem listing_opens (hquiet : Quiet handle owner w) :
    ∃ walker items, handle.listWithOptions w.tree (listOptions owner.cleanupLimits) = .ok walker ∧
      Ends (handle.turns w.tree) (walker, 0) items ∧
      EntryTree.Lists (EntryTree.Covers w.tree handle.contract (listOptions owner.cleanupLimits))
        w.tree.entries items := by
  have hdeadline : walkerDeadline handle.clockEnd (handle.diagnosticPath ++ [])
      (listOptions owner.cleanupLimits) handle.startedAt =
      .ok (owner.cleanupLimits.deadline.map (handle.startedAt + ·)) := by
    unfold walkerDeadline listOptions
    cases hlimit : owner.cleanupLimits.deadline with
    | none => rfl
    | some limit => exact if_pos (hquiet.inRange limit hlimit)
  have hopen : RootedWalker.openRooted (w.tree.rootedNative handle.diagnosticPath handle.contract
      handle.resolveSymlinks) handle.clockEnd [] handle.namespaceRoot
      (listOptions owner.cleanupLimits) .reject handle.startedAt = .ok _ :=
    EntryTree.openRooted_eq _ _ handle.namespaceRoot rfl hdeadline
  obtain ⟨items, hends, hlists⟩ := EntryTree.listing_ends handle.diagnosticPath
    handle.resolveSymlinks hopen (.inl rfl) rfl rfl rfl hquiet.inTime handle.currentDirectory
  refine ⟨_, items, ?_, hends, hlists⟩
  unfold LocalDirectoryHandle.listWithOptions
  rw [hopen]
  rfl

theorem ensures_emptyChild {bound : Nat} (hquiet : Quiet handle owner w) (hs : Retained owner s)
    (hzero : owner.cleanupLimits.maxEntries ≠ some 0)
    (hpath : Within owner.cleanupLimits owner.pathBytes.toNat [])
    (hbound : w.tree.entries.length < bound) :
    Ensures handle name owner (fun r s' w' => Retained owner s' ∧ w'.named = w.named ∧
      w'.tree.entry [] = w.tree.entry [] ∧
      Decides (Fits owner.cleanupLimits owner.pathBytes w.tree) (fun _ => w'.tree.children [] = []) r ∧
      (r.isOk ∨ w'.tree = w.tree)) (emptyChild bound) s w := by
  obtain ⟨walker, items, hopen, hends, hlists⟩ := listing_opens hquiet
  have hlist (answer : Except LocalFileError Unit) (next : World) :
      Undisturbed handle name owner.cleanupLimits.deadline w
        (.list (listOptions owner.cleanupLimits)) answer next ↔
        answer = .ok () ∧ next = { w with walker := some (walker, 0) } := by
    show (match handle.listWithOptions w.tree (listOptions owner.cleanupLimits) with
      | .ok walker => answer = .ok () ∧ next = { w with walker := some (walker, 0) }
      | .error error => answer = .error error ∧ next = w) ↔ _
    rw [hopen]
  have hknown (path : Path) (hpath : path ∈ w.tree.entries) : ∃ listed, Notes w.tree path listed := by
    obtain ⟨kind, identity, hentry, -⟩ := hquiet.known path hpath
    exact ⟨⟨path, kind, identity⟩, rfl, hentry⟩
  refine .get ?_
  rw [hs.cleanupLimits, hs.pathBytes]
  refine .ask_bind ⟨Except.ok (), _, (hlist _ _).mpr ⟨rfl, rfl⟩⟩ fun answer next hanswer => ?_
  obtain ⟨rfl, rfl⟩ := (hlist _ _).mp hanswer
  refine ensures_ok (.bind _ (ensures_listEntries (w := { w with walker := some (walker, 0) }) hs
    hquiet.pending rfl rfl hends hlists hknown hpath hbound) ?_ ?_)
  · rintro entries s' w' ⟨rfl, htree, hnamed, hcovers, _, rfl, hnotes⟩
    obtain ⟨hstanding, hmem⟩ := standing_of_notes hnotes
    -- what is deleted has the identity that was recorded
    have howned (entry : Listed) (hentry : entry ∈ deepestFirst entries) (owned : LocalFileIdentity)
        (hrecord : owner.ownedEntries entry.relative = some owned) : owned = entry.identity := by
      rw [(deepestFirst_perm entries).mem_iff] at hentry
      obtain ⟨kind, identity, hfound, hsame⟩ := hquiet.known _ (hmem entry hentry)
      rw [(notes_of_mem hnotes entry hentry).entry] at hfound
      obtain ⟨-, heq⟩ := Metadata.mk.inj (Option.some.inj hfound)
      rw [hsame owned hrecord, Option.some.inj heq]
    refine .bind _ (ensures_deleteEntries hs hquiet.pending (by rw [htree]; exact hstanding)
      (pairwise_deepestFirst entries) howned) ?_ ?_
    · rintro _ s'' w'' hdeleted
      refine .modify ⟨hdeleted.retained.holding false, hdeleted.named.trans hnamed, ?_, ?_, .inl rfl⟩
      · rw [hdeleted.root, htree]
      · refine ⟨(fits_iff hzero hquiet.accepts).mpr hcovers, ?_⟩
        -- a child that is left would stand for an entry that was not deleted
        by_contra hchildren
        obtain ⟨child, hchild⟩ := List.exists_mem_of_ne_nil _ hchildren
        obtain ⟨listed, hlisted, -⟩ := hdeleted.standing.only [child] (List.cons_ne_nil _ _)
          ((w''.tree.listed [] child).mp hchild)
        cases hlisted
    · intro error s'' w'' hdeleted
      cases hdeleted.ok
  · rintro error s' w' ⟨rfl, htree, hnamed, hcovers, herror⟩
    refine ⟨hs, hnamed, by rw [htree], ⟨?_, herror⟩, .inr htree⟩
    exact fun hfits => hcovers ((fits_iff hzero hquiet.accepts).mp hfits)

/-- The parent still binds the name of the tree to the captured object. -/
structure Bound (owner : LocalTreeRetainedResource) (w : World) : Prop where
  named : w.named = true
  root : ∃ kind identity, w.tree.entry [] = some ⟨kind, some identity⟩ ∧
    owner.identity = some identity

theorem ensures_observe {f : Except LocalFileError Metadata → CleanupM Unit}
    {post : Except (Option LocalFileError) Unit → LocalTreeRetainedResource → World → Prop}
    (hbound : Bound owner w) (hs : Retained owner s)
    (h : ∀ observation, s.bindingMatches observation = true →
      Ensures handle owner.relative owner post (f (.ok observation)) s w) :
    Ensures handle owner.relative owner post (observe s.relative >>= f) s w := by
  obtain ⟨kind, identity, hroot, hidentity⟩ := hbound.root
  have hobserved (answer : Except LocalFileError Metadata) :
      (s.relative = owner.relative → Observes (if w.named then w.tree.entry [] else none) answer) ↔
        answer = .ok ⟨kind, some identity⟩ := by
    rw [hbound.named, if_pos rfl, hroot]
    exact ⟨fun hanswer => hanswer hs.relative, fun hanswer _ => hanswer⟩
  refine .ask_bind ⟨Except.ok ⟨kind, some identity⟩, w, (hobserved _).mpr rfl, rfl⟩ ?_
  rintro answer next ⟨hanswer, rfl⟩
  obtain rfl := (hobserved _).mp hanswer
  apply h
  unfold LocalTreeRetainedResource.bindingMatches
  rw [hs.identity, hidentity]
  exact decide_eq_true rfl

theorem ensures_beginCleanup (hpending : Pending owner) (hbound : Bound owner w)
    (hs : Retained owner s) :
    Ensures handle owner.relative owner (fun r s' w' => s' = s ∧ w' = w ∧
      Decides (owner.cleanupLimits.maxEntries ≠ some 0 ∧
        Within owner.cleanupLimits owner.pathBytes.toNat []) (fun _ => True) r) beginCleanup s w := by
  have hexceeded : pendingExceeded owner.cleanupLimits owner.pathBytes.toNat = true ↔
      ¬ Within owner.cleanupLimits owner.pathBytes.toNat [] := by
    rw [pendingExceeded_iff (Nat.le_pred_of_lt owner.pathBytes.toNat_lt), ← not_le]
    exact not_congr ⟨fun hle => ⟨nofun, hle⟩, fun hwithin => hwithin.pathBytes⟩
  refine .get ?_
  rw [hs.cleanupLimits, hs.pathBytes]
  by_cases hzero : owner.cleanupLimits.maxEntries = some 0
  · rw [if_pos hzero]
    exact .exit ⟨rfl, rfl, fun h => h.1 hzero, rfl⟩
  · rw [if_neg hzero]
    refine ensures_checkDeadline hpending hs ?_
    by_cases hwithin : Within owner.cleanupLimits owner.pathBytes.toNat []
    · rw [if_neg (mt hexceeded.mp (not_not.mpr hwithin))]
      refine ensures_observe hbound hs fun observation hmatches => ensures_ok ?_
      rw [if_pos hmatches]
      exact .pure ⟨rfl, rfl, ⟨hzero, hwithin⟩, trivial⟩
    · rw [if_pos (hexceeded.mpr hwithin)]
      exact .exit ⟨rfl, rfl, fun h => hwithin h.2, rfl⟩

theorem ensures_deleteRoot (hpending : Pending owner) (hbound : Bound owner w)
    (hs : Retained owner s) (hempty : w.tree.children [] = []) :
    Ensures handle owner.relative owner (fun r s' w' => r = .ok () ∧ Retained owner s' ∧
      w' = { w with named := false }) deleteRoot s w := by
  refine .get (ensures_checkDeadline hpending hs ?_)
  refine ensures_observe hbound hs fun observation hmatches => ensures_ok ?_
  rw [if_pos hmatches]
  refine ensures_checkDeadline hpending hs (.modify_bind ?_)
  have hdeletes (answer : Except LocalFileError Unit) (next : World) :
      Undisturbed handle owner.relative owner.cleanupLimits.deadline w (.deleteRoot s.relative {})
        answer next ↔ answer = .ok () ∧ next = { w with named := false } :=
    iff_of_eq (if_pos ⟨hs.relative, hbound.named, hempty⟩)
  refine .ask_bind ⟨Except.ok (), _, (hdeletes _ _).mpr ⟨rfl, rfl⟩⟩ fun answer next hanswer => ?_
  obtain ⟨rfl, rfl⟩ := (hdeletes _ _).mp hanswer
  exact .pure ⟨rfl, hs.mutated .started, rfl⟩

/-- How an undisturbed cleanup ends. -/
structure Settles (owner : LocalTreeRetainedResource) (w : World)
    (r : Except (Option LocalFileError) Unit) (w' : World) : Prop where
  decides : Decides (Fits owner.cleanupLimits owner.pathBytes w.tree) (fun _ => w'.named = false) r
  untouched : r.isOk ∨ w'.tree = w.tree ∧ w'.named = true

theorem ensures_cleanupInner {bound : Nat} (hquiet : Quiet handle owner w)
    (harmed : owner.cleanupArmed = true) (hbound : w.tree.entries.length < bound) :
    Ensures handle owner.relative owner (fun r s' w' => Retained owner s' ∧ Settles owner w r w')
      (cleanupInner bound) owner w := by
  have hnamed : Bound owner w := ⟨hquiet.named, hquiet.root⟩
  have hs := Retained.refl owner
  refine .get ?_
  rw [if_pos harmed]
  refine .bind _ (ensures_beginCleanup hquiet.pending hnamed hs) ?_ ?_
  · rintro _ s' w' ⟨rfl, rfl, ⟨hzero, hpath⟩, -⟩
    dsimp only
    split
    next hchild =>
      refine .bind _ (ensures_emptyChild hquiet hs hzero hpath hbound) ?_ ?_
      · rintro _ s'' w'' ⟨hs', hnamed', hroot', ⟨hfits, hempty⟩, -⟩
        have hnamed'' : Bound s' w'' := ⟨hnamed'.trans hquiet.named, hroot' ▸ hquiet.root⟩
        refine (ensures_deleteRoot hquiet.pending hnamed'' hs' hempty).mono ?_
        rintro r _ _ ⟨rfl, hretained, rfl⟩
        exact ⟨hretained, ⟨hfits, rfl⟩, .inl rfl⟩
      · rintro error s'' w'' ⟨hs', hnamed', -, hshort, huntouched⟩
        refine ⟨hs', hshort, .inr ⟨?_, hnamed'.trans hquiet.named⟩⟩
        exact huntouched.resolve_left Bool.false_ne_true
    next hchild =>
      have hempty := hquiet.child (Bool.eq_false_iff.mpr hchild)
      -- a directory without a child has nothing in it
      have hleaf : w'.tree.children [] = [] := by
        by_contra hchildren
        obtain ⟨child, hmem⟩ := List.exists_mem_of_ne_nil _ hchildren
        have hentry : [child] ∈ w'.tree.entries := EntryTree.mem_entries.mpr
          ⟨List.cons_ne_nil _ _, (w'.tree.listed [] child).mp hmem⟩
        rw [hempty] at hentry
        cases hentry
      have hfits : Fits s'.cleanupLimits s'.pathBytes w'.tree := by
        refine ⟨⟨fun maximum hmaximum => ?_, fun maximum _ => ?_, ?_⟩, fun maximum _ => ?_⟩
        · rw [hempty]
          have hpos : maximum ≠ 0 := by
            rintro rfl
            exact hzero hmaximum
          exact Nat.pos_of_ne_zero hpos
        · rw [hempty]
          nofun
        · rw [hempty]
          exact hpath.pathBytes
        · rw [hempty]
          exact Nat.zero_le _
      refine (ensures_deleteRoot hquiet.pending hnamed hs hleaf).mono ?_
      rintro r _ _ ⟨rfl, hretained, rfl⟩
      exact ⟨hretained, ⟨hfits, rfl⟩, .inl rfl⟩
  · -- the limits refuse before anything is touched
    rintro error s' w' ⟨rfl, rfl, hshort, herror⟩
    refine ⟨hs, ⟨fun hfits => hshort ⟨?_, nofun, ?_⟩, herror⟩, .inr ⟨rfl, hquiet.named⟩⟩
    · intro hzero
      have hle := hfits.entries 0 hzero
      omega
    · have hle := hfits.pathBytes
      show _ + 0 ≤ _
      omega

theorem ensures_cleanup {bound : Nat} (hquiet : Quiet handle owner w)
    (harmed : owner.cleanupArmed = true) (hbound : w.tree.entries.length < bound) :
    Ensures handle owner.relative owner (fun r s' w' => Settles owner w r w' ∧
      (r.isOk → s'.cleanupArmed = false)) (cleanup bound) owner w := by
  refine .bind _ (ensures_cleanupInner hquiet harmed hbound) ?_ ?_
  · rintro _ s' w' ⟨-, hsettles⟩
    exact .modify ⟨hsettles, fun _ => rfl⟩
  · rintro error s' w' ⟨-, hsettles⟩
    exact ⟨hsettles, nofun⟩

end Whole

/-! ## 7. Guarded, complete and resumable -/

/-- The runs of a cleanup that nobody disturbs. -/
abbrev CleansUp [QubitBudget] (handle : LocalDirectoryHandle) (owner : LocalTreeRetainedResource) (bound : Nat)
    (w : World) (tr : CleanupHistory) (w' : World) (r : Except (Option LocalFileError) Unit)
    (s' : LocalTreeRetainedResource) : Prop :=
  (cleanup bound owner).RunsIn
    (fun w c => Undisturbed handle owner.relative owner.cleanupLimits.deadline w c.2) w tr w' (r, s')

/-- Whatever the calls are answered, a cleanup keeps the discipline. -/
theorem runs_cleanup {owner s' : LocalTreeRetainedResource} {bound : Nat} {tr : CleanupHistory}
    {r : Except (Option LocalFileError) Unit} (h : (cleanup bound).Runs owner tr r s') :
    (discipline owner).Kept [] tr ∧ ∀ error, r = .error error → Retained owner s' := by
  have hcleanup : Guards owner (Phase (none, [])) (cleanupInner bound) fun _ _ => True :=
    guards_cleanupInner bound
  have hstart : Retained owner owner ∧ Phase (none, []) [] := ⟨.refl owner, .start⟩
  obtain ⟨error, rfl, hinner⟩ | ⟨tr₁, tr₂, _, mid, rfl, hinner, hdone⟩ := Proc.runs_bind.mp h
  · obtain ⟨hkept, -, herror⟩ := hcleanup [] owner tr _ s' hstart hinner fun _ _ => trivial
    refine ⟨hkept, ?_⟩
    rintro _ ⟨⟩
    exact herror error rfl
  · obtain ⟨rfl, rfl, rfl⟩ := Proc.runs_modify.mp hdone
    obtain ⟨hkept, -⟩ := hcleanup [] owner tr₁ _ mid hstart hinner fun _ _ => trivial
    rw [List.append_nil]
    refine ⟨hkept, ?_⟩
    rintro _ ⟨⟩

theorem runs_drop {owner s' : LocalTreeRetainedResource} {bound : Nat} {tr : CleanupHistory}
    {r : Except (Option LocalFileError) (Except (Option LocalFileError) Unit)}
    (h : (drop bound).Runs owner tr r s') : (discipline owner).Kept [] tr := by
  have hcleanup : Guards owner (Phase (none, [])) (cleanupInner bound) fun _ _ => True :=
    guards_cleanupInner bound
  obtain ⟨r', -, hinner⟩ := Proc.runs_outcome.mp h
  exact (hcleanup [] owner tr r' s' ⟨.refl owner, .start⟩ hinner fun _ _ => trivial).1

/-- An owner that is disarmed does nothing. -/
theorem runs_disarmed {owner s' : LocalTreeRetainedResource} {bound : Nat} {tr : CleanupHistory}
    {r : Except (Option LocalFileError) Unit} (hdisarmed : owner.cleanupArmed = false)
    (h : (cleanup bound).Runs owner tr r s') : tr = [] := by
  have hinner : cleanupInner bound owner = .ret (.ok (), owner) := by
    have hskip : cleanupInner bound owner = (if owner.cleanupArmed then do
        beginCleanup
        if owner.child then emptyChild bound else pure ()
        deleteRoot
      else pure () : CleanupM Unit) owner := rfl
    rw [hskip, hdisarmed]
    rfl
  obtain ⟨error, -, hruns⟩ | ⟨tr₁, tr₂, _, mid, rfl, hruns, hdone⟩ := Proc.runs_bind.mp h
  · unfold Proc.Runs at hruns
    rw [hinner] at hruns
    exact hruns.1
  · unfold Proc.Runs at hruns
    rw [hinner] at hruns
    rw [hruns.1, (Proc.runs_modify.mp hdone).1, List.append_nil]

/-- Whatever the calls are answered, a cleanup deletes only what it has just identified and only
    after what is below it, and a failure leaves the owner as it was.  If nobody disturbs it, it
    removes the whole tree or, when the limits do not cover the tree, nothing; on Unix it is the
    number, the depth and the bytes of the paths that they have to cover. -/
theorem cleanup_guarded_and_complete [QubitBudget] (owner : LocalTreeRetainedResource) (bound : Nat) :
    (∀ tr r s', (cleanup bound).Runs owner tr r s' → (discipline owner).Kept [] tr ∧
      (owner.cleanupArmed = false → tr = []) ∧
      ∀ error, r = .error error → Retained owner s') ∧
    (∀ tr r s', (drop bound).Runs owner tr r s' → (discipline owner).Kept [] tr) ∧
    ∀ handle w, owner.cleanupArmed = true → Quiet handle owner w → w.tree.entries.length < bound →
      (∃ tr w' r s', CleansUp handle owner bound w tr w' r s') ∧
      ∀ tr w' r s', CleansUp handle owner bound w tr w' r s' →
        (Fits owner.cleanupLimits owner.pathBytes w.tree →
          r = .ok () ∧ w'.named = false ∧ s'.cleanupArmed = false) ∧
        (¬ Fits owner.cleanupLimits owner.pathBytes w.tree →
          (∃ error, r = .error (some error)) ∧ w'.tree = w.tree ∧ w'.named = true) ∧
        (w.tree.measure = .unix → (Fits owner.cleanupLimits owner.pathBytes w.tree ↔
          PathsFit owner.cleanupLimits owner.pathBytes w.tree)) := by
  refine ⟨fun tr r s' hruns => ?_, fun tr r s' hruns => runs_drop hruns,
    fun handle w harmed hquiet hbound => ?_⟩
  · obtain ⟨hkept, herror⟩ := runs_cleanup hruns
    exact ⟨hkept, fun hdisarmed => runs_disarmed hdisarmed hruns, herror⟩
  · have hensures := ensures_cleanup hquiet harmed hbound
    constructor
    · obtain ⟨tr, w', ⟨r, s'⟩, hrun⟩ := Prog.Ensures.exists_run hensures
      exact ⟨tr, w', r, s', hrun⟩
    · intro tr w' r s' hrun
      obtain ⟨⟨hdecides, huntouched⟩, hdisarmed⟩ := Prog.Ensures.runsIn hensures hrun
      cases r with
      | ok _ =>
        exact ⟨fun _ => ⟨rfl, hdecides.2, hdisarmed rfl⟩, fun hshort => absurd hdecides.1 hshort,
          fits_unix⟩
      | error error =>
        refine ⟨fun hfits => absurd hfits hdecides.1, fun _ => ⟨?_, ?_⟩, fits_unix⟩
        · obtain ⟨cause, hcause⟩ := Option.isSome_iff_exists.mp hdecides.2
          exact ⟨cause, by rw [hcause]⟩
        · exact huntouched.resolve_left Bool.false_ne_true

section Samples

open scoped QubitBudget

/-- A tree with a file in its only directory. -/
def sampleEntry (path : Path) : Option Metadata :=
  if path = [] then some ⟨.directory, some ⟨1, 1⟩⟩
  else if path = ["d"] then some ⟨.directory, some ⟨1, 2⟩⟩
  else if path = ["d", "f"] then some ⟨.file, some ⟨1, 3⟩⟩
  else none

theorem sampleEntry_cases {path : Path} {metadata : Metadata} (h : sampleEntry path = some metadata) :
    path = [] ∧ metadata = ⟨.directory, some ⟨1, 1⟩⟩ ∨
      path = ["d"] ∧ metadata = ⟨.directory, some ⟨1, 2⟩⟩ ∨
      path = ["d", "f"] ∧ metadata = ⟨.file, some ⟨1, 3⟩⟩ := by
  unfold sampleEntry at h
  split at h
  · exact .inl ⟨‹_›, (Option.some.inj h).symm⟩
  · split at h
    · exact .inr (.inl ⟨‹_›, (Option.some.inj h).symm⟩)
    · split at h
      · exact .inr (.inr ⟨‹_›, (Option.some.inj h).symm⟩)
      · cases h

def sampleTree : EntryTree where
  measure := .unix
  entry := sampleEntry
  children path := if path = [] then ["d"] else if path = ["d"] then ["f"] else []
  paths := {[], ["d"], ["d", "f"]}
  mem_paths path h := by
    obtain ⟨metadata, hentry⟩ := Option.isSome_iff_exists.mp h
    rcases sampleEntry_cases hentry with ⟨rfl, -⟩ | ⟨rfl, -⟩ | ⟨rfl, -⟩ <;> decide
  root := ⟨_, rfl, rfl⟩
  nodup path := by
    split
    · decide
    · split <;> decide
  listed path name := by
    rcases path with _ | ⟨first, _ | ⟨second, rest⟩⟩ <;> simp [sampleEntry]
  parent path name h := by
    rcases path with _ | ⟨first, _ | ⟨second, rest⟩⟩
    · exact ⟨_, rfl, rfl⟩
    · have hfirst : first = "d" := by
        by_contra hne
        simp [sampleEntry, hne] at h
      exact ⟨_, by rw [hfirst]; rfl, rfl⟩
    · simp [sampleEntry] at h
  normal path h := by
    obtain ⟨metadata, hentry⟩ := Option.isSome_iff_exists.mp h
    rcases sampleEntry_cases hentry with ⟨rfl, -⟩ | ⟨rfl, -⟩ | ⟨rfl, -⟩ <;> decide
  distinct path path' metadata metadata' identity h h' hkind hkind' hid hid' := by
    rcases sampleEntry_cases h with ⟨rfl, rfl⟩ | ⟨rfl, rfl⟩ | ⟨rfl, rfl⟩ <;>
      rcases sampleEntry_cases h' with ⟨rfl, rfl⟩ | ⟨rfl, rfl⟩ | ⟨rfl, rfl⟩ <;>
      first
      | rfl
      | exact absurd (hid.trans hid'.symm) (by decide)

theorem sampleTree_entries : sampleTree.entries = [["d"], ["d", "f"]] := by decide +kernel

def sampleOwner : LocalTreeRetainedResource where
  path := ["srv", "stage"]
  pathBytes := 10
  relative := ["stage"]
  identity := some ⟨1, 1⟩
  child := true
  cleanupLimits := { maxEntries := some 3, maxDepth := some 2, maxPendingPathBytes := some 14 }

def sampleHandle : LocalDirectoryHandle where
  diagnosticPath := ["srv", "stage"]
  namespaceRoot := []
  currentDirectory := none
  contract := .unrestricted
  resolveSymlinks path _ _ := .ok path
  clock _ := 0
  clockEnd := 0
  startedAt := 0

theorem sampleOwner_quiet : Quiet sampleHandle sampleOwner { tree := sampleTree } where
  pending _ h := nomatch h
  inRange _ h := nomatch h
  inTime _ h := nomatch h
  accepts path _ := ResolutionContract.unrestricted_accepts .unix path
  known path h := by
    rw [show World.tree { tree := sampleTree } = sampleTree from rfl, sampleTree_entries] at h
    rcases List.mem_cons.mp h with rfl | h
    · exact ⟨_, _, rfl, nofun⟩
    · rw [List.mem_singleton.mp h]
      exact ⟨_, _, rfl, nofun⟩
  root := ⟨_, _, rfl, rfl⟩
  named := rfl
  child h := nomatch h

/-- Limits that just cover the sample: three entries, two levels, fourteen bytes. -/
theorem sampleOwner_fits :
    Fits sampleOwner.cleanupLimits sampleOwner.pathBytes sampleTree := by
  refine (fits_unix rfl).mpr ?_
  constructor <;> rw [sampleTree_entries] <;> decide

theorem sampleOwner_cleaned :
    (∃ tr w' r s', CleansUp sampleHandle sampleOwner 3 { tree := sampleTree } tr w' r s') ∧
    ∀ tr w' r s', CleansUp sampleHandle sampleOwner 3 { tree := sampleTree } tr w' r s' →
      r = .ok () ∧ w'.named = false ∧ s'.cleanupArmed = false := by
  obtain ⟨hruns, hends⟩ := (cleanup_guarded_and_complete sampleOwner 3).2.2 sampleHandle
    { tree := sampleTree } rfl sampleOwner_quiet (by rw [sampleTree_entries]; decide)
  exact ⟨hruns, fun tr w' r s' hrun => (hends tr w' r s' hrun).1 sampleOwner_fits⟩

/-- On Windows the name of the file below takes twenty bytes. -/
def windowsEntry (path : Path) : Option Metadata :=
  if path = [] then some ⟨.directory, some ⟨1, 1⟩⟩
  else if path = ["report.txt"] then some ⟨.file, some ⟨1, 2⟩⟩
  else none

theorem windowsEntry_cases {path : Path} {metadata : Metadata}
    (h : windowsEntry path = some metadata) :
    path = [] ∧ metadata = ⟨.directory, some ⟨1, 1⟩⟩ ∨
      path = ["report.txt"] ∧ metadata = ⟨.file, some ⟨1, 2⟩⟩ := by
  unfold windowsEntry at h
  split at h
  · exact .inl ⟨‹_›, (Option.some.inj h).symm⟩
  · split at h
    · exact .inr ⟨‹_›, (Option.some.inj h).symm⟩
    · cases h

def windowsTree : EntryTree where
  measure := .windows
  entry := windowsEntry
  children path := if path = [] then ["report.txt"] else []
  paths := {[], ["report.txt"]}
  mem_paths path h := by
    obtain ⟨metadata, hentry⟩ := Option.isSome_iff_exists.mp h
    rcases windowsEntry_cases hentry with ⟨rfl, -⟩ | ⟨rfl, -⟩ <;> decide
  root := ⟨_, rfl, rfl⟩
  nodup path := by split <;> decide
  listed path name := by
    rcases path with _ | ⟨first, rest⟩ <;> simp [windowsEntry]
  parent path name h := by
    rcases path with _ | ⟨first, rest⟩
    · exact ⟨_, rfl, rfl⟩
    · simp [windowsEntry] at h
  normal path h := by
    obtain ⟨metadata, hentry⟩ := Option.isSome_iff_exists.mp h
    rcases windowsEntry_cases hentry with ⟨rfl, -⟩ | ⟨rfl, -⟩ <;> decide
  distinct path path' metadata metadata' identity h h' hkind hkind' hid hid' := by
    rcases windowsEntry_cases h with ⟨rfl, rfl⟩ | ⟨rfl, rfl⟩ <;>
      rcases windowsEntry_cases h' with ⟨rfl, rfl⟩ | ⟨rfl, rfl⟩ <;>
      first
      | rfl
      | exact absurd (hid.trans hid'.symm) (by decide)

theorem windowsTree_entries : windowsTree.entries = [["report.txt"]] := by decide +kernel

def windowsOwner : LocalTreeRetainedResource where
  path := ["C:", "t"]
  pathBytes := 4
  relative := ["t"]
  identity := some ⟨1, 1⟩
  child := true
  cleanupLimits := { maxPendingPathBytes := some 15 }

def windowsHandle : LocalDirectoryHandle := { sampleHandle with diagnosticPath := ["C:", "t"] }

theorem windowsOwner_quiet : Quiet windowsHandle windowsOwner { tree := windowsTree } where
  pending _ h := nomatch h
  inRange _ h := nomatch h
  inTime _ h := nomatch h
  accepts path _ := ResolutionContract.unrestricted_accepts .windows path
  known path h := by
    rw [show World.tree { tree := windowsTree } = windowsTree from rfl, windowsTree_entries] at h
    rw [List.mem_singleton.mp h]
    exact ⟨_, _, rfl, nofun⟩
  root := ⟨_, _, rfl, rfl⟩
  named := rfl
  child h := nomatch h

/-- The paths take fourteen of fifteen bytes, but the listing counts twenty for the name and
    refuses; nothing is removed. -/
theorem cleanup_refused_windows :
    PathsFit windowsOwner.cleanupLimits windowsOwner.pathBytes windowsTree ∧
    (∃ tr w' r s', CleansUp windowsHandle windowsOwner 2 { tree := windowsTree } tr w' r s') ∧
    ∀ tr w' r s', CleansUp windowsHandle windowsOwner 2 { tree := windowsTree } tr w' r s' →
      r.isOk = false ∧ w'.tree = windowsTree ∧ w'.named = true := by
  have hbound : windowsTree.entries.length < 2 := by
    rw [windowsTree_entries]
    decide
  have hensures := ensures_cleanup windowsOwner_quiet rfl hbound
  have hshort : ¬ Fits windowsOwner.cleanupLimits windowsOwner.pathBytes windowsTree := by
    intro hfits
    have hle := hfits.names 15 rfl
    rw [windowsTree_entries] at hle
    revert hle
    decide
  refine ⟨?_, ?_, fun tr w' r s' hrun => ?_⟩
  · constructor <;> rw [windowsTree_entries] <;> decide
  · obtain ⟨tr, w', ⟨r, s'⟩, hrun⟩ := Prog.Ensures.exists_run hensures
    exact ⟨tr, w', r, s', hrun⟩
  · obtain ⟨⟨hdecides, huntouched⟩, -⟩ := Prog.Ensures.runsIn hensures hrun
    cases r with
    | ok _ => exact absurd hdecides.1 hshort
    | error error => exact ⟨rfl, huntouched.resolve_left Bool.false_ne_true⟩

end Samples

end Staged

end LocalFiles
