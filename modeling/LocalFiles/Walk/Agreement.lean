import LocalFiles.Walk.Tree

/-!
# Agreement — the Host and the Rooted walker yield the same paths

Over a tree without links both walkers go from turn to turn together, except that the Rooted
walker opens a directory on a turn of its own.  The Host walker then stands still.
-/

namespace LocalFiles.Walk

open LocalDirectoryWalker

/-- What an item tells of the tree: the path below the root, or the resource whose limit was
    exceeded, if the error is of that kind. -/
def outcome : Item → Except (Option LocalResourceKind) Path
  | .ok entry => .ok entry.relativePath
  | .error error => .error (error.resourceLimitError.map (·.resource))

theorem outcome_withContext [QubitBudget] {π : Type} (w : LocalDirectoryWalker π) (item : Item) :
    outcome (w.withContext item) = outcome item := by
  cases item with
  | ok entry => rfl
  | error error =>
    unfold withContext
    cases w.currentDirectory <;> rfl

/-! ## 1. Budgets -/

section Budgets

variable [QubitBudget]

def chargeBudget (budget : Option ResourceBudget) (n : Nat) :
    Except LocalResourceLimitError (Option ResourceBudget) :=
  match budget with
  | none => .ok none
  | some budget => (budget.tryConsume n).map some

/-- The budget is one of `resource`, if there is one. -/
def Concerns (resource : LocalResourceKind) (budget : Option ResourceBudget) : Prop :=
  ∀ value ∈ budget, value.resource = resource

theorem chargeBudget_ok {value : ResourceBudget} {budget' : Option ResourceBudget} {n : Nat}
    (h : chargeBudget (some value) n = .ok budget') :
    ∃ value', budget' = some value' ∧ value.Consumed n value' := by
  unfold chargeBudget at h
  dsimp only at h
  cases hconsume : value.tryConsume n with
  | error error =>
    rw [hconsume] at h
    cases h
  | ok value' =>
    rw [hconsume] at h
    cases h
    exact ⟨value', rfl, ResourceBudget.tryConsume_ok hconsume⟩

theorem chargeBudget_error {value : ResourceBudget} {n : Nat} {error : LocalResourceLimitError}
    (h : chargeBudget (some value) n = .error error) :
    value.remaining < n ∧ error = .new value.resource value.limit value.remaining n := by
  unfold chargeBudget at h
  dsimp only at h
  cases hconsume : value.tryConsume n with
  | ok value' =>
    rw [hconsume] at h
    cases h
  | error found =>
    rw [hconsume] at h
    cases h
    exact ResourceBudget.tryConsume_error hconsume

variable {π : Type}

theorem chargeEntry_eq (w : LocalDirectoryWalker π) :
    w.chargeEntry =
      (chargeBudget w.entryBudget 1).map fun budget => { w with entryBudget := budget } := by
  unfold chargeEntry chargeBudget
  cases hbudget : w.entryBudget with
  | none =>
    obtain ⟨_, _, _, _, _, _, _, _, _, _, _, _⟩ := w
    cases hbudget
    rfl
  | some budget =>
    dsimp only
    cases budget.tryConsume 1 <;> rfl

theorem chargeName_eq (w : LocalDirectoryWalker π) (measure : NameMeasure) (name : String) :
    w.chargeName measure name = (chargeBudget w.seenNameBudget (measure.nameBytes name)).map
      fun budget => { w with seenNameBudget := budget } := by
  unfold chargeName chargeBudget
  cases hbudget : w.seenNameBudget with
  | none =>
    obtain ⟨_, _, _, _, _, _, _, _, _, _, _, _⟩ := w
    cases hbudget
    rfl
  | some budget =>
    dsimp only
    cases budget.tryConsume (measure.nameBytes name) <;> rfl

theorem Concerns.charged {resource : LocalResourceKind} {budget budget' : Option ResourceBudget}
    {n : Nat} (h : Concerns resource budget) (hcharge : chargeBudget budget n = .ok budget') :
    Concerns resource budget' := by
  cases budget with
  | none =>
    cases hcharge
    exact h
  | some value =>
    obtain ⟨value', rfl, hconsumed⟩ := chargeBudget_ok hcharge
    intro other hother
    cases hother
    rw [hconsumed.resource, h value rfl]

theorem Concerns.refused {resource : LocalResourceKind} {budget : Option ResourceBudget}
    {n : Nat} {error : LocalResourceLimitError} (h : Concerns resource budget)
    (hcharge : chargeBudget budget n = .error error) : error.resource = resource := by
  cases budget with
  | none => cases hcharge
  | some value =>
    obtain ⟨-, rfl⟩ := chargeBudget_error hcharge
    exact h value rfl

end Budgets

/-! ## 2. Walkers that stand at the same place -/

section Agrees

variable (tree : FileTree) (mount start : Path)

/-- Frames of the two walkers for one directory; the Rooted one may have no reader yet. -/
structure FrameAgrees (f : WalkFrame RootedPlace) (g : WalkFrame Path) : Prop where
  output : f.place.outputParent = g.place
  authority : f.place.authorityParent = start ++ g.place
  directory : tree.IsDirectory (start ++ g.place)
  rooted : f.identity = some (tree.identity [] (start ++ g.place))
  host : g.identity = some (tree.identity mount (start ++ g.place))
  seen : f.seen = g.seen
  depth : f.entryDepth = g.entryDepth
  reader : ∃ entries, g.reader = some ⟨entries, none⟩ ∧
    (∀ name ∈ entries, name ∈ tree.children (start ++ g.place)) ∧
    (f.reader = some ⟨entries, none⟩ ∨
      f.reader = none ∧ entries = tree.children (start ++ g.place))

/-- A frame stands as far below the root as there are frames below it. -/
def Leveled : List (WalkFrame Path) → Prop
  | [] => True
  | frame :: below => frame.place.length = below.length ∧ Leveled below

theorem Leveled.length_lt {frames : List (WalkFrame Path)} (h : Leveled frames)
    {frame : WalkFrame Path} (hframe : frame ∈ frames) : frame.place.length < frames.length := by
  induction frames with
  | nil => cases hframe
  | cons top below ih =>
    have hlength : (top :: below).length = below.length + 1 := rfl
    rcases List.mem_cons.mp hframe with rfl | hbelow
    · have htop := h.1
      omega
    · have hlt := ih h.2 hbelow
      omega

variable [QubitBudget]

structure Agrees (v : RootedWalker) (w : HostWalker) : Prop where
  options : v.options = w.options
  unlimited : v.openDirectories = none
  unlimited' : w.openDirectories = none
  terminated : v.terminated = w.terminated
  deadline : v.deadline = w.deadline
  entryBudget : v.entryBudget = w.entryBudget
  seenNameBudget : v.seenNameBudget = w.seenNameBudget
  entries : Concerns .entry w.entryBudget
  names : Concerns .seenNameBytes w.seenNameBudget
  base : w.backendRoot = mount ++ start
  frames : List.Forall₂ (FrameAgrees tree mount start) v.stack w.stack
  leveled : Leveled w.stack

variable {tree mount start} {v : RootedWalker} {w : HostWalker}

theorem Agrees.cons (h : Agrees tree mount start v w) {f : WalkFrame RootedPlace}
    {below : List (WalkFrame RootedPlace)} (hstack : v.stack = f :: below) :
    ∃ g below', w.stack = g :: below' ∧ FrameAgrees tree mount start f g ∧
      List.Forall₂ (FrameAgrees tree mount start) below below' ∧
      g.place.length = below'.length ∧ Leveled below' := by
  have hframes := h.frames
  have hleveled := h.leveled
  rw [hstack] at hframes
  cases hw : w.stack with
  | nil => rw [hw] at hframes; cases hframes
  | cons g below' =>
    rw [hw] at hframes hleveled
    cases hframes with
    | cons hframe hbelow => exact ⟨g, below', rfl, hframe, hbelow, hleveled.1, hleveled.2⟩

theorem Agrees.nil (h : Agrees tree mount start v w) (hstack : v.stack = []) : w.stack = [] := by
  have hframes := h.frames
  rw [hstack] at hframes
  cases hw : w.stack with
  | nil => rfl
  | cons g below' => rw [hw] at hframes; cases hframes

theorem Agrees.terminate (h : Agrees tree mount start v w) :
    Agrees tree mount start v.terminate w.terminate :=
  ⟨h.options, h.unlimited, h.unlimited', rfl, h.deadline, h.entryBudget, h.seenNameBudget,
    h.entries, h.names, h.base, h.frames, h.leveled⟩

/-- Both walkers exchange their top frames. -/
theorem Agrees.setTop (h : Agrees tree mount start v w) {f : WalkFrame RootedPlace}
    {g : WalkFrame Path} {below : List (WalkFrame RootedPlace)} {below' : List (WalkFrame Path)}
    (hv : v.stack = f :: below) (hw : w.stack = g :: below') (f' : WalkFrame RootedPlace)
    (g' : WalkFrame Path) (hplace : g'.place = g.place) (hframe : FrameAgrees tree mount start f' g') :
    Agrees tree mount start (v.setTop f') (w.setTop g') := by
  have hframes := h.frames
  have hleveled := h.leveled
  rw [hv, hw] at hframes
  rw [hw] at hleveled
  refine ⟨h.options, h.unlimited, h.unlimited', h.terminated, h.deadline, h.entryBudget,
    h.seenNameBudget, h.entries, h.names, h.base, ?_, ?_⟩
  · rw [setTop_stack hv, setTop_stack hw]
    cases hframes with
    | cons _ hbelow => exact .cons hframe hbelow
  · rw [setTop_stack hw]
    exact ⟨by rw [hplace]; exact hleveled.1, hleveled.2⟩

theorem Agrees.leave (h : Agrees tree mount start v w) {f : WalkFrame RootedPlace}
    {below : List (WalkFrame RootedPlace)} (hv : v.stack = f :: below) :
    Agrees tree mount start v.leaveDirectory w.leaveDirectory := by
  obtain ⟨g, below', hw, -, hbelow, -, hleveled⟩ := h.cons hv
  rw [leaveDirectory_cons hv, leaveDirectory_cons hw]
  refine ⟨h.options, ?_, ?_, h.terminated, h.deadline, h.entryBudget, h.seenNameBudget, h.entries,
    h.names, h.base, hbelow, hleveled⟩
  · show v.openDirectories.map _ = none
    rw [h.unlimited]
    rfl
  · show w.openDirectories.map _ = none
    rw [h.unlimited']
    rfl

theorem Agrees.enter (h : Agrees tree mount start v w) {f : WalkFrame RootedPlace}
    {g : WalkFrame Path} (identity identity' : DirectoryIdentity)
    (hframe : FrameAgrees tree mount start f g) (hplace : g.place.length = w.stack.length) :
    Agrees tree mount start (v.enterDirectory f identity) (w.enterDirectory g identity') :=
  ⟨h.options, h.unlimited, h.unlimited', h.terminated, h.deadline, h.entryBudget,
    h.seenNameBudget, h.entries, h.names, h.base, .cons hframe h.frames, hplace, h.leveled⟩

/-- Both walkers charge a name, or the same limit refuses it. -/
theorem Agrees.charge (h : Agrees tree mount start v w) (name : String) :
    ∃ v' w' r, v.charge tree.measure name = (v', r) ∧ w.charge tree.measure name = (w', r) ∧
      Agrees tree mount start v' w' ∧
      ∀ error, r = .error error → error.resource ≠ .openDirectory := by
  unfold LocalDirectoryWalker.charge
  rw [chargeEntry_eq, chargeEntry_eq, h.entryBudget]
  cases hentry : chargeBudget w.entryBudget 1 with
  | error error =>
    refine ⟨v, w, .error error, rfl, rfl, h, fun error' heq => ?_⟩
    rw [← Except.error.inj heq, h.entries.refused hentry]
    decide
  | ok entryBudget =>
    have hcharged : Agrees tree mount start { v with entryBudget := entryBudget }
        { w with entryBudget := entryBudget } :=
      ⟨h.options, h.unlimited, h.unlimited', h.terminated, h.deadline, rfl, h.seenNameBudget,
        h.entries.charged hentry, h.names, h.base, h.frames, h.leveled⟩
    have hsame : chargeBudget v.seenNameBudget (tree.measure.nameBytes name) =
        chargeBudget w.seenNameBudget (tree.measure.nameBytes name) := by rw [h.seenNameBudget]
    dsimp only [Except.map]
    rw [chargeName_eq, chargeName_eq]
    dsimp only
    rw [hsame]
    cases hname : chargeBudget w.seenNameBudget (tree.measure.nameBytes name) with
    | error error =>
      refine ⟨_, _, .error error, rfl, rfl, hcharged, fun error' heq => ?_⟩
      rw [← Except.error.inj heq, hcharged.names.refused hname]
      decide
    | ok seenNameBudget =>
      exact ⟨_, _, .ok (), rfl, rfl, ⟨h.options, h.unlimited, h.unlimited', h.terminated,
        h.deadline, rfl, rfl, h.entries.charged hentry, h.names.charged hname, h.base, h.frames,
        h.leveled⟩, nofun⟩

end Agrees

/-! ## 3. Turns -/

section Turns

variable {tree : FileTree} {mount start rootPath : Path} {contract : ResolutionContract}
  {symlinkPolicy : LocalSymlinkPolicy}
  {resolveSymlinks : Path → LocalSymlinkPolicy → Bool → Except LocalFileError Path}

theorem exists_partner {α β : Type} {R : α → β → Prop} {l : List α} {l' : List β}
    (h : List.Forall₂ R l l') {a : α} (ha : a ∈ l) : ∃ b ∈ l', R a b := by
  induction h with
  | nil => cases ha
  | cons hab _ ih =>
    rcases List.mem_cons.mp ha with rfl | hmem
    · exact ⟨_, List.mem_cons_self, hab⟩
    · obtain ⟨b, hb, hR⟩ := ih hmem
      exact ⟨b, List.mem_cons_of_mem _ hb, hR⟩

theorem exists_partner_right {α β : Type} {R : α → β → Prop} {l : List α} {l' : List β}
    (h : List.Forall₂ R l l') {b : β} (hb : b ∈ l') : ∃ a ∈ l, R a b :=
  exists_partner h.flip hb

theorem isTerminal_of_limit (path : Path) {error : LocalResourceLimitError}
    (h : error.resource ≠ .openDirectory) (policy : LocalWalkErrorPolicy) :
    isTerminalWalkError (directoryLimitError path error) policy = true := by
  have hany : ((directoryLimitError path error).resourceLimitError.any
      fun limit => limit.resource != .openDirectory) = true := by
    show (error.resource != .openDirectory) = true
    exact bne_iff_ne.mpr h
  unfold isTerminalWalkError
  rw [hany, Bool.or_true, Bool.true_or]

theorem isTerminal_of_deadline (path : Path) (policy : LocalWalkErrorPolicy) :
    isTerminalWalkError (walkIoError path deadlineExceeded) policy = true := by
  unfold isTerminalWalkError
  rw [show ((walkIoError path deadlineExceeded).ioError.any
    fun source => source.kind == .timedOut) = true from rfl, Bool.or_true]

/-- New frames of the two walkers for one directory. -/
theorem frameOf_agrees {path : Path} {metadata : Metadata} {options : LocalListOptions}
    (entryDepth : Nat) (hentry : tree.entry (start ++ path) = some metadata)
    (hkind : metadata.kind = .directory) :
    FrameAgrees tree mount start
      (RootedWalker.frameOf options ⟨start ++ path, path⟩
        (.fromRootedMetadata metadata (start ++ path)) entryDepth)
      (HostWalker.frameOf options path (tree.identity mount (start ++ path)) entryDepth
        ⟨tree.children (start ++ path), none⟩ false) where
  output := rfl
  authority := rfl
  directory := ⟨metadata, hentry, hkind⟩
  rooted := congrArg some (FileTree.identity_eq [] hentry)
  host := rfl
  seen := rfl
  depth := rfl
  reader := ⟨tree.children (start ++ path), rfl, fun _ h => h, .inr ⟨rfl, rfl⟩⟩

variable [QubitBudget] {v : RootedWalker} {w : HostWalker}

/-- A directory further down than every frame is on neither stack. -/
theorem Agrees.fresh (h : Agrees tree mount start v w) (hv : v.FollowsStack)
    (hw : w.FollowsStack) {path : Path} (hdirectory : tree.IsDirectory (start ++ path))
    (hlength : w.stack.length ≤ path.length) :
    tree.identity [] (start ++ path) ∉ v.followedDirectories ∧
      tree.identity mount (start ++ path) ∉ w.followedDirectories := by
  have hbelow (base : Path) (g : WalkFrame Path) (hg : g ∈ w.stack)
      (hframe : tree.IsDirectory (start ++ g.place)) :
      tree.identity base (start ++ g.place) ≠ tree.identity base (start ++ path) := by
    intro heq
    have hlt := h.leveled.length_lt hg
    have hsame := List.append_cancel_left (FileTree.identity_injective hframe hdirectory heq)
    rw [hsame] at hlt
    omega
  constructor
  · intro hmem
    obtain ⟨f, hf, heq⟩ := List.mem_map.mp ((hv.followed _).mp hmem)
    obtain ⟨g, hg, hframe⟩ := exists_partner h.frames hf
    exact hbelow [] g hg hframe.directory (Option.some.inj (hframe.rooted.symm.trans heq))
  · intro hmem
    obtain ⟨g, hg, heq⟩ := List.mem_map.mp ((hw.followed _).mp hmem)
    obtain ⟨f, -, hframe⟩ := exists_partner_right h.frames hg
    exact hbelow mount g hg hframe.directory (Option.some.inj (hframe.host.symm.trans heq))

theorem acquireDirectory_unlimited {π : Type} {w : LocalDirectoryWalker π}
    (h : w.openDirectories = none) (path : Path) : w.acquireDirectory path = (w, .ok false) := by
  unfold acquireDirectory tryAcquire
  rw [h]

/-- The Host walker enters a directory of the tree. -/
theorem descend_tree {path : Path} (metadata : Metadata) (now entryDepth : Nat)
    (hunlimited : w.openDirectories = none) (hdirectory : tree.IsDirectory (start ++ path))
    (hfresh : tree.identity mount (start ++ path) ∉ w.followedDirectories) :
    HostWalker.descend ((tree.hostNative mount).at now) w (mount ++ (start ++ path)) metadata path
        entryDepth =
      (w.enterDirectory (HostWalker.frameOf w.options path
        (tree.identity mount (start ++ path)) (entryDepth + 1)
        ⟨tree.children (start ++ path), none⟩ false) (tree.identity mount (start ++ path)),
        .ok ()) := by
  have hidentity : HostWalker.nativeDirectoryIdentity ((tree.hostNative mount).at now) metadata
      (mount ++ (start ++ path)) = .ok (tree.identity mount (start ++ path)) := by
    obtain ⟨found, hentry, -⟩ := hdirectory
    unfold HostWalker.nativeDirectoryIdentity
    show (FileTree.mounted mount _ _).mapError _ = _
    rw [FileTree.mounted_append, FileTree.find_eq hentry]
    rfl
  have hread : ((tree.hostNative mount).at now).readDir (mount ++ (start ++ path)) =
      .ok ⟨tree.children (start ++ path), none⟩ := by
    show FileTree.mounted mount _ _ = _
    rw [FileTree.mounted_append, FileTree.list_eq hdirectory]
  unfold HostWalker.descend
  rw [hidentity]
  dsimp only
  rw [if_neg hfresh, acquireDirectory_unlimited hunlimited]
  dsimp only
  rw [hread]

/-- The Rooted walker lets an entry of the tree through, and follows it if it is a directory. -/
theorem followedDirectory_tree (native : RootedNative) (place : RootedPlace) (name : String)
    (mayDescend : Bool) {metadata : Metadata} (hlink : metadata.kind ≠ .symlink)
    (hfresh : metadata.kind = .directory →
      .fromRootedMetadata metadata (place.authorityParent ++ [name]) ∉ v.followedDirectories) :
    RootedWalker.followedDirectory native v place name metadata mayDescend =
      .ok (if metadata.kind = .directory then
        some (place.authorityParent ++ [name],
          .fromRootedMetadata metadata (place.authorityParent ++ [name]))
        else none) := by
  unfold RootedWalker.followedDirectory
  by_cases hkind : metadata.kind = .directory
  · rw [if_pos hkind, if_pos hkind]
    exact if_neg (hfresh hkind)
  · rw [if_neg hkind, if_neg hkind, if_neg (by intro h; exact hlink h.1)]

/-- Both walkers deal alike with an entry of the tree. -/
theorem visit_agrees (h : Agrees tree mount start v w) (hv : v.FollowsStack)
    (hw : w.FollowsStack) (hpolicy : symlinkPolicy ≠ .followAcrossScope)
    (haccepts : ∀ path, (tree.entry (start ++ path)).isSome →
      contract.Accepts tree.measure (start ++ path)) (now entryDepth : Nat)
    {place : Path} {name : String} {metadata : Metadata}
    (hentry : tree.entry (start ++ (place ++ [name])) = some metadata)
    (hlength : w.stack.length = place.length + 1) (t : HostWalker) :
    Matches (Agrees tree mount start) outcome outcome t
      (RootedWalker.settle (RootedWalker.visit
        ((tree.rootedNative rootPath contract symlinkPolicy resolveSymlinks).at now) v
        ⟨start ++ place, place⟩ entryDepth name metadata))
      (HostWalker.visit ((tree.hostNative mount).at now) w place entryDepth name) := by
  have hlink := tree.linkFree _ _ hentry
  unfold RootedWalker.visit HostWalker.visit
  by_cases hdeep : w.options.tooDeep entryDepth
  · rw [if_pos hdeep, if_pos (by rw [h.options]; exact hdeep)]
    exact .again h
  rw [if_neg hdeep, if_neg (by rw [h.options]; exact hdeep)]
  -- both walkers charge the entry alike
  obtain ⟨v1, w1, r, hcharge, hcharge', h1, hrefused⟩ := h.charge name
  have hsame := same_charge (w := v) tree.measure name
  have hsame' := same_charge (w := w) tree.measure name
  rw [show ((tree.rootedNative rootPath contract symlinkPolicy resolveSymlinks).at now).measure =
      tree.measure from rfl, hcharge]
  rw [show ((tree.hostNative mount).at now).measure = tree.measure from rfl, hcharge']
  rw [hcharge] at hsame
  rw [hcharge'] at hsame'
  cases r with
  | error error =>
    have hterminal := isTerminal_of_limit v1.root (hrefused error rfl)
      v1.options.errorPolicy
    dsimp only [RootedWalker.settle]
    rw [hterminal]
    exact .yield rfl h1.terminate
  | ok _ =>
    have hv1 : v1.FollowsStack := hv.of_identities (by rw [hsame.stack]) hsame.followed
    have hw1 : w1.FollowsStack := hw.of_identities (by rw [hsame'.stack]) hsame'.followed
    have hlength1 : w1.stack.length = (place ++ [name]).length := by
      rw [hsame'.stack, hlength, List.length_append]
      rfl
    -- both look at the same entry, each under its own name for it
    have hauthority : start ++ place ++ [name] = start ++ (place ++ [name]) :=
      List.append_assoc _ _ _
    have hpath : w1.backendRoot ++ place ++ [name] = mount ++ (start ++ (place ++ [name])) := by
      rw [h1.base]
      simp only [List.append_assoc]
    have hresolve : ((tree.rootedNative rootPath contract symlinkPolicy resolveSymlinks).at
        now).resolve (start ++ (place ++ [name])) false = .ok (start ++ (place ++ [name])) :=
      FileTree.resolve_eq (by rw [hentry]; rfl) hpolicy (haccepts _ (by rw [hentry]; rfl))
    have hmetadata : ((tree.hostNative mount).at now).symlinkMetadata
        (mount ++ (start ++ (place ++ [name]))) = .ok metadata := by
      show FileTree.mounted mount _ _ = _
      rw [FileTree.mounted_append, FileTree.find_eq hentry]
    have hfresh (hkind : metadata.kind = .directory) :=
      h1.fresh hv1 hw1 ⟨metadata, hentry, hkind⟩ (Nat.le_of_eq hlength1)
    have hfollowed := followedDirectory_tree (v := v1)
      ((tree.rootedNative rootPath contract symlinkPolicy resolveSymlinks).at now)
      ⟨start ++ place, place⟩ name (v1.options.mayDescend entryDepth) hlink
      (by
        intro hkind
        rw [hauthority, show DirectoryIdentity.fromRootedMetadata metadata
          (start ++ (place ++ [name])) = tree.identity [] (start ++ (place ++ [name])) from
          FileTree.identity_eq [] hentry]
        exact (hfresh hkind).1)
    dsimp only at hfollowed ⊢
    rw [hauthority] at hfollowed ⊢
    rw [hresolve, hpath, hmetadata]
    dsimp only
    rw [hfollowed]
    have hdescent (b : Bool) : HostWalker.descentMetadata ((tree.hostNative mount).at now) w1
        (mount ++ (start ++ (place ++ [name]))) metadata b = .ok metadata :=
      if_neg fun hfollows => hlink hfollows.1
    rw [hdescent, h1.options]
    dsimp only
    -- there is no link, so only a directory can be gone into
    by_cases hkind : metadata.kind = .directory
    · rw [if_pos hkind]
      by_cases hmay : w1.options.mayDescend entryDepth
      · rw [if_pos ⟨hkind, hmay⟩]
        dsimp only
        rw [if_pos hmay, descend_tree metadata now entryDepth h1.unlimited'
          ⟨metadata, hentry, hkind⟩ (hfresh hkind).2]
        exact .yield rfl (h1.enter _ _ (frameOf_agrees (entryDepth + 1) hentry hkind)
          hlength1.symm)
      · rw [if_neg (by intro hboth; exact hmay hboth.2)]
        dsimp only
        rw [if_neg hmay]
        exact .yield rfl h1
    · rw [if_neg hkind, if_neg (by intro hboth; exact hkind hboth.1)]
      exact .yield rfl h1

/-- Reading on from readers at the same name. -/
theorem read_agrees (h : Agrees tree mount start v w) (hv : v.FollowsStack)
    (hw : w.FollowsStack) (hpolicy : symlinkPolicy ≠ .followAcrossScope)
    (haccepts : ∀ path, (tree.entry (start ++ path)).isSome →
      contract.Accepts tree.measure (start ++ path)) (now : Nat)
    {f : WalkFrame RootedPlace} {g : WalkFrame Path} {below : List (WalkFrame RootedPlace)}
    {below' : List (WalkFrame Path)} {entries : List String} (hvstack : v.stack = f :: below)
    (hwstack : w.stack = g :: below') (hframe : FrameAgrees tree mount start f g)
    (hf : f.reader = some ⟨entries, none⟩) (hg : g.reader = some ⟨entries, none⟩)
    (t : HostWalker) :
    Matches (Agrees tree mount start) outcome outcome t
      (RootedWalker.settle (RootedWalker.read
        ((tree.rootedNative rootPath contract symlinkPolicy resolveSymlinks).at now) v f
        ⟨entries, none⟩))
      (HostWalker.read ((tree.hostNative mount).at now) w g ⟨entries, none⟩) := by
  cases entries with
  | nil => exact .again (h.leave hvstack)
  | cons name rest =>
    obtain ⟨all, hreader, hlisted, -⟩ := hframe.reader
    obtain rfl : all = name :: rest :=
      congrArg Listing.entries (Option.some.inj (hreader.symm.trans hg))
    have hrest : ∀ other ∈ rest, other ∈ tree.children (start ++ g.place) := fun other hother =>
      hlisted other (List.mem_cons_of_mem _ hother)
    have hseen : f.hasSeen name = g.hasSeen name := by
      unfold WalkFrame.hasSeen
      rw [hframe.seen]
    -- a name that both have seen is skipped by both
    by_cases hold : g.hasSeen name
    · have hleft : RootedWalker.read
          ((tree.rootedNative rootPath contract symlinkPolicy resolveSymlinks).at now) v f
          ⟨name :: rest, none⟩ = .again (v.setTop { f with reader := some ⟨rest, none⟩ }) :=
        if_pos (by rw [← hold, ← hseen]; rfl)
      have hright : HostWalker.read ((tree.hostNative mount).at now) w g ⟨name :: rest, none⟩ =
          .again (w.setTop { g with reader := some ⟨rest, none⟩ }) := if_pos hold
      rw [hleft, hright]
      exact .again (h.setTop hvstack hwstack _ _ rfl { hframe with
        reader := ⟨rest, rfl, hrest, .inl rfl⟩ })
    · have hchild := (tree.listed (start ++ g.place) name).mp (hlisted name List.mem_cons_self)
      obtain ⟨metadata, hentry⟩ := Option.isSome_iff_exists.mp hchild
      have hplace : f.place = ⟨start ++ g.place, g.place⟩ := by
        rw [← hframe.authority, ← hframe.output]
      have hleft : RootedWalker.read
          ((tree.rootedNative rootPath contract symlinkPolicy resolveSymlinks).at now) v f
          ⟨name :: rest, none⟩ =
          RootedWalker.take
            ((tree.rootedNative rootPath contract symlinkPolicy resolveSymlinks).at now)
            (v.setTop ({ f with reader := some ⟨rest, none⟩ }.remember name)) f.place f.entryDepth
            name :=
        if_neg (by intro hnew; exact hold (hseen.symm.trans hnew))
      have hright : HostWalker.read ((tree.hostNative mount).at now) w g ⟨name :: rest, none⟩ =
          HostWalker.visit ((tree.hostNative mount).at now)
            (w.setTop ({ g with reader := some ⟨rest, none⟩ }.remember name)) g.place g.entryDepth
            name := if_neg hold
      have hset := h.setTop hvstack hwstack
        ({ f with reader := some ⟨rest, none⟩ }.remember name)
        ({ g with reader := some ⟨rest, none⟩ }.remember name) rfl { hframe with
          seen := congrArg (Option.map (insert name)) hframe.seen
          reader := ⟨rest, rfl, hrest, .inl rfl⟩ }
      have hv1 : (v.setTop ({ f with reader := some ⟨rest, none⟩ }.remember name)).FollowsStack :=
        hv.of_identities (by rw [setTop_stack hvstack, hvstack]; rfl) rfl
      have hw1 : (w.setTop ({ g with reader := some ⟨rest, none⟩ }.remember name)).FollowsStack :=
        hw.of_identities (by rw [setTop_stack hwstack, hwstack]; rfl) rfl
      have hlength : (w.setTop ({ g with reader := some ⟨rest, none⟩ }.remember name)).stack.length =
          g.place.length + 1 := by
        have hleveled := h.leveled
        rw [hwstack] at hleveled
        rw [setTop_stack hwstack, hleveled.1]
        rfl
      have htake (v1 : RootedWalker) : RootedWalker.take
          ((tree.rootedNative rootPath contract symlinkPolicy resolveSymlinks).at now) v1
          f.place f.entryDepth name =
          RootedWalker.visit
            ((tree.rootedNative rootPath contract symlinkPolicy resolveSymlinks).at now) v1
            ⟨start ++ g.place, g.place⟩ g.entryDepth name metadata := by
        rw [hplace, hframe.depth]
        unfold RootedWalker.take
        rw [show ((tree.rootedNative rootPath contract symlinkPolicy resolveSymlinks).at
          now).entryMetadata (start ++ g.place ++ [name]) = .ok metadata from
          FileTree.find_eq hentry]
      rw [hleft, hright, htake]
      rw [List.append_assoc] at hentry
      exact visit_agrees hset hv1 hw1 hpolicy haccepts now g.entryDepth hentry hlength t

/-- The Rooted walker opens the directory that the Host walker has open already. -/
theorem openReader_agrees (h : Agrees tree mount start v w) (rootPath : Path)
    (contract : ResolutionContract) (symlinkPolicy : LocalSymlinkPolicy)
    (resolveSymlinks : Path → LocalSymlinkPolicy → Bool → Except LocalFileError Path) (now : Nat)
    {f : WalkFrame RootedPlace} {g : WalkFrame Path} {below : List (WalkFrame RootedPlace)}
    {below' : List (WalkFrame Path)} (hvstack : v.stack = f :: below)
    (hwstack : w.stack = g :: below') (hframe : FrameAgrees tree mount start f g)
    (hclosed : f.reader = none) :
    ∃ v', RootedWalker.openReader
        ((tree.rootedNative rootPath contract symlinkPolicy resolveSymlinks).at now) v f.place =
          (v', .ok ()) ∧ Agrees tree mount start v' w := by
  obtain ⟨entries, hreader, hlisted, hopen | ⟨-, rfl⟩⟩ := hframe.reader
  · rw [hclosed] at hopen
    cases hopen
  obtain ⟨metadata, hentry, hkind⟩ := hframe.directory
  have hread : ((tree.rootedNative rootPath contract symlinkPolicy resolveSymlinks).at
      now).openDirReader f.place.authorityParent = .ok ⟨tree.children (start ++ g.place), none⟩ := by
    rw [hframe.authority]
    exact FileTree.list_eq hframe.directory
  have hmetadata : ((tree.rootedNative rootPath contract symlinkPolicy resolveSymlinks).at
      now).openedMetadata f.place.authorityParent = .ok metadata := by
    rw [hframe.authority]
    exact FileTree.find_eq hentry
  have hidentity : v.topIdentity =
      some (.fromRootedMetadata metadata f.place.authorityParent) := by
    unfold topIdentity
    rw [hvstack, hframe.authority]
    exact hframe.rooted.trans (congrArg some (FileTree.identity_eq [] hentry).symm)
  refine ⟨v.openTop ⟨tree.children (start ++ g.place), none⟩ false, ?_, ?_⟩
  · unfold RootedWalker.openReader
    dsimp only
    rw [acquireDirectory_unlimited h.unlimited]
    dsimp only
    rw [hread]
    dsimp only
    rw [hmetadata]
    dsimp only
    rw [if_neg (by rw [hidentity]; exact fun hne => hne rfl)]
  · -- the Host walker stands still: its frame is put back as it is
    have hopened : v.openTop ⟨tree.children (start ++ g.place), none⟩ false =
        v.setTop { f with
          reader := some ⟨tree.children (start ++ g.place), none⟩
          directoryPermit := false } := by
      unfold openTop setTop
      rw [hvstack]
      rfl
    have hsame : w.setTop g = w := by
      unfold setTop
      rw [show g :: w.stack.tail = w.stack by rw [hwstack]; rfl]
    rw [hopened, ← hsame]
    exact h.setTop hvstack hwstack _ _ rfl { hframe with
      reader := ⟨tree.children (start ++ g.place), hreader, hlisted, .inl rfl⟩ }

/-- Every turn of the Rooted walker is one of the Host walker, or opens a directory. -/
theorem nextEntry_agrees (h : Agrees tree mount start v w) (hv : v.FollowsStack)
    (hw : w.FollowsStack) (hpolicy : symlinkPolicy ≠ .followAcrossScope)
    (haccepts : ∀ path, (tree.entry (start ++ path)).isSome →
      contract.Accepts tree.measure (start ++ path)) (now : Nat) :
    Matches (Agrees tree mount start) outcome outcome w
      (RootedWalker.nextEntry
        ((tree.rootedNative rootPath contract symlinkPolicy resolveSymlinks).at now) v)
      (HostWalker.nextEntry ((tree.hostNative mount).at now) w) := by
  have hdeadline : v.expired now = w.expired now := by
    unfold expired
    rw [h.deadline]
  unfold RootedWalker.nextEntry HostWalker.nextEntry
  by_cases hended : w.terminated
  · rw [if_pos hended, if_pos (by rw [h.terminated]; exact hended)]
    exact .stop
  rw [if_neg hended, if_neg (by rw [h.terminated]; exact hended)]
  unfold RootedWalker.nextRootedEntry
  rw [HostNative.at_now, RootedNative.at_now]
  by_cases hexpired : w.expired now
  · have hterminal := isTerminal_of_deadline v.root v.options.errorPolicy
    rw [if_pos hexpired, if_pos (hdeadline.trans hexpired)]
    dsimp only [RootedWalker.settle]
    rw [hterminal]
    exact .yield rfl h.terminate
  rw [if_neg hexpired, if_neg (by rw [hdeadline]; exact hexpired)]
  cases hvstack : v.stack with
  | nil =>
    rw [h.nil hvstack]
    exact .stop
  | cons f below =>
    obtain ⟨g, below', hwstack, hframe, -, -, -⟩ := h.cons hvstack
    rw [hwstack]
    dsimp only
    obtain ⟨entries, hg, -, hopen | ⟨hclosed, -⟩⟩ := hframe.reader
    · rw [hopen, hg]
      exact read_agrees h hv hw hpolicy haccepts now hvstack hwstack hframe hopen hg w
    · obtain ⟨v1, hopened, h1⟩ := openReader_agrees h rootPath contract symlinkPolicy
        resolveSymlinks now hvstack hwstack hframe hclosed
      rw [hclosed, hopened]
      exact .stutter h1

end Turns

/-! ## 4. Runs -/

section Runs

variable [QubitBudget] (tree : FileTree) (mount rootPath : Path) (contract : ResolutionContract)
  (symlinkPolicy : LocalSymlinkPolicy)
  (resolveSymlinks : Path → LocalSymlinkPolicy → Bool → Except LocalFileError Path)
  (clock : Nat → Nat)

/-- The turns of the walkers over the tree; `clock` gives the time at which each item is asked
    for. -/
def hostTurns (k : Nat) : HostWalker → Step Item HostWalker :=
  HostWalker.next ((tree.hostNative mount).at (clock k))

def rootedTurns (k : Nat) : RootedWalker → Step Item RootedWalker :=
  RootedWalker.next
    ((tree.rootedNative rootPath contract symlinkPolicy resolveSymlinks).at (clock k))

variable {tree mount rootPath contract symlinkPolicy resolveSymlinks clock} {start : Path}
  {directories : Finset DirectoryIdentity} {v : RootedWalker} {w : HostWalker}

theorem hostTurns_turn (k : Nat) (w w' : HostWalker)
    (hw : w.Sound (tree.graph mount).directories (tree.graph mount).allNames)
    (hnext : (hostTurns tree mount clock k w).next = some w') :
    w.terminated = false ∧
      Turn (tree.graph mount).directories (tree.graph mount).allNames w w' := by
  have hover : ((tree.hostNative mount).at (clock k)).Over (tree.graph mount) :=
    ⟨(FileTree.hostNative_over mount).readDir, (FileTree.hostNative_over mount).identity⟩
  rw [hostTurns, HostWalker.next, Step.next_map] at hnext
  exact HostWalker.nextEntry_turn hnext hover (Finset.Subset.refl _) hw

theorem rootedTurns_turn (hsub : (tree.graph []).directories ⊆ directories) (k : Nat)
    (v v' : RootedWalker) (hv : v.Sound directories (tree.graph []).allNames)
    (hnext : (rootedTurns tree rootPath contract symlinkPolicy resolveSymlinks clock k v).next =
      some v') :
    v.terminated = false ∧ Turn directories (tree.graph []).allNames v v' := by
  have hnative : (tree.rootedNative rootPath contract symlinkPolicy resolveSymlinks).Over
      (tree.graph []) := FileTree.rootedNative_over
  have hover : ((tree.rootedNative rootPath contract symlinkPolicy resolveSymlinks).at
      (clock k)).Over (tree.graph []) :=
    ⟨hnative.openDirReader, hnative.entryMetadata, hnative.symlinkMetadata⟩
  rw [rootedTurns, RootedWalker.next, Step.next_map] at hnext
  exact RootedWalker.nextEntry_turn hnext hover hsub hv

/-- Walkers without a limit on open directories collect items with the same outcomes. -/
theorem runs_agree (hpolicy : symlinkPolicy ≠ .followAcrossScope)
    (haccepts : ∀ path, (tree.entry (start ++ path)).isSome → contract.Accepts tree.measure (start ++ path))
    (hsub : (tree.graph []).directories ⊆ directories) (h : Agrees tree mount start v w)
    (hv : v.Sound directories (tree.graph []).allNames)
    (hw : w.Sound (tree.graph mount).directories (tree.graph mount).allNames) :
    ∃ items items', Ends (counted (hostTurns tree mount clock)) (w, 0) items ∧
      Ends (counted (rootedTurns tree rootPath contract symlinkPolicy resolveSymlinks clock))
        (v, 0) items' ∧ items.map outcome = items'.map outcome := by
  let Related (v : RootedWalker) (w : HostWalker) : Prop :=
    v.Sound directories (tree.graph []).allNames ∧
      w.Sound (tree.graph mount).directories (tree.graph mount).allNames ∧
      Agrees tree mount start v w
  have hsim : ∀ (p : RootedWalker × Nat) (q : HostWalker × Nat),
      (Related p.1 q.1 ∧ p.2 = q.2) →
      Matches (fun p q : _ × Nat => Related p.1 q.1 ∧ p.2 = q.2) outcome outcome q
        (counted (rootedTurns tree rootPath contract symlinkPolicy resolveSymlinks clock) p)
        (counted (hostTurns tree mount clock) q) := by
    rintro ⟨v, k⟩ ⟨w, k'⟩ ⟨⟨hv, hw, h⟩, hk⟩
    obtain rfl : k = k' := hk
    have hturns : Matches (Agrees tree mount start) outcome outcome w
        (rootedTurns tree rootPath contract symlinkPolicy resolveSymlinks clock k v)
        (hostTurns tree mount clock k w) :=
      (nextEntry_agrees h hv.follows hw.follows hpolicy haccepts (clock k)).map fun a b heq => by
        rw [outcome_withContext, outcome_withContext, heq]
    have hright := hturns.and_right hw fun w' hnext => (hostTurns_turn k w w' hw hnext).2.sound hw
    have hboth := hright.and fun v' hnext => (rootedTurns_turn hsub k v v' hv hnext).2.sound hv
    exact hboth.counted
  obtain ⟨items', hends'⟩ := exists_ends_counted (rootedTurns_turn hsub) hv
  obtain ⟨items, hends, heq⟩ := hends'.simulated hsim (s := (v, 0)) (t := (w, 0)) ⟨⟨hv, hw, h⟩, rfl⟩
  exact ⟨items, items', hends, hends', heq⟩

end Runs

/-! ## 5. Opening -/

/-- Whether the options are refused does not depend on the root they are refused with. -/
theorem options_cases (clockEnd : Nat) (options : LocalListOptions) (startedAt : Nat) :
    (∃ deadline, ∀ root, validateOptions root options = .ok () ∧
      walkerDeadline clockEnd root options startedAt = .ok deadline) ∨
    ∀ root, ∃ error, error.kind = .invalidOptions ∧
      (validateOptions root options = .error error ∨ validateOptions root options = .ok () ∧
        walkerDeadline clockEnd root options startedAt = .error error) := by
  by_cases hzero : options.maxOpenDirectories = some 0
  · exact .inr fun root => ⟨_, by rfl, .inl (if_pos hzero)⟩
  have hvalid (root : Path) : validateOptions root options = .ok () := if_neg hzero
  cases hdeadline : options.deadline with
  | none =>
    refine .inl ⟨none, fun root => ⟨hvalid root, ?_⟩⟩
    unfold walkerDeadline
    rw [hdeadline]
  | some duration =>
    by_cases hrange : startedAt + duration ≤ clockEnd
    · refine .inl ⟨some (startedAt + duration), fun root => ⟨hvalid root, ?_⟩⟩
      unfold walkerDeadline
      rw [hdeadline]
      exact if_pos hrange
    · refine .inr fun root => ⟨((LocalFileError.new .invalidOptions .list).withPath root).withReason
        "listing deadline exceeds the monotonic clock range", rfl, .inr ⟨hvalid root, ?_⟩⟩
      unfold walkerDeadline
      rw [hdeadline]
      exact if_neg hrange

section Opening

variable [QubitBudget] {tree : FileTree} {mount start rootPath diagnosticRoot namespaceRoot : Path}
  {contract : ResolutionContract} {options : LocalListOptions}
  {hostPolicy rootedPolicy : LocalSymlinkPolicy}
  {resolveSymlinks : Path → LocalSymlinkPolicy → Bool → Except LocalFileError Path}
  {clockEnd startedAt : Nat} {deadline : Option Nat}

theorem host_opens (mount : Path) (hostPolicy : LocalSymlinkPolicy) (hstart : tree.IsDirectory start)
    (hvalid : validateOptions diagnosticRoot options = .ok ())
    (hdeadline : walkerDeadline clockEnd diagnosticRoot options startedAt = .ok deadline) :
    HostWalker.openWithDiagnostic (tree.hostNative mount) clockEnd (mount ++ start) diagnosticRoot
        options hostPolicy startedAt =
      .ok (LocalDirectoryWalker.start diagnosticRoot (mount ++ start) options hostPolicy deadline
        (HostWalker.rootPool options)
        (HostWalker.frameOf options [] (tree.identity mount start) 1
          ⟨tree.children start, none⟩ options.maxOpenDirectories.isSome)
        (tree.identity mount start)) := by
  have hlist := FileTree.list_eq hstart
  obtain ⟨metadata, hentry, hkind⟩ := hstart
  have hmetadata : (tree.hostNative mount).symlinkMetadata (mount ++ start) = .ok metadata := by
    show FileTree.mounted mount _ _ = _
    rw [FileTree.mounted_append, FileTree.find_eq hentry]
  have hread : (tree.hostNative mount).readDir (mount ++ start) =
      .ok ⟨tree.children start, none⟩ := by
    show FileTree.mounted mount _ _ = _
    rw [FileTree.mounted_append, hlist]
  have hidentity : HostWalker.nativeDirectoryIdentity (tree.hostNative mount) metadata
      (mount ++ start) = .ok (tree.identity mount start) := by
    unfold HostWalker.nativeDirectoryIdentity
    show (FileTree.mounted mount _ _).mapError _ = _
    rw [FileTree.mounted_append, FileTree.find_eq hentry]
    rfl
  unfold HostWalker.openWithDiagnostic
  rw [hvalid, hdeadline, hmetadata, hread]
  simp [bind, Except.bind, Except.mapError, hkind, hidentity, pure, Except.pure]

theorem rooted_opens (namespaceRoot : Path) (contract : ResolutionContract)
    (rootedPolicy : LocalSymlinkPolicy)
    (resolveSymlinks : Path → LocalSymlinkPolicy → Bool → Except LocalFileError Path)
    (hstart : tree.IsDirectory start)
    (hvalid : validateOptions (rootPath ++ start) options = .ok ())
    (hdeadline : walkerDeadline clockEnd (rootPath ++ start) options startedAt = .ok deadline) :
    RootedWalker.openRooted (tree.rootedNative rootPath contract rootedPolicy resolveSymlinks)
        clockEnd start namespaceRoot options rootedPolicy startedAt =
      .ok (LocalDirectoryWalker.start namespaceRoot [] options rootedPolicy deadline
        (directoryPool options)
        (RootedWalker.frameOf options ⟨start, []⟩ (tree.identity [] start) 1)
        (tree.identity [] start)) := by
  obtain ⟨metadata, hentry, -⟩ := hstart
  have hmetadata : (tree.rootedNative rootPath contract rootedPolicy
      resolveSymlinks).symlinkMetadata start = .ok metadata := FileTree.find_eq hentry
  have hvalid' : validateOptions ((tree.rootedNative rootPath contract rootedPolicy
      resolveSymlinks).path ++ start) options = .ok () := hvalid
  have hdeadline' : walkerDeadline clockEnd ((tree.rootedNative rootPath contract rootedPolicy
      resolveSymlinks).path ++ start) options startedAt = .ok deadline := hdeadline
  unfold RootedWalker.openRooted RootedWalker.openRootedWithOutput
  dsimp only
  rw [hvalid', hdeadline', hmetadata, ← FileTree.identity_eq [] hentry]
  rfl

theorem concerns_new (resource : LocalResourceKind) (limit : Option Nat) :
    Concerns resource (limit.map (.new resource)) := by
  intro value hvalue
  cases limit with
  | none => cases hvalue
  | some limit =>
    cases hvalue
    exact ResourceBudget.resource_new resource limit

/-- Walkers without a limit stand at the same place when they are opened. -/
theorem start_agrees (hstart : tree.IsDirectory start)
    (hunlimited : options.maxOpenDirectories = none) (currentDirectory currentDirectory' :
      Option Path) :
    Agrees tree mount start
      ((LocalDirectoryWalker.start namespaceRoot [] options rootedPolicy deadline
        (directoryPool options)
        (RootedWalker.frameOf options ⟨start, []⟩ (tree.identity [] start) 1)
        (tree.identity [] start)).bindCurrentDirectory currentDirectory)
      ((LocalDirectoryWalker.start diagnosticRoot (mount ++ start) options hostPolicy deadline
        (HostWalker.rootPool options)
        (HostWalker.frameOf options [] (tree.identity mount start) 1
          ⟨tree.children start, none⟩ options.maxOpenDirectories.isSome)
        (tree.identity mount start)).bindCurrentDirectory currentDirectory') := by
  have hpool : directoryPool options = none := by
    unfold directoryPool
    rw [hunlimited]
    rfl
  have hroot : HostWalker.rootPool options = none := by
    unfold HostWalker.rootPool
    rw [hpool]
    rfl
  rw [hroot, hpool, hunlimited]
  have hframe : FrameAgrees tree mount start
      (RootedWalker.frameOf options ⟨start, []⟩ (tree.identity [] start) 1)
      (HostWalker.frameOf options [] (tree.identity mount start) 1
        ⟨tree.children start, none⟩ false) := by
    have hempty : start ++ [] = start := List.append_nil start
    refine ⟨rfl, hempty.symm, ?_, ?_, ?_, rfl, rfl, tree.children start, rfl, ?_, ?_⟩ <;>
      simp only [HostWalker.frameOf, RootedWalker.frameOf, hempty]
    · exact hstart
    · exact fun _ h => h
    · exact .inr ⟨trivial, trivial⟩
  refine ⟨rfl, rfl, rfl, rfl, rfl, rfl, rfl, concerns_new _ _, concerns_new _ _, rfl, ?_, ?_⟩ <;>
    show _ <;> simp only [LocalDirectoryWalker.start, bindCurrentDirectory]
  · by_cases hzero : options.maxDepth = some 0
    · rw [if_pos hzero, if_pos hzero]
      exact .nil
    · rw [if_neg hzero, if_neg hzero]
      exact .cons hframe .nil
  · by_cases hzero : options.maxDepth = some 0
    · rw [if_pos hzero]
      exact trivial
    · rw [if_neg hzero]
      exact ⟨rfl, trivial⟩

theorem host_refuses {native : HostNative} {backendRoot : Path} {error : LocalFileError}
    (h : validateOptions diagnosticRoot options = .error error ∨
      validateOptions diagnosticRoot options = .ok () ∧
        walkerDeadline clockEnd diagnosticRoot options startedAt = .error error) :
    HostWalker.openWithDiagnostic native clockEnd backendRoot diagnosticRoot options hostPolicy
      startedAt = .error error := by
  unfold HostWalker.openWithDiagnostic
  rcases h with hvalid | ⟨hvalid, hdeadline⟩
  · rw [hvalid]
    rfl
  · rw [hvalid, hdeadline]
    rfl

theorem rooted_refuses {native : RootedNative} {error : LocalFileError}
    (h : validateOptions (native.path ++ start) options = .error error ∨
      validateOptions (native.path ++ start) options = .ok () ∧
        walkerDeadline clockEnd (native.path ++ start) options startedAt = .error error) :
    RootedWalker.openRooted native clockEnd start namespaceRoot options rootedPolicy startedAt =
      .error error := by
  unfold RootedWalker.openRooted RootedWalker.openRootedWithOutput
  dsimp only
  rcases h with hvalid | ⟨hvalid, hdeadline⟩
  · rw [hvalid]
    rfl
  · rw [hvalid, hdeadline]
    rfl

/-- Walkers opened without a limit on open directories agree. -/
theorem unlimited_agree (options : LocalListOptions) (hstart : tree.IsDirectory start)
    (hunlimited : options.maxOpenDirectories = none) (hpolicy : rootedPolicy ≠ .followAcrossScope)
    (haccepts : ∀ path, (tree.entry (start ++ path)).isSome → contract.Accepts tree.measure (start ++ path))
    {w : HostWalker} {v : RootedWalker} (diagnosticRoot namespaceRoot : Path)
    (hdeadline : ∀ root, walkerDeadline clockEnd root options startedAt = .ok deadline)
    (hopen : HostWalker.openWithDiagnostic (tree.hostNative mount) clockEnd (mount ++ start)
      diagnosticRoot options hostPolicy startedAt = .ok w)
    (hopen' : RootedWalker.openRooted (tree.rootedNative rootPath contract rootedPolicy
      resolveSymlinks) clockEnd start namespaceRoot options rootedPolicy startedAt = .ok v)
    (currentDirectory currentDirectory' : Option Path) (clock : Nat → Nat) :
    ∃ items items',
      Ends (counted (hostTurns tree mount clock)) (w.bindCurrentDirectory currentDirectory, 0)
        items ∧
      Ends (counted (rootedTurns tree rootPath contract rootedPolicy resolveSymlinks clock))
        (v.bindCurrentDirectory currentDirectory', 0) items' ∧
      items.map outcome = items'.map outcome := by
  have hvalid (root : Path) : validateOptions root options = .ok () := by
    unfold validateOptions
    rw [hunlimited]
    rfl
  have hw := HostWalker.open_sound (FileTree.hostNative_over mount) hopen
  obtain ⟨directories, hsub, hv⟩ := RootedWalker.open_sound (tree.graph []) hopen'
  have hagrees : Agrees tree mount start (v.bindCurrentDirectory currentDirectory')
      (w.bindCurrentDirectory currentDirectory) := by
    rw [host_opens mount hostPolicy hstart (hvalid _) (hdeadline _)] at hopen
    rw [rooted_opens namespaceRoot contract rootedPolicy resolveSymlinks hstart (hvalid _) (hdeadline _)] at hopen'
    rw [← Except.ok.inj hopen, ← Except.ok.inj hopen']
    exact start_agrees hstart hunlimited _ _
  exact runs_agree hpolicy haccepts hsub hagrees (hv.bind currentDirectory')
    (hw.bind currentDirectory)

/-- Over a tree without links, and below a root whose contract accepts its paths, the Host and
    the Rooted walker both refuse the options, or both end after items with the same outcomes. -/
theorem walkers_agree (tree : FileTree) (contract : ResolutionContract)
    (mount start rootPath diagnosticRoot namespaceRoot : Path) (options : LocalListOptions)
    (hostPolicy rootedPolicy : LocalSymlinkPolicy)
    (resolveSymlinks : Path → LocalSymlinkPolicy → Bool → Except LocalFileError Path)
    (clockEnd startedAt : Nat) (clock : Nat → Nat) (currentDirectory currentDirectory' : Option Path)
    (hstart : tree.IsDirectory start)
    (hoptions : options.maxOpenDirectories = none ∨ options.reopenPolicy = .reopen)
    (hpolicy : rootedPolicy ≠ .followAcrossScope)
    (haccepts : ∀ path, (tree.entry (start ++ path)).isSome → contract.Accepts tree.measure (start ++ path)) :
    (∃ error error', HostWalker.openWithDiagnostic (tree.hostNative mount) clockEnd
          (mount ++ start) diagnosticRoot options hostPolicy startedAt = .error error ∧
        RootedWalker.openRooted (tree.rootedNative rootPath contract rootedPolicy
          resolveSymlinks) clockEnd start namespaceRoot options rootedPolicy startedAt =
            .error error' ∧ error.kind = error'.kind) ∨
    ∃ w v items items', HostWalker.openWithDiagnostic (tree.hostNative mount) clockEnd
          (mount ++ start) diagnosticRoot options hostPolicy startedAt = .ok w ∧
        RootedWalker.openRooted (tree.rootedNative rootPath contract rootedPolicy
          resolveSymlinks) clockEnd start namespaceRoot options rootedPolicy startedAt = .ok v ∧
        Ends (counted (hostTurns tree mount clock)) (w.bindCurrentDirectory currentDirectory, 0)
          items ∧
        Ends (counted (rootedTurns tree rootPath contract rootedPolicy resolveSymlinks clock))
          (v.bindCurrentDirectory currentDirectory', 0) items' ∧
        items.map outcome = items'.map outcome := by
  rcases options_cases clockEnd options startedAt with ⟨deadline, hoptions'⟩ | hrefused
  · have hdeadline (root : Path) := (hoptions' root).2
    have hopen := host_opens mount hostPolicy hstart (hoptions' diagnosticRoot).1 (hdeadline _)
    have hopen' := rooted_opens namespaceRoot contract rootedPolicy resolveSymlinks hstart
      (hoptions' (rootPath ++ start)).1 (hdeadline _)
    -- a walker with a limit gives the items of one without
    cases hlimit : options.maxOpenDirectories with
    | none =>
      obtain ⟨items, items', hends, hends', heq⟩ := unlimited_agree options hstart hlimit hpolicy
        haccepts diagnosticRoot namespaceRoot hdeadline hopen hopen' currentDirectory
        currentDirectory' clock
      exact .inr ⟨_, _, items, items', hopen, hopen', hends, hends', heq⟩
    | some n =>
      have hreopen : options.reopenPolicy = .reopen := by
        rcases hoptions with hnone | hreopen
        · rw [hlimit] at hnone
          cases hnone
        · exact hreopen
      obtain ⟨w, hopenw, ⟨items, hbounded, hends⟩, -⟩ := HostWalker.open_sameItems
        (FileTree.hostNative_over mount) (FileTree.hostNative_static mount) hlimit hreopen hopen
        currentDirectory clock
      obtain ⟨v, hopenv, ⟨items', hbounded', hends'⟩, -⟩ := RootedWalker.open_sameItems
        FileTree.rootedNative_over hlimit hreopen hopen' currentDirectory' clock
      obtain ⟨all, all', hall, hall', heq⟩ := unlimited_agree
        { options with maxOpenDirectories := none } hstart rfl hpolicy haccepts diagnosticRoot
        namespaceRoot hdeadline hopenw hopenv currentDirectory currentDirectory' clock
      rw [hall.unique hends, hall'.unique hends'] at heq
      exact .inr ⟨_, _, items, items', hopen, hopen', hbounded, hbounded', heq⟩
  · -- options that are refused are refused by both
    obtain ⟨error, hkind, hhost⟩ := hrefused diagnosticRoot
    obtain ⟨error', hkind', hrooted⟩ := hrefused (rootPath ++ start)
    exact .inl ⟨error, error', host_refuses hhost, rooted_refuses hrooted,
      hkind.trans hkind'.symm⟩

end Opening

/-! ## 6. A root with one file -/

section OneFile

open scoped QubitBudget

def oneFileEntry : Path → Option Metadata
  | [] => some ⟨.directory, some ⟨0, 1⟩⟩
  | ["a"] => some ⟨.file, some ⟨0, 2⟩⟩
  | _ => none

def oneFileChildren : Path → List String
  | [] => ["a"]
  | _ => []

theorem oneFileEntry_cases {path : Path} {metadata : Metadata}
    (h : oneFileEntry path = some metadata) :
    path = [] ∧ metadata = ⟨.directory, some ⟨0, 1⟩⟩ ∨
      path = ["a"] ∧ metadata = ⟨.file, some ⟨0, 2⟩⟩ := by
  unfold oneFileEntry at h
  split at h
  next => exact .inl ⟨rfl, (Option.some.inj h).symm⟩
  next => exact .inr ⟨rfl, (Option.some.inj h).symm⟩
  next => cases h

theorem oneFileEntry_child {path : Path} {name : String} {metadata : Metadata}
    (h : oneFileEntry (path ++ [name]) = some metadata) : path = [] ∧ name = "a" := by
  rcases oneFileEntry_cases h with ⟨heq, -⟩ | ⟨heq, -⟩
  · exact absurd heq (List.append_ne_nil_of_right_ne_nil _ (List.cons_ne_nil _ _))
  · have hsplit : path ++ [name] = [] ++ ["a"] := heq
    obtain ⟨hpath, hname⟩ := List.append_inj' hsplit rfl
    exact ⟨hpath, (List.cons.inj hname).1⟩

def oneFile : FileTree where
  measure := .unix
  entry := oneFileEntry
  children := oneFileChildren
  paths := {[], ["a"]}
  mem_paths path h := by
    obtain ⟨metadata, hentry⟩ := Option.isSome_iff_exists.mp h
    rcases oneFileEntry_cases hentry with ⟨rfl, -⟩ | ⟨rfl, -⟩ <;> decide
  nodup path := by
    unfold oneFileChildren
    split <;> decide
  listed path name := by
    constructor
    · intro h
      cases path with
      | nil =>
        rw [List.mem_singleton.mp h]
        rfl
      | cons head tail => cases h
    · intro h
      obtain ⟨metadata, hentry⟩ := Option.isSome_iff_exists.mp h
      obtain ⟨rfl, rfl⟩ := oneFileEntry_child hentry
      decide
  parent path name h := by
    obtain ⟨metadata, hentry⟩ := Option.isSome_iff_exists.mp h
    obtain ⟨rfl, rfl⟩ := oneFileEntry_child hentry
    exact ⟨_, rfl, rfl⟩
  normal path h := by
    obtain ⟨metadata, hentry⟩ := Option.isSome_iff_exists.mp h
    rcases oneFileEntry_cases hentry with ⟨rfl, -⟩ | ⟨rfl, -⟩ <;> decide
  linkFree path metadata h := by
    rcases oneFileEntry_cases h with ⟨-, rfl⟩ | ⟨-, rfl⟩ <;> decide
  distinct path path' metadata metadata' identity h h' hkind hkind' _ _ := by
    rcases oneFileEntry_cases h with ⟨rfl, rfl⟩ | ⟨rfl, rfl⟩
    · rcases oneFileEntry_cases h' with ⟨rfl, rfl⟩ | ⟨rfl, rfl⟩
      · rfl
      · cases hkind'
    · cases hkind

/-- The walks of the root agree when its contract is unrestricted. -/
theorem walkers_agree_oneFile :
    oneFile.IsDirectory [] ∧ ∃ w v items items',
      HostWalker.openWithDiagnostic (oneFile.hostNative ["r"]) 0 ["r"] ["r"]
        { recursive := true } .reject 0 = .ok w ∧
      RootedWalker.openRooted (oneFile.rootedNative ["r"] .unrestricted .reject
        (fun path _ _ => .ok path)) 0 [] [] { recursive := true } .reject 0 = .ok v ∧
      Ends (counted (hostTurns oneFile ["r"] fun _ => 0)) (w.bindCurrentDirectory none, 0) items ∧
      Ends (counted (rootedTurns oneFile ["r"] .unrestricted .reject (fun path _ _ => .ok path)
        fun _ => 0)) (v.bindCurrentDirectory none, 0) items' ∧
      items.map outcome = items'.map outcome := by
  have hstart : oneFile.IsDirectory [] := ⟨⟨.directory, some ⟨0, 1⟩⟩, rfl, rfl⟩
  rcases walkers_agree oneFile .unrestricted ["r"] [] ["r"] ["r"] [] { recursive := true } .reject
    .reject (fun path _ _ => .ok path) 0 0 (fun _ => 0) none none hstart (.inl rfl) (by decide)
    (fun path _ => ResolutionContract.unrestricted_accepts .unix path) with hrefused | hagree
  · obtain ⟨error, error', hopen, -, -⟩ := hrefused
    cases hopen
  · exact ⟨hstart, hagree⟩

/-- A root that allows no bytes in a resolved path refuses the file the Host walker yields.  And
    when time goes by between the turns, a deadline passes while the Rooted walker opens its
    reader, which the Host walker has open already. -/
theorem walkers_differ :
    (∃ w v items items',
      HostWalker.openWithDiagnostic (oneFile.hostNative []) 0 [] [] {} .reject 0 = .ok w ∧
      RootedWalker.openRooted (oneFile.rootedNative [] ⟨{ resolvedPathBytes := some 0 }, []⟩
        .reject (fun path _ _ => .ok path)) 0 [] [] {} .reject 0 = .ok v ∧
      Ends (counted (hostTurns oneFile [] fun _ => 0)) (w.bindCurrentDirectory none, 0) items ∧
      Ends (counted (rootedTurns oneFile [] ⟨{ resolvedPathBytes := some 0 }, []⟩ .reject
        (fun path _ _ => .ok path) fun _ => 0)) (v.bindCurrentDirectory none, 0) items' ∧
      items.map outcome = [.ok ["a"]] ∧
      items'.map outcome = [.error (some .pendingResolutionBytes)]) ∧
    ∃ w v items items',
      HostWalker.openWithDiagnostic (oneFile.hostNative ["r"]) 9 ["r"] ["r"]
        { deadline := some 1 } .reject 0 = .ok w ∧
      RootedWalker.openRooted (oneFile.rootedNative ["r"] .unrestricted .reject
        (fun path _ _ => .ok path)) 9 [] [] { deadline := some 1 } .reject 0 = .ok v ∧
      Ends (timed (hostTurns oneFile ["r"] id)) (w.bindCurrentDirectory none, 0) items ∧
      Ends (timed (rootedTurns oneFile ["r"] .unrestricted .reject (fun path _ _ => .ok path) id))
        (v.bindCurrentDirectory none, 0) items' ∧
      items.map outcome = [.ok ["a"], .error none] ∧ items'.map outcome = [.error none] :=
  ⟨⟨_, _, _, _, rfl, rfl, ⟨3, rfl⟩, ⟨3, rfl⟩, rfl, rfl⟩,
    ⟨_, _, _, _, rfl, rfl, ⟨3, rfl⟩, ⟨3, rfl⟩, rfl, rfl⟩⟩

end OneFile

end LocalFiles.Walk
