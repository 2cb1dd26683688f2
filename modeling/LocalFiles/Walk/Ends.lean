import LocalFiles.Walk.Host
import LocalFiles.Walk.Rooted
import LocalFiles.Walk.Turn

/-!
# Ends — every walk of a finite graph ends

Each turn of the Host walker and of the Rooted walker is a `Turn`, whatever the native calls
answer.  So both iterations end, and the followed directories are the identities on the stack
all along.
-/

namespace LocalFiles.Walk

variable {π : Type}

/-! ## 1. The shared operations -/

namespace LocalDirectoryWalker

theorem canDescend_of_mayDescend {options : LocalListOptions} {entryDepth : Nat}
    (h : options.mayDescend entryDepth) (hlevel : 0 < entryDepth) : options.canDescend := by
  unfold LocalListOptions.mayDescend at h
  unfold LocalListOptions.canDescend
  rw [Bool.and_eq_true] at h ⊢
  refine ⟨h.1, ?_⟩
  cases hdepth : options.maxDepth with
  | none => rfl
  | some maxDepth =>
    have hlt := h.2
    rw [hdepth] at hlt
    have hlt' : entryDepth < maxDepth := by simpa using hlt
    show decide (1 < maxDepth) = true
    rw [decide_eq_true_eq]
    omega

variable [QubitBudget]

/-- Nothing a frame depends on differs: only budgets and the end mark may. -/
structure Same (w w' : LocalDirectoryWalker π) : Prop where
  options : w'.options = w.options
  pool : w'.openDirectories = w.openDirectories
  stack : w'.stack = w.stack
  followed : w'.followedDirectories = w.followedDirectories
  base : w'.backendRoot = w.backendRoot
  symlinks : w'.symlinkPolicy = w.symlinkPolicy

/-- An exhausted pool may close every frame. -/
def Closes (w : LocalDirectoryWalker π) : Prop :=
  w.openDirectories.isSome ∧ w.options.reopenPolicy = .reopen

/-- What trying to acquire a permit leaves behind. -/
structure Acquired (w w' : LocalDirectoryWalker π) : Prop where
  rest : w' = { w with openDirectories := w'.openDirectories, stack := w'.stack }
  pool : w'.openDirectories.isSome = w.openDirectories.isSome
  kept : Kept w.Closes w.stack w'.stack

variable {directories : Finset DirectoryIdentity} {names : Finset String}
  {w w' w'' : LocalDirectoryWalker π}

theorem Same.refl (w : LocalDirectoryWalker π) : Same w w := ⟨rfl, rfl, rfl, rfl, rfl, rfl⟩

theorem Same.trans (h : Same w w') (h' : Same w' w'') : Same w w'' :=
  ⟨h'.options.trans h.options, h'.pool.trans h.pool, h'.stack.trans h.stack,
    h'.followed.trans h.followed, h'.base.trans h.base, h'.symlinks.trans h.symlinks⟩

theorem Same.config (h : Same w w') : Config w w' := ⟨h.options, by rw [h.pool]⟩

theorem same_terminate : Same w w.terminate := ⟨rfl, rfl, rfl, rfl, rfl, rfl⟩

theorem same_afterError : Same w w.afterError := by
  unfold afterError
  split
  · exact same_terminate
  · exact .refl w

theorem terminated_afterError (h : w.terminated) : w.afterError.terminated := by
  unfold afterError
  split
  · rfl
  · exact h

theorem same_chargeEntry (h : w.chargeEntry = .ok w') : Same w w' := by
  unfold chargeEntry at h
  split at h
  · cases h
    exact .refl w
  · next budget _ =>
    cases hconsume : budget.tryConsume 1 with
    | error error => rw [hconsume] at h; cases h
    | ok budget =>
      rw [hconsume] at h
      cases h
      exact ⟨rfl, rfl, rfl, rfl, rfl, rfl⟩

theorem same_chargeName {measure : NameMeasure} {name : String}
    (h : w.chargeName measure name = .ok w') : Same w w' := by
  unfold chargeName at h
  split at h
  · cases h
    exact .refl w
  · next budget _ =>
    cases hconsume : budget.tryConsume (measure.nameBytes name) with
    | error error => rw [hconsume] at h; cases h
    | ok budget =>
      rw [hconsume] at h
      cases h
      exact ⟨rfl, rfl, rfl, rfl, rfl, rfl⟩

theorem same_charge (measure : NameMeasure) (name : String) :
    Same w (w.charge measure name).1 := by
  unfold charge
  split
  · exact .refl w
  · next hentry =>
    split
    · exact same_chargeEntry hentry
    · next hname => exact (same_chargeEntry hentry).trans (same_chargeName hname)

theorem Acquired.refl (w : LocalDirectoryWalker π) : Acquired w w := ⟨rfl, rfl, .refl _ _⟩

theorem Acquired.options (h : Acquired w w') : w'.options = w.options := by
  rw [h.rest]

theorem Acquired.followed (h : Acquired w w') :
    w'.followedDirectories = w.followedDirectories := by
  rw [h.rest]

theorem Acquired.config (h : Acquired w w') : Config w w' := ⟨h.options, h.pool⟩

theorem Acquired.releasePermits (h : Acquired w w') (n : Nat) :
    Acquired w (w'.releasePermits n) where
  rest := by
    show { w' with openDirectories := _ } = _
    rw [h.rest]
    rfl
  pool := by
    show (w'.openDirectories.map _).isSome = _
    rw [Option.isSome_map]
    exact h.pool
  kept := h.kept

theorem tryAcquire_ok {permit : Bool} (h : w.tryAcquire = .ok (w', permit)) :
    ∃ pool, w' = { w with openDirectories := pool } ∧
      pool.isSome = w.openDirectories.isSome := by
  unfold tryAcquire at h
  split at h
  · cases h
    exact ⟨w.openDirectories, rfl, rfl⟩
  · next pool hpool =>
    cases hacquire : pool.tryAcquire with
    | error error => rw [hacquire] at h; cases h
    | ok pool' =>
      rw [hacquire] at h
      cases h
      exact ⟨some pool', rfl, by rw [hpool]; rfl⟩

theorem tryAcquire_error {error : LocalResourceLimitError} (h : w.tryAcquire = .error error) :
    w.openDirectories.isSome := by
  unfold tryAcquire at h
  split at h
  · cases h
  · next hpool => rw [hpool]; rfl

theorem acquireDirectory_acquired (path : Path) : Acquired w (w.acquireDirectory path).1 := by
  have hclosed (hpool : w.openDirectories.isSome) (hpolicy : w.options.reopenPolicy = .reopen) :
      Acquired w w.closeAllFrames :=
    ⟨rfl, Option.isSome_map .., .inr ⟨⟨hpool, hpolicy⟩, rfl⟩⟩
  unfold acquireDirectory
  split
  · next hok =>
    obtain ⟨pool, rfl, hpool⟩ := tryAcquire_ok hok
    exact ⟨rfl, hpool, .refl _ _⟩
  · next hfull =>
    split
    · next hpolicy =>
      have hall := hclosed (tryAcquire_error hfull) hpolicy
      split
      · next hok =>
        obtain ⟨pool, rfl, hpool⟩ := tryAcquire_ok hok
        exact ⟨rfl, hpool.trans hall.pool, hall.kept⟩
      · exact hall
    · exact .refl w

/-- Only a walk that can reopen its frames has frames below the top one that may be closed. -/
theorem Sound.kept_below (hw : w.Sound directories names) {frame : WalkFrame π}
    {below below' : List (WalkFrame π)} (hstack : w.stack = frame :: below)
    (h : Kept w.Closes below below') : Kept w.options.canReopen below below' := by
  cases below with
  | nil =>
    rcases h with rfl | ⟨-, rfl⟩
    · exact .inl rfl
    · exact .inl rfl
  | cons next rest =>
    apply h.mono
    rintro ⟨hpool, hpolicy⟩
    have hdepth := hw.depth (by rw [hstack]; exact List.cons_ne_nil _ _)
    have hlimit := hw.pool ▸ hpool
    unfold LocalListOptions.canReopen
    rw [hdepth, hlimit, hpolicy]
    rfl

/-- A walk that may descend keeps its frames, or closes them to reopen them later. -/
theorem Sound.kept_descending (hw : w.Sound directories names) {frames : List (WalkFrame π)}
    (hdescends : w.options.canDescend) (h : Kept w.Closes w.stack frames) :
    Kept w.options.canReopen w.stack frames := by
  apply h.mono
  rintro ⟨hpool, hpolicy⟩
  have hlimit := hw.pool ▸ hpool
  unfold LocalListOptions.canReopen
  rw [hdescends, hlimit, hpolicy]
  rfl

/-- Popping the top frame after an attempt to acquire a permit. -/
theorem Acquired.turn_leave (h : Acquired w w') (hw : w.Sound directories names)
    {frame : WalkFrame π} {below : List (WalkFrame π)} (hstack : w.stack = frame :: below) :
    Turn directories names w w'.leaveDirectory := by
  have hkept := h.kept
  rw [hstack] at hkept
  obtain ⟨top, below', hstack', htop, hbelow⟩ := hkept.cons
  obtain ⟨identity, hidentity⟩ :=
    Option.isSome_iff_exists.mp (hw.follows.identified frame (hstack ▸ List.mem_cons_self))
  have hidentity' : top.identity = some identity := by
    rcases htop with rfl | rfl <;> exact hidentity
  unfold leaveDirectory
  rw [hstack']
  dsimp only
  rw [hidentity']
  refine .left ⟨h.options, ?_⟩ hstack hidentity ?_ (hw.kept_below hstack hbelow)
  · show (w'.openDirectories.map _).isSome = _
    rw [Option.isSome_map]
    exact h.pool
  · show w'.followedDirectories.erase identity = _
    rw [h.followed]

theorem Acquired.turn_open (h : Acquired w w') (hw : w.Sound directories names)
    {frame : WalkFrame π} {below : List (WalkFrame π)} (hstack : w.stack = frame :: below)
    (hclosed : frame.reader = none) {entries : Listing} {permit : Bool}
    (hwithin : entries.Within names) :
    Turn directories names w (w'.openTop entries permit) := by
  have hkept := h.kept
  rw [hstack] at hkept
  obtain ⟨top, below', hstack', htop, hbelow⟩ := hkept.cons
  have heq : { top with reader := some entries, directoryPermit := permit } =
      { frame with reader := some entries, directoryPermit := permit } := by
    rcases htop with rfl | rfl <;> rfl
  unfold openTop
  rw [hstack']
  dsimp only
  rw [heq]
  exact .opened ⟨h.options, h.pool⟩ h.followed hstack hclosed rfl (hw.kept_below hstack hbelow)
    hwithin

theorem Acquired.turn_terminate (h : Acquired w w') : Turn directories names w w'.terminate :=
  .ended (h.config.trans same_terminate.config) h.followed (h.kept.mono fun _ => trivial) rfl

end LocalDirectoryWalker

open LocalDirectoryWalker

section Visited

variable [QubitBudget] {directories : Finset DirectoryIdentity} {names : Finset String}
  {w w' w'' : LocalDirectoryWalker π}

theorem Visited.of_same (h : Same w w') (hvisited : Visited directories names w' w'') :
    Visited directories names w w'' := by
  cases hvisited with
  | passed hconfig hfollowed hstack =>
    exact .passed (h.config.trans hconfig) (hfollowed.trans h.followed)
      (by rw [← h.stack, ← h.options]; exact hstack)
  | entered hconfig hfollowed hstack hbelow hidentity hfresh hknown hseen hlevel hreader
      hdescends =>
    exact .entered (h.config.trans hconfig) (by rw [← h.followed]; exact hfollowed) hstack
      (by rw [← h.stack, ← h.options]; exact hbelow) hidentity (by rw [← h.followed]; exact hfresh)
      hknown (by rw [← h.options]; exact hseen) hlevel hreader (h.options ▸ hdescends)

theorem Visited.same (hvisited : Visited directories names w w') (h : Same w' w'') :
    Visited directories names w w'' := by
  cases hvisited with
  | passed hconfig hfollowed hstack =>
    exact .passed (hconfig.trans h.config) (h.followed.trans hfollowed)
      (by rw [h.stack]; exact hstack)
  | entered hconfig hfollowed hstack hbelow hidentity hfresh hknown hseen hlevel hreader
      hdescends =>
    exact .entered (hconfig.trans h.config) (h.followed.trans hfollowed) (h.stack.trans hstack)
      hbelow hidentity hfresh hknown hseen hlevel hreader hdescends

theorem Visited.refl (w : LocalDirectoryWalker π) : Visited directories names w w :=
  .passed (.refl w) rfl (.refl _ _)

theorem Turn.same (hturn : Turn directories names w w') (h : Same w' w'')
    (hterminated : w'.terminated → w''.terminated) : Turn directories names w w'' := by
  cases hturn with
  | ended hconfig hfollowed hstack hended =>
    exact .ended (hconfig.trans h.config) (h.followed.trans hfollowed)
      (by rw [h.stack]; exact hstack) (hterminated hended)
  | opened hconfig hfollowed hstack hclosed hstack' hkept hwithin =>
    exact .opened (hconfig.trans h.config) (h.followed.trans hfollowed) hstack hclosed
      (h.stack.trans hstack') hkept hwithin
  | left hconfig hstack hidentity hfollowed hkept =>
    exact .left (hconfig.trans h.config) hstack hidentity (h.followed.trans hfollowed)
      (by rw [h.stack]; exact hkept)
  | skipped hconfig hfollowed hstack hreader hseen hstack' =>
    exact .skipped (hconfig.trans h.config) (h.followed.trans hfollowed) hstack hreader hseen
      (h.stack.trans hstack')
  | failed hconfig hfollowed hstack hreader hstack' =>
    exact .failed (hconfig.trans h.config) (h.followed.trans hfollowed) hstack hreader
      (h.stack.trans hstack')
  | took hstack hreader hfresh hvisited =>
    exact .took hstack hreader hfresh (hvisited.same h)

end Visited

/-! ## 2. The Host walker -/

/-- The answers concern the directories of the graph. -/
structure HostNative.Over (native : HostNative) (graph : DirectoryGraph) : Prop where
  readDir : ∀ path listing, native.readDir path = .ok listing → graph.Lists listing
  identity : ∀ metadata path identity,
    native.directoryIdentity metadata path = .ok identity → identity ∈ graph.directories

namespace HostWalker

variable {native : HostNative} {graph : DirectoryGraph} {directories : Finset DirectoryIdentity}

theorem nativeDirectoryIdentity_ok {metadata : Metadata} {path : Path}
    {identity : DirectoryIdentity}
    (h : nativeDirectoryIdentity native metadata path = .ok identity) :
    native.directoryIdentity metadata path = .ok identity := by
  unfold nativeDirectoryIdentity at h
  cases hnative : native.directoryIdentity metadata path with
  | error error => rw [hnative] at h; cases h
  | ok value => rw [hnative] at h; cases h; rfl

variable [QubitBudget] {w w' : HostWalker}

theorem handleReopenError_turn {names : Finset String} {w1 : HostWalker}
    {r : Except LocalFileError Unit} {error : LocalFileError}
    (h : handleReopenError w1 error = (w', r)) (hw : w.Sound directories names)
    {frame : WalkFrame Path} {below : List (WalkFrame Path)} (hstack : w.stack = frame :: below)
    (hacquired : Acquired w w1) : Turn directories names w w' := by
  unfold handleReopenError at h
  split at h
  · cases h
    exact hacquired.turn_terminate
  · cases h
    exact hacquired.turn_leave hw hstack

theorem reopenHostFrame_turn {r : Except LocalFileError Unit} {relativeParent : Path}
    (h : reopenHostFrame native w relativeParent = (w', r)) (hnative : native.Over graph)
    (hw : w.Sound directories graph.allNames) {frame : WalkFrame Path}
    {below : List (WalkFrame Path)} (hstack : w.stack = frame :: below)
    (hclosed : frame.reader = none) : Turn directories graph.allNames w w' := by
  unfold reopenHostFrame at h
  dsimp only at h
  split at h
  · exact handleReopenError_turn h hw hstack (.refl w)
  · split at h
    · exact handleReopenError_turn h hw hstack (.refl w)
    · split at h
      · exact handleReopenError_turn h hw hstack (.refl w)
      · split at h
        · exact handleReopenError_turn h hw hstack (.refl w)
        · have hacquired := acquireDirectory_acquired (w := w) (w.backendRoot ++ relativeParent)
          split at h
          · next heq =>
            rw [heq] at hacquired
            exact handleReopenError_turn h hw hstack hacquired
          · next heq =>
            rw [heq] at hacquired
            split at h
            · exact handleReopenError_turn h hw hstack (hacquired.releasePermits _)
            · next hread =>
              cases h
              exact hacquired.turn_open hw hstack hclosed (hnative.readDir _ _ hread).within

theorem descend_visited {r : Except LocalFileError Unit} {path relative : Path}
    {metadata : Metadata} {entryDepth : Nat}
    (h : descend native w path metadata relative entryDepth = (w', r))
    (hnative : native.Over graph) (hsub : graph.directories ⊆ directories)
    (hw : w.Sound directories graph.allNames) (hdescends : w.options.canDescend) :
    Visited directories graph.allNames w w' := by
  unfold descend at h
  split at h
  · cases h
    exact .refl w
  · next identity hidentity =>
    split at h
    · cases h
      exact .refl w
    · next hfresh =>
      have hacquired := acquireDirectory_acquired (w := w) path
      split at h
      · next heq =>
        rw [heq] at hacquired
        cases h
        exact .passed hacquired.config hacquired.followed
          (hw.kept_descending hdescends hacquired.kept)
      · next permit heq =>
        rw [heq] at hacquired
        split at h
        · cases h
          have hreleased := hacquired.releasePermits permit.toNat
          exact .passed hreleased.config hreleased.followed
            (hw.kept_descending hdescends hreleased.kept)
        · next hread =>
          cases h
          refine .entered ⟨hacquired.options, hacquired.pool⟩ ?_ rfl
            (hw.kept_descending hdescends hacquired.kept) rfl hfresh
            (hsub (hnative.identity _ _ _ (nativeDirectoryIdentity_ok hidentity))) ?_
            (Nat.succ_pos _) ?_ hdescends
          · show insert identity _ = _
            rw [hacquired.followed]
          · show freshSeen _ = _
            rw [hacquired.options]
          · rintro _ ⟨⟩
            exact (hnative.readDir _ _ hread).within

theorem visit_visited {relativeParent : Path} {entryDepth : Nat} {name : String}
    (h : (visit native w relativeParent entryDepth name).next = some w')
    (hnative : native.Over graph) (hsub : graph.directories ⊆ directories)
    (hw : w.Sound directories graph.allNames) (hlevel : 0 < entryDepth) :
    Visited directories graph.allNames w w' := by
  unfold visit at h
  split at h
  · cases h
    exact .refl w
  · have hcharge := same_charge (w := w) native.measure name
    split at h
    · next heq =>
      rw [heq] at hcharge
      cases h
      exact (Visited.refl w).same (hcharge.trans same_terminate)
    · next w1 heq =>
      rw [heq] at hcharge
      have hw1 : w1.Sound directories graph.allNames :=
        hw.kept hcharge.config hcharge.followed (.inl hcharge.stack : Kept True _ _)
      dsimp only at h
      split at h
      · cases h
        exact (Visited.refl w).same (hcharge.trans same_afterError)
      · split at h
        · cases h
          exact (Visited.refl w).same (hcharge.trans same_afterError)
        · split at h
          · next hdirectory =>
            have hdescends := canDescend_of_mayDescend hdirectory.2 hlevel
            split at h
            · next heq' =>
              cases h
              exact ((descend_visited heq' hnative hsub hw1 hdescends).same
                same_afterError).of_same hcharge
            · next heq' =>
              cases h
              exact (descend_visited heq' hnative hsub hw1 hdescends).of_same hcharge
          · cases h
            exact (Visited.refl w).same hcharge

theorem read_turn {frame : WalkFrame Path} {below : List (WalkFrame Path)} {listing : Listing}
    (h : (read native w frame listing).next = some w') (hnative : native.Over graph)
    (hsub : graph.directories ⊆ directories) (hw : w.Sound directories graph.allNames)
    (hstack : w.stack = frame :: below) (hreader : frame.reader = some listing) :
    Turn directories graph.allNames w w' := by
  obtain ⟨entries, failure⟩ := listing
  unfold read at h
  match entries, failure with
  | name :: entries, failure =>
    simp only [Listing.next] at h
    split at h
    · next hseen =>
      cases h
      exact .skipped ⟨rfl, rfl⟩ rfl hstack hreader hseen (setTop_stack hstack _)
    · next hseen =>
      refine .took hstack hreader hseen (visit_visited h hnative hsub (hw.take hstack hreader) ?_)
      exact hw.level frame (hstack ▸ List.mem_cons_self)
  | [], some error =>
    simp only [Listing.next] at h
    cases h
    have hturn : Turn directories graph.allNames w
        (w.setTop { frame with reader := some ⟨[], none⟩ }) :=
      .failed ⟨rfl, rfl⟩ rfl hstack hreader (setTop_stack hstack _)
    exact hturn.same same_afterError terminated_afterError
  | [], none =>
    simp only [Listing.next] at h
    cases h
    exact (Acquired.refl w).turn_leave hw hstack

theorem nextEntry_turn (h : (nextEntry native w).next = some w') (hnative : native.Over graph)
    (hsub : graph.directories ⊆ directories) (hw : w.Sound directories graph.allNames) :
    w.terminated = false ∧ Turn directories graph.allNames w w' := by
  unfold nextEntry at h
  split at h
  · cases h
  · next hrunning =>
    refine ⟨Bool.eq_false_iff.mpr hrunning, ?_⟩
    split at h
    · cases h
      exact (Acquired.refl w).turn_terminate
    · split at h
      · cases h
      · next frame below hstack =>
        split at h
        · next hclosed =>
          split at h
          · next heq =>
            cases h
            exact reopenHostFrame_turn heq hnative hw hstack hclosed
          · next heq =>
            cases h
            exact reopenHostFrame_turn heq hnative hw hstack hclosed
        · next hreader => exact read_turn h hnative hsub hw hstack hreader

end HostWalker

/-! ## 3. The Rooted walker -/

/-- The answers concern the directories of the graph. -/
structure RootedNative.Over (native : RootedNative) (graph : DirectoryGraph) : Prop where
  openDirReader : ∀ path listing, native.openDirReader path = .ok listing → graph.Lists listing
  entryMetadata : ∀ path metadata, native.entryMetadata path = .ok metadata →
    metadata.kind = .directory → .fromRootedMetadata metadata path ∈ graph.directories
  symlinkMetadata : ∀ path metadata, native.symlinkMetadata path = .ok metadata →
    metadata.kind = .directory → .fromRootedMetadata metadata path ∈ graph.directories

namespace RootedWalker

variable [QubitBudget] {native : RootedNative} {graph : DirectoryGraph}
  {directories : Finset DirectoryIdentity} {w w' : RootedWalker}

theorem openReader_turn {r : Except LocalFileError Unit} {place : RootedPlace}
    (h : openReader native w place = (w', r)) (hnative : native.Over graph)
    (hw : w.Sound directories graph.allNames) {frame : WalkFrame RootedPlace}
    {below : List (WalkFrame RootedPlace)} (hstack : w.stack = frame :: below)
    (hclosed : frame.reader = none) : Turn directories graph.allNames w w' := by
  have hacquired := acquireDirectory_acquired (w := w) (w.root ++ place.outputParent)
  unfold openReader at h
  dsimp only at h
  split at h
  · next heq =>
    rw [heq] at hacquired
    cases h
    exact hacquired.turn_leave hw hstack
  · next permit heq =>
    rw [heq] at hacquired
    have hleave := (hacquired.releasePermits permit.toNat).turn_leave hw hstack
    split at h
    · cases h
      exact hleave
    · next hread =>
      split at h
      · cases h
        exact hleave
      · split at h
        · cases h
          exact hleave
        · cases h
          exact hacquired.turn_open hw hstack hclosed (hnative.openDirReader _ _ hread).within

theorem unlessFollowed_ok {reason : String} {output target target' : Path} {metadata : Metadata}
    {identity : DirectoryIdentity}
    (h : unlessFollowed w reason output target metadata = .ok (some (target', identity))) :
    target' = target ∧ identity = .fromRootedMetadata metadata target ∧
      identity ∉ w.followedDirectories := by
  unfold unlessFollowed at h
  dsimp only at h
  split at h
  · cases h
  · next hfresh =>
    cases h
    exact ⟨rfl, rfl, hfresh⟩

/-- The directory an entry leads to is one of the graph, and not on the stack. -/
theorem followedDirectory_ok {place : RootedPlace} {name : String} {metadata : Metadata}
    {mayDescend : Bool} {target : Path} {identity : DirectoryIdentity}
    (h : followedDirectory native w place name metadata mayDescend = .ok (some (target, identity)))
    (hnative : native.Over graph)
    (hentry : native.entryMetadata (place.authorityParent ++ [name]) = .ok metadata) :
    identity ∉ w.followedDirectories ∧ identity ∈ graph.directories := by
  unfold followedDirectory at h
  dsimp only at h
  split at h
  · next hkind =>
    obtain ⟨rfl, rfl, hfresh⟩ := unlessFollowed_ok h
    exact ⟨hfresh, hnative.entryMetadata _ _ hentry hkind⟩
  · split at h
    · split at h
      · cases h
      · split at h
        · cases h
        · next htarget =>
          split at h
          · next hkind =>
            obtain ⟨rfl, rfl, hfresh⟩ := unlessFollowed_ok h
            exact ⟨hfresh, hnative.symlinkMetadata _ _ htarget hkind⟩
          · cases h
    · cases h

theorem visit_visited {place : RootedPlace} {entryDepth : Nat} {name : String}
    {metadata : Metadata}
    (h : (visit native w place entryDepth name metadata).next = some w')
    (hnative : native.Over graph) (hsub : graph.directories ⊆ directories)
    (hlevel : 0 < entryDepth)
    (hentry : native.entryMetadata (place.authorityParent ++ [name]) = .ok metadata) :
    Visited directories graph.allNames w w' := by
  unfold visit at h
  split at h
  · cases h
    exact .refl w
  · have hcharge := same_charge (w := w) native.measure name
    split at h
    · next heq =>
      rw [heq] at hcharge
      cases h
      exact (Visited.refl w).same hcharge
    · next w1 heq =>
      rw [heq] at hcharge
      dsimp only at h
      split at h
      · cases h
        exact (Visited.refl w).same hcharge
      · split at h
        · cases h
          exact (Visited.refl w).same hcharge
        · next followed hfollowed =>
          split at h
          · next target identity =>
            obtain ⟨hfresh, hknown⟩ := followedDirectory_ok hfollowed hnative hentry
            split at h
            · next hdescends =>
              cases h
              apply Visited.of_same hcharge
              refine .entered ⟨rfl, rfl⟩ rfl rfl (.refl _ _) rfl hfresh (hsub hknown) rfl
                (Nat.succ_pos _) ?_ (canDescend_of_mayDescend hdescends hlevel)
              rintro _ ⟨⟩
            · cases h
              exact (Visited.refl w).same hcharge
          · cases h
            exact (Visited.refl w).same hcharge

theorem take_visited {place : RootedPlace} {entryDepth : Nat} {name : String}
    (h : (take native w place entryDepth name).next = some w') (hnative : native.Over graph)
    (hsub : graph.directories ⊆ directories) (hlevel : 0 < entryDepth) :
    Visited directories graph.allNames w w' := by
  unfold take at h
  split at h
  · next hentry => exact visit_visited h hnative hsub hlevel hentry
  · split at h
    · cases h
      exact .refl w
    · next hname =>
      cases h
      exact (Visited.refl w).same (same_chargeName hname)

theorem read_turn {frame : WalkFrame RootedPlace} {below : List (WalkFrame RootedPlace)}
    {listing : Listing} (h : (read native w frame listing).next = some w')
    (hnative : native.Over graph) (hsub : graph.directories ⊆ directories)
    (hw : w.Sound directories graph.allNames) (hstack : w.stack = frame :: below)
    (hreader : frame.reader = some listing) : Turn directories graph.allNames w w' := by
  obtain ⟨entries, failure⟩ := listing
  unfold read at h
  match entries, failure with
  | name :: entries, failure =>
    simp only [Listing.next] at h
    split at h
    · next hseen =>
      cases h
      exact .skipped ⟨rfl, rfl⟩ rfl hstack hreader hseen (setTop_stack hstack _)
    · next hseen =>
      have hlevel := hw.level frame (hstack ▸ List.mem_cons_self)
      exact .took hstack hreader hseen (take_visited h hnative hsub hlevel)
  | [], some error =>
    simp only [Listing.next] at h
    cases h
    exact (Acquired.refl w).turn_leave hw hstack
  | [], none =>
    simp only [Listing.next] at h
    cases h
    exact (Acquired.refl w).turn_leave hw hstack

theorem settle_next {r : Step Item RootedWalker} (h : (settle r).next = some w') :
    ∃ w1, r.next = some w1 ∧ (w' = w1 ∨ w' = w1.terminate) := by
  unfold settle at h
  split at h
  · next error w1 =>
    refine ⟨w1, rfl, ?_⟩
    cases h
    split
    · exact .inr rfl
    · exact .inl rfl
  · exact ⟨w', h, .inl rfl⟩

theorem nextRootedEntry_turn (hnative : native.Over graph) (hsub : graph.directories ⊆ directories)
    (hw : w.Sound directories graph.allNames)
    (hended : ¬ w.expired native.now) (h : (nextRootedEntry native w).next = some w') :
    Turn directories graph.allNames w w' := by
  unfold nextRootedEntry at h
  rw [if_neg hended] at h
  split at h
  · cases h
  · next frame below hstack =>
    split at h
    · next hclosed =>
      split at h
      · next heq =>
        cases h
        exact openReader_turn heq hnative hw hstack hclosed
      · next heq =>
        cases h
        exact openReader_turn heq hnative hw hstack hclosed
    · next hreader => exact read_turn h hnative hsub hw hstack hreader

theorem nextEntry_turn (h : (nextEntry native w).next = some w') (hnative : native.Over graph)
    (hsub : graph.directories ⊆ directories) (hw : w.Sound directories graph.allNames) :
    w.terminated = false ∧ Turn directories graph.allNames w w' := by
  unfold nextEntry at h
  split at h
  · cases h
  · next hrunning =>
    refine ⟨Bool.eq_false_iff.mpr hrunning, ?_⟩
    obtain ⟨w1, hnext, heq⟩ := settle_next h
    by_cases hended : w.expired native.now
    · -- the deadline error is terminal under either error policy
      unfold nextRootedEntry at h
      rw [if_pos hended] at h
      have hterminal : isTerminalWalkError (walkIoError w.root deadlineExceeded)
          w.options.errorPolicy = true := Bool.or_true _
      unfold settle at h
      dsimp only at h
      rw [if_pos hterminal] at h
      cases h
      exact (Acquired.refl w).turn_terminate
    · have hturn := nextRootedEntry_turn hnative hsub hw hended hnext
      rcases heq with rfl | rfl
      · exact hturn
      · exact hturn.same same_terminate fun _ => rfl

end RootedWalker

section Walks

variable [QubitBudget]

/-! ## 4. New walkers -/

/-- A walker is started by an open root directory. -/
theorem LocalDirectoryWalker.start_sound {root backendRoot : Path} {options : LocalListOptions}
    {symlinkPolicy : LocalSymlinkPolicy} {deadline : Option Nat} {pool : Option ManagedResourcePool}
    {frame : WalkFrame π} {identity : DirectoryIdentity}
    {directories : Finset DirectoryIdentity} {names : Finset String}
    (hidentity : frame.identity = some identity) (hseen : frame.seen = freshSeen options)
    (hlevel : 0 < frame.entryDepth) (hreader : ∀ listing ∈ frame.reader, listing.Within names)
    (hpool : pool.isSome = options.maxOpenDirectories.isSome) (hknown : identity ∈ directories) :
    (start root backendRoot options symlinkPolicy deadline pool frame identity).Sound
      directories names := by
  unfold start
  by_cases hzero : options.maxDepth = some 0
  · simp only [if_pos hzero]
    refine ⟨⟨by simp, by simp, by simp⟩, by simp, by simp, by simp, by simp, hpool, ?_⟩
    exact fun hne => absurd rfl hne
  · simp only [if_neg hzero]
    refine ⟨⟨?_, by simp, ?_⟩, ?_, ?_, ?_, ?_, hpool, fun hne => absurd rfl hne⟩
    · intro f hf
      rw [List.mem_singleton.mp hf, hidentity]
      rfl
    · intro other
      simp [hidentity, eq_comm]
    · intro other hother
      exact Finset.mem_singleton.mp hother ▸ hknown
    · intro f hf
      rw [List.mem_singleton.mp hf, hseen, freshSeen_isSome]
    · intro f hf
      exact List.mem_singleton.mp hf ▸ hlevel
    · intro f hf
      exact List.mem_singleton.mp hf ▸ hreader

/-- What a Host walker that opens has found. -/
theorem HostWalker.openWithDiagnostic_ok {native : HostNative} {clockEnd startedAt : Nat}
    {backendRoot diagnosticRoot : Path} {options : LocalListOptions}
    {symlinkPolicy : LocalSymlinkPolicy} {w : HostWalker}
    (h : openWithDiagnostic native clockEnd backendRoot diagnosticRoot options symlinkPolicy
      startedAt = .ok w) :
    ∃ deadline metadata entries rootIdentity,
      validateOptions diagnosticRoot options = .ok () ∧
      walkerDeadline clockEnd diagnosticRoot options startedAt = .ok deadline ∧
      native.symlinkMetadata backendRoot = .ok metadata ∧ metadata.kind = .directory ∧
      native.readDir backendRoot = .ok entries ∧
      native.directoryIdentity metadata backendRoot = .ok rootIdentity ∧
      w = .start diagnosticRoot backendRoot options symlinkPolicy deadline (rootPool options)
        (frameOf options [] rootIdentity 1 entries options.maxOpenDirectories.isSome)
        rootIdentity := by
  unfold openWithDiagnostic at h
  cases hvalid : validateOptions diagnosticRoot options with
  | error e => rw [hvalid] at h; cases h
  | ok u =>
    cases hdeadline : walkerDeadline clockEnd diagnosticRoot options startedAt with
    | error e => rw [hvalid, hdeadline] at h; cases h
    | ok deadline =>
      cases hmetadata : native.symlinkMetadata backendRoot with
      | error e => rw [hvalid, hdeadline, hmetadata] at h; cases h
      | ok metadata =>
        rw [hvalid, hdeadline, hmetadata] at h
        by_cases hkind : metadata.kind = .directory
        · cases hread : native.readDir backendRoot with
          | error e => rw [hread] at h; simp [bind, Except.bind, Except.mapError, hkind] at h
          | ok entries =>
            cases hidentity : native.directoryIdentity metadata backendRoot with
            | error e =>
              rw [hread] at h
              simp [bind, Except.bind, Except.mapError, hkind, nativeDirectoryIdentity,
                hidentity] at h
            | ok rootIdentity =>
              refine ⟨deadline, metadata, entries, rootIdentity, rfl, rfl, rfl, hkind, rfl,
                hidentity, ?_⟩
              rw [hread] at h
              simp [bind, Except.bind, Except.mapError, hkind, nativeDirectoryIdentity,
                hidentity, pure, Except.pure] at h
              rw [← h]
        · simp [bind, Except.bind, Except.mapError, hkind, throw, throwThe,
            MonadExceptOf.throw] at h

/-- What a Rooted walker that opens has found. -/
theorem RootedWalker.openRootedWithOutput_ok {native : RootedNative} {clockEnd startedAt : Nat}
    {authorityParent outputParent namespaceRoot : Path} {options : LocalListOptions}
    {symlinkPolicy : LocalSymlinkPolicy} {w : RootedWalker}
    (h : openRootedWithOutput native clockEnd authorityParent outputParent namespaceRoot options
      symlinkPolicy startedAt = .ok w) :
    ∃ deadline metadata,
      validateOptions (native.path ++ authorityParent) options = .ok () ∧
      walkerDeadline clockEnd (native.path ++ authorityParent) options startedAt =
        .ok deadline ∧
      native.symlinkMetadata authorityParent = .ok metadata ∧
      w = .start namespaceRoot [] options symlinkPolicy deadline (directoryPool options)
        (frameOf options ⟨authorityParent, outputParent⟩
          (.fromRootedMetadata metadata authorityParent) 1)
        (.fromRootedMetadata metadata authorityParent) := by
  unfold openRootedWithOutput at h
  dsimp only at h
  cases hvalid : validateOptions (native.path ++ authorityParent) options with
  | error e => rw [hvalid] at h; cases h
  | ok u =>
    cases hdeadline : walkerDeadline clockEnd (native.path ++ authorityParent) options startedAt with
    | error e => rw [hvalid, hdeadline] at h; cases h
    | ok deadline =>
      cases hmetadata : native.symlinkMetadata authorityParent with
      | error e => rw [hvalid, hdeadline, hmetadata] at h; cases h
      | ok metadata =>
        rw [hvalid, hdeadline, hmetadata] at h
        cases h
        exact ⟨deadline, metadata, rfl, rfl, rfl, rfl⟩

theorem HostWalker.open_sound {native : HostNative} {graph : DirectoryGraph}
    {clockEnd startedAt : Nat} {backendRoot diagnosticRoot : Path} {options : LocalListOptions}
    {symlinkPolicy : LocalSymlinkPolicy} {w : HostWalker} (hnative : native.Over graph)
    (h : openWithDiagnostic native clockEnd backendRoot diagnosticRoot options symlinkPolicy
      startedAt = .ok w) : w.Sound graph.directories graph.allNames := by
  obtain ⟨deadline, metadata, entries, identity, -, -, -, -, hread, hidentity, rfl⟩ :=
    openWithDiagnostic_ok h
  refine start_sound rfl rfl Nat.one_pos ?_ ?_ (hnative.identity _ _ _ hidentity)
  · rintro _ ⟨⟩
    exact (hnative.readDir _ _ hread).within
  · rw [rootPool, Option.isSome_map, directoryPool, Option.isSome_map]

theorem RootedWalker.open_sound {native : RootedNative} (graph : DirectoryGraph)
    {clockEnd startedAt : Nat} {authorityParent outputParent namespaceRoot : Path}
    {options : LocalListOptions} {symlinkPolicy : LocalSymlinkPolicy} {w : RootedWalker}
    (h : openRootedWithOutput native clockEnd authorityParent outputParent namespaceRoot options
      symlinkPolicy startedAt = .ok w) :
    ∃ directories, graph.directories ⊆ directories ∧ w.Sound directories graph.allNames := by
  obtain ⟨deadline, metadata, -, -, -, rfl⟩ := openRootedWithOutput_ok h
  refine ⟨insert (.fromRootedMetadata metadata authorityParent) graph.directories,
    Finset.subset_insert _ _, start_sound rfl rfl Nat.one_pos ?_ ?_ (Finset.mem_insert_self _ _)⟩
  · rintro _ ⟨⟩
  · rw [directoryPool, Option.isSome_map]

theorem LocalDirectoryWalker.Sound.bind {directories : Finset DirectoryIdentity}
    {names : Finset String} {w : LocalDirectoryWalker π} (hw : w.Sound directories names)
    (currentDirectory : Option Path) :
    (w.bindCurrentDirectory currentDirectory).Sound directories names :=
  hw.kept ⟨rfl, rfl⟩ rfl (.refl True _)

/-! ## 5. Every walk ends -/

/-- The iteration ends, and in every state it reaches the followed directories are the
    identities on the stack. -/
def EndsFollowing
    (step : Nat → LocalDirectoryWalker π → Step Item (LocalDirectoryWalker π))
    (w : LocalDirectoryWalker π) : Prop :=
  (∃ items, Ends (timed step) (w, 0) items) ∧
    ∀ w' t, Reachable (timed step) (w, 0) (w', t) → w'.FollowsStack

theorem endsFollowing_of_turns
    {step : Nat → LocalDirectoryWalker π → Step Item (LocalDirectoryWalker π)}
    {directories : Finset DirectoryIdentity} {names : Finset String}
    (hturn : ∀ t w w', w.Sound directories names → (step t w).next = some w' →
      w.terminated = false ∧ Turn directories names w w')
    {w : LocalDirectoryWalker π} (hw : w.Sound directories names) : EndsFollowing step w := by
  constructor
  · refine exists_ends (fun p => p.1.Sound directories names)
      (fun p => rank names directories p.1) ?_ hw
    intro p p' hp hnext
    obtain ⟨hrunning, h⟩ := hturn p.2 p.1 p'.1 hp (timed_next hnext)
    exact ⟨h.sound hp, h.rank_lt hp hrunning⟩
  · intro w' t hreach
    have hsound := Reachable.invariant (fun p => p.1.Sound directories names)
      (fun p p' hp hnext => (hturn p.2 p.1 p'.1 hp (timed_next hnext)).2.sound hp) hw hreach
    exact hsound.follows

/-- Every walk of a finite graph ends, whatever the native calls answer at each turn, for the
    Host and for the Rooted walker. -/
theorem walk_ends_following (graph : DirectoryGraph) (clockEnd startedAt : Nat)
    (options : LocalListOptions) (symlinkPolicy : LocalSymlinkPolicy)
    (currentDirectory : Option Path) :
    (∀ (opening : HostNative) (native : Nat → HostNative) (backendRoot diagnosticRoot : Path)
      (w : HostWalker), opening.Over graph → (∀ t, (native t).Over graph) →
      HostWalker.openWithDiagnostic opening clockEnd backendRoot diagnosticRoot options
        symlinkPolicy startedAt = .ok w →
      EndsFollowing (fun t => HostWalker.next (native t))
        (w.bindCurrentDirectory currentDirectory)) ∧
    ∀ (opening : RootedNative) (native : Nat → RootedNative)
      (authorityParent outputParent namespaceRoot : Path) (w : RootedWalker),
      (∀ t, (native t).Over graph) →
      RootedWalker.openRootedWithOutput opening clockEnd authorityParent outputParent
        namespaceRoot options symlinkPolicy startedAt = .ok w →
      EndsFollowing (fun t => RootedWalker.next (native t))
        (w.bindCurrentDirectory currentDirectory) := by
  constructor
  · intro opening native backendRoot diagnosticRoot w hopening hnative hopen
    apply endsFollowing_of_turns _ ((HostWalker.open_sound hopening hopen).bind currentDirectory)
    intro t w w' hw hnext
    rw [HostWalker.next, Step.next_map] at hnext
    exact HostWalker.nextEntry_turn hnext (hnative t) (Finset.Subset.refl _) hw
  · intro opening native authorityParent outputParent namespaceRoot w hnative hopen
    obtain ⟨directories, hsub, hstart⟩ := RootedWalker.open_sound graph hopen
    apply endsFollowing_of_turns _ (hstart.bind currentDirectory)
    intro t w w' hw hnext
    rw [RootedWalker.next, Step.next_map] at hnext
    exact RootedWalker.nextEntry_turn hnext (hnative t) hsub hw

end Walks

section Loop

open scoped QubitBudget

/-- A directory that contains itself under the name `loop`. -/
def loopIdentity : LocalFileIdentity := ⟨0, 1⟩

def loopGraph : DirectoryGraph := ⟨{.native loopIdentity}, fun _ => {"loop"}⟩

def loopNative : HostNative where
  now := 0
  symlinkMetadata _ := .ok ⟨.directory, some loopIdentity⟩
  metadata _ := .ok ⟨.directory, some loopIdentity⟩
  readDir _ := .ok ⟨["loop"], none⟩
  directoryIdentity _ _ := .ok (.native loopIdentity)
  measure := .unix

theorem loopNative_over : loopNative.Over loopGraph where
  readDir path listing h := by
    cases h
    exact ⟨.native loopIdentity, by decide, by decide, by decide⟩
  identity metadata path identity h := by
    cases h
    decide

def loopOptions : LocalListOptions where
  maxOpenDirectories := some 1
  recursive := true
  errorPolicy := .continueWalk

/-- The walk of a directory that contains itself. -/
theorem walk_ends_following_loop :
    ∃ w, HostWalker.openWithDiagnostic loopNative 0 ["loop"] ["loop"] loopOptions
      .followWithinScope 0 = .ok w ∧
    EndsFollowing (fun _ => HostWalker.next loopNative) (w.bindCurrentDirectory none) :=
  ⟨_, rfl, (walk_ends_following loopGraph 0 0 loopOptions .followWithinScope none).1 loopNative
    (fun _ => loopNative) ["loop"] ["loop"] _ loopNative_over (fun _ => loopNative_over) rfl⟩

end Loop

end LocalFiles.Walk
