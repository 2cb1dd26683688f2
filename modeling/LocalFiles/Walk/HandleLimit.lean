import LocalFiles.Walk.Bounded

/-!
# HandleLimit — the limit on open directories cannot be observed

Over a file system that does not change, the Host and the Rooted walker yield the same items
with a limit on open directories and the policy `Reopen` as they do without the limit, and they
never have more readers open than the limit allows.
-/

namespace LocalFiles.Walk

open LocalDirectoryWalker

/-! ## 1. The Host walker -/

/-- Following links makes no difference for what is no link. -/
structure HostNative.Static (native : HostNative) : Prop where
  metadata : ∀ path metadata, native.symlinkMetadata path = .ok metadata →
    metadata.kind ≠ .symlink → native.metadata path = .ok metadata

namespace HostWalker

variable (native : HostNative) (base : Path) (symlinkPolicy : LocalSymlinkPolicy)

def source (place : Path) : IoResult Listing := native.readDir (base ++ place)

/-- A frame of the unlimited walker is open, and reopening finds its directory again. -/
def Opens (place : Path) (identity : Option DirectoryIdentity) (opened : Bool) : Prop :=
  opened = true ∧ ∃ metadata value,
    (if symlinkPolicy.follows then native.metadata (base ++ place)
      else native.symlinkMetadata (base ++ place)) = .ok metadata ∧
    metadata.kind = .directory ∧
    native.directoryIdentity metadata (base ++ place) = .ok value ∧ identity = some value

variable {native base symlinkPolicy}

theorem identity_of_ok {metadata : Metadata} {path : Path} {identity : DirectoryIdentity}
    (h : native.directoryIdentity metadata path = .ok identity) :
    nativeDirectoryIdentity native metadata path = .ok identity := by
  unfold nativeDirectoryIdentity
  rw [h]
  rfl

theorem frameOf_twins {relative : Path} {identity : DirectoryIdentity} {entries : Listing}
    (options : LocalListOptions) (entryDepth : Nat)
    (hopens : Opens native base symlinkPolicy relative (some identity) true)
    (hread : native.readDir (base ++ relative) = .ok entries) (hnodup : entries.entries.Nodup) :
    Twins (source native base) (Opens native base symlinkPolicy) options.maxSeenNameBytes.isSome
      (frameOf options relative identity entryDepth entries true)
      (frameOf { options with maxOpenDirectories := none } relative identity entryDepth entries
        false) := by
  refine ⟨some entries, ?_, reads_opened (freshSeen_empty options) hread hnodup, hopens⟩
  unfold frameOf
  rw [freshSeen_unlimited]
  rfl

variable [QubitBudget] {n : Nat} {graph : DirectoryGraph} {directories : Finset DirectoryIdentity}
  {w : HostWalker} {frames : List (WalkFrame Path)}

/-- Reopening succeeds, and leaves the unlimited walker where it is. -/
theorem reopenHostFrame_paired {frame frame' : WalkFrame Path} {below below' : List (WalkFrame Path)}
    (h : Paired (source native base) (Opens native base symlinkPolicy) base symlinkPolicy n 0 w
      (frame' :: below'))
    (hw : w.Sound directories graph.allNames) (hstack : w.stack = frame :: below)
    (hclosed : frame.reader = none) :
    ∃ w', reopenHostFrame native w frame.place = (w', .ok ()) ∧
      Paired (source native base) (Opens native base symlinkPolicy) base symlinkPolicy n 0 w'
        (frame' :: below') ∧
      w'.unlimited (frame' :: below') = w.unlimited (frame' :: below') := by
  have hclosable := h.closable_of_closed hw hstack hclosed
  obtain ⟨_, _, heq, ⟨reader, rfl, hreads, hopens⟩, -⟩ := h.cons hstack
  cases heq
  have hfound := hopens
  obtain ⟨hopened, metadata, identity, hmetadata, hkind, hidentity, htop⟩ := hfound
  -- a handle may have to be taken from another frame
  obtain ⟨w1, hacquire, -, hpaired, hrest, hclosing⟩ := h.acquire hclosable (base ++ frame.place)
  obtain ⟨top, rest, hstack', htopframe⟩ := top_of_closing hstack hclosing
  have hidentity' : w1.topIdentity = some identity := by
    rw [← htop]
    unfold topIdentity
    rw [hstack']
    rcases htopframe with rfl | rfl <;> rfl
  have hsame : w.topIdentity = some identity := by
    rw [← htop]
    unfold topIdentity
    rw [hstack]
    rfl
  rw [hclosed] at hreads
  generalize hseen : frame.seen = seen at hreads
  cases hreads with
  | unopened => cases hopened
  | @closed seen all hall hnodup =>
    have hopen : reopenHostFrame native w frame.place = (w1.openTop all true, .ok ()) := by
      unfold reopenHostFrame
      dsimp only
      rw [h.base, h.symlinks, hmetadata]
      dsimp only
      rw [if_neg (by rw [hkind]; exact fun hne => hne rfl), identity_of_ok hidentity]
      dsimp only
      rw [if_neg (by rw [hsame]; exact fun hne => hne rfl), hacquire]
      dsimp only
      rw [show native.readDir (base ++ frame.place) = .ok all from hall]
    -- the reader is at the front again and will repeat what was seen
    have htwins : Twins (source native base) (Opens native base symlinkPolicy)
        w1.options.maxSeenNameBytes.isSome
        { top with reader := some all, directoryPermit := true }
        (frame.twin w.options.maxSeenNameBytes.isSome (some (all.rest seen))) := by
      have hoptions : w1.options = w.options := by rw [hrest]
      have htopopen : { top with reader := some all, directoryPermit := true } =
          { frame with reader := some all, directoryPermit := true } := by
        rcases htopframe with rfl | rfl <;> rfl
      rw [hoptions, htopopen]
      refine ⟨some (all.rest seen), rfl, ?_, hopens⟩
      show Reads _ frame.seen _ _
      rw [hseen]
      exact .tracked hall hnodup hnodup rfl
    have hclosedtop : top.reader = none := by
      rcases htopframe with rfl | rfl
      · exact hclosed
      · rfl
    obtain ⟨heq, hresult⟩ := hpaired.openTop hstack' hclosedtop htwins
    exact ⟨_, hopen, hresult, heq.trans (unlimited_eq hrest _)⟩

/-- Where a directory is entered, it can be opened again. -/
theorem opens_of_descent (hstatic : native.Static) {relative : Path} {entryMetadata metadata : Metadata}
    {mayDescend : Bool} {identity : DirectoryIdentity}
    (hpolicy : w.symlinkPolicy = symlinkPolicy)
    (hentry : native.symlinkMetadata (base ++ relative) = .ok entryMetadata)
    (hdescent : descentMetadata native w (base ++ relative) entryMetadata mayDescend = .ok metadata)
    (hkind : metadata.kind = .directory)
    (hidentity : native.directoryIdentity metadata (base ++ relative) = .ok identity) :
    Opens native base symlinkPolicy relative (some identity) true := by
  refine ⟨rfl, metadata, identity, ?_, hkind, hidentity, rfl⟩
  unfold descentMetadata at hdescent
  rw [hpolicy] at hdescent
  split at hdescent
  · next h =>
    rw [if_pos h.2.2]
    exact hdescent
  · next h =>
    cases hdescent
    by_cases hfollows : symlinkPolicy.follows
    · rw [if_pos hfollows]
      exact hstatic.metadata _ _ hentry (by rw [hkind]; exact nofun)
    · rw [if_neg hfollows]
      exact hentry

/-- Descending has the same result for both walkers. -/
theorem descend_paired {relative : Path} {metadata : Metadata} (entryDepth : Nat)
    (h : Paired (source native base) (Opens native base symlinkPolicy) base symlinkPolicy n 0 w
      frames)
    (hclosable : w.Closable) (hnative : native.Over graph)
    (hopens : ∀ identity, native.directoryIdentity metadata (base ++ relative) = .ok identity →
      Opens native base symlinkPolicy relative (some identity) true) :
    ∃ w' frames' r, descend native w (base ++ relative) metadata relative entryDepth = (w', r) ∧
      descend native (w.unlimited frames) (base ++ relative) metadata relative entryDepth =
        (w'.unlimited frames', r) ∧
      Paired (source native base) (Opens native base symlinkPolicy) base symlinkPolicy n 0 w'
        frames' := by
  unfold descend
  cases hidentity : nativeDirectoryIdentity native metadata (base ++ relative) with
  | error error => exact ⟨w, frames, _, rfl, rfl, h⟩
  | ok identity =>
    dsimp only
    by_cases hcycle : identity ∈ w.followedDirectories
    · have hcycle' : identity ∈ (w.unlimited frames).followedDirectories := hcycle
      rw [if_pos hcycle, if_pos hcycle']
      exact ⟨w, frames, _, rfl, rfl, h⟩
    · have hcycle' : identity ∉ (w.unlimited frames).followedDirectories := hcycle
      rw [if_neg hcycle, if_neg hcycle']
      obtain ⟨w1, hacquire, hacquire', hpaired, -, -⟩ := h.acquire hclosable (base ++ relative)
      rw [hacquire, hacquire']
      dsimp only
      cases hread : native.readDir (base ++ relative) with
      | error error => exact ⟨_, frames, _, rfl, rfl, hpaired.release⟩
      | ok entries =>
        obtain ⟨-, -, hnodup, -⟩ := hnative.readDir _ _ hread
        have htwins := frameOf_twins w1.options (entryDepth + 1)
          (hopens identity (nativeDirectoryIdentity_ok hidentity)) hread hnodup
        obtain ⟨heq, hentered⟩ := hpaired.enter identity
          (hpaired.accounted.enter rfl rfl identity) htwins
        exact ⟨_, _, _, rfl, congrArg (·, _) heq, hentered⟩

/-- The relation of the Host walkers. -/
abbrev AlikeHost (native : HostNative) (base : Path) (symlinkPolicy : LocalSymlinkPolicy)
    (n : Nat) : HostWalker → HostWalker → Prop :=
  Alike (source native base) (Opens native base symlinkPolicy) base symlinkPolicy n

theorem visit_matches {relativeParent : Path} {entryDepth : Nat} {name : String}
    (h : Paired (source native base) (Opens native base symlinkPolicy) base symlinkPolicy n 0 w
      frames)
    (hw : w.Sound directories graph.allNames) (hlevel : 0 < entryDepth)
    (hnative : native.Over graph) (hstatic : native.Static) (v : HostWalker) :
    Matches (AlikeHost native base symlinkPolicy n) id id v
      (visit native w relativeParent entryDepth name)
      (visit native (w.unlimited frames) relativeParent entryDepth name) := by
  unfold visit
  -- nothing but the readers differs, so both take the same branches
  rw [unlimited_charge]
  by_cases hdeep : w.options.tooDeep entryDepth
  · have hdeep' : (w.unlimited frames).options.tooDeep entryDepth := hdeep
    rw [if_pos hdeep, if_pos hdeep']
    exact .again h.alike
  have hdeep' : ¬ (w.unlimited frames).options.tooDeep entryDepth := hdeep
  rw [if_neg hdeep, if_neg hdeep']
  have hsame := same_charge (w := w) native.measure name
  generalize w.charge native.measure name = charged at hsame ⊢
  obtain ⟨w1, r⟩ := charged
  have h1 := h.same hsame
  have hw1 : w1.Sound directories graph.allNames :=
    hw.kept hsame.config hsame.followed (.inl hsame.stack : Kept True _ _)
  cases r with
  | error error => exact .yield rfl h1.terminate.alike
  | ok _ =>
    have hpath : w1.backendRoot ++ relativeParent ++ [name] = base ++ (relativeParent ++ [name]) := by
      rw [h1.base, List.append_assoc]
    have hpath' : (w1.unlimited frames).backendRoot ++ relativeParent ++ [name] =
        base ++ (relativeParent ++ [name]) := hpath
    dsimp only
    rw [hpath, hpath']
    cases hentry : native.symlinkMetadata (base ++ (relativeParent ++ [name])) with
    | error error =>
      dsimp only
      rw [unlimited_afterError]
      exact .yield rfl h1.afterError.alike
    | ok entryMetadata =>
      dsimp only
      have hmay : (w1.unlimited frames).options.mayDescend entryDepth =
        w1.options.mayDescend entryDepth := rfl
      have hdescent' (b : Bool) : descentMetadata native (w1.unlimited frames)
          (base ++ (relativeParent ++ [name])) entryMetadata b =
        descentMetadata native w1 (base ++ (relativeParent ++ [name])) entryMetadata b := rfl
      rw [hmay, hdescent']
      cases hdescent : descentMetadata native w1 (base ++ (relativeParent ++ [name]))
        entryMetadata (w1.options.mayDescend entryDepth) with
      | error error =>
        dsimp only
        rw [unlimited_afterError]
        exact .yield rfl h1.afterError.alike
      | ok metadata =>
        dsimp only
        -- to go into a directory the walker with a limit needs a handle that it can get
        by_cases hdescends : metadata.kind = .directory ∧ w1.options.mayDescend entryDepth
        · rw [if_pos hdescends, if_pos hdescends]
          have hclosable := h1.closable_of_descends hw1
            (canDescend_of_mayDescend hdescends.2 hlevel)
          obtain ⟨w2, frames2, r, heq, heq', h2⟩ :=
            descend_paired entryDepth h1 hclosable hnative
              fun identity hidentity => opens_of_descent hstatic h1.symlinks hentry hdescent
                hdescends.1 hidentity
          rw [heq, heq']
          cases r with
          | error error =>
            dsimp only
            rw [unlimited_afterError]
            exact .yield rfl h2.afterError.alike
          | ok _ => exact .yield rfl h2.alike
        · rw [if_neg hdescends, if_neg hdescends]
          exact .yield rfl h1.alike

/-- A turn that reads from twin readers. -/
theorem read_matches {frame frame' : WalkFrame Path} {below below' : List (WalkFrame Path)}
    {listing listing' : Listing}
    (h : Paired (source native base) (Opens native base symlinkPolicy) base symlinkPolicy n 0 w
      (frame' :: below'))
    (hw : w.Sound directories graph.allNames) (hstack : w.stack = frame :: below)
    (hreader : frame.reader = some listing) (hreader' : frame'.reader = some listing')
    (hnative : native.Over graph) (hstatic : native.Static) :
    Matches (AlikeHost native base symlinkPolicy n) id id (w.unlimited (frame' :: below'))
      (read native w frame listing)
      (read native (w.unlimited (frame' :: below')) frame' listing') := by
  obtain ⟨_, _, heq, ⟨reader, rfl, hreads, hopens⟩, -⟩ := h.cons hstack
  cases heq
  obtain rfl : reader = some listing' := hreader'
  rw [hreader] at hreads
  obtain ⟨entries, failure⟩ := listing
  cases entries with
  | cons name entries =>
    -- a listing that was read again repeats names; they are skipped in turns of its own
    by_cases hseen : frame.hasSeen name
    · have hskip : read native w frame ⟨name :: entries, failure⟩ =
          .again (w.setTop { frame with reader := some ⟨entries, failure⟩ }) := if_pos hseen
      rw [hskip]
      obtain ⟨-, hpaired⟩ := h.setTop { frame with reader := some ⟨entries, failure⟩ }
        hstack rfl (by rw [hreader]; rfl) ⟨some listing', rfl, hreads.skip hseen, hopens⟩
      exact .stutter ⟨_, rfl, .inl hpaired⟩
    · obtain ⟨entries', failure', rfl, hrest⟩ := hreads.take hseen
      have hseen' : ¬ (frame.twin w.options.maxSeenNameBytes.isSome
          (some ⟨name :: entries', failure'⟩)).hasSeen name := WalkFrame.twin_hasSeen hseen
      have hleft : read native w frame ⟨name :: entries, failure⟩ =
          visit native (w.setTop ({ frame with reader := some ⟨entries, failure⟩ }.remember name))
            frame.place frame.entryDepth name := if_neg hseen
      have hright (v : HostWalker) : read native v
          (frame.twin w.options.maxSeenNameBytes.isSome (some ⟨name :: entries', failure'⟩))
          ⟨name :: entries', failure'⟩ =
          visit native (v.setTop (({ frame with reader := some ⟨entries, failure⟩ }.remember
            name).twin w.options.maxSeenNameBytes.isSome (some ⟨entries', failure'⟩)))
            frame.place frame.entryDepth name := by
        rw [← WalkFrame.twin_remember]
        exact if_neg hseen'
      rw [hleft, hright]
      obtain ⟨heq, hpaired⟩ := h.setTop
        ({ frame with reader := some ⟨entries, failure⟩ }.remember name) hstack rfl
        (by rw [hreader]; rfl) ⟨some ⟨entries', failure'⟩, rfl, hrest, hopens⟩
      rw [heq]
      exact visit_matches hpaired (hw.take hstack hreader)
        (hw.level frame (hstack ▸ List.mem_cons_self)) hnative hstatic _
  | nil =>
    obtain rfl := hreads.empty
    cases failure with
    | none =>
      obtain ⟨below1, heq, hpaired⟩ := h.leave hstack
      show Matches _ id id _ (.again w.leaveDirectory) (.again (leaveDirectory (unlimited w _)))
      rw [heq]
      exact .again hpaired.alike
    | some error =>
      obtain ⟨below1, heq, hpaired⟩ := h.leave hstack
      have haccounted := h.accounted.setTop { frame with reader := some ⟨[], none⟩ }
        hstack rfl (by rw [hreader]; rfl)
      have hbelow : below1 = below' := (congrArg LocalDirectoryWalker.stack heq).symm
      rw [hbelow] at hpaired
      have hleave : (w.setTop { frame with reader := some ⟨[], none⟩ }).leaveDirectory =
          w.leaveDirectory := leaveDirectory_setTop hstack rfl rfl
      refine .yield rfl (Alike.afterError ⟨{ frame.twin w.options.maxSeenNameBytes.isSome
        (some ⟨[], some error⟩) with reader := some ⟨[], none⟩ } :: below', rfl, .inr ⟨_, below, _,
          below', setTop_stack hstack _, rfl, rfl, rfl, rfl, haccounted, ?_⟩⟩)
      rw [hleave]
      exact hpaired

/-- Turns of related Host walkers. -/
theorem nextEntry_matches {v : HostWalker} (h : AlikeHost native base symlinkPolicy n w v)
    (hw : w.Sound directories graph.allNames) (hnative : native.Over graph)
    (hstatic : native.Static) :
    Matches (AlikeHost native base symlinkPolicy n) id id v (nextEntry native w)
      (nextEntry native v) := by
  obtain ⟨frames, rfl, hrelated⟩ := h
  unfold nextEntry
  by_cases hended : w.terminated
  · have hended' : (w.unlimited frames).terminated := hended
    rw [if_pos hended, if_pos hended']
    exact .stop
  have hended' : ¬ (w.unlimited frames).terminated := hended
  rw [if_neg hended, if_neg hended']
  by_cases hexpired : w.expired native.now
  · have hexpired' : (w.unlimited frames).expired native.now := hexpired
    rw [if_pos hexpired, if_pos hexpired']
    exact .yield rfl (Alike.terminate ⟨frames, rfl, hrelated⟩)
  have hexpired' : ¬ (w.unlimited frames).expired native.now := hexpired
  rw [if_neg hexpired, if_neg hexpired']
  have hframes : (w.unlimited frames).stack = frames := rfl
  rw [hframes]
  rcases hrelated with h | ⟨frame, below, frame', below', hstack, rfl, hreader, hreader',
    hidentity, -, hpaired⟩
  · cases hstack : w.stack with
    | nil =>
      obtain rfl := h.nil hstack
      exact .stop
    | cons frame below =>
      obtain ⟨frame', below', rfl, htwins, -⟩ := h.cons hstack
      obtain ⟨reader, rfl, hreads, hopens⟩ := htwins
      obtain ⟨listing', rfl⟩ := Option.isSome_iff_exists.mp hopens.1
      dsimp only
      cases hreader : frame.reader with
      | some listing =>
        exact read_matches h hw hstack hreader rfl hnative hstatic
      | none =>
        obtain ⟨w1, hopen, hpaired, heq⟩ := reopenHostFrame_paired h hw hstack hreader
        rw [hopen]
        exact .stutter ⟨_, heq.symm, .inl hpaired⟩
  · rw [hstack]
    dsimp only
    rw [hreader, hreader']
    show Matches _ id id _ (.again w.leaveDirectory) (.again (leaveDirectory (unlimited w _)))
    rw [unlimited_leave hstack hidentity]
    exact .again hpaired.alike

end HostWalker

/-! ## 2. The Rooted walker -/

namespace RootedWalker

variable (native : RootedNative)

def source (place : RootedPlace) : IoResult Listing := native.openDirReader place.authorityParent

/-- Where the unlimited walker has a reader, the directory has the identity of the frame. -/
def Opens (place : RootedPlace) (identity : Option DirectoryIdentity) (opened : Bool) : Prop :=
  opened = true → ∃ metadata, native.openedMetadata place.authorityParent = .ok metadata ∧
    identity = some (.fromRootedMetadata metadata place.authorityParent)

variable [QubitBudget] {native} {base : Path} {symlinkPolicy : LocalSymlinkPolicy} {n : Nat}
  {graph : DirectoryGraph} {directories : Finset DirectoryIdentity} {w : RootedWalker}
  {frames : List (WalkFrame RootedPlace)}

/-- The relation of the Rooted walkers. -/
abbrev AlikeRooted (native : RootedNative) (base : Path) (symlinkPolicy : LocalSymlinkPolicy)
    (n : Nat) : RootedWalker → RootedWalker → Prop :=
  Alike (source native) (Opens native) base symlinkPolicy n

/-- Opening succeeds where the unlimited walker has a reader, and leaves that walker where
    it is. -/
theorem openReader_again {frame frame' : WalkFrame RootedPlace}
    {below below' : List (WalkFrame RootedPlace)}
    (h : Paired (source native) (Opens native) base symlinkPolicy n 0 w (frame' :: below'))
    (hw : w.Sound directories graph.allNames) (hstack : w.stack = frame :: below)
    (hclosed : frame.reader = none) (hopened : frame'.reader.isSome) :
    ∃ w', openReader native w frame.place = (w', .ok ()) ∧
      Paired (source native) (Opens native) base symlinkPolicy n 0 w' (frame' :: below') ∧
      w'.unlimited (frame' :: below') = w.unlimited (frame' :: below') := by
  have hclosable := h.closable_of_closed hw hstack hclosed
  obtain ⟨_, _, heq, ⟨reader, rfl, hreads, hopens⟩, -⟩ := h.cons hstack
  cases heq
  obtain ⟨metadata, hmetadata, htop⟩ := hopens hopened
  -- a handle may have to be taken from another frame
  obtain ⟨w1, hacquire, -, hpaired, hrest, hclosing⟩ :=
    h.acquire hclosable (w.root ++ frame.place.outputParent)
  obtain ⟨top, rest, hstack', htopframe⟩ := top_of_closing hstack hclosing
  have hidentity : w1.topIdentity =
      some (.fromRootedMetadata metadata frame.place.authorityParent) := by
    rw [← htop]
    unfold topIdentity
    rw [hstack']
    rcases htopframe with rfl | rfl <;> rfl
  rw [hclosed] at hreads
  generalize hseen : frame.seen = seen at hreads
  cases hreads with
  | unopened => cases hopened
  | @closed seen all hall hnodup =>
    have hopen : openReader native w frame.place = (w1.openTop all true, .ok ()) := by
      unfold openReader
      dsimp only
      rw [hacquire]
      dsimp only
      rw [show native.openDirReader frame.place.authorityParent = .ok all from hall]
      dsimp only
      rw [hmetadata]
      dsimp only
      rw [if_neg (by rw [hidentity]; exact fun hne => hne rfl)]
    -- the reader is at the front again and will repeat what was seen
    have htwins : Twins (source native) (Opens native) w1.options.maxSeenNameBytes.isSome
        { top with reader := some all, directoryPermit := true }
        (frame.twin w.options.maxSeenNameBytes.isSome (some (all.rest seen))) := by
      have hoptions : w1.options = w.options := by rw [hrest]
      have htopopen : { top with reader := some all, directoryPermit := true } =
          { frame with reader := some all, directoryPermit := true } := by
        rcases htopframe with rfl | rfl <;> rfl
      rw [hoptions, htopopen]
      refine ⟨some (all.rest seen), rfl, ?_, hopens⟩
      show Reads _ frame.seen _ _
      rw [hseen]
      exact .tracked hall hnodup hnodup rfl
    have hclosedtop : top.reader = none := by
      rcases htopframe with rfl | rfl
      · exact hclosed
      · rfl
    obtain ⟨heq, hresult⟩ := hpaired.openTop hstack' hclosedtop htwins
    exact ⟨_, hopen, hresult, heq.trans (unlimited_eq hrest _)⟩

/-- A frame new to both walkers is opened by both, or by neither. -/
theorem openReader_first {frame frame' : WalkFrame RootedPlace}
    {below below' : List (WalkFrame RootedPlace)}
    (h : Paired (source native) (Opens native) base symlinkPolicy n 0 w (frame' :: below'))
    (hw : w.Sound directories graph.allNames) (hstack : w.stack = frame :: below)
    (hclosed : frame.reader = none) (hclosed' : frame'.reader = none)
    (hnative : native.Over graph) :
    ∃ w' frames' r, openReader native w frame.place = (w', r) ∧
      openReader native (w.unlimited (frame' :: below')) frame.place =
        (w'.unlimited frames', r) ∧
      Paired (source native) (Opens native) base symlinkPolicy n 0 w' frames' := by
  have hclosable := h.closable_of_closed hw hstack hclosed
  -- the walker with a limit may close the reader of another frame first
  obtain ⟨w1, hacquire, hacquire', hpaired, hrest, hclosing⟩ :=
    h.acquire hclosable (w.root ++ frame.place.outputParent)
  obtain ⟨top, rest, hstack', htopframe⟩ := top_of_closing hstack hclosing
  have hleave : ∃ frames1, (w1.unlimited (frame' :: below')).leaveDirectory =
      (w1.releasePermits 1).leaveDirectory.unlimited frames1 ∧
      Paired (source native) (Opens native) base symlinkPolicy n 0
        (w1.releasePermits 1).leaveDirectory frames1 :=
    hpaired.release.leave hstack'
  obtain ⟨frames1, hleave, hleft⟩ := hleave
  have hroot : (w.unlimited (frame' :: below')).root = w.root := rfl
  unfold openReader
  dsimp only
  rw [hroot, hacquire, hacquire']
  dsimp only
  -- whatever fails from here on, both leave the directory
  cases hread : native.openDirReader frame.place.authorityParent with
  | error error => exact ⟨_, frames1, _, rfl, congrArg (·, _) hleave, hleft⟩
  | ok entries =>
    dsimp only
    cases hmetadata : native.openedMetadata frame.place.authorityParent with
    | error error => exact ⟨_, frames1, _, rfl, congrArg (·, _) hleave, hleft⟩
    | ok metadata =>
      dsimp only
      rw [hpaired.topIdentity]
      by_cases hidentity : w1.topIdentity ≠
          some (.fromRootedMetadata metadata frame.place.authorityParent)
      · rw [if_pos hidentity, if_pos hidentity]
        exact ⟨_, frames1, _, rfl, congrArg (·, _) hleave, hleft⟩
      · rw [if_neg hidentity, if_neg hidentity]
        obtain ⟨_, _, heq, ⟨reader, rfl, hreads, hopens⟩, -⟩ := h.cons hstack
        cases heq
        obtain rfl : reader = none := hclosed'
        obtain ⟨-, -, hnodup, -⟩ := hnative.openDirReader _ _ hread
        rw [hclosed] at hreads
        have hfresh : ∀ names ∈ frame.seen, names = ∅ := by
          generalize frame.seen = seen at hreads
          cases hreads with
          | unopened h => exact h
        have hoptions : w1.options = w.options := by rw [hrest]
        -- closing a reader changes the top at most in what is replaced here
        have htopopen : { top with reader := some entries, directoryPermit := true } =
            { frame with reader := some entries, directoryPermit := true } := by
          rcases htopframe with rfl | rfl <;> rfl
        have htopidentity : w1.topIdentity = frame.identity := by
          unfold topIdentity
          rw [hstack']
          rcases htopframe with rfl | rfl <;> rfl
        have htwins : Twins (source native) (Opens native) w1.options.maxSeenNameBytes.isSome
            { top with reader := some entries, directoryPermit := true }
            (frame.twin w.options.maxSeenNameBytes.isSome (some entries)) := by
          rw [hoptions, htopopen]
          refine ⟨some entries, rfl, reads_opened hfresh hread hnodup, fun _ => ⟨metadata,
            hmetadata, ?_⟩⟩
          rw [← not_not.mp hidentity, htopidentity]
        have hclosedtop : top.reader = none := by
          rcases htopframe with rfl | rfl
          · exact hclosed
          · rfl
        obtain ⟨heq, hopened⟩ := hpaired.openTop hstack' hclosedtop htwins
        exact ⟨_, _, _, rfl, congrArg (·, _) heq.symm, hopened⟩

theorem visit_matches {place : RootedPlace} {entryDepth : Nat} {name : String}
    {metadata : Metadata}
    (h : Paired (source native) (Opens native) base symlinkPolicy n 0 w frames)
    (v : RootedWalker) :
    Matches (AlikeRooted native base symlinkPolicy n) id id v
      (visit native w place entryDepth name metadata)
      (visit native (w.unlimited frames) place entryDepth name metadata) := by
  unfold visit
  rw [unlimited_charge]
  by_cases hdeep : w.options.tooDeep entryDepth
  · have hdeep' : (w.unlimited frames).options.tooDeep entryDepth := hdeep
    rw [if_pos hdeep, if_pos hdeep']
    exact .again h.alike
  have hdeep' : ¬ (w.unlimited frames).options.tooDeep entryDepth := hdeep
  rw [if_neg hdeep, if_neg hdeep']
  have hsame := same_charge (w := w) native.measure name
  generalize w.charge native.measure name = charged at hsame ⊢
  obtain ⟨w1, r⟩ := charged
  have h1 := h.same hsame
  cases r with
  | error error => exact .yield rfl h1.alike
  | ok _ =>
    dsimp only
    cases native.resolve (place.authorityParent ++ [name]) false with
    | error error => exact .yield rfl h1.alike
    | ok resolved =>
      dsimp only
      have hfollowed (b : Bool) : followedDirectory native (w1.unlimited frames) place name
          metadata b = followedDirectory native w1 place name metadata b := rfl
      have hmay : (w1.unlimited frames).options.mayDescend entryDepth =
        w1.options.mayDescend entryDepth := rfl
      rw [hmay, hfollowed]
      cases followedDirectory native w1 place name metadata (w1.options.mayDescend entryDepth) with
      | error error => exact .yield rfl h1.alike
      | ok followed =>
        cases followed with
        | none => exact .yield rfl h1.alike
        | some entered =>
          obtain ⟨target, identity⟩ := entered
          dsimp only
          by_cases hdescends : w1.options.mayDescend entryDepth
          · rw [if_pos hdescends, if_pos hdescends]
            have htwins : Twins (source native) (Opens native)
                w1.options.maxSeenNameBytes.isSome
                (frameOf w1.options ⟨target, place.outputParent ++ [name]⟩ identity
                  (entryDepth + 1))
                (frameOf { w1.options with maxOpenDirectories := none }
                  ⟨target, place.outputParent ++ [name]⟩ identity (entryDepth + 1)) := by
              refine ⟨none, ?_, .unopened (freshSeen_empty _), nofun⟩
              unfold frameOf
              rw [freshSeen_unlimited]
              rfl
            obtain ⟨heq, hentered⟩ := h1.enter identity
              (h1.accounted.enterClosed rfl rfl identity) htwins
            exact .yield rfl ⟨_, heq, .inl hentered⟩
          · rw [if_neg hdescends, if_neg hdescends]
            exact .yield rfl h1.alike

theorem take_matches {place : RootedPlace} {entryDepth : Nat} {name : String}
    (h : Paired (source native) (Opens native) base symlinkPolicy n 0 w frames)
    (v : RootedWalker) :
    Matches (AlikeRooted native base symlinkPolicy n) id id v
      (take native w place entryDepth name)
      (take native (w.unlimited frames) place entryDepth name) := by
  unfold take
  cases native.entryMetadata (place.authorityParent ++ [name]) with
  | ok metadata => exact visit_matches h v
  | error error =>
    dsimp only
    rw [unlimited_chargeName]
    cases hname : w.chargeName native.measure name with
    | error limit => exact .yield rfl h.alike
    | ok w1 =>
      have hsame := same_chargeName hname
      exact .yield rfl (h.same hsame).alike

theorem read_matches {frame frame' : WalkFrame RootedPlace}
    {below below' : List (WalkFrame RootedPlace)} {listing listing' : Listing}
    (h : Paired (source native) (Opens native) base symlinkPolicy n 0 w (frame' :: below'))
    (hstack : w.stack = frame :: below) (hreader : frame.reader = some listing)
    (hreader' : frame'.reader = some listing') :
    Matches (AlikeRooted native base symlinkPolicy n) id id (w.unlimited (frame' :: below'))
      (read native w frame listing)
      (read native (w.unlimited (frame' :: below')) frame' listing') := by
  obtain ⟨_, _, heq, ⟨reader, rfl, hreads, hopens⟩, -⟩ := h.cons hstack
  cases heq
  obtain rfl : reader = some listing' := hreader'
  rw [hreader] at hreads
  obtain ⟨entries, failure⟩ := listing
  cases entries with
  | cons name entries =>
    by_cases hseen : frame.hasSeen name
    · have hskip : read native w frame ⟨name :: entries, failure⟩ =
          .again (w.setTop { frame with reader := some ⟨entries, failure⟩ }) := if_pos hseen
      rw [hskip]
      obtain ⟨-, hpaired⟩ := h.setTop { frame with reader := some ⟨entries, failure⟩ }
        hstack rfl (by rw [hreader]; rfl) ⟨some listing', rfl, hreads.skip hseen, hopens⟩
      exact .stutter ⟨_, rfl, .inl hpaired⟩
    · obtain ⟨entries', failure', rfl, hrest⟩ := hreads.take hseen
      have hseen' : ¬ (frame.twin w.options.maxSeenNameBytes.isSome
          (some ⟨name :: entries', failure'⟩)).hasSeen name := WalkFrame.twin_hasSeen hseen
      have hleft : read native w frame ⟨name :: entries, failure⟩ =
          take native (w.setTop ({ frame with reader := some ⟨entries, failure⟩ }.remember name))
            frame.place frame.entryDepth name := if_neg hseen
      have hright (v : RootedWalker) : read native v
          (frame.twin w.options.maxSeenNameBytes.isSome (some ⟨name :: entries', failure'⟩))
          ⟨name :: entries', failure'⟩ =
          take native (v.setTop (({ frame with reader := some ⟨entries, failure⟩ }.remember
            name).twin w.options.maxSeenNameBytes.isSome (some ⟨entries', failure'⟩)))
            frame.place frame.entryDepth name := by
        rw [← WalkFrame.twin_remember]
        exact if_neg hseen'
      rw [hleft, hright]
      obtain ⟨heq, hpaired⟩ := h.setTop
        ({ frame with reader := some ⟨entries, failure⟩ }.remember name) hstack rfl
        (by rw [hreader]; rfl) ⟨some ⟨entries', failure'⟩, rfl, hrest, hopens⟩
      rw [heq]
      exact take_matches hpaired _
  | nil =>
    obtain rfl := hreads.empty
    obtain ⟨below1, heq, hpaired⟩ := h.leave hstack
    cases failure with
    | none =>
      show Matches _ id id _ (.again w.leaveDirectory) (.again (leaveDirectory (unlimited w _)))
      rw [heq]
      exact .again hpaired.alike
    | some error =>
      show Matches _ id id _ (.yield _ w.leaveDirectory) (.yield _ (leaveDirectory (unlimited w _)))
      rw [heq]
      exact .yield rfl hpaired.alike

theorem nextRootedEntry_matches {v : RootedWalker}
    (h : AlikeRooted native base symlinkPolicy n w v)
    (hw : w.Sound directories graph.allNames) (hnative : native.Over graph) :
    Matches (AlikeRooted native base symlinkPolicy n) id id v
      (nextRootedEntry native w) (nextRootedEntry native v) := by
  obtain ⟨frames, rfl, hrelated⟩ := h
  unfold nextRootedEntry
  by_cases hexpired : w.expired native.now
  · have hexpired' : (w.unlimited frames).expired native.now := hexpired
    rw [if_pos hexpired, if_pos hexpired']
    exact .yield rfl ⟨frames, rfl, hrelated⟩
  have hexpired' : ¬ (w.unlimited frames).expired native.now := hexpired
  rw [if_neg hexpired, if_neg hexpired']
  have hframes : (w.unlimited frames).stack = frames := rfl
  rw [hframes]
  rcases hrelated with h | ⟨frame, below, frame', below', hstack, rfl, hreader, hreader',
    hidentity, -, hpaired⟩
  · cases hstack : w.stack with
    | nil =>
      obtain rfl := h.nil hstack
      exact .stop
    | cons frame below =>
      obtain ⟨frame', below', rfl, htwins, -⟩ := h.cons hstack
      obtain ⟨reader, rfl, hreads, -⟩ := htwins
      dsimp only
      cases hreader : frame.reader with
      | some listing =>
        rw [hreader] at hreads
        obtain ⟨listing', rfl⟩ : ∃ listing', reader = some listing' := by
          generalize frame.seen = seen at hreads
          cases hreads with
          | untracked => exact ⟨_, rfl⟩
          | tracked => exact ⟨_, rfl⟩
        exact read_matches h hstack hreader rfl
      | none =>
        cases reader with
        | some listing' =>
          obtain ⟨w1, hopen, hpaired, heq⟩ := openReader_again h hw hstack hreader rfl
          rw [hopen]
          exact .stutter ⟨_, heq.symm, .inl hpaired⟩
        | none =>
          obtain ⟨w1, frames1, r, heq, heq', hpaired⟩ :=
            openReader_first h hw hstack hreader rfl hnative
          have hplace : (frame.twin w.options.maxSeenNameBytes.isSome none).place = frame.place := rfl
          have hreader' : (frame.twin w.options.maxSeenNameBytes.isSome none).reader = none := rfl
          rw [hreader', hplace, heq, heq']
          cases r with
          | error error => exact .yield rfl hpaired.alike
          | ok _ => exact .again hpaired.alike
  · rw [hstack]
    dsimp only
    rw [hreader, hreader']
    show Matches _ id id _ (.again w.leaveDirectory) (.again (leaveDirectory (unlimited w _)))
    rw [unlimited_leave hstack hidentity]
    exact .again hpaired.alike

/-- An error ends both walks or neither. -/
theorem settle_matches {v : RootedWalker} {r r' : Step Item RootedWalker}
    (h : Matches (AlikeRooted native base symlinkPolicy n) id id v r r') :
    Matches (AlikeRooted native base symlinkPolicy n) id id v (settle r) (settle r') := by
  cases h with
  | stop => exact .stop
  | again hR => exact .again hR
  | stutter hR => exact .stutter hR
  | @yield a b w1 v1 hlook hR =>
    obtain rfl : a = b := hlook
    cases a with
    | ok entry => exact .yield rfl hR
    | error error =>
      have hpolicy : v1.options.errorPolicy = w1.options.errorPolicy := by
        obtain ⟨frames, rfl, -⟩ := hR
        rfl
      unfold settle
      dsimp only
      rw [hpolicy]
      split
      · exact .yield rfl hR.terminate
      · exact .yield rfl hR

/-- Turns of related Rooted walkers. -/
theorem nextEntry_matches {v : RootedWalker} (h : AlikeRooted native base symlinkPolicy n w v)
    (hw : w.Sound directories graph.allNames) (hnative : native.Over graph) :
    Matches (AlikeRooted native base symlinkPolicy n) id id v (nextEntry native w)
      (nextEntry native v) := by
  have hterminated : v.terminated = w.terminated := by
    obtain ⟨frames, rfl, -⟩ := h
    rfl
  unfold nextEntry
  rw [hterminated]
  split
  · exact .stop
  · exact settle_matches (nextRootedEntry_matches h hw hnative)

end RootedWalker

/-! ## 3. The same items -/

theorem validateOptions_positive {root : Path} {options : LocalListOptions} {n : Nat}
    (h : validateOptions root options = .ok ()) (hlimit : options.maxOpenDirectories = some n) :
    0 < n := by
  cases n with
  | zero =>
    unfold validateOptions at h
    rw [if_pos hlimit] at h
    cases h
  | succ n => exact Nat.succ_pos n

theorem validateOptions_unlimited (root : Path) (options : LocalListOptions) :
    validateOptions root { options with maxOpenDirectories := none } = .ok () := rfl

section Items

variable [QubitBudget] {π : Type}

/-- The walker `w` with at most `n` open readers yields what the walker `v` yields, and holds at
    most `n` permits, one for each open reader, in every state it reaches. -/
def SameItemsWithin (n : Nat)
    (step : Nat → LocalDirectoryWalker π → Step Item (LocalDirectoryWalker π))
    (w v : LocalDirectoryWalker π) : Prop :=
  (∃ items, Ends (counted step) (w, 0) items ∧ Ends (counted step) (v, 0) items) ∧
    ∀ w' k, Reachable (counted step) (w, 0) (w', k) →
      openReaders w'.stack = permits w'.stack ∧ openReaders w'.stack ≤ n

variable {source : π → IoResult Listing} {opens : π → Option DirectoryIdentity → Bool → Prop}
  {base : Path} {symlinkPolicy : LocalSymlinkPolicy} {n : Nat}
  {directories : Finset DirectoryIdentity} {names : Finset String}

theorem LocalDirectoryWalker.Alike.withContext {w v : LocalDirectoryWalker π}
    (h : Alike source opens base symlinkPolicy n w v) : v.withContext = w.withContext := by
  obtain ⟨frames, rfl, -⟩ := h
  rfl

/-- Turns of a sound walker come to an end, also when time goes by with the items. -/
theorem exists_ends_counted
    {step : Nat → LocalDirectoryWalker π → Step Item (LocalDirectoryWalker π)}
    (hturn : ∀ k w w', w.Sound directories names → (step k w).next = some w' →
      w.terminated = false ∧ Turn directories names w w')
    {w : LocalDirectoryWalker π} (hw : w.Sound directories names) :
    ∃ items, Ends (counted step) (w, 0) items := by
  refine exists_ends (fun p => p.1.Sound directories names)
    (fun p => rank names directories p.1) ?_ hw
  intro p p' hp hnext
  obtain ⟨hrunning, hturned⟩ := hturn p.2 p.1 p'.1 hp (counted_next hnext)
  exact ⟨hturned.sound hp, hturned.rank_lt hp hrunning⟩

/-- Turns that match, and are turns of a sound walker, make the same items. -/
theorem sameItemsWithin_of_matches
    {step : Nat → LocalDirectoryWalker π → Step Item (LocalDirectoryWalker π)}
    (hturn : ∀ k w w', w.Sound directories names → (step k w).next = some w' →
      w.terminated = false ∧ Turn directories names w w')
    (hmatches : ∀ k w v, w.Sound directories names → Alike source opens base symlinkPolicy n w v →
      Matches (Alike source opens base symlinkPolicy n) id id v (step k w) (step k v))
    {w v : LocalDirectoryWalker π} (hw : w.Sound directories names)
    (h : Alike source opens base symlinkPolicy n w v) : SameItemsWithin n step w v := by
  constructor
  · obtain ⟨items, hends⟩ := exists_ends_counted hturn hw
    have hsim : ∀ p q : LocalDirectoryWalker π × Nat,
        ((p.1.Sound directories names ∧ Alike source opens base symlinkPolicy n p.1 q.1) ∧
          p.2 = q.2) →
        Matches (fun p q : LocalDirectoryWalker π × Nat =>
          (p.1.Sound directories names ∧ Alike source opens base symlinkPolicy n p.1 q.1) ∧
            p.2 = q.2) id id q (counted step p) (counted step q) := by
      rintro ⟨w, k⟩ ⟨v, k'⟩ ⟨⟨hw, h⟩, hk⟩
      obtain rfl : k = k' := hk
      exact ((hmatches k w v hw h).and fun w' hnext => (hturn k w w' hw hnext).2.sound hw).counted
    obtain ⟨items', hends', heq⟩ := hends.simulated hsim (s := (w, 0)) (t := (v, 0)) ⟨⟨hw, h⟩, rfl⟩
    rw [List.map_id, List.map_id] at heq
    exact ⟨items, hends, heq ▸ hends'⟩
  · intro w' k hreach
    -- some unlimited walker goes along with every turn of the bounded one
    have hinv : w'.Sound directories names ∧
        ∃ v', Alike source opens base symlinkPolicy n w' v' := by
      refine Reachable.invariant (fun p => p.1.Sound directories names ∧
        ∃ v', Alike source opens base symlinkPolicy n p.1 v') ?_ ⟨hw, v, h⟩ hreach
      rintro p p' ⟨hp, v1, hv⟩ hnext
      have hnext' := counted_next hnext
      refine ⟨(hturn p.2 p.1 p'.1 hp hnext').2.sound hp, ?_⟩
      have hstep := hmatches p.2 p.1 v1 hp hv
      generalize step p.2 p.1 = r, step p.2 v1 = r' at hstep hnext'
      cases hstep with
      | stop => cases hnext'
      | yield _ hR => cases hnext'; exact ⟨_, hR⟩
      | again hR => cases hnext'; exact ⟨_, hR⟩
      | stutter hR => cases hnext'; exact ⟨_, hR⟩
    obtain ⟨-, v', halike⟩ := hinv
    exact halike.accounted.openReaders

/-- New walkers, with and without the limit, are related. -/
theorem start_alike {root backendRoot : Path} {options : LocalListOptions}
    {deadline : Option Nat} {frame frame' : WalkFrame π} {identity : DirectoryIdentity}
    {pool : Option ManagedResourcePool} (hlimit : options.maxOpenDirectories = some n)
    (hpolicy : options.reopenPolicy = .reopen) (hn : 0 < n)
    (hpool : Holds n (if options.maxDepth = some 0 then 0 else frame.directoryPermit.toNat) pool)
    (hpermit : frame.directoryPermit = frame.reader.isSome)
    (htwins : Twins source opens options.maxSeenNameBytes.isSome frame frame')
    (currentDirectory : Option Path) :
    Alike source opens backendRoot symlinkPolicy n
      ((start root backendRoot options symlinkPolicy deadline pool frame
        identity).bindCurrentDirectory currentDirectory)
      ((start root backendRoot { options with maxOpenDirectories := none } symlinkPolicy deadline
        none frame' identity).bindCurrentDirectory currentDirectory) := by
  have hle := Bool.toNat_le frame.directoryPermit
  by_cases hzero : options.maxDepth = some 0
  · rw [if_pos hzero] at hpool
    refine ⟨[], ?_, .inl ⟨hlimit, hpolicy, hn, rfl, rfl, ⟨?_, ?_, ?_⟩, ?_⟩⟩ <;>
      simp only [start, bindCurrentDirectory, unlimited, hzero, if_true]
    · exact hpool
    · exact Nat.zero_le _
    · exact fun f hf => nomatch hf
    · exact .nil
  · rw [if_neg hzero] at hpool
    have hone : permits [frame] = frame.directoryPermit.toNat := by
      rw [permits_cons]
      exact Nat.zero_add _
    refine ⟨[frame'], ?_, .inl ⟨hlimit, hpolicy, hn, rfl, rfl, ⟨?_, ?_, ?_⟩, ?_⟩⟩ <;>
      simp only [start, bindCurrentDirectory, unlimited, hzero, if_false]
    · rw [hone]
      exact hpool
    · rw [hone]
      omega
    · intro f hf
      rw [List.mem_singleton.mp hf]
      exact hpermit
    · exact .cons htwins .nil

theorem directoryPool_holds {options : LocalListOptions}
    (hlimit : options.maxOpenDirectories = some n) : Holds n 0 (directoryPool options) := by
  unfold directoryPool
  rw [hlimit]
  exact ⟨_, rfl, ManagedResourcePool.limit_new _ _, ManagedResourcePool.held_new _ _⟩

/-- The permit of the root is there. -/
theorem HostWalker.rootPool_holds {options : LocalListOptions}
    (hlimit : options.maxOpenDirectories = some n) (hn : 0 < n) :
    Holds n (if options.maxDepth = some 0 then 0 else 1) (rootPool options) := by
  obtain ⟨pool, hpool, hpoollimit, hheld⟩ := directoryPool_holds hlimit
  obtain ⟨acquired, hacquire, hlimit', hheld'⟩ :=
    ManagedResourcePool.exists_acquired (by omega : pool.held < pool.limit)
  unfold rootPool
  rw [hpool, Option.map_some, hacquire]
  by_cases hzero : options.maxDepth = some 0
  · rw [if_pos hzero]
    refine ⟨acquired.release 1, by simp [Except.toOption, hzero], ?_, ?_⟩
    · rw [ManagedResourcePool.limit_release]
      omega
    · rw [ManagedResourcePool.held_release]
      omega
  · rw [if_neg hzero]
    exact ⟨acquired, by simp [Except.toOption, hzero], by omega, by omega⟩

/-- Both walkers open, and start related. -/
theorem HostWalker.open_alike {native : HostNative} {graph : DirectoryGraph}
    {clockEnd startedAt n : Nat} {backendRoot diagnosticRoot : Path} {options : LocalListOptions}
    {symlinkPolicy : LocalSymlinkPolicy} {w : HostWalker} (hnative : native.Over graph)
    (hstatic : native.Static) (hlimit : options.maxOpenDirectories = some n)
    (hpolicy : options.reopenPolicy = .reopen)
    (h : openWithDiagnostic native clockEnd backendRoot diagnosticRoot options symlinkPolicy
      startedAt = .ok w) (currentDirectory : Option Path) :
    ∃ v, openWithDiagnostic native clockEnd backendRoot diagnosticRoot
        { options with maxOpenDirectories := none } symlinkPolicy startedAt = .ok v ∧
      AlikeHost native backendRoot symlinkPolicy n (w.bindCurrentDirectory currentDirectory)
        (v.bindCurrentDirectory currentDirectory) := by
  obtain ⟨deadline, metadata, entries, identity, hvalid, hdeadline, hmetadata, hkind, hread,
    hidentity, rfl⟩ := openWithDiagnostic_ok h
  have hopen : openWithDiagnostic native clockEnd backendRoot diagnosticRoot
      { options with maxOpenDirectories := none } symlinkPolicy startedAt =
      .ok (.start diagnosticRoot backendRoot { options with maxOpenDirectories := none }
        symlinkPolicy deadline none
        (frameOf { options with maxOpenDirectories := none } [] identity 1 entries false)
        identity) := by
    have hdeadline' : walkerDeadline clockEnd diagnosticRoot
        { options with maxOpenDirectories := none } startedAt = .ok deadline := hdeadline
    unfold openWithDiagnostic
    rw [validateOptions_unlimited, hdeadline', hmetadata, hread]
    simp [bind, Except.bind, Except.mapError, hkind, nativeDirectoryIdentity, hidentity, pure,
      Except.pure, rootPool, directoryPool]
  refine ⟨_, hopen, ?_⟩
  rw [hlimit]
  have hopens : Opens native backendRoot symlinkPolicy [] (some identity) true := by
    refine ⟨rfl, metadata, identity, ?_, hkind, ?_, rfl⟩
    · rw [List.append_nil]
      split
      · exact hstatic.metadata _ _ hmetadata (by rw [hkind]; decide)
      · exact hmetadata
    · rw [List.append_nil]
      exact hidentity
  obtain ⟨-, -, hnodup, -⟩ := hnative.readDir _ _ hread
  refine start_alike hlimit hpolicy (validateOptions_positive hvalid hlimit) ?_ rfl
    (frameOf_twins _ _ hopens (by rw [List.append_nil]; exact hread) hnodup) currentDirectory
  exact rootPool_holds hlimit (validateOptions_positive hvalid hlimit)

theorem RootedWalker.open_alike {native : RootedNative} {clockEnd startedAt n : Nat}
    {authorityParent outputParent namespaceRoot : Path} {options : LocalListOptions}
    {symlinkPolicy : LocalSymlinkPolicy} {w : RootedWalker}
    (hlimit : options.maxOpenDirectories = some n) (hpolicy : options.reopenPolicy = .reopen)
    (h : openRootedWithOutput native clockEnd authorityParent outputParent namespaceRoot options
      symlinkPolicy startedAt = .ok w) (currentDirectory : Option Path) :
    ∃ v, openRootedWithOutput native clockEnd authorityParent outputParent namespaceRoot
        { options with maxOpenDirectories := none } symlinkPolicy startedAt = .ok v ∧
      AlikeRooted native [] symlinkPolicy n (w.bindCurrentDirectory currentDirectory)
        (v.bindCurrentDirectory currentDirectory) := by
  obtain ⟨deadline, metadata, hvalid, hdeadline, hmetadata, rfl⟩ := openRootedWithOutput_ok h
  have hopen : openRootedWithOutput native clockEnd authorityParent outputParent namespaceRoot
      { options with maxOpenDirectories := none } symlinkPolicy startedAt =
      .ok (.start namespaceRoot [] { options with maxOpenDirectories := none } symlinkPolicy
        deadline none
        (frameOf { options with maxOpenDirectories := none } ⟨authorityParent, outputParent⟩
          (.fromRootedMetadata metadata authorityParent) 1)
        (.fromRootedMetadata metadata authorityParent)) := by
    have hdeadline' : walkerDeadline clockEnd (native.path ++ authorityParent)
        { options with maxOpenDirectories := none } startedAt = .ok deadline := hdeadline
    unfold openRootedWithOutput
    dsimp only
    rw [validateOptions_unlimited, hdeadline', hmetadata]
    rfl
  refine ⟨_, hopen, ?_⟩
  refine start_alike hlimit hpolicy (validateOptions_positive hvalid hlimit) ?_ rfl ?_
    currentDirectory
  · have hclosed : (if options.maxDepth = some 0 then 0 else false.toNat) = 0 := ite_self 0
    show Holds n (if options.maxDepth = some 0 then 0 else false.toNat) (directoryPool options)
    rw [hclosed]
    exact directoryPool_holds hlimit
  · refine ⟨none, ?_, .unopened (freshSeen_empty _), nofun⟩
    unfold frameOf
    rw [freshSeen_unlimited]
    rfl

/-- The bounded Host walker opens where the one without a limit does, and yields its items. -/
theorem HostWalker.open_sameItems {native : HostNative} {graph : DirectoryGraph}
    {clockEnd startedAt n : Nat} {backendRoot diagnosticRoot : Path} {options : LocalListOptions}
    {symlinkPolicy : LocalSymlinkPolicy} {w : HostWalker} (hnative : native.Over graph)
    (hstatic : native.Static) (hlimit : options.maxOpenDirectories = some n)
    (hpolicy : options.reopenPolicy = .reopen)
    (hopen : openWithDiagnostic native clockEnd backendRoot diagnosticRoot options symlinkPolicy
      startedAt = .ok w) (currentDirectory : Option Path) (clock : Nat → Nat) :
    ∃ v, openWithDiagnostic native clockEnd backendRoot diagnosticRoot
        { options with maxOpenDirectories := none } symlinkPolicy startedAt = .ok v ∧
      SameItemsWithin n (fun k => next (native.at (clock k)))
        (w.bindCurrentDirectory currentDirectory) (v.bindCurrentDirectory currentDirectory) := by
  obtain ⟨v, hopen', halike⟩ :=
    open_alike hnative hstatic hlimit hpolicy hopen currentDirectory
  have hover (k : Nat) : (native.at (clock k)).Over graph := ⟨hnative.readDir, hnative.identity⟩
  refine ⟨v, hopen', sameItemsWithin_of_matches ?_ ?_
    ((open_sound hnative hopen).bind currentDirectory) halike⟩
  · intro k w w' hw hnext
    rw [next, Step.next_map] at hnext
    exact nextEntry_turn hnext (hover k) (Finset.Subset.refl _) hw
  · intro k w v hw h
    have hat : AlikeHost (native.at (clock k)) backendRoot symlinkPolicy n w v := h
    have hmatches := nextEntry_matches hat hw (hover k) ⟨hstatic.metadata⟩
    refine hmatches.map fun a b heq => ?_
    rw [Alike.withContext h, show a = b from heq]

/-- The bounded Rooted walker opens where the one without a limit does, and yields its items. -/
theorem RootedWalker.open_sameItems {native : RootedNative} {graph : DirectoryGraph}
    {clockEnd startedAt n : Nat} {authorityParent outputParent namespaceRoot : Path}
    {options : LocalListOptions} {symlinkPolicy : LocalSymlinkPolicy} {w : RootedWalker}
    (hnative : native.Over graph) (hlimit : options.maxOpenDirectories = some n)
    (hpolicy : options.reopenPolicy = .reopen)
    (hopen : openRootedWithOutput native clockEnd authorityParent outputParent namespaceRoot
      options symlinkPolicy startedAt = .ok w) (currentDirectory : Option Path)
    (clock : Nat → Nat) :
    ∃ v, openRootedWithOutput native clockEnd authorityParent outputParent namespaceRoot
        { options with maxOpenDirectories := none } symlinkPolicy startedAt = .ok v ∧
      SameItemsWithin n (fun k => next (native.at (clock k)))
        (w.bindCurrentDirectory currentDirectory) (v.bindCurrentDirectory currentDirectory) := by
  obtain ⟨v, hopen', halike⟩ := open_alike hlimit hpolicy hopen currentDirectory
  obtain ⟨directories, hsub, hstart⟩ := open_sound graph hopen
  have hover (k : Nat) : (native.at (clock k)).Over graph :=
    ⟨hnative.openDirReader, hnative.entryMetadata, hnative.symlinkMetadata⟩
  refine ⟨v, hopen', sameItemsWithin_of_matches ?_ ?_ (hstart.bind currentDirectory) halike⟩
  · intro k w w' hw hnext
    rw [next, Step.next_map] at hnext
    exact nextEntry_turn hnext (hover k) hsub hw
  · intro k w v hw h
    have hat : AlikeRooted (native.at (clock k)) [] symlinkPolicy n w v := h
    have hmatches := nextEntry_matches hat hw (hover k)
    refine hmatches.map fun a b heq => ?_
    rw [Alike.withContext h, show a = b from heq]

/-- A limit on open directories with the policy `Reopen` changes no item and is kept, for every
    finite file system that stays as it is.  `clock` gives the time at which each item is asked
    for, so that a deadline passes before the same item. -/
theorem open_directory_limit_unobservable (graph : DirectoryGraph) (n : Nat)
    (options : LocalListOptions) (hlimit : options.maxOpenDirectories = some n)
    (hpolicy : options.reopenPolicy = .reopen) (symlinkPolicy : LocalSymlinkPolicy)
    (clock : Nat → Nat) (clockEnd startedAt : Nat) (currentDirectory : Option Path) :
    (∀ (native : HostNative) (backendRoot diagnosticRoot : Path) (w : HostWalker),
      native.Over graph → native.Static →
      HostWalker.openWithDiagnostic native clockEnd backendRoot diagnosticRoot options
        symlinkPolicy startedAt = .ok w →
      ∃ v, HostWalker.openWithDiagnostic native clockEnd backendRoot diagnosticRoot
          { options with maxOpenDirectories := none } symlinkPolicy startedAt = .ok v ∧
        SameItemsWithin n (fun k => HostWalker.next (native.at (clock k)))
          (w.bindCurrentDirectory currentDirectory) (v.bindCurrentDirectory currentDirectory)) ∧
    ∀ (native : RootedNative) (authorityParent outputParent namespaceRoot : Path)
      (w : RootedWalker), native.Over graph →
      RootedWalker.openRootedWithOutput native clockEnd authorityParent outputParent
        namespaceRoot options symlinkPolicy startedAt = .ok w →
      ∃ v, RootedWalker.openRootedWithOutput native clockEnd authorityParent outputParent
          namespaceRoot { options with maxOpenDirectories := none } symlinkPolicy startedAt =
            .ok v ∧
        SameItemsWithin n (fun k => RootedWalker.next (native.at (clock k)))
          (w.bindCurrentDirectory currentDirectory)
          (v.bindCurrentDirectory currentDirectory) := by
  constructor
  · intro native backendRoot diagnosticRoot w hnative hstatic hopen
    exact HostWalker.open_sameItems hnative hstatic hlimit hpolicy hopen currentDirectory clock
  · intro native authorityParent outputParent namespaceRoot w hnative hopen
    exact RootedWalker.open_sameItems hnative hlimit hpolicy hopen currentDirectory clock

end Items

section Nested

open scoped QubitBudget

/-- A root with a directory `a`, which has a file `b`, and with a file `c`. -/
def nestedEntry : Path → Option Metadata
  | ["r"] => some ⟨.directory, some ⟨0, 1⟩⟩
  | ["r", "a"] => some ⟨.directory, some ⟨0, 2⟩⟩
  | ["r", "a", "b"] => some ⟨.file, some ⟨0, 3⟩⟩
  | ["r", "c"] => some ⟨.file, some ⟨0, 4⟩⟩
  | _ => none

def nestedGraph : DirectoryGraph :=
  ⟨{.native ⟨0, 1⟩, .native ⟨0, 2⟩}, fun _ => {"a", "b", "c"}⟩

def nestedNative : HostNative where
  now := 0
  symlinkMetadata path := (nestedEntry path).elim (.error ⟨.notFound, "", none⟩) .ok
  metadata path := (nestedEntry path).elim (.error ⟨.notFound, "", none⟩) .ok
  readDir path :=
    if path = ["r"] then .ok ⟨["a", "c"], none⟩
    else if path = ["r", "a"] then .ok ⟨["b"], none⟩
    else .error ⟨.notADirectory, "", none⟩
  directoryIdentity _ path := .ok (if path = ["r"] then .native ⟨0, 1⟩ else .native ⟨0, 2⟩)
  measure := .unix

theorem nestedNative_over : nestedNative.Over nestedGraph where
  readDir path listing h := by
    simp only [nestedNative] at h
    split at h
    · cases h
      exact ⟨.native ⟨0, 1⟩, by decide, by decide, by decide⟩
    · split at h
      · cases h
        exact ⟨.native ⟨0, 2⟩, by decide, by decide, by decide⟩
      · cases h
  identity metadata path identity h := by
    simp only [nestedNative] at h
    split at h <;> cases h <;> decide

def nestedOptions : LocalListOptions where
  maxOpenDirectories := some 1
  recursive := true

/-- With one reader the root is closed while `a` is listed, and opened again for `c`. -/
theorem open_directory_limit_unobservable_nested :
    ∃ w, HostWalker.openWithDiagnostic nestedNative 0 ["r"] ["r"] nestedOptions .reject 0 =
        .ok w ∧
      ∃ v, HostWalker.openWithDiagnostic nestedNative 0 ["r"] ["r"]
          { nestedOptions with maxOpenDirectories := none } .reject 0 = .ok v ∧
        SameItemsWithin 1 (fun _ => HostWalker.next (nestedNative.at 0))
          (w.bindCurrentDirectory none) (v.bindCurrentDirectory none) :=
  ⟨_, rfl, (open_directory_limit_unobservable nestedGraph 1 nestedOptions rfl rfl .reject
    (fun _ => 0) 0 0 none).1 nestedNative ["r"] ["r"] _ nestedNative_over
    ⟨fun _ _ h _ => h⟩ rfl⟩

/-- When time goes by between the turns, a deadline passes while the root is opened again and `a`
    is skipped, where the walker without the limit has yielded `c`. -/
theorem open_directory_limit_observed :
    ∃ w v items items',
      HostWalker.openWithDiagnostic nestedNative 5 ["r"] ["r"]
        { nestedOptions with deadline := some 4 } .reject 0 = .ok w ∧
      HostWalker.openWithDiagnostic nestedNative 5 ["r"] ["r"]
        { nestedOptions with deadline := some 4, maxOpenDirectories := none } .reject 0 = .ok v ∧
      Ends (timed fun t => HostWalker.next (nestedNative.at t))
        (w.bindCurrentDirectory none, 0) items ∧
      Ends (timed fun t => HostWalker.next (nestedNative.at t))
        (v.bindCurrentDirectory none, 0) items' ∧
      items.map (fun item => item.toOption.map (·.relativePath)) =
        [some ["a"], some ["a", "b"], none] ∧
      items'.map (fun item => item.toOption.map (·.relativePath)) =
        [some ["a"], some ["a", "b"], some ["c"], none] :=
  ⟨_, _, _, _, rfl, rfl, ⟨9, rfl⟩, ⟨9, rfl⟩, rfl, rfl⟩

end Nested

end LocalFiles.Walk
