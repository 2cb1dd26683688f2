import LocalFiles.Walk.Ends

/-!
# Bounded — a walk with few open readers looks like one without a limit

The bounded walker closes every reader when its pool is exhausted and opens a frame again when
that is back on top.  It is compared with the walker that has the same options without the
limit: frame by frame both have the same names before them, and reopening is a silent turn.
-/

namespace LocalFiles.Walk

variable {π : Type}

/-! ## 1. Accounting for permits -/

/-- The permits of a list of frames. -/
def permits (frames : List (WalkFrame π)) : Nat := frames.countP (·.directoryPermit)

def openReaders (frames : List (WalkFrame π)) : Nat := frames.countP (·.reader.isSome)

@[simp] theorem permits_close (frames : List (WalkFrame π)) :
    permits (frames.map WalkFrame.close) = 0 := by
  unfold permits
  rw [List.countP_map]
  exact List.countP_eq_zero.mpr fun _ _ h => nomatch h

theorem permits_cons (frame : WalkFrame π) (below : List (WalkFrame π)) :
    permits (frame :: below) = permits below + frame.directoryPermit.toNat := by
  unfold permits
  rw [List.countP_cons]
  cases frame.directoryPermit <;> rfl

section Permits

variable [QubitBudget]

/-- A pool with this limit, of which so many permits are held. -/
def Holds (n held : Nat) (pool : Option ManagedResourcePool) : Prop :=
  ∃ p, pool = some p ∧ p.limit = n ∧ p.held = held

theorem Holds.release {n held k : Nat} {pool : Option ManagedResourcePool} (h : Holds n held pool) :
    Holds n (held - k) (pool.map (·.release k)) := by
  obtain ⟨p, rfl, hlimit, hheld⟩ := h
  refine ⟨p.release k, rfl, ?_, ?_⟩
  · rw [ManagedResourcePool.limit_release, hlimit]
  · rw [ManagedResourcePool.held_release, hheld]

namespace LocalDirectoryWalker

/-- The pool holds the permits of the frames and `extra` ones in hand; a frame holds one while
    its reader is open. -/
structure Accounted (n extra : Nat) (w : LocalDirectoryWalker π) : Prop where
  pool : Holds n (permits w.stack + extra) w.openDirectories
  limit : permits w.stack + extra ≤ n
  permit : ∀ frame ∈ w.stack, frame.directoryPermit = frame.reader.isSome

variable {n extra : Nat} {w : LocalDirectoryWalker π}

/-- There are as many open readers as permits, and no more than the limit. -/
theorem Accounted.openReaders (h : w.Accounted n extra) :
    openReaders w.stack = permits w.stack ∧ Walk.openReaders w.stack ≤ n := by
  have heq : Walk.openReaders w.stack = permits w.stack :=
    List.countP_congr fun frame hframe => by rw [h.permit frame hframe]
  have hlimit := h.limit
  exact ⟨heq, by omega⟩

theorem Accounted.congr {w' : LocalDirectoryWalker π} (h : w.Accounted n extra)
    (hpool : w'.openDirectories = w.openDirectories) (hstack : w'.stack = w.stack) :
    w'.Accounted n extra :=
  ⟨by rw [hpool, hstack]; exact h.pool, by rw [hstack]; exact h.limit,
    by rw [hstack]; exact h.permit⟩

theorem tryAcquire_room {held : Nat} (hpool : Holds n held w.openDirectories) (hroom : held < n) :
    ∃ pool, w.tryAcquire = .ok ({ w with openDirectories := pool }, true) ∧
      Holds n (held + 1) pool := by
  obtain ⟨p, hp, rfl, rfl⟩ := hpool
  obtain ⟨p', hacquired, hlimit, hheld⟩ := ManagedResourcePool.exists_acquired hroom
  refine ⟨some p', ?_, p', rfl, hlimit, hheld⟩
  unfold tryAcquire
  rw [hp]
  dsimp only
  rw [hacquired]
  rfl

theorem tryAcquire_full {held : Nat} (hpool : Holds n held w.openDirectories)
    (hfull : ¬ held < n) : ∃ error, w.tryAcquire = .error error := by
  obtain ⟨p, hp, rfl, rfl⟩ := hpool
  obtain ⟨error, hrefused⟩ := ManagedResourcePool.tryAcquire_full (Nat.le_of_not_lt hfull)
  refine ⟨error, ?_⟩
  unfold tryAcquire
  rw [hp]
  dsimp only
  rw [hrefused]
  rfl

/-- Acquiring a permit always succeeds when frames may be closed for it. -/
theorem Accounted.acquire (h : w.Accounted n 0) (hn : 0 < n)
    (hpolicy : w.options.reopenPolicy = .reopen) (path : Path) :
    ∃ w', w.acquireDirectory path = (w', .ok true) ∧ w'.Accounted n 1 ∧
      w' = { w with openDirectories := w'.openDirectories, stack := w'.stack } ∧
      (w'.stack = w.stack ∨ w'.stack = w.stack.map WalkFrame.close) := by
  have hpool := h.pool
  rw [Nat.add_zero] at hpool
  by_cases hroom : permits w.stack < n
  · obtain ⟨pool, hacquired, hheld⟩ := tryAcquire_room hpool hroom
    refine ⟨{ w with openDirectories := pool }, ?_, ⟨hheld, hroom, h.permit⟩, rfl, .inl rfl⟩
    unfold acquireDirectory
    rw [hacquired]
  · have hclosed : Holds n 0 w.closeAllFrames.openDirectories := by
      have hreleased : Holds n (permits w.stack - permits w.stack)
          w.closeAllFrames.openDirectories := hpool.release
      rwa [Nat.sub_self] at hreleased
    obtain ⟨error, hfull⟩ := tryAcquire_full hpool hroom
    obtain ⟨pool, hacquired, hheld⟩ := tryAcquire_room hclosed hn
    refine ⟨{ w.closeAllFrames with openDirectories := pool }, ?_, ⟨?_, ?_, ?_⟩, rfl, .inr rfl⟩
    · unfold acquireDirectory
      rw [hfull]
      dsimp only
      rw [if_pos hpolicy, hacquired]
    · show Holds n (permits (w.stack.map WalkFrame.close) + 1) pool
      rw [permits_close]
      exact hheld
    · show permits (w.stack.map WalkFrame.close) + 1 ≤ n
      rw [permits_close]
      omega
    · intro frame hframe
      obtain ⟨old, -, rfl⟩ := List.mem_map.mp hframe
      rfl

/-- The permit in hand goes back. -/
theorem Accounted.release (h : w.Accounted n 1) : (w.releasePermits 1).Accounted n 0 where
  pool := h.pool.release
  limit := by
    have hlimit := h.limit
    show permits w.stack + 0 ≤ n
    omega
  permit := h.permit

/-- The permit in hand goes to the top frame. -/
theorem Accounted.openTop (h : w.Accounted n 1) {frame : WalkFrame π}
    {below : List (WalkFrame π)} (hstack : w.stack = frame :: below) (hclosed : frame.reader = none)
    (entries : Listing) : (w.openTop entries true).Accounted n 0 := by
  have hpermit := h.permit frame (hstack ▸ List.mem_cons_self)
  rw [hclosed] at hpermit
  have hpool := h.pool
  have hlimit := h.limit
  rw [hstack, permits_cons, hpermit] at hpool hlimit
  unfold LocalDirectoryWalker.openTop
  rw [hstack]
  refine ⟨?_, ?_, ?_⟩
  · show Holds n (permits (_ :: below) + 0) w.openDirectories
    rw [permits_cons]
    exact hpool
  · show permits (_ :: below) + 0 ≤ n
    rw [permits_cons]
    exact hlimit
  · intro f hf
    rcases List.mem_cons.mp hf with rfl | hf
    · rfl
    · exact h.permit f (hstack ▸ List.mem_cons_of_mem _ hf)

/-- The permit in hand goes to a new frame. -/
theorem Accounted.enter (h : w.Accounted n 1) {frame : WalkFrame π}
    (hpermit : frame.directoryPermit = true) (hreader : frame.reader.isSome)
    (identity : DirectoryIdentity) : (w.enterDirectory frame identity).Accounted n 0 := by
  have hlimit := h.limit
  refine ⟨?_, ?_, ?_⟩
  · show Holds n (permits (frame :: w.stack) + 0) w.openDirectories
    rw [permits_cons, hpermit]
    exact h.pool
  · show permits (frame :: w.stack) + 0 ≤ n
    rw [permits_cons, hpermit]
    exact hlimit
  · intro f hf
    rcases List.mem_cons.mp hf with rfl | hf
    · rw [hpermit, hreader]
    · exact h.permit f hf

/-- A new frame without a reader needs no permit. -/
theorem Accounted.enterClosed (h : w.Accounted n 0) {frame : WalkFrame π}
    (hpermit : frame.directoryPermit = false) (hreader : frame.reader = none)
    (identity : DirectoryIdentity) : (w.enterDirectory frame identity).Accounted n 0 := by
  have hpermits : permits (frame :: w.stack) = permits w.stack := by
    rw [permits_cons, hpermit]
    rfl
  refine ⟨?_, ?_, ?_⟩
  · show Holds n (permits (frame :: w.stack) + 0) w.openDirectories
    rw [hpermits]
    exact h.pool
  · show permits (frame :: w.stack) + 0 ≤ n
    rw [hpermits]
    exact h.limit
  · intro f hf
    rcases List.mem_cons.mp hf with rfl | hf
    · rw [hpermit, hreader]
      rfl
    · exact h.permit f hf

theorem Accounted.setTop (h : w.Accounted n 0) {frame : WalkFrame π}
    {below : List (WalkFrame π)} (frame' : WalkFrame π) (hstack : w.stack = frame :: below)
    (hpermit : frame'.directoryPermit = frame.directoryPermit)
    (hreader : frame'.reader.isSome = frame.reader.isSome) :
    (w.setTop frame').Accounted n 0 := by
  have hpermits : permits (frame' :: below) = permits w.stack := by
    rw [hstack, permits_cons, permits_cons, hpermit]
  refine ⟨?_, ?_, ?_⟩
  · rw [setTop_stack hstack, hpermits]
    exact h.pool
  · rw [setTop_stack hstack, hpermits]
    exact h.limit
  · intro f hf
    rw [setTop_stack hstack] at hf
    rcases List.mem_cons.mp hf with rfl | hf
    · rw [hpermit, hreader]
      exact h.permit frame (hstack ▸ List.mem_cons_self)
    · exact h.permit f (hstack ▸ List.mem_cons_of_mem _ hf)

theorem Accounted.leave (h : w.Accounted n 0) : w.leaveDirectory.Accounted n 0 := by
  unfold leaveDirectory
  split
  · exact h
  · next frame below hstack =>
    have hpool := h.pool
    have hlimit := h.limit
    rw [hstack, permits_cons] at hpool hlimit
    refine ⟨?_, ?_, fun f hf => h.permit f (hstack ▸ List.mem_cons_of_mem _ hf)⟩
    · have hreleased : Holds n (permits below + frame.directoryPermit.toNat + 0 -
          frame.directoryPermit.toNat) (w.releasePermits frame.directoryPermit.toNat).openDirectories :=
        hpool.release
      rwa [Nat.add_zero, Nat.add_sub_cancel] at hreleased
    · show permits below + 0 ≤ n
      omega

end LocalDirectoryWalker

end Permits

open LocalDirectoryWalker

/-! ## 2. Frames of the two walkers -/

/-- The frame of the walker without a limit; it remembers names for their budget only. -/
def WalkFrame.twin (budgeted : Bool) (frame : WalkFrame π) (reader : Option Listing) :
    WalkFrame π :=
  { frame with
    reader := reader
    directoryPermit := false
    seen := if budgeted then frame.seen else none }

/-- What is left of a listing when the names of `seen` are passed over. -/
def Listing.rest (listing : Listing) (seen : Finset String) : Listing :=
  { listing with entries := listing.entries.filter fun name => name ∉ seen }

/-- How the readers of two frames of one directory correspond, after the names of `seen`.  A
    frame that remembers its names may be closed in the bounded walker alone. -/
inductive Reads (source : IoResult Listing) :
    Option (Finset String) → Option Listing → Option Listing → Prop
  | unopened {seen : Option (Finset String)} (h : ∀ names ∈ seen, names = ∅) :
      Reads source seen none none
  | untracked {listing : Listing} : Reads source none (some listing) (some listing)
  | tracked {seen : Finset String} {all listing : Listing} (hall : source = .ok all)
      (hnodup : all.entries.Nodup) (hlisting : listing.entries.Nodup)
      (hrest : listing.rest seen = all.rest seen) :
      Reads source (some seen) (some listing) (some (all.rest seen))
  | closed {seen : Finset String} {all : Listing} (hall : source = .ok all)
      (hnodup : all.entries.Nodup) : Reads source (some seen) none (some (all.rest seen))

@[simp] theorem Listing.rest_empty (listing : Listing) : listing.rest ∅ = listing := by
  unfold rest
  simp

theorem Listing.rest_cons_seen {name : String} {entries : List String}
    {failure : Option IoError} {seen : Finset String} (h : name ∈ seen) :
    rest ⟨name :: entries, failure⟩ seen = rest ⟨entries, failure⟩ seen := by
  unfold rest
  simp [h]

theorem Listing.rest_cons_new {name : String} (entries : List String)
    (failure : Option IoError) {seen : Finset String} (h : name ∉ seen) :
    rest ⟨name :: entries, failure⟩ seen =
      ⟨name :: (rest ⟨entries, failure⟩ seen).entries, failure⟩ := by
  unfold rest
  simp [h]

/-- After the first name left is taken, the names left are the others. -/
theorem Listing.rest_insert {listing : Listing} {name : String} {entries : List String}
    {failure : Option IoError} {seen : Finset String} (hnodup : listing.entries.Nodup)
    (h : listing.rest seen = ⟨name :: entries, failure⟩) :
    listing.rest (insert name seen) = ⟨entries, failure⟩ := by
  have hentries : listing.entries.filter (fun n => n ∉ seen) = name :: entries :=
    congrArg Listing.entries h
  have hfailure : listing.failure = failure := congrArg Listing.failure h
  have hfiltered := hnodup.filter fun n => decide (n ∉ seen)
  rw [hentries] at hfiltered
  have hnot := (List.nodup_cons.mp hfiltered).1
  have hsplit : listing.entries.filter (fun n => n ∉ insert name seen) =
      (listing.entries.filter fun n => n ∉ seen).filter fun n => n ≠ name := by
    rw [List.filter_filter]
    apply List.filter_congr
    intro n _
    simp [Finset.mem_insert]
  unfold rest
  rw [hsplit, hentries, hfailure, List.filter_cons_of_neg (by simp),
    List.filter_eq_self.mpr]
  intro n hn
  simp only [ne_eq, decide_eq_true_eq]
  rintro rfl
  exact hnot hn

theorem Reads.close {source : IoResult Listing} {seen : Option (Finset String)}
    {reader reader' : Option Listing} (h : Reads source seen reader reader')
    (hclosable : seen.isSome ∨ reader = none) : Reads source seen none reader' := by
  cases h with
  | unopened h => exact .unopened h
  | untracked => rcases hclosable with h | h <;> cases h
  | tracked hall hnodup => exact .closed hall hnodup
  | closed hall hnodup => exact .closed hall hnodup

/-- A name seen before is passed over by the bounded walker alone. -/
theorem Reads.skip {source : IoResult Listing} {seen : Option (Finset String)} {name : String}
    {entries : List String} {failure : Option IoError} {listing' : Listing}
    (h : Reads source seen (some ⟨name :: entries, failure⟩) (some listing'))
    (hseen : seen.any fun names => name ∈ names) :
    Reads source seen (some ⟨entries, failure⟩) (some listing') := by
  cases h with
  | untracked => cases hseen
  | tracked hall hnodup hlisting hrest =>
    have hmem := of_decide_eq_true (hseen : decide (name ∈ _) = true)
    rw [Listing.rest_cons_seen hmem] at hrest
    exact .tracked hall hnodup (List.nodup_cons.mp hlisting).2 hrest

/-- A new name is the next one of both readers. -/
theorem Reads.take {source : IoResult Listing} {seen : Option (Finset String)} {name : String}
    {entries : List String} {failure : Option IoError} {listing' : Listing}
    (h : Reads source seen (some ⟨name :: entries, failure⟩) (some listing'))
    (hseen : ¬ seen.any fun names => name ∈ names) :
    ∃ entries' failure', listing' = ⟨name :: entries', failure'⟩ ∧
      Reads source (seen.map (insert name)) (some ⟨entries, failure⟩)
        (some ⟨entries', failure'⟩) := by
  cases h with
  | untracked => exact ⟨entries, failure, rfl, .untracked⟩
  | @tracked seen all _ hall hnodup hlisting hrest =>
    have hmem : name ∉ seen := fun hmem => hseen (decide_eq_true hmem)
    have hnew := Listing.rest_cons_new entries failure hmem
    have hleft := hrest ▸ hnew
    refine ⟨_, _, hleft, ?_⟩
    have hafter := Listing.rest_insert hlisting hnew
    rw [Listing.rest_cons_seen (Finset.mem_insert_self _ _)] at hafter
    rw [← Listing.rest_insert hnodup hleft]
    exact .tracked hall hnodup (List.nodup_cons.mp hlisting).2
      (hafter.trans (Listing.rest_insert hnodup hleft).symm)

/-- Both readers run out of names together. -/
theorem Reads.empty {source : IoResult Listing} {seen : Option (Finset String)}
    {failure : Option IoError} {listing' : Listing}
    (h : Reads source seen (some ⟨[], failure⟩) (some listing')) : listing' = ⟨[], failure⟩ := by
  cases h with
  | untracked => rfl
  | tracked _ _ _ hrest =>
    rw [← hrest]
    rfl

section Twins

variable (source : π → IoResult Listing) (opens : π → Option DirectoryIdentity → Bool → Prop)
  (budgeted : Bool)

/-- `frame'` is the frame of the unlimited walker for `frame`; `opens` says what is known of
    its directory besides, depending on whether it has a reader. -/
def Twins (frame frame' : WalkFrame π) : Prop :=
  ∃ reader, frame' = frame.twin budgeted reader ∧
    Reads (source frame.place) frame.seen frame.reader reader ∧
    opens frame.place frame.identity reader.isSome

variable {source opens budgeted} {frame frame' : WalkFrame π}

theorem Twins.close (h : Twins source opens budgeted frame frame')
    (hclosable : frame.seen.isSome ∨ frame.reader = none) :
    Twins source opens budgeted frame.close frame' := by
  obtain ⟨reader, rfl, hreads, hopens⟩ := h
  exact ⟨reader, rfl, hreads.close hclosable, hopens⟩

theorem twins_close {frames frames' : List (WalkFrame π)}
    (h : List.Forall₂ (Twins source opens budgeted) frames frames')
    (hclosable : ∀ frame ∈ frames, frame.seen.isSome ∨ frame.reader = none) :
    List.Forall₂ (Twins source opens budgeted) (frames.map WalkFrame.close) frames' := by
  induction h with
  | nil => exact .nil
  | cons hframe _ ih =>
    exact .cons (hframe.close (hclosable _ List.mem_cons_self))
      (ih fun frame hmem => hclosable frame (List.mem_cons_of_mem _ hmem))

/-- A name new to the bounded walker is new to its twin. -/
theorem WalkFrame.twin_hasSeen {name : String} {reader : Option Listing}
    (h : ¬ frame.hasSeen name) : ¬ (frame.twin budgeted reader).hasSeen name := by
  unfold hasSeen twin
  dsimp only
  split
  · exact h
  · exact nofun

theorem WalkFrame.twin_remember (name : String) (reader : Option Listing) :
    (frame.twin budgeted reader).remember name = (frame.remember name).twin budgeted reader := by
  unfold remember twin
  cases budgeted <;> rfl

end Twins

/-! ## 3. The two walkers -/

namespace LocalDirectoryWalker

/-- The names a new frame remembers, with and without the limit. -/
theorem freshSeen_unlimited (options : LocalListOptions) :
    freshSeen { options with maxOpenDirectories := none } =
      if options.maxSeenNameBytes.isSome then freshSeen options else none := by
  have hreopen : LocalListOptions.canReopen { options with maxOpenDirectories := none } = false := by
    unfold LocalListOptions.canReopen
    simp
  unfold freshSeen LocalListOptions.needsSeenNames
  rw [hreopen]
  cases options.maxSeenNameBytes <;> rfl

theorem freshSeen_empty (options : LocalListOptions) :
    ∀ names ∈ freshSeen options, names = ∅ := by
  unfold freshSeen
  split
  · rintro _ ⟨⟩
    rfl
  · rintro _ ⟨⟩

/-- Readers of a directory opened in both walkers at the same time. -/
theorem reads_opened {source : IoResult Listing} {entries : Listing}
    {seen : Option (Finset String)} (hseen : ∀ names ∈ seen, names = ∅)
    (hsource : source = .ok entries) (hnodup : entries.entries.Nodup) :
    Reads source seen (some entries) (some entries) := by
  cases seen with
  | none => exact .untracked
  | some names =>
    obtain rfl := hseen names rfl
    have htracked : Reads source (some ∅) (some entries) (some (entries.rest ∅)) :=
      .tracked hsource hnodup hnodup rfl
    rw [Listing.rest_empty] at htracked
    exact htracked

variable [QubitBudget]

/-- The walker with the same options but no limit, and the given frames. -/
def unlimited (w : LocalDirectoryWalker π) (frames : List (WalkFrame π)) :
    LocalDirectoryWalker π :=
  { w with
    options := { w.options with maxOpenDirectories := none }
    stack := frames
    openDirectories := none }

/-- The frames of the bounded walker `w` have the twins `frames`.  The parameters say what
    reading and reopening a directory give, and which walker this is about. -/
structure Paired (source : π → IoResult Listing) (opens : π → Option DirectoryIdentity → Bool → Prop)
    (base : Path) (symlinkPolicy : LocalSymlinkPolicy) (n extra : Nat)
    (w : LocalDirectoryWalker π) (frames : List (WalkFrame π)) : Prop where
  limit : w.options.maxOpenDirectories = some n
  policy : w.options.reopenPolicy = .reopen
  positive : 0 < n
  base : w.backendRoot = base
  symlinks : w.symlinkPolicy = symlinkPolicy
  accounted : w.Accounted n extra
  twins : List.Forall₂ (Twins source opens w.options.maxSeenNameBytes.isSome) w.stack frames

/-- Every frame remembers its names or has no reader, so that all may be closed. -/
def Closable (w : LocalDirectoryWalker π) : Prop :=
  ∀ frame ∈ w.stack, frame.seen.isSome ∨ frame.reader = none

variable {source : π → IoResult Listing} {opens : π → Option DirectoryIdentity → Bool → Prop}
  {base : Path} {symlinkPolicy : LocalSymlinkPolicy} {n extra : Nat}
  {w w' : LocalDirectoryWalker π} {frames : List (WalkFrame π)}

/-- Budgets and marks do not matter. -/
theorem Paired.same (h : Paired source opens base symlinkPolicy n extra w frames)
    (hsame : Same w w') : Paired source opens base symlinkPolicy n extra w' frames where
  limit := by rw [hsame.options]; exact h.limit
  policy := by rw [hsame.options]; exact h.policy
  positive := h.positive
  base := hsame.base.trans h.base
  symlinks := hsame.symlinks.trans h.symlinks
  accounted := h.accounted.congr hsame.pool hsame.stack
  twins := by rw [hsame.options, hsame.stack]; exact h.twins

theorem Paired.terminate (h : Paired source opens base symlinkPolicy n extra w frames) :
    Paired source opens base symlinkPolicy n extra w.terminate frames :=
  h.same same_terminate

theorem unlimited_afterError (w : LocalDirectoryWalker π) (frames : List (WalkFrame π)) :
    (w.unlimited frames).afterError = w.afterError.unlimited frames := by
  unfold afterError
  show (if w.options.errorPolicy = .failFast then _ else _) = _
  split <;> rfl

theorem Paired.afterError (h : Paired source opens base symlinkPolicy n extra w frames) :
    Paired source opens base symlinkPolicy n extra w.afterError frames :=
  h.same same_afterError

theorem unlimited_chargeEntry (w : LocalDirectoryWalker π) (frames : List (WalkFrame π)) :
    (w.unlimited frames).chargeEntry = w.chargeEntry.map (·.unlimited frames) := by
  unfold chargeEntry
  have hbudget : (w.unlimited frames).entryBudget = w.entryBudget := rfl
  rw [hbudget]
  cases w.entryBudget with
  | none => rfl
  | some budget =>
    dsimp only
    cases budget.tryConsume 1 <;> rfl

theorem unlimited_chargeName (w : LocalDirectoryWalker π) (frames : List (WalkFrame π))
    (measure : NameMeasure)
    (name : String) :
    (w.unlimited frames).chargeName measure name = (w.chargeName measure name).map (·.unlimited frames) := by
  unfold chargeName
  have hbudget : (w.unlimited frames).seenNameBudget = w.seenNameBudget := rfl
  rw [hbudget]
  cases w.seenNameBudget with
  | none => rfl
  | some budget =>
    dsimp only
    cases budget.tryConsume (measure.nameBytes name) <;> rfl

theorem unlimited_charge (w : LocalDirectoryWalker π) (frames : List (WalkFrame π))
    (measure : NameMeasure)
    (name : String) :
    (w.unlimited frames).charge measure name =
      ((w.charge measure name).1.unlimited frames, (w.charge measure name).2) := by
  unfold charge
  rw [unlimited_chargeEntry]
  cases w.chargeEntry with
  | error error => rfl
  | ok w1 =>
    dsimp only [Except.map]
    rw [unlimited_chargeName]
    cases w1.chargeName measure name <;> rfl

theorem Paired.closable_of_descends (h : Paired source opens base symlinkPolicy n extra w frames)
    {directories : Finset DirectoryIdentity} {names : Finset String}
    (hw : w.Sound directories names) (hdescends : w.options.canDescend) : w.Closable := by
  have hreopens : w.options.canReopen := by
    unfold LocalListOptions.canReopen
    rw [hdescends, h.limit, h.policy]
    rfl
  exact fun frame hframe => .inl (hw.remembers hreopens frame hframe)

theorem Paired.closable_of_closed (h : Paired source opens base symlinkPolicy n extra w frames)
    {directories : Finset DirectoryIdentity} {names : Finset String}
    (hw : w.Sound directories names) {frame : WalkFrame π} {below : List (WalkFrame π)}
    (hstack : w.stack = frame :: below) (hclosed : frame.reader = none) : w.Closable := by
  cases below with
  | nil =>
    intro f hf
    rw [hstack] at hf
    rw [List.mem_singleton.mp hf]
    exact .inr hclosed
  | cons next rest =>
    exact h.closable_of_descends hw (hw.depth (by rw [hstack]; exact List.cons_ne_nil _ _))

/-- The bounded walker gets a permit, the other one needs none. -/
theorem Paired.acquire (h : Paired source opens base symlinkPolicy n 0 w frames)
    (hclosable : w.Closable) (path : Path) :
    ∃ w', w.acquireDirectory path = (w', .ok true) ∧
      (w.unlimited frames).acquireDirectory path = (w'.unlimited frames, .ok false) ∧
      Paired source opens base symlinkPolicy n 1 w' frames ∧
      w' = { w with openDirectories := w'.openDirectories, stack := w'.stack } ∧
      (w'.stack = w.stack ∨ w'.stack = w.stack.map WalkFrame.close) := by
  obtain ⟨w', hacquire, haccounted, hrest, hstack⟩ :=
    h.accounted.acquire h.positive h.policy path
  have hunlimited : w'.unlimited frames = w.unlimited frames := by rw [hrest]; rfl
  have htwins : List.Forall₂ (Twins source opens w.options.maxSeenNameBytes.isSome)
      w'.stack frames := by
    rcases hstack with heq | heq <;> rw [heq]
    · exact h.twins
    · exact twins_close h.twins hclosable
  refine ⟨w', hacquire, by rw [hunlimited]; rfl, ?_, hrest, hstack⟩
  rw [hrest] at haccounted ⊢
  exact ⟨h.limit, h.policy, h.positive, h.base, h.symlinks, haccounted, htwins⟩

/-- Nothing changes for the unlimited walker when frames are closed or permits taken. -/
theorem unlimited_eq {w w' : LocalDirectoryWalker π}
    (h : w' = { w with openDirectories := w'.openDirectories, stack := w'.stack })
    (frames : List (WalkFrame π)) : w'.unlimited frames = w.unlimited frames := by
  rw [h]
  rfl

/-- The top frame after an attempt to acquire a permit. -/
theorem top_of_closing {w w' : LocalDirectoryWalker π} {frame : WalkFrame π}
    {below : List (WalkFrame π)} (hstack : w.stack = frame :: below)
    (h : w'.stack = w.stack ∨ w'.stack = w.stack.map WalkFrame.close) :
    ∃ top rest, w'.stack = top :: rest ∧ (top = frame ∨ top = frame.close) := by
  rcases h with h | h
  · exact ⟨frame, below, h.trans hstack, .inl rfl⟩
  · exact ⟨frame.close, below.map WalkFrame.close, by rw [h, hstack]; rfl, .inr rfl⟩

theorem Paired.release (h : Paired source opens base symlinkPolicy n 1 w frames) :
    Paired source opens base symlinkPolicy n 0 (w.releasePermits 1) frames :=
  ⟨h.limit, h.policy, h.positive, h.base, h.symlinks, h.accounted.release, h.twins⟩

/-- The twins of the top frame and of the frames below it. -/
theorem Paired.cons (h : Paired source opens base symlinkPolicy n extra w frames)
    {frame : WalkFrame π} {below : List (WalkFrame π)} (hstack : w.stack = frame :: below) :
    ∃ frame' below', frames = frame' :: below' ∧
      Twins source opens w.options.maxSeenNameBytes.isSome frame frame' ∧
      List.Forall₂ (Twins source opens w.options.maxSeenNameBytes.isSome) below below' := by
  have htwins := h.twins
  rw [hstack] at htwins
  cases htwins with
  | cons hframe hbelow => exact ⟨_, _, rfl, hframe, hbelow⟩

theorem Paired.nil (h : Paired source opens base symlinkPolicy n extra w frames)
    (hstack : w.stack = []) : frames = [] := by
  have htwins := h.twins
  rw [hstack] at htwins
  cases htwins
  rfl

theorem Paired.topIdentity (h : Paired source opens base symlinkPolicy n extra w frames) :
    (w.unlimited frames).topIdentity = w.topIdentity := by
  cases hstack : w.stack with
  | nil =>
    obtain rfl := h.nil hstack
    unfold LocalDirectoryWalker.topIdentity
    rw [hstack]
    rfl
  | cons frame below =>
    obtain ⟨frame', below', rfl, ⟨reader, rfl, -⟩, -⟩ := h.cons hstack
    unfold LocalDirectoryWalker.topIdentity
    rw [hstack]
    rfl

theorem unlimited_leave {w : LocalDirectoryWalker π} {frame frame' : WalkFrame π}
    {below : List (WalkFrame π)} (hstack : w.stack = frame :: below)
    (hidentity : frame'.identity = frame.identity) (below' : List (WalkFrame π)) :
    (w.unlimited (frame' :: below')).leaveDirectory = w.leaveDirectory.unlimited below' := by
  have hunlimited : (w.unlimited (frame' :: below')).stack = frame' :: below' := rfl
  rw [leaveDirectory_cons hunlimited, leaveDirectory_cons hstack, hidentity]
  rfl

theorem Paired.leave (h : Paired source opens base symlinkPolicy n 0 w frames)
    {frame : WalkFrame π} {below : List (WalkFrame π)} (hstack : w.stack = frame :: below) :
    ∃ below', (w.unlimited frames).leaveDirectory = w.leaveDirectory.unlimited below' ∧
      Paired source opens base symlinkPolicy n 0 w.leaveDirectory below' := by
  obtain ⟨frame', below', rfl, ⟨reader, rfl, -⟩, hbelow⟩ := h.cons hstack
  refine ⟨below', unlimited_leave hstack rfl below', ?_⟩
  have haccounted := h.accounted.leave
  have hleave : w.leaveDirectory = { w with
      openDirectories := w.leaveDirectory.openDirectories
      stack := below
      followedDirectories := w.leaveDirectory.followedDirectories } := by
    rw [leaveDirectory_cons hstack]
    rfl
  rw [hleave] at haccounted ⊢
  exact ⟨h.limit, h.policy, h.positive, h.base, h.symlinks, haccounted, hbelow⟩

/-- Both top frames are exchanged for twins. -/
theorem Paired.setTop {frame frame' top' : WalkFrame π} {below below' : List (WalkFrame π)}
    (h : Paired source opens base symlinkPolicy n 0 w (frame' :: below')) (top : WalkFrame π)
    (hstack : w.stack = frame :: below) (hpermit : top.directoryPermit = frame.directoryPermit)
    (hreader : top.reader.isSome = frame.reader.isSome)
    (htwins : Twins source opens w.options.maxSeenNameBytes.isSome top top') :
    (w.unlimited (frame' :: below')).setTop top' = (w.setTop top).unlimited (top' :: below') ∧
      Paired source opens base symlinkPolicy n 0 (w.setTop top) (top' :: below') := by
  obtain ⟨_, _, heq, -, hbelow⟩ := h.cons hstack
  cases heq
  refine ⟨rfl, h.limit, h.policy, h.positive, h.base, h.symlinks,
    h.accounted.setTop top hstack hpermit hreader, ?_⟩
  rw [setTop_stack hstack]
  exact .cons htwins hbelow

theorem Paired.enter {child child' : WalkFrame π}
    (h : Paired source opens base symlinkPolicy n extra w frames) (identity : DirectoryIdentity)
    (haccounted : (w.enterDirectory child identity).Accounted n 0)
    (htwins : Twins source opens w.options.maxSeenNameBytes.isSome child child') :
    (w.unlimited frames).enterDirectory child' identity =
        (w.enterDirectory child identity).unlimited (child' :: frames) ∧
      Paired source opens base symlinkPolicy n 0 (w.enterDirectory child identity)
        (child' :: frames) :=
  ⟨rfl, h.limit, h.policy, h.positive, h.base, h.symlinks, haccounted, .cons htwins h.twins⟩

theorem Paired.openTop {frame frame' : WalkFrame π} {below below' : List (WalkFrame π)}
    {entries : Listing} (h : Paired source opens base symlinkPolicy n 1 w (frame' :: below'))
    (hstack : w.stack = frame :: below) (hclosed : frame.reader = none) {top' : WalkFrame π}
    (htwins : Twins source opens w.options.maxSeenNameBytes.isSome
      { frame with reader := some entries, directoryPermit := true } top') :
    (w.openTop entries true).unlimited (top' :: below') = w.unlimited (top' :: below') ∧
      Paired source opens base symlinkPolicy n 0 (w.openTop entries true) (top' :: below') := by
  obtain ⟨_, _, heq, -, hbelow⟩ := h.cons hstack
  cases heq
  have haccounted := h.accounted.openTop hstack hclosed entries
  have hopen : w.openTop entries true = { w with
      stack := { frame with reader := some entries, directoryPermit := true } :: below } := by
    unfold LocalDirectoryWalker.openTop
    rw [hstack]
  rw [hopen] at haccounted ⊢
  exact ⟨rfl, h.limit, h.policy, h.positive, h.base, h.symlinks, haccounted,
    .cons htwins hbelow⟩

/-! ## 4. Turns of related walkers -/

/-- Both top readers have reported their failure and are at the end. -/
def Drained (source : π → IoResult Listing) (opens : π → Option DirectoryIdentity → Bool → Prop)
    (base : Path) (symlinkPolicy : LocalSymlinkPolicy) (n : Nat) (w : LocalDirectoryWalker π)
    (frames : List (WalkFrame π)) : Prop :=
  ∃ frame below frame' below', w.stack = frame :: below ∧ frames = frame' :: below' ∧
    frame.reader = some ⟨[], none⟩ ∧ frame'.reader = some ⟨[], none⟩ ∧
    frame'.identity = frame.identity ∧ w.Accounted n 0 ∧
    Paired source opens base symlinkPolicy n 0 w.leaveDirectory below'

/-- `v` is the unlimited walker for `w`. -/
def Alike (source : π → IoResult Listing) (opens : π → Option DirectoryIdentity → Bool → Prop)
    (base : Path) (symlinkPolicy : LocalSymlinkPolicy) (n : Nat)
    (w v : LocalDirectoryWalker π) : Prop :=
  ∃ frames, v = w.unlimited frames ∧
    (Paired source opens base symlinkPolicy n 0 w frames ∨
      Drained source opens base symlinkPolicy n w frames)

theorem Paired.alike (h : Paired source opens base symlinkPolicy n 0 w frames) :
    Alike source opens base symlinkPolicy n w (w.unlimited frames) := ⟨frames, rfl, .inl h⟩

theorem Alike.accounted {v : LocalDirectoryWalker π}
    (h : Alike source opens base symlinkPolicy n w v) : w.Accounted n 0 := by
  obtain ⟨frames, -, hpaired | ⟨_, _, _, _, -, -, -, -, -, haccounted, -⟩⟩ := h
  · exact hpaired.accounted
  · exact haccounted

theorem Alike.terminate {v : LocalDirectoryWalker π}
    (h : Alike source opens base symlinkPolicy n w v) :
    Alike source opens base symlinkPolicy n w.terminate v.terminate := by
  obtain ⟨frames, rfl, hpaired | ⟨frame, below, frame', below', hstack, rfl, hreader, hreader',
    hidentity, haccounted, hpaired⟩⟩ := h
  · exact hpaired.terminate.alike
  · refine ⟨frame' :: below', rfl, .inr ⟨frame, below, frame', below', hstack, rfl, hreader,
      hreader', hidentity, haccounted.congr rfl rfl, ?_⟩⟩
    have hleave : w.terminate.leaveDirectory = w.leaveDirectory.terminate := by
      have hterminated : w.terminate.stack = frame :: below := hstack
      rw [leaveDirectory_cons hterminated, leaveDirectory_cons hstack]
      rfl
    rw [hleave]
    exact hpaired.terminate

theorem Alike.afterError {v : LocalDirectoryWalker π}
    (h : Alike source opens base symlinkPolicy n w v) :
    Alike source opens base symlinkPolicy n w.afterError v.afterError := by
  have hpolicy : v.options.errorPolicy = w.options.errorPolicy := by
    obtain ⟨frames, rfl, -⟩ := h
    rfl
  unfold LocalDirectoryWalker.afterError
  rw [hpolicy]
  split
  · exact h.terminate
  · exact h

end LocalDirectoryWalker

end LocalFiles.Walk
