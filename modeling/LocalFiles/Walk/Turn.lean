import Mathlib.Data.Finset.Card
import Mathlib.Data.Finset.Union
import LocalFiles.Walk.Walker

/-!
# Turn — what a turn may do to a walker, and why the turns end

`Turn` lists the effects a turn of either walker can have on the frames.  Below it are proved
the invariant `Sound`, which keeps the followed directories equal to the identities on the
stack, and a rank that falls with every turn.
-/

namespace LocalFiles.Walk

variable {π : Type}

/-! ## 1. Finite graphs -/

/-- A finite graph of directories, with the names each one may list. -/
structure DirectoryGraph where
  directories : Finset DirectoryIdentity
  names : DirectoryIdentity → Finset String

namespace DirectoryGraph

variable (graph : DirectoryGraph)

def allNames : Finset String := graph.directories.biUnion graph.names

/-- The listing gives names of one directory of the graph, each of them once. -/
def Lists (listing : Listing) : Prop :=
  ∃ d ∈ graph.directories, listing.entries.Nodup ∧ ∀ name ∈ listing.entries, name ∈ graph.names d

end DirectoryGraph

/-- The names a reader gives lie in `names`, and there are no more than `names` has. -/
structure Listing.Within (names : Finset String) (listing : Listing) : Prop where
  mem : ∀ name ∈ listing.entries, name ∈ names
  length : listing.entries.length ≤ names.card

theorem DirectoryGraph.Lists.within {graph : DirectoryGraph} {listing : Listing}
    (h : graph.Lists listing) : listing.Within graph.allNames := by
  obtain ⟨d, hd, hnodup, hnames⟩ := h
  have hmem : ∀ name ∈ listing.entries, name ∈ graph.allNames := fun name hname =>
    Finset.mem_biUnion.mpr ⟨d, hd, hnames name hname⟩
  refine ⟨hmem, ?_⟩
  rw [← List.toFinset_card_of_nodup hnodup]
  apply Finset.card_le_card
  intro name hname
  exact hmem name (List.mem_toFinset.mp hname)

theorem Listing.Within.tail {names : Finset String} {name : String} {entries : List String}
    {failure failure' : Option IoError} (h : Within names ⟨name :: entries, failure⟩) :
    Within names ⟨entries, failure'⟩ where
  mem n hn := h.mem n (List.mem_cons_of_mem _ hn)
  length := by
    have hlength := h.length
    simp only [List.length_cons] at hlength
    show entries.length ≤ names.card
    omega

/-! ## 2. The invariant -/

namespace LocalDirectoryWalker

theorem freshSeen_isSome (options : LocalListOptions) :
    (freshSeen options).isSome = options.needsSeenNames := by
  unfold freshSeen
  split
  · next h => rw [h]; rfl
  · next h => rw [Bool.eq_false_iff.mpr h]; rfl

variable [QubitBudget]

/-- The followed directories are the identities on the stack, and these are distinct. -/
structure FollowsStack (w : LocalDirectoryWalker π) : Prop where
  identified : ∀ frame ∈ w.stack, frame.identity.isSome
  distinct : (w.stack.map (·.identity)).Nodup
  followed : ∀ identity,
    identity ∈ w.followedDirectories ↔ some identity ∈ w.stack.map (·.identity)

structure Sound (directories : Finset DirectoryIdentity) (names : Finset String)
    (w : LocalDirectoryWalker π) : Prop where
  follows : w.FollowsStack
  known : ∀ identity ∈ w.followedDirectories, identity ∈ directories
  seen : ∀ frame ∈ w.stack, frame.seen.isSome = w.options.needsSeenNames
  level : ∀ frame ∈ w.stack, 0 < frame.entryDepth
  readers : ∀ frame ∈ w.stack, ∀ listing ∈ frame.reader, listing.Within names
  pool : w.openDirectories.isSome = w.options.maxOpenDirectories.isSome
  depth : w.stack.tail ≠ [] → w.options.canDescend

end LocalDirectoryWalker

/-! ## 3. Turns -/

/-- The frames are as before, or all of them were closed and that can happen. -/
def Kept (closes : Prop) (frames frames' : List (WalkFrame π)) : Prop :=
  frames' = frames ∨ closes ∧ frames' = frames.map WalkFrame.close

theorem Kept.refl (closes : Prop) (frames : List (WalkFrame π)) : Kept closes frames frames :=
  .inl rfl

theorem Kept.mono {c c' : Prop} {frames frames' : List (WalkFrame π)} (hc : c → c')
    (h : Kept c frames frames') : Kept c' frames frames' := by
  rcases h with h | ⟨hclose, h⟩
  · exact .inl h
  · exact .inr ⟨hc hclose, h⟩

theorem Kept.identities {c : Prop} {frames frames' : List (WalkFrame π)}
    (h : Kept c frames frames') : frames'.map (·.identity) = frames.map (·.identity) := by
  rcases h with rfl | ⟨-, rfl⟩
  · rfl
  · rw [List.map_map]
    rfl

theorem Kept.length {c : Prop} {frames frames' : List (WalkFrame π)}
    (h : Kept c frames frames') : frames'.length = frames.length := by
  simpa using congrArg List.length h.identities

/-- Every frame kept comes from one with the same names seen; its reader is the old one, if it
    has one at all. -/
theorem Kept.mem {c : Prop} {frames frames' : List (WalkFrame π)} (h : Kept c frames frames')
    {frame : WalkFrame π} (hmem : frame ∈ frames') :
    ∃ old ∈ frames, frame.seen = old.seen ∧ frame.entryDepth = old.entryDepth ∧
      ∀ listing ∈ frame.reader, listing ∈ old.reader := by
  rcases h with rfl | ⟨-, rfl⟩
  · exact ⟨frame, hmem, rfl, rfl, fun _ h => h⟩
  · obtain ⟨old, hold, rfl⟩ := List.mem_map.mp hmem
    exact ⟨old, hold, rfl, rfl, fun _ h => by cases h⟩

theorem Kept.cons {c : Prop} {frame : WalkFrame π} {below frames' : List (WalkFrame π)}
    (h : Kept c (frame :: below) frames') :
    ∃ top below', frames' = top :: below' ∧ (top = frame ∨ top = frame.close) ∧
      Kept c below below' := by
  rcases h with rfl | ⟨hc, rfl⟩
  · exact ⟨frame, below, rfl, .inl rfl, .refl c below⟩
  · exact ⟨frame.close, below.map WalkFrame.close, rfl, .inr rfl, .inr ⟨hc, rfl⟩⟩

section Turns

variable [QubitBudget]

/-- What stays fixed while a walker runs. -/
structure Config (w w' : LocalDirectoryWalker π) : Prop where
  options : w'.options = w.options
  pool : w'.openDirectories.isSome = w.openDirectories.isSome

/-- A name was taken: its entry is dealt with, and its directory may be entered. -/
inductive Visited (directories : Finset DirectoryIdentity) (names : Finset String)
    (w w' : LocalDirectoryWalker π) : Prop
  | passed (config : Config w w') (followed : w'.followedDirectories = w.followedDirectories)
      (stack : Kept w.options.canReopen w.stack w'.stack)
  | entered {child : WalkFrame π} {frames : List (WalkFrame π)} {identity : DirectoryIdentity}
      (config : Config w w')
      (followed : w'.followedDirectories = insert identity w.followedDirectories)
      (stack : w'.stack = child :: frames) (below : Kept w.options.canReopen w.stack frames)
      (identified : child.identity = some identity) (fresh : identity ∉ w.followedDirectories)
      (known : identity ∈ directories)
      (seen : child.seen = LocalDirectoryWalker.freshSeen w.options)
      (level : 0 < child.entryDepth)
      (reader : ∀ listing ∈ child.reader, listing.Within names)
      (descends : w.options.canDescend)

inductive Turn (directories : Finset DirectoryIdentity) (names : Finset String)
    (w w' : LocalDirectoryWalker π) : Prop
  | ended (config : Config w w') (followed : w'.followedDirectories = w.followedDirectories)
      (stack : Kept True w.stack w'.stack) (terminated : w'.terminated)
  | opened {frame : WalkFrame π} {below below' : List (WalkFrame π)} {listing : Listing}
      {permit : Bool} (config : Config w w')
      (followed : w'.followedDirectories = w.followedDirectories)
      (stack : w.stack = frame :: below) (closed : frame.reader = none)
      (stack' : w'.stack =
        { frame with reader := some listing, directoryPermit := permit } :: below')
      (kept : Kept w.options.canReopen below below') (within : listing.Within names)
  | left {frame : WalkFrame π} {below : List (WalkFrame π)} {identity : DirectoryIdentity}
      (config : Config w w') (stack : w.stack = frame :: below)
      (identified : frame.identity = some identity)
      (followed : w'.followedDirectories = w.followedDirectories.erase identity)
      (kept : Kept w.options.canReopen below w'.stack)
  | skipped {frame : WalkFrame π} {below : List (WalkFrame π)} {name : String}
      {entries : List String} {failure : Option IoError} (config : Config w w')
      (followed : w'.followedDirectories = w.followedDirectories)
      (stack : w.stack = frame :: below) (reader : frame.reader = some ⟨name :: entries, failure⟩)
      (seen : frame.hasSeen name)
      (stack' : w'.stack = { frame with reader := some ⟨entries, failure⟩ } :: below)
  | failed {frame : WalkFrame π} {below : List (WalkFrame π)} {error : IoError}
      (config : Config w w') (followed : w'.followedDirectories = w.followedDirectories)
      (stack : w.stack = frame :: below) (reader : frame.reader = some ⟨[], some error⟩)
      (stack' : w'.stack = { frame with reader := some ⟨[], none⟩ } :: below)
  | took {frame : WalkFrame π} {below : List (WalkFrame π)} {name : String}
      {entries : List String} {failure : Option IoError} (stack : w.stack = frame :: below)
      (reader : frame.reader = some ⟨name :: entries, failure⟩) (fresh : ¬ frame.hasSeen name)
      (visited : Visited directories names
        (w.setTop ({ frame with reader := some ⟨entries, failure⟩ }.remember name)) w')

/-! ## 4. Turns keep the invariant -/

variable {directories : Finset DirectoryIdentity} {names : Finset String}
  {w w' : LocalDirectoryWalker π}

theorem Config.refl (w : LocalDirectoryWalker π) : Config w w := ⟨rfl, rfl⟩

theorem Config.trans {w'' : LocalDirectoryWalker π} (h : Config w w') (h' : Config w' w'') :
    Config w w'' :=
  ⟨h'.options.trans h.options, h'.pool.trans h.pool⟩

namespace LocalDirectoryWalker

theorem FollowsStack.of_identities (h : w.FollowsStack)
    (hstack : w'.stack.map (·.identity) = w.stack.map (·.identity))
    (hfollowed : w'.followedDirectories = w.followedDirectories) : w'.FollowsStack where
  identified := by
    have hall : ∀ identity ∈ w'.stack.map (·.identity), identity.isSome := by
      rw [hstack]
      simpa using h.identified
    simpa using hall
  distinct := hstack ▸ h.distinct
  followed identity := by rw [hstack, hfollowed, h.followed]

theorem FollowsStack.push {child : WalkFrame π} {identity : DirectoryIdentity}
    (h : w.FollowsStack) (hchild : child.identity = some identity)
    (hfresh : identity ∉ w.followedDirectories)
    (hstack : w'.stack.map (·.identity) = child.identity :: w.stack.map (·.identity))
    (hfollowed : w'.followedDirectories = insert identity w.followedDirectories) :
    w'.FollowsStack where
  identified := by
    have hall : ∀ identity ∈ w'.stack.map (·.identity), identity.isSome := by
      rw [hstack]
      simpa [hchild] using h.identified
    simpa using hall
  distinct := by
    rw [hstack, hchild, List.nodup_cons]
    exact ⟨fun hmem => hfresh ((h.followed identity).mpr hmem), h.distinct⟩
  followed other := by
    rw [hstack, hchild, hfollowed, Finset.mem_insert, h.followed, List.mem_cons,
      Option.some.injEq]

theorem FollowsStack.pop {frame : WalkFrame π} {below : List (WalkFrame π)}
    {identity : DirectoryIdentity} (h : w.FollowsStack) (htop : w.stack = frame :: below)
    (hidentity : frame.identity = some identity)
    (hstack : w'.stack.map (·.identity) = below.map (·.identity))
    (hfollowed : w'.followedDirectories = w.followedDirectories.erase identity) :
    w'.FollowsStack := by
  have hdistinct := h.distinct
  rw [htop, List.map_cons, List.nodup_cons] at hdistinct
  refine ⟨?_, hstack ▸ hdistinct.2, ?_⟩
  · have hall : ∀ identity ∈ w'.stack.map (·.identity), identity.isSome := by
      rw [hstack]
      intro identity hmem
      obtain ⟨old, hold, rfl⟩ := List.mem_map.mp hmem
      exact h.identified old (htop ▸ List.mem_cons_of_mem _ hold)
    simpa using hall
  · intro other
    rw [hfollowed, Finset.mem_erase, h.followed, htop, hstack, List.map_cons, List.mem_cons,
      hidentity, Option.some.injEq]
    constructor
    · rintro ⟨hne, heq | hmem⟩
      · exact absurd heq hne
      · exact hmem
    · intro hmem
      refine ⟨?_, .inr hmem⟩
      rintro rfl
      exact hdistinct.1 (hidentity ▸ hmem)

/-- The stack is no higher than there are directories. -/
theorem Sound.stack_length (h : w.Sound directories names) :
    w.stack.length ≤ directories.card := by
  have hall : ∀ identity ∈ w.stack.map (·.identity), identity ∈ directories.image some := by
    intro identity hmem
    obtain ⟨frame, hframe, rfl⟩ := List.mem_map.mp hmem
    obtain ⟨value, hvalue⟩ := Option.isSome_iff_exists.mp (h.follows.identified frame hframe)
    rw [hvalue] at hmem ⊢
    exact Finset.mem_image_of_mem _ (h.known value ((h.follows.followed value).mpr hmem))
  calc w.stack.length = (w.stack.map (·.identity)).toFinset.card := by
        rw [List.toFinset_card_of_nodup h.follows.distinct, List.length_map]
    _ ≤ (directories.image some).card := Finset.card_le_card fun identity hmem =>
        hall identity (List.mem_toFinset.mp hmem)
    _ ≤ directories.card := Finset.card_image_le

/-- Reading from the top frame changes neither the identities nor the seen sets' presence. -/
theorem Sound.setTop {frame frame' : WalkFrame π} {below : List (WalkFrame π)}
    (h : w.Sound directories names) (htop : w.stack = frame :: below)
    (hidentity : frame'.identity = frame.identity) (hseen : frame'.seen.isSome = frame.seen.isSome)
    (hlevel : frame'.entryDepth = frame.entryDepth)
    (hreader : ∀ listing ∈ frame'.reader, listing.Within names) :
    (w.setTop frame').Sound directories names := by
  have hstack := setTop_stack htop frame'
  refine ⟨h.follows.of_identities ?_ rfl, h.known, ?_, ?_, ?_, h.pool, ?_⟩
  · rw [hstack, htop, List.map_cons, List.map_cons, hidentity]
  · intro f hf
    rw [hstack] at hf
    rcases List.mem_cons.mp hf with rfl | hf
    · rw [hseen]
      exact h.seen frame (htop ▸ List.mem_cons_self)
    · exact h.seen f (htop ▸ List.mem_cons_of_mem _ hf)
  · intro f hf
    rw [hstack] at hf
    rcases List.mem_cons.mp hf with rfl | hf
    · rw [hlevel]
      exact h.level frame (htop ▸ List.mem_cons_self)
    · exact h.level f (htop ▸ List.mem_cons_of_mem _ hf)
  · intro f hf
    rw [hstack] at hf
    rcases List.mem_cons.mp hf with rfl | hf
    · exact hreader
    · exact h.readers f (htop ▸ List.mem_cons_of_mem _ hf)
  · intro hne
    exact h.depth (by rw [htop]; rw [hstack] at hne; exact hne)

theorem Sound.kept (h : w.Sound directories names) {c : Prop} (hconfig : Config w w')
    (hfollowed : w'.followedDirectories = w.followedDirectories)
    (hkept : Kept c w.stack w'.stack) : w'.Sound directories names := by
  refine ⟨h.follows.of_identities hkept.identities hfollowed, hfollowed ▸ h.known, ?_, ?_, ?_, ?_,
    ?_⟩
  · intro frame hframe
    obtain ⟨old, hold, hseen, -⟩ := hkept.mem hframe
    rw [hseen, hconfig.options]
    exact h.seen old hold
  · intro frame hframe
    obtain ⟨old, hold, -, hlevel, -⟩ := hkept.mem hframe
    exact hlevel ▸ h.level old hold
  · intro frame hframe listing hlisting
    obtain ⟨old, hold, -, -, hreader⟩ := hkept.mem hframe
    exact h.readers old hold listing (hreader listing hlisting)
  · rw [hconfig.pool, hconfig.options]
    exact h.pool
  · intro hne
    rw [hconfig.options]
    apply h.depth
    intro htail
    have hlength := hkept.length
    apply hne
    have : w'.stack.tail.length = 0 := by
      rw [List.length_tail, hlength, ← List.length_tail, htail]
      rfl
    exact List.eq_nil_of_length_eq_zero this

end LocalDirectoryWalker

open LocalDirectoryWalker

theorem Visited.sound (hw : w.Sound directories names) (h : Visited directories names w w') :
    w'.Sound directories names := by
  cases h with
  | passed hconfig hfollowed hstack => exact hw.kept hconfig hfollowed hstack
  | @entered child frames identity hconfig hfollowed hstack hbelow hidentity hfresh hknown hseen
      hlevel hreader hdescends =>
    refine ⟨hw.follows.push hidentity hfresh ?_ hfollowed, ?_, ?_, ?_, ?_, ?_, ?_⟩
    · rw [hstack, List.map_cons, hbelow.identities]
    · intro other hother
      rw [hfollowed, Finset.mem_insert] at hother
      rcases hother with rfl | hother
      · exact hknown
      · exact hw.known other hother
    · intro frame hframe
      rw [hconfig.options]
      rw [hstack] at hframe
      rcases List.mem_cons.mp hframe with rfl | hframe
      · rw [hseen, freshSeen_isSome]
      · obtain ⟨old, hold, hsame, -⟩ := hbelow.mem hframe
        rw [hsame]
        exact hw.seen old hold
    · intro frame hframe
      rw [hstack] at hframe
      rcases List.mem_cons.mp hframe with rfl | hframe
      · exact hlevel
      · obtain ⟨old, hold, -, hsame, -⟩ := hbelow.mem hframe
        exact hsame ▸ hw.level old hold
    · intro frame hframe
      rw [hstack] at hframe
      rcases List.mem_cons.mp hframe with rfl | hframe
      · exact hreader
      · obtain ⟨old, hold, -, -, hsame⟩ := hbelow.mem hframe
        exact fun listing hlisting => hw.readers old hold listing (hsame listing hlisting)
    · rw [hconfig.pool, hconfig.options]
      exact hw.pool
    · rw [hconfig.options]
      exact fun _ => hdescends

/-- The lower frames, with the top one exchanged for one of the same directory. -/
theorem LocalDirectoryWalker.Sound.top {frame frame' : WalkFrame π} {below below' : List (WalkFrame π)}
    {c : Prop} (hw : w.Sound directories names) (hconfig : Config w w')
    (hfollowed : w'.followedDirectories = w.followedDirectories)
    (hstack : w.stack = frame :: below) (hstack' : w'.stack = frame' :: below')
    (hkept : Kept c below below') (hidentity : frame'.identity = frame.identity)
    (hseen : frame'.seen = frame.seen) (hlevel : frame'.entryDepth = frame.entryDepth)
    (hreader : ∀ listing ∈ frame'.reader, listing.Within names) : w'.Sound directories names := by
  have htop := hw.setTop hstack hidentity (congrArg Option.isSome hseen) hlevel hreader
  refine ⟨hw.follows.of_identities ?_ hfollowed, hfollowed ▸ hw.known, ?_, ?_, ?_, ?_, ?_⟩
  · rw [hstack, hstack', List.map_cons, List.map_cons, hidentity, hkept.identities]
  · intro f hf
    rw [hconfig.options]
    rw [hstack'] at hf
    rcases List.mem_cons.mp hf with rfl | hf
    · exact htop.seen f List.mem_cons_self
    · obtain ⟨old, hold, hsame, -⟩ := hkept.mem hf
      rw [hsame]
      exact hw.seen old (hstack ▸ List.mem_cons_of_mem _ hold)
  · intro f hf
    rw [hstack'] at hf
    rcases List.mem_cons.mp hf with rfl | hf
    · exact htop.level f List.mem_cons_self
    · obtain ⟨old, hold, -, hsame, -⟩ := hkept.mem hf
      exact hsame ▸ hw.level old (hstack ▸ List.mem_cons_of_mem _ hold)
  · intro f hf
    rw [hstack'] at hf
    rcases List.mem_cons.mp hf with rfl | hf
    · exact hreader
    · obtain ⟨old, hold, -, -, hsame⟩ := hkept.mem hf
      intro listing hlisting
      exact hw.readers old (hstack ▸ List.mem_cons_of_mem _ hold) listing (hsame listing hlisting)
  · rw [hconfig.pool, hconfig.options]
    exact hw.pool
  · intro hne
    rw [hconfig.options]
    apply hw.depth
    intro htail
    rw [hstack] at htail
    obtain rfl : below = [] := htail
    have hlength : below' = [] := List.eq_nil_of_length_eq_zero hkept.length
    exact hne (by rw [hstack', hlength]; rfl)

/-- The frame a name was taken from. -/
theorem LocalDirectoryWalker.Sound.take {frame : WalkFrame π} {below : List (WalkFrame π)}
    {name : String} {entries : List String} {failure : Option IoError}
    (hw : w.Sound directories names) (hstack : w.stack = frame :: below)
    (hreader : frame.reader = some ⟨name :: entries, failure⟩) :
    (w.setTop ({ frame with reader := some ⟨entries, failure⟩ }.remember name)).Sound
      directories names := by
  have hwithin := hw.readers frame (hstack ▸ List.mem_cons_self) _ hreader
  refine hw.setTop hstack rfl ?_ rfl ?_
  · show (frame.seen.map _).isSome = _
    rw [Option.isSome_map]
  · rintro listing ⟨⟩
    exact hwithin.tail

theorem Turn.sound (hw : w.Sound directories names) (h : Turn directories names w w') :
    w'.Sound directories names := by
  cases h with
  | ended hconfig hfollowed hstack => exact hw.kept hconfig hfollowed hstack
  | opened hconfig hfollowed hstack _ hstack' hkept hwithin =>
    apply hw.top hconfig hfollowed hstack hstack' hkept rfl rfl rfl
    rintro _ ⟨⟩
    exact hwithin
  | @left frame below identity hconfig hstack hidentity hfollowed hkept =>
    refine ⟨hw.follows.pop hstack hidentity hkept.identities hfollowed, ?_, ?_, ?_, ?_, ?_, ?_⟩
    · intro other hother
      rw [hfollowed] at hother
      exact hw.known other (Finset.mem_of_mem_erase hother)
    · intro f hf
      obtain ⟨old, hold, hsame, -⟩ := hkept.mem hf
      rw [hsame, hconfig.options]
      exact hw.seen old (hstack ▸ List.mem_cons_of_mem _ hold)
    · intro f hf
      obtain ⟨old, hold, -, hsame, -⟩ := hkept.mem hf
      exact hsame ▸ hw.level old (hstack ▸ List.mem_cons_of_mem _ hold)
    · intro f hf listing hlisting
      obtain ⟨old, hold, -, -, hsame⟩ := hkept.mem hf
      exact hw.readers old (hstack ▸ List.mem_cons_of_mem _ hold) listing (hsame listing hlisting)
    · rw [hconfig.pool, hconfig.options]
      exact hw.pool
    · intro hne
      rw [hconfig.options]
      apply hw.depth
      rw [hstack]
      show below ≠ []
      intro hbelow
      have hnil := List.eq_nil_of_length_eq_zero (hkept.length.trans (by rw [hbelow]; rfl))
      exact hne (by rw [hnil]; rfl)
  | @skipped frame below name entries failure hconfig hfollowed hstack hreader _ hstack' =>
    have hwithin := hw.readers frame (hstack ▸ List.mem_cons_self) _ hreader
    apply hw.top hconfig hfollowed hstack hstack' (Kept.refl True below) rfl rfl rfl
    rintro _ ⟨⟩
    exact hwithin.tail
  | failed hconfig hfollowed hstack _ hstack' =>
    apply hw.top hconfig hfollowed hstack hstack' (Kept.refl True _) rfl rfl rfl
    rintro _ ⟨⟩
    exact ⟨by simp, by simp⟩
  | took hstack hreader _ hvisited => exact hvisited.sound (hw.take hstack hreader)

end Turns

/-! ## 5. The rank -/

section Rank

variable (names : Finset String)

/-- The names a frame can still take. -/
def WalkFrame.unread (frame : WalkFrame π) : Nat :=
  match frame.seen with
  | some seen => (names \ seen).card
  | none =>
    match frame.reader with
    | some listing => listing.entries.length
    | none => names.card

/-- The turns a frame can spend before it takes its next name. -/
def WalkFrame.waiting (frame : WalkFrame π) : Nat :=
  match frame.reader with
  | some listing => listing.entries.length + listing.failure.isSome.toNat + 1
  | none => names.card + 3

/-- The turns below one frame of `levels` levels that has not been read yet. -/
def cost : Nat → Nat
  | 0 => 0
  | levels + 1 => names.card * (cost levels + names.card + 4) + (names.card + 3)

/-- The turns one name is worth: the directory it leads to, and reading its own one again. -/
def worth (levels : Nat) : Nat := cost names levels + names.card + 4

/-- The rank of the frames under the top one, which may have to be opened again. -/
def rankBelow (depth : Nat) : List (WalkFrame π) → Nat
  | [] => 0
  | frame :: below =>
    frame.unread names * worth names (depth - (below.length + 1)) + (names.card + 3) +
      rankBelow depth below

def rankStack (depth : Nat) : List (WalkFrame π) → Nat
  | [] => 0
  | frame :: below =>
    frame.unread names * worth names (depth - (below.length + 1)) + frame.waiting names +
      rankBelow names depth below

variable {names}

theorem cost_succ (levels : Nat) :
    cost names (levels + 1) = names.card * worth names levels + (names.card + 3) := rfl

theorem rankBelow_cons (depth : Nat) (frame : WalkFrame π) (below : List (WalkFrame π)) :
    rankBelow names depth (frame :: below) =
      frame.unread names * worth names (depth - (below.length + 1)) + (names.card + 3) +
        rankBelow names depth below := rfl

theorem rankStack_cons (depth : Nat) (frame : WalkFrame π) (below : List (WalkFrame π)) :
    rankStack names depth (frame :: below) =
      frame.unread names * worth names (depth - (below.length + 1)) + frame.waiting names +
        rankBelow names depth below := rfl

theorem WalkFrame.waiting_le {frame : WalkFrame π}
    (h : ∀ listing ∈ frame.reader, listing.Within names) :
    frame.waiting names ≤ names.card + 3 := by
  unfold waiting
  cases hreader : frame.reader with
  | none => exact Nat.le_refl _
  | some listing =>
    have hlength := (h listing hreader).length
    have hfailure := Bool.toNat_le listing.failure.isSome
    show listing.entries.length + listing.failure.isSome.toNat + 1 ≤ _
    omega

theorem WalkFrame.waiting_pos (names : Finset String) (frame : WalkFrame π) :
    0 < frame.waiting names := by
  unfold waiting
  split <;> omega

theorem WalkFrame.unread_le {frame : WalkFrame π}
    (h : ∀ listing ∈ frame.reader, listing.Within names) :
    frame.unread names ≤ names.card := by
  unfold unread
  split
  · exact Finset.card_le_card Finset.sdiff_subset
  · split
    · next listing hreader => exact (h listing hreader).length
    · exact Nat.le_refl _

/-- Closing a frame that remembers its names forgets nothing. -/
theorem WalkFrame.unread_close {frame : WalkFrame π} (h : frame.seen.isSome) :
    frame.close.unread names = frame.unread names := by
  obtain ⟨seen, hseen⟩ := Option.isSome_iff_exists.mp h
  have hclose : frame.close.seen = some seen := hseen
  unfold unread
  rw [hseen, hclose]

/-- Taking a new name leaves one name less. -/
theorem WalkFrame.unread_remember {frame : WalkFrame π} {name : String} {entries : List String}
    {failure : Option IoError} (hreader : frame.reader = some ⟨name :: entries, failure⟩)
    (hmem : name ∈ names) (hfresh : ¬ frame.hasSeen name) :
    ({ frame with reader := some ⟨entries, failure⟩ }.remember name).unread names + 1 =
      frame.unread names := by
  unfold unread remember
  cases hseen : frame.seen with
  | none =>
    rw [hreader]
    show entries.length + 1 = (name :: entries).length
    rw [List.length_cons]
  | some seen =>
    show (names \ insert name seen).card + 1 = (names \ seen).card
    have hnot : name ∉ seen := by
      intro hin
      apply hfresh
      unfold hasSeen
      rw [hseen]
      simpa using hin
    rw [Finset.sdiff_insert]
    exact Finset.card_erase_add_one (Finset.mem_sdiff.mpr ⟨hmem, hnot⟩)

theorem rankStack_le (depth : Nat) {frames : List (WalkFrame π)}
    (h : ∀ frame ∈ frames, ∀ listing ∈ frame.reader, listing.Within names) :
    rankStack names depth frames ≤ rankBelow names depth frames := by
  cases frames with
  | nil => exact Nat.le_refl _
  | cons frame below =>
    have hwaiting := WalkFrame.waiting_le (h frame List.mem_cons_self)
    rw [rankStack_cons, rankBelow_cons]
    omega

theorem rankBelow_kept {c : Prop} (names : Finset String) (depth : Nat) {frames frames' : List (WalkFrame π)}
    (h : Kept c frames frames') (hseen : c → ∀ frame ∈ frames, frame.seen.isSome) :
    rankBelow names depth frames' = rankBelow names depth frames := by
  rcases h with rfl | ⟨hc, rfl⟩
  · rfl
  · have hall := hseen hc
    clear hseen
    induction frames with
    | nil => rfl
    | cons frame below ih =>
      have hbelow := ih fun f hf => hall f (List.mem_cons_of_mem _ hf)
      show frame.close.unread names * worth names (depth - ((below.map _).length + 1)) +
        (names.card + 3) + rankBelow names depth (below.map _) = _
      rw [hbelow, List.length_map, WalkFrame.unread_close (hall frame List.mem_cons_self)]
      rfl

/-- What the frames below a top frame forget does not count either. -/
theorem rankStack_kept {c : Prop} (names : Finset String) (depth : Nat) (frame : WalkFrame π)
    {frames frames' : List (WalkFrame π)} (h : Kept c frames frames')
    (hseen : c → ∀ frame ∈ frames, frame.seen.isSome) :
    rankStack names depth (frame :: frames') = rankStack names depth (frame :: frames) := by
  rw [rankStack_cons, rankStack_cons, h.length, rankBelow_kept names depth h hseen]

/-- Opening turns the names of a directory from unread ones into entries of its reader. -/
theorem rankStack_opened (depth : Nat) {frame : WalkFrame π} {listing : Listing}
    (below : List (WalkFrame π)) (hclosed : frame.reader = none) (hwithin : listing.Within names)
    (permit : Bool) :
    rankStack names depth
        ({ frame with reader := some listing, directoryPermit := permit } :: below) <
      rankStack names depth (frame :: below) := by
  have hunread : WalkFrame.unread names
      { frame with reader := some listing, directoryPermit := permit } ≤
      frame.unread names := by
    unfold WalkFrame.unread
    cases hseen : frame.seen with
    | some seen => exact Nat.le_refl _
    | none => rw [hclosed]; exact hwithin.length
  have hmul := Nat.mul_le_mul_right (worth names (depth - (below.length + 1))) hunread
  have hwaiting : frame.waiting names = names.card + 3 := by
    unfold WalkFrame.waiting
    rw [hclosed]
  have hopen : WalkFrame.waiting names
      { frame with reader := some listing, directoryPermit := permit } =
      listing.entries.length + listing.failure.isSome.toNat + 1 := rfl
  have hlength := hwithin.length
  have hfailure := Bool.toNat_le listing.failure.isSome
  rw [rankStack_cons, rankStack_cons]
  omega

/-- A name that was seen before takes its entry from the reader. -/
theorem rankStack_skipped (names : Finset String) (depth : Nat) {frame : WalkFrame π}
    {name : String} {entries : List String} {failure : Option IoError}
    (below : List (WalkFrame π)) (hreader : frame.reader = some ⟨name :: entries, failure⟩) (hseen : frame.hasSeen name) :
    rankStack names depth ({ frame with reader := some ⟨entries, failure⟩ } :: below) <
      rankStack names depth (frame :: below) := by
  have hunread : WalkFrame.unread names { frame with reader := some ⟨entries, failure⟩ } =
      frame.unread names := by
    obtain ⟨seen, hsome, -⟩ := (Option.any_eq_true _ _).mp hseen
    unfold WalkFrame.unread
    rw [hsome]
  have hwaiting : WalkFrame.waiting names { frame with reader := some ⟨entries, failure⟩ } + 1 =
      frame.waiting names := by
    unfold WalkFrame.waiting
    rw [hreader]
    show entries.length + failure.isSome.toNat + 1 + 1 =
      entries.length + 1 + failure.isSome.toNat + 1
    omega
  rw [rankStack_cons, rankStack_cons, hunread]
  omega

/-- A reader that failed has only its end left. -/
theorem rankStack_failed (names : Finset String) (depth : Nat) {frame : WalkFrame π}
    {error : IoError} (below : List (WalkFrame π)) (hreader : frame.reader = some ⟨[], some error⟩) :
    rankStack names depth ({ frame with reader := some ⟨[], none⟩ } :: below) <
      rankStack names depth (frame :: below) := by
  have hunread : WalkFrame.unread names { frame with reader := some ⟨[], none⟩ } =
      frame.unread names := by
    unfold WalkFrame.unread
    rw [hreader]
  have hwaiting : frame.waiting names = 2 := by
    unfold WalkFrame.waiting
    rw [hreader]
    rfl
  have hdone : WalkFrame.waiting names { frame with reader := some ⟨[], none⟩ } = 1 := rfl
  rw [rankStack_cons, rankStack_cons, hunread, hdone]
  omega

/-- A directory entered is paid for by the name it was reached through. -/
theorem rankStack_enter (depth : Nat) {child : WalkFrame π} {frames : List (WalkFrame π)}
    (hreader : ∀ listing ∈ child.reader, listing.Within names)
    (hdepth : frames.length + 1 ≤ depth) :
    rankStack names depth (child :: frames) ≤
      cost names (depth - frames.length) + rankBelow names depth frames := by
  have hlevels : depth - frames.length = depth - (frames.length + 1) + 1 := by omega
  have hunread := Nat.mul_le_mul_right (worth names (depth - (frames.length + 1)))
    (WalkFrame.unread_le hreader)
  have hwaiting := WalkFrame.waiting_le hreader
  rw [rankStack_cons, hlevels, cost_succ]
  omega

end Rank

/-! ## 6. Turns lower the rank -/

section Falls

variable [QubitBudget]

def rank (names : Finset String) (directories : Finset DirectoryIdentity) (w : LocalDirectoryWalker π) : Nat :=
  if w.terminated then 0 else 1 + rankStack names directories.card w.stack

variable {directories : Finset DirectoryIdentity} {names : Finset String}
  {w w' : LocalDirectoryWalker π}

open LocalDirectoryWalker

theorem rank_le (directories : Finset DirectoryIdentity) (names : Finset String)
    (w : LocalDirectoryWalker π) :
    rank names directories w ≤ 1 + rankStack names directories.card w.stack := by
  unfold rank
  split <;> omega

/-- Frames remember their names wherever they may be closed. -/
theorem LocalDirectoryWalker.Sound.remembers (hw : w.Sound directories names)
    (h : w.options.canReopen) : ∀ frame ∈ w.stack, frame.seen.isSome := by
  intro frame hframe
  rw [hw.seen frame hframe]
  unfold LocalListOptions.needsSeenNames
  rw [h, Bool.or_true]

/-- Once a name is taken, the frames weigh less than the name was worth. -/
theorem Visited.rank_lt (hw : w.Sound directories names) (h : Visited directories names w w')
    {frame : WalkFrame π} {below : List (WalkFrame π)} (hstack : w.stack = frame :: below) :
    rank names directories w' <
      1 + (frame.unread names + 1) * worth names (directories.card - (below.length + 1)) +
        rankBelow names directories.card below := by
  have hsound := h.sound hw
  have hle := rank_le directories names w'
  have hrank : rankBelow names directories.card w.stack =
      frame.unread names * worth names (directories.card - (below.length + 1)) +
        (names.card + 3) + rankBelow names directories.card below := by
    rw [hstack]
    rfl
  have hworth : (frame.unread names + 1) * worth names (directories.card - (below.length + 1)) =
      frame.unread names * worth names (directories.card - (below.length + 1)) +
        (cost names (directories.card - (below.length + 1)) + names.card + 4) := by
    rw [Nat.add_mul, Nat.one_mul]
    rfl
  cases h with
  | passed _ _ hkept =>
    have hbelow := rankStack_le directories.card hsound.readers
    have hsame := rankBelow_kept names directories.card hkept hw.remembers
    omega
  | @entered child frames identity _ _ hstack' hkept _ _ _ _ _ hreader _ =>
    have hlength := hsound.stack_length
    rw [hstack', List.length_cons] at hlength
    have henter := rankStack_enter directories.card hreader hlength
    have hsame := rankBelow_kept names directories.card hkept hw.remembers
    have hheight : frames.length = below.length + 1 := by
      rw [hkept.length, hstack, List.length_cons]
    rw [hheight] at henter
    rw [hstack'] at hle
    omega

theorem Turn.rank_lt (hw : w.Sound directories names) (hrunning : w.terminated = false)
    (h : Turn directories names w w') : rank names directories w' < rank names directories w := by
  have hrank : rank names directories w = 1 + rankStack names directories.card w.stack := by
    unfold rank
    rw [hrunning]
    rfl
  have hle := rank_le directories names w'
  have hsound := h.sound hw
  rw [hrank]
  cases h with
  | ended _ _ _ hterminated =>
    unfold rank
    rw [if_pos hterminated]
    omega
  | @opened frame below below' listing permit _ _ hstack hclosed hstack' hkept hwithin =>
    have hopened := rankStack_opened directories.card below hclosed hwithin permit
    rw [hstack', rankStack_kept names directories.card _ hkept fun hc f hf =>
      hw.remembers hc f (hstack ▸ List.mem_cons_of_mem _ hf)] at hle
    rw [hstack]
    omega
  | @left frame below identity _ hstack _ _ hkept =>
    -- a frame is left that was still waiting for its end
    have hbelow := rankBelow_kept names directories.card hkept fun hc f hf =>
      hw.remembers hc f (hstack ▸ List.mem_cons_of_mem _ hf)
    have htop := rankStack_le directories.card hsound.readers
    have hwaiting := frame.waiting_pos names
    rw [hstack, rankStack_cons]
    omega
  | @skipped frame below name entries failure _ _ hstack hreader hseen hstack' =>
    have hskipped := rankStack_skipped names directories.card below hreader hseen
    rw [hstack'] at hle
    rw [hstack]
    omega
  | @failed frame below error _ _ hstack hreader hstack' =>
    have hfailed := rankStack_failed names directories.card below hreader
    rw [hstack'] at hle
    rw [hstack]
    omega
  | @took frame below name entries failure hstack hreader hfresh hvisited =>
    -- the name is remembered now, and its loss pays for the frame that it may open
    have hwithin := hw.readers frame (hstack ▸ List.mem_cons_self) _ hreader
    have htaken := WalkFrame.unread_remember hreader (hwithin.mem name List.mem_cons_self) hfresh
    have hlt := hvisited.rank_lt (hw.take hstack hreader) (setTop_stack hstack _)
    rw [htaken] at hlt
    have hwaiting := frame.waiting_pos names
    rw [hstack, rankStack_cons]
    omega

end Falls

end LocalFiles.Walk
