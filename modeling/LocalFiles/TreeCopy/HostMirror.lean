import LocalFiles.TreeCopy.HostHistory

/-!
# HostMirror — what a copy over native paths may do

Whatever the environment answers, every call of a copy keeps the discipline of its history: a name
changes because of what was read at the same place below the source, and the policies and the
limits of the options hold throughout.
-/

namespace LocalFiles.TreeCopy.Host

open Interaction Walk

section Mirror

variable {H α β : Type}

/-! ## 1. The state between two calls -/

/-- Calls that the limits do not count. -/
structure Calm (c : HostCall H) : Prop where
  entry : isFileType c = false
  read : usesReader c = false
  copied : ∀ answer, copiedBy c answer = 0

theorem Calm.not_readDir {c : HostCall H} (h : Calm c) : isReadDir c = false := by
  have hread := h.read
  cases c <;> first | rfl | cases hread

/-- The two paths lie at the same place, at this depth. -/
def Placed (options : LocalCopyDirOptions) (source destination : Path) (depth : Nat)
    (src dst : Path) : Prop :=
  ∃ rel, src = source ++ rel ∧ dst = destination ++ rel ∧ rel.length = depth ∧
    ∀ limit ∈ options.maxDepth, depth ≤ limit

theorem Placed.paired {options : LocalCopyDirOptions} {source destination src dst : Path}
    {depth : Nat} (h : Placed options source destination depth src dst) :
    Paired options source destination src dst := by
  obtain ⟨rel, hsrc, hdst, rfl, hdepth⟩ := h
  exact ⟨rel, hsrc, hdst, hdepth⟩

theorem Placed.child {options : LocalCopyDirOptions} {source destination src dst : Path}
    {depth : Nat} {name : String}
    (h : Placed options source destination depth src dst)
    (hdepth : ∀ limit ∈ options.maxDepth, depth + 1 ≤ limit) :
    Placed options source destination (depth + 1) (src ++ [name]) (dst ++ [name]) := by
  obtain ⟨rel, rfl, rfl, rfl, -⟩ := h
  exact ⟨rel ++ [name], List.append_assoc _ _ _, List.append_assoc _ _ _, List.length_append, hdepth⟩

variable [QubitBudget]

section State

variable (options : LocalCopyDirOptions)

/-- The directories that are being copied, and the readers that are open. -/
structure Activity (H : Type) where
  identities : List DirectoryIdentity
  readers : List (Reader H)

/-- One more directory, with its reader. -/
def Activity.enter (active : Activity H) (identity : DirectoryIdentity) (reader : Reader H) :
    Activity H :=
  ⟨identity :: active.identities, reader :: active.readers⟩

/-- `entry` is charged and not looked at yet, `staged` bytes are copied and not charged yet, and
    `permit` is taken for a directory that is not active yet.  The directory on top may have lost
    its reader already. -/
structure Limits (active : Activity H) (entry staged permit : Nat) (past : CopyPast H)
    (s : TreeLocals ActiveSources) : Prop where
  depth : s.budget.maxDepth = options.maxDepth
  entries : ∀ limit ∈ options.maxEntries, ∃ budget ∈ s.budget.entries,
    budget.remaining + visited past + entry = limit
  bytes : ∀ limit ∈ options.maxBytes, ∃ budget ∈ s.budget.bytes,
    budget.remaining + copied past = limit.toNat + staged
  stack : s.backend = active.identities
  distinct : active.identities.Nodup
  opened : ∀ limit ∈ options.maxOpenDirectories, ∃ pool ∈ s.budget.openDirectories,
    pool.limit = limit ∧ pool.held = active.identities.length + permit ∧ pool.held ≤ limit
  readers : openReaders past = active.readers
  identified : ∃ identities, identities <:+ active.identities ∧ List.Forall₂
    (fun reader identity => Identified reader.path identity reader.before)
    active.readers identities

end State

section Rules

variable {options : LocalCopyDirOptions} {source destination : Path}
  {active : Activity H} {entry staged permit : Nat} {past : CopyPast H}
  {s : TreeLocals ActiveSources} {c : HostCall H}

theorem Limits.within (h : Limits options active entry staged permit past s)
    (hread : isReadDir c → permit = 1) (hentry : isFileType c → entry = 1)
    (hcommit : isCommit c → staged = 0) : Within options past c where
  distinct := by
    obtain ⟨identities, hsuffix, hidentified⟩ := h.identified
    rw [h.readers]
    exact ⟨identities, h.distinct.sublist hsuffix.sublist, hidentified⟩
  opened limit hlimit := by
    obtain ⟨pool, -, hpool, hheld, hle⟩ := h.opened limit hlimit
    obtain ⟨identities, hsuffix, hidentified⟩ := h.identified
    have hlength := hidentified.length_eq
    have hshorter := hsuffix.length_le
    rw [h.readers]
    refine ⟨by omega, fun hc => ?_⟩
    have := hread hc
    omega
  visited hc limit hlimit := by
    obtain ⟨budget, -, hsum⟩ := h.entries limit hlimit
    have := hentry hc
    omega
  copied hc limit hlimit := by
    obtain ⟨budget, -, hsum⟩ := h.bytes limit hlimit
    have := hcommit hc
    omega

/-- After a call that looks at no entry; `readers` are the readers after it. -/
theorem Limits.call {staged' : Nat} {readers : List (Reader H)} {answer : c.Result}
    (h : Limits options active entry staged permit past s) (hentry : isFileType c = false)
    (hcopied : staged + copiedBy c answer = staged')
    (hreaders : readersAfter past active.readers c answer = readers)
    (hidentified : ∃ identities, identities <:+ active.identities ∧ List.Forall₂
      (fun reader identity => Identified reader.path identity reader.before) readers identities) :
    Limits options ⟨active.identities, readers⟩ entry staged' permit
      (past ++ [⟨(s, c), answer⟩]) s where
  depth := h.depth
  entries := by
    rw [visited_snoc, hentry]
    exact h.entries
  bytes := by
    rw [copied_snoc]
    intro limit hlimit
    obtain ⟨budget, hbudget, hsum⟩ := h.bytes limit hlimit
    exact ⟨budget, hbudget, by omega⟩
  stack := h.stack
  distinct := h.distinct
  opened := h.opened
  readers := by rw [openReaders_snoc, h.readers, hreaders]
  identified := hidentified

theorem Limits.step {staged' : Nat} (h : Limits options active entry staged permit past s)
    (hread : usesReader c = false) (hentry : isFileType c = false) {answer : c.Result}
    (hcopied : staged + copiedBy c answer = staged') :
    Limits options active entry staged' permit (past ++ [⟨(s, c), answer⟩]) s :=
  h.call hentry hcopied (readersAfter_unused hread past active.readers answer) h.identified

theorem Limits.congr {s' : TreeLocals ActiveSources}
    (h : Limits options active entry staged permit past s) (hbudget : s'.budget = s.budget)
    (hbackend : s'.backend = s.backend) : Limits options active entry staged permit past s' where
  depth := by
    rw [hbudget]
    exact h.depth
  entries := by
    rw [hbudget]
    exact h.entries
  bytes := by
    rw [hbudget]
    exact h.bytes
  stack := hbackend.trans h.stack
  distinct := h.distinct
  opened := by
    rw [hbudget]
    exact h.opened
  readers := h.readers
  identified := h.identified

theorem Calm.within (hcalm : Calm c) (h : Limits options active 0 0 0 past s) :
    Within options past c := by
  refine h.within ?_ ?_ fun _ => rfl
  · rw [hcalm.not_readDir]
    exact fun heq => by cases heq
  · rw [hcalm.entry]
    exact fun heq => by cases heq

theorem Calm.step (hcalm : Calm c) {answer : c.Result} (h : Limits options active 0 0 0 past s) :
    Limits options active 0 0 0 (past ++ [⟨(s, c), answer⟩]) s :=
  h.step hcalm.read hcalm.entry (by rw [hcalm.copied])

/-- Triples of the discipline.  A run of `turns` turns that ends without a result did not have
    the turns that the entries may take. -/
abbrev Obeys (turns : Nat) (options : LocalCopyDirOptions) (source destination : Path)
    (pre : CopyPast H → TreeLocals ActiveSources → Prop) (t : HostM H α)
    (post : α → CopyPast H → TreeLocals ActiveSources → Prop) : Prop :=
  Proc.Upholds (discipline options source destination) pre t post fun halt _ _ =>
    halt = none → ∀ limit ∈ options.maxEntries, turns ≤ 2 * limit

/-- Between two calls of the scheduler, with what the history shows. -/
abbrev Mirrors (turns : Nat) (options : LocalCopyDirOptions) (source destination : Path)
    (active : Activity H) (K : CopyPast H → Prop) (t : HostM H α)
    (L : α → CopyPast H → Prop) : Prop :=
  Obeys turns options source destination
    (fun past s => Limits options active 0 0 0 past s ∧ K past) t
    fun a past s => Limits options active 0 0 0 past s ∧ L a past

variable {turns : Nat} {K Q : CopyPast H → Prop} {L : α → CopyPast H → Prop}

theorem Mirrors.imp {K' : CopyPast H → Prop} {L' : α → CopyPast H → Prop} {t : HostM H α}
    (h : Mirrors turns options source destination active K t L) (hK : ∀ past, K' past → K past)
    (hL : ∀ a past, L a past → L' a past) :
    Mirrors turns options source destination active K' t L' :=
  h.weaken (fun past _ hs => ⟨hs.1, hK past hs.2⟩) (fun a past _ hs => ⟨hs.1, hL a past hs.2⟩)
    fun _ _ _ hs => hs

theorem mirrors_pure {a : α} (h : ∀ past, K past → L a past) :
    Mirrors turns options source destination active K (pure a) L :=
  .pure fun past _ hs => ⟨hs.1, h past hs.2⟩

theorem obeys_failAs {pre : CopyPast H → TreeLocals ActiveSources → Prop}
    {post : α → CopyPast H → TreeLocals ActiveSources → Prop}
    {adjust : LocalCopyDirError → LocalCopyDirError} {stage : LocalCopyDirStage} {src dst : Path}
    {error : CopyError} : Obeys turns options source destination pre
      (failAs adjust stage src dst error : HostM H α) post :=
  .get fun _ => .exit fun _ _ _ hnone => by cases hnone

theorem obeys_withCopyContext {pre : CopyPast H → TreeLocals ActiveSources → Prop}
    {result : Except CopyError α} {stage : LocalCopyDirStage} {src dst : Path} :
    Obeys turns options source destination pre (withCopyContext result stage src dst : HostM H α)
      fun a past s => pre past s ∧ result = .ok a := by
  cases result with
  | ok a => exact .pure fun _ _ hs => ⟨hs, rfl⟩
  | error error => exact obeys_failAs

theorem mirrors_withCopyContext {result : Except CopyError α} {stage : LocalCopyDirStage}
    {src dst : Path} : Mirrors turns options source destination active K
      (withCopyContext result stage src dst : HostM H α) fun a past => K past ∧ result = .ok a :=
  obeys_withCopyContext.weaken (fun _ _ hs => hs) (fun _ _ _ hs => ⟨hs.1.1, hs.1.2, hs.2⟩)
    fun _ _ _ hs => hs

theorem mirrors_inContext {result : Except CopyError α} {stage : LocalCopyDirStage}
    {src dst : Path} : Mirrors turns options source destination active K
      (withCopyContext result stage src dst : HostM H α) fun _ => K :=
  mirrors_withCopyContext.imp (fun _ hK => hK) fun _ _ hL => hL.1

theorem mirrors_call (hcalm : Calm c) (hK : KeptBy c K)
    (hjustified : ∀ past, K past → Justified options source destination past c) :
    Mirrors turns options source destination active K (call c) fun answer past =>
      K past ∧ AnsweredAfter K c answer past :=
  .ask fun past s hs => ⟨⟨hjustified past hs.2, hcalm.within hs.1⟩, fun answer _ =>
    ⟨hcalm.step hs.1, hK past s answer hs.2, answeredAfter_last hs.2⟩⟩

theorem mirrors_get {f : TreeLocals ActiveSources → HostM H α}
    (h : ∀ s, Mirrors turns options source destination active K (f s) L) :
    Mirrors turns options source destination active K (Proc.get >>= f) L :=
  .get fun s => (h s).before fun _ _ hs => hs.1

theorem mirrors_modify {g : TreeLocals ActiveSources → TreeLocals ActiveSources}
    (hbudget : ∀ s, (g s).budget = s.budget) (hbackend : ∀ s, (g s).backend = s.backend) :
    Mirrors turns options source destination active K (Proc.modify g) fun _ => K :=
  .modify fun _ s hs => ⟨hs.1.congr (hbudget s) (hbackend s), hs.2⟩

theorem mirrors_act (hcalm : Calm c) (hK : KeptBy c K)
    (hjustified : ∀ past, K past → Justified options source destination past c) :
    Mirrors turns options source destination active K (call c) fun _ => K :=
  (mirrors_call hcalm hK hjustified).imp (fun _ hK => hK) fun _ _ hL => hL.1

/-- A call that only reads. -/
theorem mirrors_read (hcalm : Calm c) (hK : KeptBy c K)
    (hreads : ∀ past, Justified options source destination past c) :
    Mirrors turns options source destination active K (call c) fun _ => K :=
  mirrors_act hcalm hK fun past _ => hreads past

theorem mirrors_now (hK : KeptBy .now K) :
    Mirrors turns options source destination active K (now : HostM H Nat) fun _ => K :=
  mirrors_read ⟨rfl, rfl, fun _ => rfl⟩ hK fun _ => trivial

theorem mirrors_checkDeadline (hK : KeptBy .now K) :
    Mirrors turns options source destination active K (checkDeadline now : HostM H _) fun _ => K :=
  upholds_checkDeadline (mirrors_now hK)

theorem mirrors_inTime {stage : LocalCopyDirStage} {src dst : Path} (hK : KeptBy .now K) :
    Mirrors turns options source destination active K (inTime stage src dst : HostM H Unit) fun _ => K :=
  .bind (mirrors_checkDeadline hK) fun _ => mirrors_inContext

theorem mirrors_record {step : LocalCopyDirStats → Except CopyError LocalCopyDirStats}
    {src dst : Path} : Mirrors turns options source destination active K
      (record step src dst : HostM H Unit) fun _ => K :=
  mirrors_get fun _ => .bind mirrors_inContext fun _ => mirrors_modify (fun _ => rfl) fun _ => rfl

/-- A look at a name. -/
theorem mirrors_look (hK : Grows K) (path : Path) :
    Mirrors turns options source destination active K (symlinkMetadata path : HostM H _)
      fun answer past => K past ∧ ∀ metadata, answer = .ok metadata →
        LastLook path metadata past := by
  refine .ask fun past s hs => ⟨⟨trivial, Calm.within ⟨rfl, rfl, fun _ => rfl⟩ hs.1⟩,
    fun answer _ => ⟨Calm.step ⟨rfl, rfl, fun _ => rfl⟩ hs.1, hK _ _ hs.2, ?_⟩⟩
  rintro metadata rfl
  exact lastLook_last

/-! ## 2. Destinations -/

theorem mirrors_destinationMetadataIfExists (hK : Grows K) (dst : Path) :
    Mirrors turns options source destination active K (destinationMetadataIfExists dst : HostM H _)
      fun answer past => K past ∧ ∀ metadata, answer = .ok (some metadata) →
        LastLook dst metadata past := by
  refine .bind (mirrors_look hK dst) fun answer => ?_
  cases answer with
  | ok metadata =>
    refine mirrors_pure fun past hs => ⟨hs.1, fun metadata' heq => ?_⟩
    cases heq
    exact hs.2 metadata rfl
  | error error =>
    refine mirrors_pure fun past hs => ⟨hs.1, fun metadata heq => ?_⟩
    split at heq
    · cases heq
    · cases heq

theorem mirrors_removeDestinationDirectoryIfUnchanged (hK : Grows K) {dst : Path}
    (hmay : ∀ metadata past, metadata.isRealDirectory = true → K past → LastLook dst metadata past →
      Replaces options source destination dst metadata past) :
    Mirrors turns options source destination active K
      (removeDestinationDirectoryIfUnchanged dst options.symlinkPolicy : HostM H _) fun _ => K := by
  refine .bind (mirrors_look hK dst) fun answer => ?_
  cases answer with
  | error error => exact mirrors_pure fun _ hs => hs.1
  | ok metadata =>
    refine .ite (fun hdirectory => mirrors_get fun s => ?_) fun _ => mirrors_pure fun _ hs => hs.1
    have hdelete : Mirrors turns options source destination active
        (fun past => K past ∧ LastLook dst metadata past)
        (call (.deleteDirectory dst s.budget.deadline options.symlinkPolicy)) fun _ past =>
          K past ∧ LastLook dst metadata past :=
      mirrors_act ⟨rfl, rfl, fun _ => rfl⟩ (stays_lastLook hK _ nofun) fun past hs =>
        ⟨rfl, metadata, hdirectory, hmay metadata past hdirectory hs.1 hs.2⟩
    refine .bind (hdelete.imp (fun _ hs => ⟨hs.1, hs.2 metadata rfl⟩) fun _ _ hs => hs.1)
      fun answer => ?_
    cases answer with
    | ok done => exact mirrors_pure fun _ hs => hs
    | error error => exact mirrors_pure fun _ hs => hs

theorem mirrors_removeNonDirectory {dst : Path} {metadata : CopyMetadata} (hK : Stays dst K)
    (hother : metadata.isRealDirectory = false)
    (hmay : ∀ past, K past → Replaces options source destination dst metadata past)
    (target : CopyTarget) :
    Mirrors turns options source destination active K
      (removeNonDirectory target metadata dst : HostM H _) fun _ => K :=
  .ite (fun hlink => mirrors_act ⟨rfl, rfl, fun _ => rfl⟩ (hK _ nofun) fun past hs =>
    ⟨metadata, hother, hlink.2, hmay past hs⟩) fun _ =>
    mirrors_act ⟨rfl, rfl, fun _ => rfl⟩ (hK _ nofun) fun past hs => ⟨metadata, hother, hmay past hs⟩

theorem mirrors_removeDestinationNonDirectoryIfUnchanged (hK : Grows K) {dst : Path}
    (hmay : ∀ metadata past, metadata.isRealDirectory = false → K past →
      LastLook dst metadata past → Replaces options source destination dst metadata past)
    (target : CopyTarget) :
    Mirrors turns options source destination active K
      (removeDestinationNonDirectoryIfUnchanged target dst : HostM H _) fun _ => K := by
  refine .bind (mirrors_checkDeadline hK.keptBy) fun checked => ?_
  cases checked with
  | error error => exact mirrors_pure fun _ hs => hs
  | ok done =>
    refine .bind (mirrors_look hK dst) fun answer => ?_
    cases answer with
    | error error =>
      have hknown : Mirrors turns options source destination active K (checkDeadline now) fun _ => K :=
        mirrors_checkDeadline hK.keptBy
      refine .ite (fun _ => .bind (hknown.imp (fun _ hs => hs.1) fun _ _ hs => hs) fun checked => ?_)
        fun _ => mirrors_pure fun _ hs => hs.1
      cases checked with
      | error error => exact mirrors_pure fun _ hs => hs
      | ok done => exact mirrors_pure fun _ hs => hs
    | ok metadata =>
      have hlooked : Stays dst fun past => K past ∧ LastLook dst metadata past := stays_lastLook hK
      refine .bind ((mirrors_checkDeadline (hlooked _ nofun)).imp
        (fun _ hs => ⟨hs.1, hs.2 metadata rfl⟩) fun _ _ hs => hs) fun checked => ?_
      cases checked with
      | error error => exact mirrors_pure fun _ hs => hs.1
      | ok done =>
        refine .ite (fun _ => mirrors_pure fun _ hs => hs.1) fun hdirectory => ?_
        have hother : metadata.isRealDirectory = false := Bool.not_eq_true _ ▸ hdirectory
        refine .bind (mirrors_removeNonDirectory hlooked hother
          (fun past hs => hmay metadata past hother hs.1 hs.2) target) fun answer => ?_
        cases answer with
        | ok done => exact mirrors_pure fun _ hs => hs.1
        | error error => exact mirrors_pure fun _ hs => hs.1

theorem mirrors_prepareExistingDirectoryDestination (hK : Grows K) {dst : Path}
    (hjustified : ∀ past, K past → ∃ src permissions, Paired options source destination src dst ∧
      ShownDirectory src permissions past) (target : CopyTarget) :
    Mirrors turns options source destination active K
      (prepareExistingDirectoryDestination target options dst : HostM H _) fun _ => K := by
  refine .bind ((mirrors_destinationMetadataIfExists hK dst).imp (fun _ hs => hs)
    fun _ _ hs => hs.1) fun answer => ?_
  rcases answer with error | _ | metadata
  · exact mirrors_pure fun _ hs => hs
  · refine .bind (mirrors_checkDeadline hK.keptBy) fun checked => ?_
    cases checked with
    | error error => exact mirrors_pure fun _ hs => hs
    | ok done => exact mirrors_pure fun _ hs => hs
  · refine .bind (mirrors_checkDeadline hK.keptBy) fun checked => ?_
    cases checked with
    | error error => exact mirrors_pure fun _ hs => hs
    | ok done =>
      dsimp only
      split
      · exact mirrors_pure fun _ hs => hs
      next hreplace =>
        have htype : options.typeConflict = .replace := (decideCopyDestination_replace.mp hreplace).2
        refine .bind (mirrors_removeDestinationNonDirectoryIfUnchanged hK
          (fun metadata past hother hs hlook => ?_) target) fun removed => ?_
        · obtain ⟨src, permissions, hpaired, hshown⟩ := hjustified past hs
          exact ⟨src, true, hpaired, ⟨permissions, hshown⟩, hlook,
            decideCopyDestination_replace.mpr ⟨hother, htype⟩⟩
        cases removed with
        | error error => exact mirrors_pure fun _ hs => hs
        | ok removed => exact mirrors_pure fun _ hs => hs
      · exact mirrors_pure fun _ hs => hs

theorem mirrors_createCopyDestinationDir (hK : Grows K) {dst : Path}
    (hjustified : ∀ past, K past → ∃ src permissions, Paired options source destination src dst ∧
      ShownDirectory src permissions past) :
    Mirrors turns options source destination active K (createCopyDestinationDir dst : HostM H _)
      fun _ => K := by
  refine .bind (mirrors_checkDeadline hK.keptBy) fun checked => ?_
  cases checked with
  | error error => exact mirrors_pure fun _ hs => hs
  | ok done =>
    refine .bind (mirrors_checkDeadline hK.keptBy) fun checked => ?_
    cases checked with
    | error error => exact mirrors_pure fun _ hs => hs
    | ok done =>
      refine .bind (mirrors_act ⟨rfl, rfl, fun _ => rfl⟩ hK.keptBy hjustified) fun answer => ?_
      cases answer with
      | ok done => exact mirrors_pure fun _ hs => hs
      | error error =>
        refine .ite (fun _ => ?_) fun _ => mirrors_pure fun _ hs => hs
        refine .bind (mirrors_look hK dst) fun answer => ?_
        cases answer with
        | error error => exact mirrors_pure fun _ hs => hs.1
        | ok metadata =>
          exact .ite (fun _ => mirrors_pure fun _ hs => hs.1) fun _ => mirrors_pure fun _ hs => hs.1

theorem mirrors_ensureCopyDestinationDir (hK : Grows K) {dst : Path}
    (hjustified : ∀ past, K past → ∃ src permissions, Paired options source destination src dst ∧
      ShownDirectory src permissions past) (target : CopyTarget) :
    Mirrors turns options source destination active K
      (ensureCopyDestinationDir target options dst : HostM H _) fun _ => K := by
  refine .bind (mirrors_checkDeadline hK.keptBy) fun checked => ?_
  cases checked with
  | error error => exact mirrors_pure fun _ hs => hs
  | ok done =>
    refine .bind (mirrors_prepareExistingDirectoryDestination hK hjustified target) fun prepared => ?_
    obtain ⟨action, removed⟩ := prepared
    cases action with
    | error error => exact mirrors_pure fun _ hs => hs
    | ok action =>
      refine .ite (fun _ => .bind (mirrors_createCopyDestinationDir hK hjustified) fun created => ?_)
        fun _ => mirrors_pure fun _ hs => hs
      cases created with
      | error error => exact mirrors_pure fun _ hs => hs
      | ok created => exact mirrors_pure fun _ hs => hs

/-! ## 3. Regular files -/

/-- The failure of a step whose staging file is known to be the copy's own. -/
theorem obeys_failWithStaging {adjust : LocalCopyDirError → LocalCopyDirError}
    {stage : LocalCopyDirStage} {src dst : Path} {error : CopyError} {staging : StagedCopy H}
    {n : Nat} {post : α → CopyPast H → TreeLocals ActiveSources → Prop}
    (howned : ∀ past, K past → Owned staging past) :
    Obeys turns options source destination
      (fun past s => Limits options active 0 n 0 past s ∧ K past)
      (failWithStaging adjust stage src dst error staging : HostM H α) post := by
  refine .through (fun _ _ _ => True) (.ask fun past s hs => ⟨⟨howned past hs.2, ?_⟩,
    fun _ _ => trivial⟩) fun _ => obeys_failAs
  exact hs.1.within (fun h => by cases h) (fun h => by cases h) fun h => by cases h

theorem mirrors_withStaging {result : Except CopyError α}
    {adjust : LocalCopyDirError → LocalCopyDirError} {stage : LocalCopyDirStage} {src dst : Path}
    {staging : StagedCopy H} (howned : ∀ past, K past → Owned staging past) :
    Mirrors turns options source destination active K
      (withStaging result adjust stage src dst staging : HostM H α) fun a past =>
        K past ∧ result = .ok a := by
  cases result with
  | ok a => exact mirrors_pure fun _ hs => ⟨hs, rfl⟩
  | error error => exact obeys_failWithStaging howned

theorem mirrors_staged {result : Except CopyError α}
    {adjust : LocalCopyDirError → LocalCopyDirError} {stage : LocalCopyDirStage} {src dst : Path}
    {staging : StagedCopy H} (howned : ∀ past, K past → Owned staging past) :
    Mirrors turns options source destination active K
      (withStaging result adjust stage src dst staging : HostM H α) fun _ => K :=
  (mirrors_withStaging howned).imp (fun _ hs => hs) fun _ _ hs => hs.1

/-- The bytes are copied, and then charged. -/
theorem obeys_copyContents (active : Activity H) {src dst : Path}
    (hpaired : Paired options source destination src dst) (staging : StagedCopy H) (handle : H)
    (permissions : Nat) :
    Obeys turns options source destination
      (fun past s => Limits options active 0 0 0 past s ∧
        SourceOpened options src dst staging handle permissions past)
      (call (.copyContents handle staging)) fun r past s => Owned staging past ∧
        (∀ n, r = .ok n → Limits options active 0 n 0 past s ∧
          Poured options src dst staging permissions past) ∧
        ∀ error, r = .error error → Limits options active 0 0 0 past s := by
  refine .ask fun past s hs => ⟨⟨⟨src, dst, permissions, hpaired, hs.2⟩,
    hs.1.within (fun h => by cases h) (fun h => by cases h) fun h => by cases h⟩,
    fun answer _ => ⟨(SourceOpened.created (grows_sourceOpened _ _ hs.2)).owned, ?_, ?_⟩⟩
  · rintro n rfl
    exact ⟨hs.1.step rfl rfl (Nat.zero_add n), handle, n, answeredAfter_last hs.2⟩
  · rintro error rfl
    exact hs.1.step rfl rfl rfl

theorem Limits.charged {n : Nat} {budget : CopyTreeBudget}
    (h : Limits options active 0 n 0 past s) (hbudget : s.budget.chargeCopied n = .ok budget) :
    Limits options active 0 0 0 past { s with budget := budget } := by
  obtain ⟨hentries, hopen, hdepth, hbytes⟩ := CopyTreeBudget.chargeCopied_ok hbudget
  refine ⟨hdepth.trans h.depth, ?_, ?_, h.stack, h.distinct, ?_, h.readers, h.identified⟩
  · show ∀ limit ∈ options.maxEntries, ∃ entries ∈ budget.entries, _
    rw [hentries]
    exact h.entries
  · intro limit hlimit
    obtain ⟨bytes, hmem, hsum⟩ := h.bytes limit hlimit
    obtain ⟨charged, hcharged, hremaining⟩ := hbytes bytes hmem
    exact ⟨charged, hcharged, by omega⟩
  · show ∀ limit ∈ options.maxOpenDirectories, ∃ pool ∈ budget.openDirectories, _
    rw [hopen]
    exact h.opened

theorem mirrors_synchronizeStaged {src dst : Path}
    (hpaired : Paired options source destination src dst) (staging : StagedCopy H) (n : Nat) :
    Mirrors turns options source destination active (Prepared options src dst staging)
      (synchronizeStaged options src dst staging n) fun r => Filled options src dst r.1 := by
  have hsync : Mirrors turns options source destination active (Prepared options src dst staging)
      (call (.syncStaged staging)) fun answer past => Prepared options src dst staging past ∧
        AnsweredAfter (Prepared options src dst staging) (.syncStaged staging) answer past :=
    mirrors_call ⟨rfl, rfl, fun _ => rfl⟩ grows_prepared.keptBy fun past hs => ⟨src, dst, hpaired, hs⟩
  unfold synchronizeStaged
  cases hdurability : options.durability with
  | notRequired =>
    refine mirrors_pure fun past hs => ⟨hs, fun heq => ?_⟩
    rw [hdurability] at heq
    cases heq
  | preferred =>
    have hnot : options.durability ≠ .required := by
      rw [hdurability]
      decide
    refine .bind hsync fun answer => ?_
    cases answer with
    | ok done => exact mirrors_pure fun past hs => ⟨hs.1, fun heq => absurd heq hnot⟩
    | error error => exact mirrors_pure fun past hs => ⟨hs.1, fun heq => absurd heq hnot⟩
  | required =>
    refine .bind hsync fun answer => .bind (mirrors_withStaging fun past hs => hs.1.owned) fun _ =>
      mirrors_pure fun past hs => ⟨hs.1.1, fun _ => ?_⟩
    obtain rfl := io_ok hs.2
    exact hs.1.2

/-- A call whose success is needed to go on. -/
theorem mirrors_ioContext {answer : IoResult α} {stage : LocalCopyDirStage} {src dst : Path}
    (h : ∀ a past, answer = .ok a → K past → L a past) :
    Mirrors turns options source destination active K
      (inContext answer stage src dst : HostM H α) L :=
  mirrors_withCopyContext.imp (fun _ hs => hs) fun a past hs => h a past (io_ok hs.2) hs.1

theorem mirrors_completeStaged {src dst : Path} (hpaired : Paired options source destination src dst)
    (staging : StagedCopy H) (permissions n : Nat) :
    Mirrors turns options source destination active (Poured options src dst staging permissions)
      (completeStaged options src dst staging permissions n) fun r => Filled options src dst r.1 := by
  refine .bind (mirrors_checkDeadline grows_poured.keptBy) fun _ =>
    .bind (mirrors_staged fun _ hs => hs.owned) fun _ => .ite (fun hkeep => ?_) fun hkeep => ?_
  · refine .bind (mirrors_call ⟨rfl, rfl, fun _ => rfl⟩ grows_poured.keptBy
      fun _ hs => ⟨hkeep, src, dst, hpaired, hs⟩) fun applied =>
      .bind (mirrors_withStaging fun _ hs => hs.1.owned) fun _ =>
      (mirrors_synchronizeStaged hpaired staging n).imp (fun past hs => ?_) fun _ _ hs => hs
    obtain rfl := io_ok hs.2
    exact ⟨permissions, hs.1.1, fun _ => hs.1.2⟩
  · exact (mirrors_synchronizeStaged hpaired staging n).imp
      (fun past hs => ⟨permissions, hs, fun heq => absurd heq hkeep⟩) fun _ _ hs => hs

/-- The copied bytes are taken from the budget. -/
theorem obeys_chargeStaged (active : Activity H) (src dst : Path) (staging : StagedCopy H)
    (permissions n : Nat) :
    Obeys turns options source destination
      (fun past s => Limits options active 0 n 0 past s ∧
        Poured options src dst staging permissions past)
      (chargeStaged src dst staging n) fun _ past s => Limits options active 0 0 0 past s ∧
        Poured options src dst staging permissions past := by
  refine .get fun s => ?_
  cases hbudget : s.budget.chargeCopied n with
  | error error =>
    exact .through (fun _ _ _ => False) ((obeys_failWithStaging fun _ hs => hs.owned).before
      fun _ _ hs => hs.1) fun _ => .vacuous fun _ _ hs => hs
  | ok budget =>
    refine .through (fun budget' past s' => budget' = budget ∧ (Limits options active 0 n 0 past s' ∧
      Poured options src dst staging permissions past) ∧ s' = s) (.pure fun _ _ hs => ⟨rfl, hs⟩)
      fun budget' => .modify fun past s' hs => ?_
    obtain ⟨rfl, hs, rfl⟩ := hs
    exact ⟨hs.1.charged hbudget, hs.2⟩

theorem mirrors_stageCopyFile {src dst : Path} (hpaired : Paired options source destination src dst) :
    Mirrors turns options source destination active (ShownFile src)
      (stageCopyFile options src dst : HostM H _) fun r => Filled options src dst r.1 := by
  refine .bind (mirrors_call ⟨rfl, rfl, fun _ => rfl⟩ (grows_shownFile src).keptBy
    fun _ hs => ⟨src, dst, hpaired, hs, rfl⟩) fun answer => .bind (mirrors_ioContext
    (L := fun staged => Created src dst staged) fun staged past heq hs => ?_) fun staged => ?_
  · subst heq
    exact hs.2
  have hcreated : Grows (Created src dst staged) := grows_answeredAfter _ _
  refine .bind (mirrors_call ⟨rfl, rfl, fun _ => rfl⟩ hcreated.keptBy fun _ _ => trivial)
    fun opened => .bind (mirrors_withStaging fun past hs => hs.1.owned) fun handle =>
    .bind ((obeys_copyContents active hpaired staged handle.1 handle.2).before fun past s hs => ?_)
    fun answer => ?_
  · obtain rfl := io_ok hs.2.2
    exact ⟨hs.1, hs.2.1.2⟩
  cases answer with
  | error error =>
    exact .through (fun _ _ _ => False) ((obeys_failWithStaging (K := Owned staged)
      fun _ hs => hs).before fun _ _ hs => ⟨hs.2.2 error rfl, hs.1⟩) fun _ =>
      .vacuous fun _ _ hs => hs
  | ok copied =>
    exact .through (fun n past s => Limits options active 0 n 0 past s ∧
      Poured options src dst staged handle.2 past) (.pure fun past s hs => hs.2.1 copied rfl)
      fun n => .bind (obeys_chargeStaged active src dst staged handle.2 n) fun _ =>
      mirrors_completeStaged hpaired staged handle.2 n

theorem mirrors_commitCall {src dst : Path} (hpaired : Paired options source destination src dst)
    (staging : StagedCopy H) :
    Mirrors turns options source destination active (Filled options src dst staging)
      (commitCall options dst staging) fun _ => Filled options src dst staging := by
  have hmove : Mirrors turns options source destination active (Filled options src dst staging)
      (call (.moveWithoutReplacing staging dst)) fun _ => Filled options src dst staging :=
    mirrors_act ⟨rfl, rfl, fun _ => rfl⟩ grows_filled.keptBy fun _ hs => ⟨src, hpaired, hs⟩
  unfold commitCall
  cases hconflict : options.conflict with
  | fail => exact hmove
  | skip => exact hmove
  | overwrite =>
    exact mirrors_act ⟨rfl, rfl, fun _ => rfl⟩ grows_filled.keptBy
      fun _ hs => ⟨⟨src, hpaired, hs⟩, hconflict⟩

theorem mirrors_installStaged {src dst : Path} (hpaired : Paired options source destination src dst)
    (staging : StagedCopy H) :
    Mirrors turns options source destination active (Filled options src dst staging)
      (installStaged options src dst staging) fun _ _ => True := by
  refine .bind (mirrors_commitCall hpaired staging) fun answer => ?_
  cases answer with
  | ok done => exact mirrors_pure fun _ _ => trivial
  | error error =>
    refine .ite (fun _ => ?_) fun _ => obeys_failWithStaging fun _ hs => hs.owned
    refine .bind (mirrors_call (c := .cleanupStaged staging) ⟨rfl, rfl, fun _ => rfl⟩
      grows_filled.keptBy fun _ hs => hs.owned) fun answer => ?_
    cases answer with
    | ok done => exact mirrors_pure fun _ _ => trivial
    | error error => exact obeys_failAs

theorem mirrors_commitStagedCopyFile {src dst : Path}
    (hpaired : Paired options source destination src dst) {removes : Bool}
    (hremoves : removes = true → options.typeConflict = .replace) (staging : StagedCopy H) :
    Mirrors turns options source destination active (Filled options src dst staging)
      (commitStagedCopyFile options src dst removes staging) fun _ _ => True := by
  have hready : Mirrors turns options source destination active (Filled options src dst staging) (do
      withStaging (← checkDeadline now) (lateCommit removes) .commitFile src dst staging
      installStaged options src dst staging) fun _ _ => True :=
    .bind (mirrors_checkDeadline grows_filled.keptBy) fun _ =>
      .bind (mirrors_staged fun _ hs => hs.owned) fun _ => mirrors_installStaged hpaired staging
  refine .bind (mirrors_checkDeadline grows_filled.keptBy) fun _ =>
    .bind (mirrors_staged fun _ hs => hs.owned) fun _ => .ite (fun hr => ?_) fun _ => hready
  refine .bind (mirrors_removeDestinationDirectoryIfUnchanged grows_filled
    fun metadata past hdirectory hs hlook => ?_) fun answer => ?_
  · refine ⟨src, false, hpaired, hs.file.entry, hlook, ?_⟩
    rw [hdirectory]
    exact decideCopyDestination_replace.mpr (hremoves hr)
  cases answer with
  | ok done => exact hready
  | error error =>
    exact .through (fun _ _ _ => False) (obeys_failWithStaging fun _ hs => hs.owned) fun _ =>
      .vacuous fun _ _ hs => hs

theorem mirrors_fileDestination (src dst : Path) (metadata : Option CopyMetadata) :
    Mirrors turns options source destination active K
      (fileDestination options src dst metadata) fun decision past => K past ∧
        (decision = some true → options.typeConflict = .replace) := by
  cases metadata with
  | none => exact mirrors_pure fun _ hs => ⟨hs, fun heq => by cases heq⟩
  | some metadata =>
    refine .ite (fun _ => ?_) fun _ => ?_
    · split
      next hreplace =>
        exact mirrors_pure fun _ hs => ⟨hs, fun _ => decideCopyDestination_replace.mp hreplace⟩
      · exact mirrors_pure fun _ hs => ⟨hs, fun heq => by cases heq⟩
      · exact obeys_failAs
    · split
      · exact obeys_failAs
      · exact mirrors_pure fun _ hs => ⟨hs, fun heq => by cases heq⟩
      · exact mirrors_pure fun _ hs => ⟨hs, fun heq => by cases heq⟩

theorem mirrors_copyFileWithOptions {src dst : Path}
    (hpaired : Paired options source destination src dst) :
    Mirrors turns options source destination active (ShownFile (H := H) src)
      (copyFileWithOptions options src dst) fun _ _ => True := by
  have hlook : Mirrors turns options source destination active (ShownFile (H := H) src)
      (destinationMetadataIfExists dst) fun _ => ShownFile src :=
    (mirrors_destinationMetadataIfExists (grows_shownFile src) dst).imp (fun _ hs => hs)
      fun _ _ hs => hs.1
  refine .bind hlook fun answer => .bind mirrors_inContext fun metadata =>
    .bind (mirrors_fileDestination src dst metadata) fun decision => ?_
  cases decision with
  | none => exact (mirrors_record (K := fun _ => True)).imp (fun _ _ => trivial) fun _ _ hs => hs
  | some removes =>
    by_cases hremoves : removes = true → options.typeConflict = .replace
    swap
    · exact .vacuous fun _ _ hs => hremoves fun heq => hs.2.2 (congrArg some heq)
    have hflags (g : TreeLocals ActiveSources → TreeLocals ActiveSources)
        (hbudget : ∀ s, (g s).budget = s.budget) (hbackend : ∀ s, (g s).backend = s.backend) :
        Mirrors turns options source destination active (fun _ : CopyPast H => True) (Proc.modify g)
          fun _ _ => True := mirrors_modify hbudget hbackend
    refine .bind ((mirrors_stageCopyFile hpaired).imp (fun _ hs => hs.1) fun _ _ hs => hs)
      fun staged => .bind (mirrors_commitStagedCopyFile hpaired hremoves staged.1) fun committed => ?_
    cases committed with
    | false => exact mirrors_record
    | true =>
      refine .bind mirrors_record fun _ => .ite (fun _ => ?_) fun _ => hflags _ (fun _ => rfl) fun _ => rfl
      exact .bind mirrors_record fun _ => hflags _ (fun _ => rfl) fun _ => rfl

/-! ## 4. Links -/

/-- What has been read of a link. -/
def ReadLink (src linkTarget : Path) (past : CopyPast H) : Prop :=
  ShownKind src .symlink past ∧ Answered (.readLink src) (.ok linkTarget : IoResult Path) past

theorem grows_shownKind (src : Path) (kind : EntryKind) : Grows (H := H) (ShownKind src kind) :=
  grows_answered _ _

theorem grows_readLink (src linkTarget : Path) : Grows (H := H) (ReadLink src linkTarget) :=
  (grows_shownKind src .symlink).and (grows_answered _ _)

theorem mirrors_createSymlinkEntry {src dst : Path} (hpaired : Paired options source destination src dst)
    (target : CopyTarget) (linkTarget : Path) :
    Mirrors turns options source destination active (ReadLink src linkTarget)
      (createSymlinkEntry target linkTarget src dst : HostM H _) fun _ _ => True := by
  have hcreate (directory : Bool) : Mirrors turns options source destination active
      (ReadLink (H := H) src linkTarget) (call (.createSymlink linkTarget dst directory))
      fun _ _ => True :=
    (mirrors_act (c := .createSymlink linkTarget dst directory) ⟨rfl, rfl, fun _ => rfl⟩
      (grows_readLink src linkTarget).keptBy fun _ hs => ⟨src, hpaired, hs⟩).imp (fun _ hs => hs)
      fun _ _ _ => trivial
  cases target with
  | unix => exact hcreate false
  | windows =>
    refine .bind (mirrors_look (grows_readLink src linkTarget) src) fun answer => ?_
    cases answer with
    | ok metadata => exact (hcreate _).imp (fun _ hs => hs.1) fun _ _ hs => hs
    | error error => exact mirrors_pure fun _ _ => trivial
  | other => exact mirrors_pure fun _ _ => trivial

theorem mirrors_publishSymlink {src dst : Path} (hpaired : Paired options source destination src dst)
    (target : CopyTarget) (linkTarget : Path) (replaces overwrites : Bool) :
    Mirrors turns options source destination active (ReadLink src linkTarget)
      (publishSymlink target linkTarget src dst replaces overwrites : HostM H Unit)
      fun _ _ => True := by
  have hflags (g : TreeLocals ActiveSources → TreeLocals ActiveSources)
      (hbudget : ∀ s, (g s).budget = s.budget) (hbackend : ∀ s, (g s).backend = s.backend) :
      Mirrors turns options source destination active (fun _ : CopyPast H => True) (Proc.modify g)
        fun _ _ => True := mirrors_modify hbudget hbackend
  refine .bind (mirrors_inTime (grows_readLink _ _).keptBy) fun _ =>
    .bind (mirrors_createSymlinkEntry hpaired target linkTarget) fun _ => .bind mirrors_inContext
    fun _ => .bind mirrors_record fun _ => .ite (fun _ => ?_) fun _ =>
    hflags _ (fun _ => rfl) fun _ => rfl
  exact .bind mirrors_record fun _ => hflags _ (fun _ => rfl) fun _ => rfl

theorem mirrors_removeLinkDestination {src dst linkTarget : Path}
    (hpaired : Paired options source destination src dst) (target : CopyTarget)
    {metadata : Option CopyMetadata}
    (hdecision : decideCopyDestination false (metadata.map CopyMetadata.isRealDirectory)
      options.conflict options.typeConflict = some .replace) :
    Mirrors turns options source destination active
      (fun past => ReadLink src linkTarget past ∧
        ∀ found, metadata = some found → LastLook dst found past)
      (removeLinkDestination target options dst metadata : HostM H _)
      fun _ => ReadLink src linkTarget := by
  have hentry (past : CopyPast H) (hs : ReadLink src linkTarget past) : ShownEntry src past false :=
    ⟨.symlink, by decide, hs.1⟩
  cases metadata with
  | none => cases hdecision
  | some metadata =>
    refine .ite (fun hdirectory => ?_) fun hother => ?_
    · refine (mirrors_removeDestinationDirectoryIfUnchanged (grows_readLink src linkTarget)
        fun found past hfound hs hlook => ?_).imp (fun _ hs => hs.1) fun _ _ hs => hs
      refine ⟨src, false, hpaired, hentry past hs, hlook, ?_⟩
      rw [hfound, ← hdirectory]
      exact hdecision
    · rw [Bool.not_eq_true] at hother
      have hremove : Mirrors turns options source destination active
          (fun past => ReadLink src linkTarget past ∧ LastLook dst metadata past)
          (removeNonDirectory target metadata dst) _ :=
        mirrors_removeNonDirectory (stays_lastLook (grows_readLink src linkTarget)) hother
          (fun past hs => ⟨src, false, hpaired, hentry past hs.1, hs.2, hdecision⟩) target
      exact .bind (hremove.imp (fun _ hs => ⟨hs.1, hs.2 metadata rfl⟩) fun _ _ hs => hs.1) fun _ =>
        mirrors_pure fun _ hs => hs

theorem mirrors_copySymlinkWithOptions {src dst : Path}
    (hpaired : Paired options source destination src dst) (target : CopyTarget) :
    Mirrors turns options source destination active (ShownKind (H := H) src .symlink)
      (copySymlinkWithOptions target options src dst) fun _ _ => True := by
  have hgrows : Grows (H := H) (ShownKind src .symlink) := grows_shownKind src .symlink
  refine .bind (mirrors_inTime hgrows.keptBy) fun _ =>
    .bind (mirrors_destinationMetadataIfExists hgrows dst) fun answer =>
    .bind (mirrors_ioContext (L := fun metadata past => ShownKind src .symlink past ∧
      ∀ found, metadata = some found → LastLook dst found past)
      fun metadata past heq hs => ⟨hs.1, fun found hfound => hs.2 found (by rw [heq, hfound])⟩)
    fun metadata => ?_
  split
  · exact obeys_failAs
  · exact mirrors_record.imp (fun _ _ => trivial) fun _ _ hs => hs
  next action _ hdecision =>
    refine .bind (mirrors_call (c := .readLink src) ⟨rfl, rfl, fun _ => rfl⟩
      (stays_lastLooks hgrows _ nofun) fun _ _ => trivial) fun answer => .bind (mirrors_ioContext
      (L := fun linkTarget past => ReadLink src linkTarget past ∧
        ∀ found, metadata = some found → LastLook dst found past)
      fun linkTarget past heq hs => ?_) fun linkTarget =>
      .bind (mirrors_inTime (stays_lastLooks (grows_readLink src linkTarget) _ nofun)) fun _ =>
        .ite (fun hreplace => ?_) fun _ =>
      (mirrors_publishSymlink hpaired target linkTarget _ _).imp (fun _ hs => hs.1) fun _ _ hs => hs
    · subst heq
      exact ⟨⟨hs.1.1, hs.2.answered⟩, hs.1.2⟩
    · subst hreplace
      refine .bind (mirrors_removeLinkDestination hpaired target hdecision) fun removed => ?_
      cases removed with
      | ok done => exact mirrors_publishSymlink hpaired target linkTarget _ _
      | error error => exact .through (fun _ _ _ => False) obeys_failAs fun _ => .vacuous fun _ _ hs => hs

/-! ## 5. Directories -/

/-- The metadata comes from one of the two calls. -/
theorem mirrors_metadataForCopySource (src : Path) (policy : LocalSymlinkPolicy) :
    Mirrors turns options source destination active (fun _ : CopyPast H => True)
      (metadataForCopySource src policy) fun r past => ∀ metadata, r = .ok metadata →
        metadata.kind = .directory → SeenDirectory src metadata past := by
  refine .bind (mirrors_call ⟨rfl, rfl, fun _ => rfl⟩ grows_true.keptBy fun _ _ => trivial)
    fun answer => ?_
  cases answer with
  | error error => exact mirrors_pure fun _ _ _ heq => by cases heq
  | ok metadata =>
    refine .ite (fun _ => .ite (fun _ => ?_) fun _ => ?_) fun _ => ?_
    · refine (mirrors_call (c := .metadata src) ⟨rfl, rfl, fun _ => rfl⟩ grows_true.keptBy
        fun _ _ => trivial).imp (fun _ _ => trivial) fun answer past hs metadata heq hkind => ?_
      subst heq
      exact ⟨hkind, .inr hs.2.answered⟩
    · exact mirrors_pure fun _ _ _ heq => by cases heq
    · refine mirrors_pure fun past hs metadata' heq hkind => ?_
      cases heq
      exact ⟨hkind, .inl hs.2.answered⟩

theorem mirrors_inspectCopySourceDirectory (destinationRoot src : Path) :
    Mirrors turns options source destination active (fun _ : CopyPast H => True)
      (inspectCopySourceDirectory options destinationRoot src) fun r past => ∀ found,
        r = .ok found → ShownDirectory src found.1.permissions past ∧ Identified src found.2 past := by
  refine .bind (mirrors_metadataForCopySource src _) fun answer => ?_
  cases answer with
  | error error => exact mirrors_pure fun _ _ _ heq => by cases heq
  | ok metadata =>
    refine .ite (fun _ => mirrors_pure fun _ _ _ heq => by cases heq) fun hkind => ?_
    refine .bind ((mirrors_call (c := .canonicalize src) ⟨rfl, rfl, fun _ => rfl⟩
      (grows_seenDirectory src metadata).keptBy fun _ _ => trivial).imp
      (fun past hs => hs metadata rfl (not_not.mp hkind)) fun _ _ hs => hs) fun answer => ?_
    cases answer with
    | error error => exact mirrors_pure fun _ _ _ heq => by cases heq
    | ok canonical =>
      refine .ite (fun _ => mirrors_pure fun _ _ _ heq => by cases heq) fun _ =>
        mirrors_pure fun past hs found heq => ?_
      cases heq
      exact ⟨⟨metadata, rfl, hs.1⟩, metadata, canonical, rfl, hs.2⟩

/-- What is known of an open directory. -/
structure FrameOk (options : LocalCopyDirOptions) (source destination : Path)
    (frame : CopyDirFrame H) (past : CopyPast H) : Prop where
  placed : Placed options source destination frame.depth frame.src frame.dst
  shown : ShownDirectory frame.src frame.sourcePermissions past

theorem grows_frameOk (frame : CopyDirFrame H) : Grows (FrameOk options source destination frame) :=
  fun past tr h => ⟨h.placed, grows_shownDirectory _ _ past tr h.shown⟩

/-- The frame that an entry opens lies on top of the others, and so does its reader. -/
def Opened (options : LocalCopyDirOptions) (source destination : Path) (active : Activity H)
    (frame : Option (CopyDirFrame H)) (past : CopyPast H) (s : TreeLocals ActiveSources) : Prop :=
  match frame with
  | none => Limits options active 0 0 0 past s
  | some frame => FrameOk options source destination frame past ∧
    ∃ reader, reader.handle = frame.entries ∧
      Limits options (active.enter frame.sourceIdentity reader) 0 0 0 past s

theorem Limits.acquired {budget : CopyTreeBudget} (h : Limits options active 0 0 0 past s)
    (hbudget : s.budget.acquireDirectory = .ok budget) :
    Limits options active 0 0 1 past { s with budget := budget } := by
  obtain ⟨hcopy, hentries, hdepth, hopen⟩ := CopyTreeBudget.acquireDirectory_ok hbudget
  refine ⟨hdepth.trans h.depth, ?_, ?_, h.stack, h.distinct, ?_, h.readers, h.identified⟩
  · show ∀ limit ∈ options.maxEntries, ∃ entries ∈ budget.entries, _
    rw [hentries]
    exact h.entries
  · show ∀ limit ∈ options.maxBytes, ∃ bytes ∈ budget.bytes, _
    rw [hcopy]
    exact h.bytes
  · intro limit hlimit
    obtain ⟨pool, hmem, hpool, hheld, hle⟩ := h.opened limit hlimit
    obtain ⟨hlt, hacquired⟩ := hopen pool hmem
    obtain ⟨pool', hmem', hpool', hheld'⟩ := hacquired
    exact ⟨pool', hmem', hpool'.trans hpool, by omega, by omega⟩

/-- Every active directory has its reader. -/
def Activity.Full (active : Activity H) : Prop := active.readers.length = active.identities.length

/-- The reader that the call opens with the permit belongs to the directory that becomes active. -/
theorem Limits.entered {identity : DirectoryIdentity} {reader : Reader H} {answer : c.Result}
    (h : Limits options active 0 0 1 past s) (hfull : active.Full)
    (hfresh : identity ∉ active.identities) (hentry : isFileType c = false)
    (hcopied : copiedBy c answer = 0)
    (hreader : readersAfter past active.readers c answer = reader :: active.readers)
    (hidentified : Identified reader.path identity reader.before) :
    Limits options (active.enter identity reader) 0 0 0 (past ++ [⟨(s, c), answer⟩])
      { s with backend := identity :: s.backend } where
  depth := h.depth
  entries := by
    rw [visited_snoc, hentry]
    exact h.entries
  bytes := by
    rw [copied_snoc, hcopied]
    exact h.bytes
  stack := congrArg _ h.stack
  distinct := List.nodup_cons.mpr ⟨hfresh, h.distinct⟩
  opened := h.opened
  readers := by
    rw [openReaders_snoc, h.readers, hreader]
    rfl
  identified := by
    obtain ⟨identities, hsuffix, hothers⟩ := h.identified
    have hall : identities = active.identities :=
      hsuffix.eq_of_length (hothers.length_eq.symm.trans hfull)
    subst hall
    exact ⟨_, List.suffix_rfl, .cons hidentified hothers⟩

/-- A directory without a reader is left. -/
theorem Limits.left {identity : DirectoryIdentity} {identities : List DirectoryIdentity}
    {readers : List (Reader H)} (h : Limits options ⟨identity :: identities, readers⟩ 0 0 0 past s)
    (hfull : readers.length = identities.length) :
    Limits options ⟨identities, readers⟩ 0 0 0 past { s with
      backend := s.backend.filter (· ≠ identity)
      budget := s.budget.releaseDirectory } where
  depth := h.depth
  entries := h.entries
  bytes := h.bytes
  stack := by
    obtain ⟨hfresh, -⟩ := List.nodup_cons.mp h.distinct
    show s.backend.filter (· ≠ identity) = identities
    rw [h.stack, List.filter_cons_of_neg (by simp), List.filter_eq_self]
    intro other hother
    rw [decide_eq_true_eq]
    rintro rfl
    exact hfresh hother
  distinct := (List.nodup_cons.mp h.distinct).2
  opened limit hlimit := by
    obtain ⟨pool, hmem, hpool, hheld, hle⟩ := h.opened limit hlimit
    rw [List.length_cons] at hheld
    refine ⟨_, Option.mem_map_of_mem _ hmem, (pool.limit_release 1).trans hpool, ?_, ?_⟩
    · rw [ManagedResourcePool.held_release]
      show pool.held - 1 = identities.length + 0
      omega
    · rw [ManagedResourcePool.held_release]
      omega
  readers := h.readers
  identified := by
    obtain ⟨found, hsuffix, hidentified⟩ := h.identified
    obtain rfl | hrest := List.suffix_cons_iff.mp hsuffix
    · have hlength : readers.length = (identity :: identities).length := hidentified.length_eq
      rw [List.length_cons] at hlength
      omega
    · exact ⟨found, hrest, hidentified⟩

theorem obeys_readDir (hfull : active.Full) {src : Path} {permissions : Nat}
    {identity : DirectoryIdentity} (hfresh : identity ∉ active.identities) :
    Obeys turns options source destination
      (fun (past : CopyPast H) s => Limits options active 0 0 1 past s ∧
        ShownDirectory src permissions past ∧ Identified src identity past)
      (call (.readDir src)) fun answer past s => ∀ handle, answer = .ok handle →
        ShownDirectory src permissions past ∧ ∃ reader, reader.handle = handle ∧
          Limits options (active.enter identity reader) 0 0 0 past
            { s with backend := identity :: s.backend } := by
  refine .ask fun past s hs => ⟨⟨trivial, hs.1.within (fun _ => rfl) (fun h => by cases h)
    fun h => by cases h⟩, fun answer _ handle heq => ?_⟩
  subst heq
  exact ⟨grows_shownDirectory _ _ _ _ hs.2.1, ⟨past, src, handle⟩, rfl,
    hs.1.entered hfull hfresh rfl rfl rfl hs.2.2⟩

theorem obeys_readCopyDirectory (hfull : active.Full) {src dst : Path} {depth : Nat}
    {metadata : CopyMetadata} {identity : DirectoryIdentity}
    (hplaced : Placed options source destination depth src dst)
    (hfresh : identity ∉ active.identities) :
    Obeys turns options source destination
      (fun (past : CopyPast H) s => Limits options active 0 0 0 past s ∧
        ShownDirectory src metadata.permissions past ∧ Identified src identity past)
      (readCopyDirectory src dst depth metadata identity)
      (Opened options source destination active) := by
  refine .get fun s => .bind obeys_withCopyContext fun budget => .through (fun _ past s =>
    Limits options active 0 0 1 past s ∧ ShownDirectory src metadata.permissions past ∧
      Identified src identity past)
    (.modify fun past s' hs => ?_) fun _ => .bind (obeys_readDir hfull hfresh) fun answer =>
    .bind obeys_withCopyContext fun entries => .through (fun _ past s =>
    ShownDirectory src metadata.permissions past ∧ ∃ reader, reader.handle = entries ∧
      Limits options (active.enter identity reader) 0 0 0 past s)
    (.modify fun past s' hs => hs.1 entries (io_ok hs.2)) fun _ => .pure fun past s' hs =>
    ⟨⟨hplaced, hs.1⟩, hs.2⟩
  obtain ⟨⟨hs, rfl⟩, hbudget⟩ := hs
  exact ⟨hs.1.acquired hbudget, hs.2⟩

theorem obeys_openCopyDirectory (hfull : active.Full) {src dst : Path} {depth : Nat}
    {metadata : CopyMetadata} {identity : DirectoryIdentity}
    (hplaced : Placed options source destination depth src dst)
    (hfresh : identity ∉ active.identities) (action : CopyDestinationAction) :
    Obeys turns options source destination
      (fun (past : CopyPast H) s => Limits options active 0 0 0 past s ∧
        ShownDirectory src metadata.permissions past ∧ Identified src identity past)
      (openCopyDirectory options src dst depth metadata identity action)
      (Opened options source destination active) :=
  .ite (fun _ => .bind mirrors_record fun _ => obeys_readCopyDirectory hfull hplaced hfresh) fun _ =>
    obeys_readCopyDirectory hfull hplaced hfresh

theorem obeys_enterCopyDirectory (hfull : active.Full) {src dst : Path} {depth : Nat}
    (hplaced : Placed options source destination depth src dst) (target : CopyTarget)
    (destinationRoot : Path) :
    Obeys turns options source destination
      (fun (past : CopyPast H) s => Limits options active 0 0 0 past s)
      (enterCopyDirectory target options destinationRoot src dst depth)
      (Opened options source destination active) := by
  have hstart : Mirrors turns options source destination active (fun _ : CopyPast H => True)
      (inTime .inspectSource src dst) fun _ _ => True := mirrors_inTime grows_true.keptBy
  refine .bind (hstart.before fun _ _ hs => ⟨hs, trivial⟩) fun _ => .get fun s => ?_
  -- the active directories are those of the state at this moment
  by_cases hstack : s.backend = active.identities
  swap
  · refine .vacuous fun past s' hs => hstack ?_
    rw [← hs.2]
    exact hs.1.1.stack
  refine .bind obeys_withCopyContext fun _ =>
    .bind ((mirrors_inspectCopySourceDirectory destinationRoot src).before fun _ _ hs => hs.1.1)
    fun answer => .bind (mirrors_ioContext
    (L := fun found past => ShownDirectory src found.1.permissions past ∧
      Identified src found.2 past) fun found past heq hs => hs found heq) fun found => ?_
  obtain ⟨metadata, identity⟩ := found
  refine .ite (fun _ => .through (fun _ _ _ => False) obeys_failAs fun _ =>
    .vacuous fun _ _ hs => hs) fun hfresh => ?_
  rw [hstack] at hfresh
  refine .bind (mirrors_ensureCopyDestinationDir
    ((grows_shownDirectory _ _).and (grows_identified _ _))
    (fun past hs => ⟨src, _, hplaced.paired, hs.1⟩) target) fun prepared => ?_
  obtain ⟨result, removed⟩ := prepared
  cases result with
  | error error => exact obeys_failAs
  | ok done =>
    obtain ⟨action, created⟩ := done
    refine .ite (fun _ => ?_) fun _ => .ite (fun _ => .bind mirrors_record fun _ =>
      obeys_openCopyDirectory hfull hplaced hfresh action) fun _ =>
      obeys_openCopyDirectory hfull hplaced hfresh action
    exact .bind mirrors_record fun _ => .pure fun past s hs => hs.1

theorem obeys_finishFrame (hK : Grows K) (frame : CopyDirFrame H)
    {identities : List DirectoryIdentity} {readers : List (Reader H)}
    (hfull : readers.length = identities.length) :
    Obeys turns options source destination
      (fun past s => Limits options ⟨frame.sourceIdentity :: identities, readers⟩ 0 0 0 past s ∧
        FrameOk options source destination frame past ∧ K past)
      (finishFrame options frame) fun _ past s =>
        Limits options ⟨identities, readers⟩ 0 0 0 past s ∧ K past := by
  refine .through (fun _ past s => Limits options ⟨identities, readers⟩ 0 0 0 past s ∧
    FrameOk options source destination frame past ∧ K past)
    (.modify fun _ _ hs => ⟨hs.1.left hfull, hs.2⟩) fun _ => .ite (fun hkeep => ?_) fun _ =>
    .pure fun _ _ hs => ⟨hs.1, hs.2.2⟩
  have hflag (g : TreeLocals ActiveSources → TreeLocals ActiveSources)
      (hbudget : ∀ s, (g s).budget = s.budget) (hbackend : ∀ s, (g s).backend = s.backend) :
      Mirrors turns options source destination ⟨identities, readers⟩
        (fun past => FrameOk options source destination frame past ∧ K past) (Proc.modify g)
        fun _ past => FrameOk options source destination frame past ∧ K past :=
    mirrors_modify hbudget hbackend
  refine mirrors_get fun s => .bind (hflag _ (fun _ => rfl) fun _ => rfl) fun _ =>
    .bind (mirrors_act (c := .setPermissions frame.dst frame.sourcePermissions)
    ⟨rfl, rfl, fun _ => rfl⟩ ((grows_frameOk frame).and hK).keptBy
    fun _ hs => ⟨hkeep, frame.src, hs.1.placed.paired, hs.1.shown⟩) fun _ =>
    .bind mirrors_inContext fun _ => .ite (fun _ => ?_) fun _ => mirrors_pure fun _ hs => hs.2
  refine Mirrors.imp (L := fun _ past => FrameOk options source destination frame past ∧ K past) ?_
    (fun _ hs => hs) fun _ _ hs => hs.2
  exact hflag _ (fun _ => rfl) fun _ => rfl

/-! ## 6. Turns -/

theorem mirrors_checkScope (hK : Grows K) (src dst : Path) (scopeRoot : Option Path) :
    Mirrors turns options source destination active K (checkScope src dst scopeRoot) fun _ => K := by
  cases scopeRoot with
  | none => exact mirrors_pure fun _ hs => hs
  | some scopeRoot =>
    exact .bind (mirrors_read ⟨rfl, rfl, fun _ => rfl⟩ hK.keptBy fun _ => trivial) fun _ =>
      .bind mirrors_inContext fun _ => .ite (fun _ => mirrors_pure fun _ hs => hs) fun _ =>
      obeys_failAs

theorem mirrors_symlinkTargetIsDirectory (hK : Grows K) (src dst : Path) (scopeRoot : Option Path) :
    Mirrors turns options source destination active K (symlinkTargetIsDirectory src dst scopeRoot)
      fun _ => K := by
  refine .bind (mirrors_checkScope hK src dst scopeRoot) fun _ =>
    .bind (mirrors_read (K := K) ⟨rfl, rfl, fun _ => rfl⟩ hK.keptBy fun _ => trivial) fun answer => ?_
  cases answer with
  | error error => exact .ite (fun _ => mirrors_pure fun _ hs => hs) fun _ => obeys_failAs
  | ok metadata =>
    dsimp only
    split
    · exact mirrors_pure fun _ hs => hs
    · exact mirrors_pure fun _ hs => hs
    · exact obeys_failAs
    · exact obeys_failAs

/-- Where the turns are enough for the entries, `n` frames and the entries that may still be charged
    fit into the `bound` turns left: an entry takes one turn, and one more where it opens a frame. -/
def Fits (turns : Nat) (options : LocalCopyDirOptions) (bound n : Nat) (past : CopyPast H) : Prop :=
  ∀ limit ∈ options.maxEntries, 2 * limit < turns → 2 * (limit - visited past) + n ≤ bound

theorem grows_fits (bound n : Nat) : Grows (H := H) (Fits turns options bound n) := by
  intro past tr h limit hlimit hturns
  have hfits := h limit hlimit hturns
  have hmono := visited_mono past tr
  omega

theorem Limits.charge {budget : CopyTreeBudget} (h : Limits options active 0 0 0 past s)
    (hbudget : s.budget.chargeEntry = .ok budget) :
    Limits options active 1 0 0 past { s with budget := budget } := by
  obtain ⟨hcopy, hopen, hdepth, -, hentries⟩ := CopyTreeBudget.chargeEntry_ok hbudget
  refine ⟨hdepth.trans h.depth, fun limit hlimit => ?_, ?_, h.stack, h.distinct, ?_, h.readers,
    h.identified⟩
  · obtain ⟨entries, hmem, hsum⟩ := h.entries limit hlimit
    obtain ⟨charged, hcharged, hremaining⟩ := hentries entries hmem
    exact ⟨charged, hcharged, by omega⟩
  · show ∀ limit ∈ options.maxBytes, ∃ bytes ∈ budget.bytes, _
    rw [hcopy]
    exact h.bytes
  · show ∀ limit ∈ options.maxOpenDirectories, ∃ pool ∈ budget.openDirectories, _
    rw [hopen]
    exact h.opened

/-- The charged entry is looked at. -/
theorem obeys_fileType (hK : Grows K) (path : Path) {bound n : Nat} :
    Obeys turns options source destination
      (fun past s => Limits options active 1 0 0 past s ∧ Fits turns options bound n past ∧ K past)
      (call (.fileType path)) fun answer past s => Limits options active 0 0 0 past s ∧
        (Fits turns options bound (n + 2) past ∧ K past) ∧ Answered (.fileType path) answer past := by
  refine .ask fun past s hs => ⟨⟨trivial, hs.1.within (fun h => by cases h) (fun _ => rfl)
    fun _ => rfl⟩, fun answer _ => ⟨⟨hs.1.depth, ?_, ?_, hs.1.stack, hs.1.distinct, hs.1.opened, ?_,
    hs.1.identified⟩, ⟨?_, hK _ _ hs.2.2⟩, answered_last⟩⟩
  · intro limit hlimit
    obtain ⟨budget, hmem, hsum⟩ := hs.1.entries limit hlimit
    refine ⟨budget, hmem, ?_⟩
    rw [visited_snoc, if_pos (by rfl)]
    omega
  · rw [copied_snoc]
    exact hs.1.bytes
  · rw [openReaders_snoc, hs.1.readers]
    rfl
  · intro limit hlimit hturns
    obtain ⟨budget, -, hsum⟩ := hs.1.entries limit hlimit
    have hfits := hs.2.1 limit hlimit hturns
    rw [visited_snoc, if_pos (by rfl)]
    omega

theorem obeys_processEntry {frame : CopyTreeFrameContext} {bound n : Nat} (hK : Grows K)
    (hfull : active.Full) (entry : DirEntry) (hsource : entry.path = frame.source)
    (hplaced : Placed options source destination frame.depth frame.source frame.destination)
    (target : CopyTarget) (destinationRoot : Path) (scopeRoot : Option Path) :
    Obeys turns options source destination
      (fun past s => Limits options active 1 0 0 past s ∧ Fits turns options bound n past ∧ K past)
      (processEntry target options destinationRoot scopeRoot entry frame)
      fun opened past s => Opened options source destination active opened past s ∧
        Fits turns options bound (n + 2) past ∧ K past := by
  have hgrows : Grows fun past : CopyPast H => Fits turns options bound (n + 2) past ∧ K past :=
    (grows_fits bound (n + 2)).and hK
  have henter : Obeys turns options source destination
      (fun past s => Limits options active 0 0 0 past s ∧ Fits turns options bound (n + 2) past ∧ K past)
      (enterCopyDirectory target options destinationRoot frame.source frame.destination frame.depth)
      fun opened past s => Opened options source destination active opened past s ∧
        Fits turns options bound (n + 2) past ∧ K past :=
    (obeys_enterCopyDirectory hfull hplaced target destinationRoot).remember hgrows
  have hleaf {Q : CopyPast H → Prop} {t : HostM H Unit} (ht : Mirrors turns options source
      destination active Q t fun _ _ => True) : Obeys turns options source destination
      (fun past s => Limits options active 0 0 0 past s ∧
        (Fits turns options bound (n + 2) past ∧ K past) ∧ Q past)
      (do t; pure none) fun opened past s => Opened options source destination active opened past s ∧
        Fits turns options bound (n + 2) past ∧ K past :=
    .bind ((ht.remember hgrows).before fun _ _ hs => ⟨⟨hs.1, hs.2.2⟩, hs.2.1⟩) fun _ =>
      .pure fun past s hs => ⟨hs.1.1, hs.2⟩
  refine .bind (obeys_fileType hK entry.path) fun answer => .bind (mirrors_ioContext
    (L := fun kind past => (Fits turns options bound (n + 2) past ∧ K past) ∧
      ShownKind frame.source kind past) fun kind past heq hs => ?_) fun kind => ?_
  · subst heq
    rw [hsource] at hs
    exact hs
  cases kind with
  | directory => exact henter.before fun _ _ hs => ⟨hs.1, hs.2.1⟩
  | symlink =>
    have hrest (follows : Bool) : Obeys turns options source destination
        (fun past s => Limits options active 0 0 0 past s ∧
          (Fits turns options bound (n + 2) past ∧ K past) ∧ ShownKind frame.source .symlink past)
        (if follows = true then enterCopyDirectory target options destinationRoot frame.source
          frame.destination frame.depth else do
          copySymlinkWithOptions target options frame.source frame.destination
          pure none)
        fun opened past s => Opened options source destination active opened past s ∧
          Fits turns options bound (n + 2) past ∧ K past :=
      .ite (fun _ => henter.before fun _ _ hs => ⟨hs.1, hs.2.1⟩) fun _ =>
        hleaf (mirrors_copySymlinkWithOptions hplaced.paired target)
    exact .ite (fun _ => .bind (mirrors_symlinkTargetIsDirectory
      (hgrows.and (grows_shownKind frame.source .symlink)) _ _ scopeRoot) hrest)
      fun _ => .bind (.pure fun _ _ hs => hs) hrest
  | file =>
    exact (hleaf (mirrors_copyFileWithOptions hplaced.paired)).before fun _ _ hs =>
      ⟨hs.1, hs.2.1, .file, .inl rfl, hs.2.2⟩
  | other =>
    exact (hleaf (mirrors_copyFileWithOptions hplaced.paired)).before fun _ _ hs =>
      ⟨hs.1, hs.2.1, .other, .inr rfl, hs.2.2⟩

/-- The reader on top is asked for an entry, and closed if there is none. -/
theorem obeys_askReader (hK : Grows K) {identities : List DirectoryIdentity} {reader : Reader H}
    {readers : List (Reader H)} :
    Obeys turns options source destination
      (fun past s => Limits options ⟨identities, reader :: readers⟩ 0 0 0 past s ∧ K past)
      (call (.nextEntry reader.handle)) fun answer past s => K past ∧
        (answer = none → Limits options ⟨identities, readers⟩ 0 0 0 past s) ∧
        (answer ≠ none → Limits options ⟨identities, reader :: readers⟩ 0 0 0 past s) := by
  refine .ask fun past s hs => ⟨⟨trivial, hs.1.within (fun h => by cases h) (fun h => by cases h)
    fun h => by cases h⟩, fun answer _ => ⟨hK _ _ hs.2, ?_, fun hsome => ?_⟩⟩
  · rintro rfl
    refine hs.1.call rfl rfl (readersAfter_exhausted past reader readers) ?_
    obtain ⟨found, hsuffix, hidentified⟩ := hs.1.identified
    obtain ⟨identity, rest, -, hrest, rfl⟩ := List.forall₂_cons_left_iff.mp hidentified
    exact ⟨rest, (List.suffix_cons identity rest).trans hsuffix, hrest⟩
  · cases answer with
    | none => exact absurd rfl hsome
    | some result => exact hs.1.call rfl rfl rfl hs.1.identified

theorem obeys_nextEntry (hK : Grows K) (target : CopyTarget) (destinationRoot : Path)
    (scopeRoot : Option Path) (frame : CopyDirFrame H) {identities : List DirectoryIdentity}
    {reader : Reader H} {readers : List (Reader H)} (hreader : reader.handle = frame.entries) :
    Obeys turns options source destination
      (fun past s => Limits options ⟨identities, reader :: readers⟩ 0 0 0 past s ∧ K past)
      ((backend target options destinationRoot scopeRoot).nextEntry frame) fun entry past s =>
        (entry = none → Limits options ⟨identities, readers⟩ 0 0 0 past s ∧ K past) ∧
        ∀ found, entry = some found → found.path = frame.src ++ [found.fileName] ∧
          Limits options ⟨identities, reader :: readers⟩ 0 0 0 past s ∧ K past := by
  have hask : Obeys turns options source destination
      (fun past s => Limits options ⟨identities, reader :: readers⟩ 0 0 0 past s ∧ K past)
      (call (.nextEntry reader.handle)) _ := obeys_askReader hK
  rw [hreader] at hask
  refine .bind hask fun answer => ?_
  cases answer with
  | none => exact .pure fun past s hs => ⟨fun _ => ⟨hs.2.1 rfl, hs.1⟩, fun found heq => by cases heq⟩
  | some result =>
    refine .bind obeys_withCopyContext fun name => .pure fun past s hs =>
      ⟨nofun, fun found heq => ?_⟩
    cases heq
    exact ⟨rfl, hs.1.2.2 nofun, hs.1.1⟩

/-- The readers belong to the frames. -/
abbrev ReadersOf (frames : List (CopyDirFrame H)) (readers : List (Reader H)) : Prop :=
  List.Forall₂ (fun frame reader => reader.handle = frame.entries) frames readers

/-- The directories of the frames, with these readers. -/
def activityOf (frames : List (CopyDirFrame H)) (readers : List (Reader H)) : Activity H :=
  ⟨frames.map (·.sourceIdentity), readers⟩

theorem ReadersOf.length {frames : List (CopyDirFrame H)} {readers : List (Reader H)}
    (h : ReadersOf frames readers) : readers.length = (frames.map (·.sourceIdentity)).length := by
  rw [List.length_map, h.length_eq]

/-- What is known of the frames and of the turns that are left. -/
structure Known (turns : Nat) (options : LocalCopyDirOptions) (source destination : Path)
    (bound : Nat) (frames : List (CopyDirFrame H)) (past : CopyPast H) : Prop where
  each : ∀ frame ∈ frames, FrameOk options source destination frame past
  fits : Fits turns options bound frames.length past

theorem grows_known (bound : Nat) (frames : List (CopyDirFrame H)) :
    Grows (Known turns options source destination bound frames) :=
  fun past tr h => ⟨fun frame hframe => grows_frameOk frame past tr (h.each frame hframe),
    grows_fits _ _ past tr h.fits⟩

/-- What holds between two turns. -/
def Running (turns : Nat) (options : LocalCopyDirOptions) (source destination : Path) (bound : Nat)
    (frames : List (CopyDirFrame H)) (past : CopyPast H) (s : TreeLocals ActiveSources) : Prop :=
  ∃ readers, (Limits options (activityOf frames readers) 0 0 0 past s ∧
    Known turns options source destination bound frames past) ∧ ReadersOf frames readers

/-- The turn in which a directory has no entry left. -/
theorem obeys_lastTurn (bound : Nat) (frame : CopyDirFrame H) (frames : List (CopyDirFrame H))
    {readers : List (Reader H)} (hreaders : ReadersOf frames readers) :
    Obeys turns options source destination
      (fun past s => Limits options ⟨(frame :: frames).map (·.sourceIdentity), readers⟩ 0 0 0 past s ∧
        Known turns options source destination (bound + 1) (frame :: frames) past)
      (finishFrame options frame) fun _ => Running turns options source destination bound frames := by
  refine (obeys_finishFrame (grows_known (bound + 1) (frame :: frames)) frame hreaders.length).weaken
    (fun past s hs => ⟨hs.1, hs.2.each frame List.mem_cons_self, hs.2⟩)
    (fun _ past s hs => ⟨readers, ⟨hs.1, fun other hother =>
      hs.2.each other (List.mem_cons_of_mem _ hother), fun limit hlimit hturns => ?_⟩, hreaders⟩)
    fun _ _ _ hs => hs
  have hfits := hs.2.fits limit hlimit hturns
  rw [List.length_cons] at hfits
  omega

/-- The turn in which an entry of a directory is copied. -/
theorem obeys_entryTurn (target : CopyTarget) (destinationRoot : Path) (scopeRoot : Option Path)
    (bound : Nat) (frame : CopyDirFrame H) (frames : List (CopyDirFrame H)) (entry : DirEntry)
    {readers : List (Reader H)} (hreaders : ReadersOf (frame :: frames) readers)
    (hplaced : Placed options source destination (frame.depth + 1) entry.path
      (frame.dst ++ [entry.fileName])) :
    Obeys turns options source destination
      (fun past s => Limits options (activityOf (frame :: frames) readers) 1 0 0 past s ∧
        Known turns options source destination (bound + 1) (frame :: frames) past)
      (processEntry target options destinationRoot scopeRoot entry
        ⟨entry.path, frame.dst ++ [entry.fileName], frame.depth + 1⟩) fun opened =>
      Running turns options source destination bound (stackAfter frame frames (some opened)) := by
  have hfull : (activityOf (frame :: frames) readers).Full := hreaders.length
  refine (obeys_processEntry (grows_known (bound + 1) (frame :: frames)) hfull entry rfl hplaced
    target destinationRoot scopeRoot).weaken (fun past s hs => ⟨hs.1, hs.2.fits, hs.2⟩)
    (fun opened past s hs => ?_) fun _ _ _ hs => hs
  obtain ⟨hopened, hfits, hknown⟩ := hs
  cases opened with
  | none =>
    refine ⟨readers, ⟨hopened, hknown.each, fun limit hlimit hturns => ?_⟩, hreaders⟩
    have := hfits limit hlimit hturns
    rw [List.length_cons] at this
    show _ + (frames.length + 1) ≤ bound
    omega
  | some child =>
    obtain ⟨hchild, reader, hreader, hlimits⟩ := hopened
    refine ⟨reader :: readers, ⟨hlimits, List.forall_mem_cons.mpr ⟨hchild, hknown.each⟩,
      fun limit hlimit hturns => ?_⟩, .cons hreader hreaders⟩
    have := hfits limit hlimit hturns
    rw [List.length_cons] at this
    show _ + (frames.length + 1 + 1) ≤ bound
    omega

theorem obeys_copyTreeTurn (target : CopyTarget) (destinationRoot : Path) (scopeRoot : Option Path)
    (bound : Nat) (frame : CopyDirFrame H) (frames : List (CopyDirFrame H)) :
    Obeys turns options source destination
      (Running turns options source destination (bound + 1) (frame :: frames))
      (copyTreeTurn (backend target options destinationRoot scopeRoot) frame) fun r =>
        Running turns options source destination bound (stackAfter frame frames r) := by
  refine .exists fun readers => .given fun hreaders => ?_
  obtain ⟨reader, rest, hreader, hrest, rfl⟩ := List.forall₂_cons_left_iff.mp hreaders
  -- what is known of the history stays known during the turn
  have hgrows : Grows (Known turns options source destination (bound + 1) (frame :: frames)) :=
    grows_known (bound + 1) (frame :: frames)
  refine .bind (mirrors_checkDeadline hgrows.keptBy) fun _ => .bind mirrors_inContext fun _ =>
    .bind (obeys_nextEntry hgrows target destinationRoot scopeRoot frame hreader) fun found => ?_
  cases found with
  | none =>
    exact .bind ((mirrors_checkDeadline hgrows.keptBy).before fun _ _ hs => hs.1 rfl) fun _ =>
      .bind mirrors_inContext fun _ => .bind (obeys_lastTurn bound frame frames hrest) fun _ =>
      .pure fun _ _ hs => hs
  | some entry =>
    refine .get fun s => .bind obeys_withCopyContext fun _ => .bind obeys_withCopyContext
      fun budget => ?_
    -- the child lies in the frame's directory, and no deeper than is allowed
    by_cases hplaced : Placed options source destination (frame.depth + 1) entry.path
        (frame.dst ++ [entry.fileName])
    swap
    · refine .vacuous fun past s' hs => hplaced ?_
      obtain ⟨⟨⟨⟨-, hentry⟩, rfl⟩, hdepth⟩, -⟩ := hs
      obtain ⟨hpath, hlimits, hknown⟩ := hentry entry rfl
      rw [hpath]
      refine (hknown.each frame List.mem_cons_self).placed.child fun limit hlimit =>
        CopyTreeBudget.checkDepth_ok hdepth limit ?_
      rw [hlimits.depth]
      exact hlimit
    refine .through (fun _ past s => Limits options (activityOf (frame :: frames) (reader :: rest))
      1 0 0 past s ∧ Known turns options source destination (bound + 1) (frame :: frames) past)
      (.modify fun past s' hs => ?_) fun _ => .bind (obeys_entryTurn target destinationRoot scopeRoot
      bound frame frames entry hreaders hplaced) fun opened => .pure fun _ _ hs => hs
    obtain ⟨⟨⟨⟨-, hentry⟩, rfl⟩, -⟩, hbudget⟩ := hs
    obtain ⟨-, hlimits, hknown⟩ := hentry entry rfl
    exact ⟨hlimits.charge hbudget, hknown⟩

theorem obeys_copyDirIterative (target : CopyTarget) (destinationRoot : Path)
    (scopeRoot : Option Path) :
    Obeys turns options source destination
      (fun (past : CopyPast H) s => Limits options ⟨[], []⟩ 0 0 0 past s)
      (copyDirIterative target options source destination destinationRoot scopeRoot turns)
      fun _ past s => Limits options ⟨[], []⟩ 0 0 0 past s := by
  have hroot : Placed options source destination 0 source destination :=
    ⟨[], (List.append_nil _).symm, (List.append_nil _).symm, rfl, fun _ _ => Nat.zero_le _⟩
  have hfull : Activity.Full (⟨[], []⟩ : Activity H) := rfl
  refine .bind (obeys_enterCopyDirectory hfull hroot target destinationRoot) fun opened => ?_
  cases opened with
  | none => exact .pure fun _ _ hs => hs
  | some root =>
    refine (upholds_copyTree (Running turns options source destination)
      (obeys_copyTreeTurn target destinationRoot scopeRoot) (fun bound past s hs => ?_) ?_ turns
      [root]).before fun past s hs => ?_
    · obtain ⟨readers, ⟨hlimits, -⟩, hreaders⟩ := hs
      cases hreaders
      exact hlimits
    · intro frame frames past s hs _ limit hlimit
      obtain ⟨readers, ⟨-, hknown⟩, -⟩ := hs
      have hfits := hknown.fits limit hlimit
      rw [List.length_cons] at hfits
      omega
    · obtain ⟨hframe, reader, hreader, hlimits⟩ := hs
      refine ⟨[reader], ⟨hlimits, fun frame hmem => ?_, fun limit _ hturns => ?_⟩,
        .cons hreader .nil⟩
      · rw [List.mem_singleton.mp hmem]
        exact hframe
      · show _ + 1 ≤ turns
        omega

/-! ## 7. The whole pipeline -/

/-- Calls that change nothing. -/
def reads : HostCall H → Bool
  | .now | .symlinkMetadata _ | .metadata _ | .canonicalize _ | .absolutePath _ | .tryExists _
  | .readDir _ | .nextEntry _ | .fileType _ | .openSource _ _ _ | .readLink _ => true
  | _ => false

/-- The two paths that the pipeline works with are the caller's, made absolute. -/
def Anchored (src dst source destination : Path) (past : CopyPast H) : Prop :=
  Answered (.absolutePath src) (.ok source : IoResult Path) past ∧
    (dst = [] ∧ destination = dst ∨
      Answered (.absolutePath dst) (.ok destination : IoResult Path) past)

theorem grows_anchored (src dst source destination : Path) :
    Grows (H := H) (Anchored src dst source destination) := by
  intro past tr h
  obtain ⟨hsource, hempty | hdestination⟩ := h
  · exact ⟨grows_answered _ _ _ _ hsource, .inl hempty⟩
  · exact ⟨grows_answered _ _ _ _ hsource, .inr (grows_answered _ _ _ _ hdestination)⟩

/-- The discipline of the whole pipeline. -/
def pipelineDiscipline (options : LocalCopyDirOptions) (src dst : Path) :
    Proc.Discipline (HostCall H) HostCall.Result (TreeLocals ActiveSources) where
  fair _ := True
  allows past _ c := (reads c = false → ∃ source destination,
    Anchored src dst source destination past ∧ Justified options source destination past c) ∧
    Within options past c

/-- The steps before the traversal: nothing is active yet. -/
abbrev Prepares (turns : Nat) (options : LocalCopyDirOptions) (src dst : Path)
    (K : CopyPast H → Prop) (t : HostM H α) (L : α → CopyPast H → Prop) : Prop :=
  Proc.Upholds (pipelineDiscipline options src dst)
    (fun past s => Limits options ⟨[], []⟩ 0 0 0 past s ∧ K past) t
    (fun a past s => Limits options ⟨[], []⟩ 0 0 0 past s ∧ L a past) fun halt _ _ =>
    halt = none → ∀ limit ∈ options.maxEntries, turns ≤ 2 * limit

variable {src dst : Path}

theorem prepares_call (hreads : reads c = true) (hcalm : Calm c) (hK : Grows K) :
    Prepares turns options src dst K (call c) fun answer past => K past ∧ Answered c answer past := by
  refine .ask fun past s hs => ⟨⟨fun hchanges => ?_, hcalm.within hs.1⟩, fun answer _ =>
    ⟨hcalm.step hs.1, hK _ _ hs.2, answered_last⟩⟩
  rw [hreads] at hchanges
  cases hchanges

theorem prepares_read (hreads : reads c = true) (hcalm : Calm c) (hK : Grows K) :
    Prepares turns options src dst K (call c) fun _ => K :=
  (prepares_call hreads hcalm hK).weaken (fun _ _ hs => hs) (fun _ _ _ hs => ⟨hs.1, hs.2.1⟩)
    fun _ _ _ hs => hs

theorem prepares_inContext {answer : IoResult α} {stage : LocalCopyDirStage}
    {source destination : Path} (h : ∀ a past, answer = .ok a → K past → L a past) :
    Prepares turns options src dst K (inContext answer stage source destination : HostM H α) L := by
  cases answer with
  | ok a => exact .pure fun past _ hs => ⟨hs.1, h a past rfl hs.2⟩
  | error error => exact .get fun _ => .exit fun _ _ _ hnone => by cases hnone

theorem prepares_existingPrefix (hK : Grows K) (path current missing : Path) :
    Prepares turns options src dst K (existingPrefix path current missing) fun _ => K := by
  have hlook (path : Path) : Prepares turns options src dst K (call (.tryExists path)) fun _ => K :=
    prepares_read rfl ⟨rfl, rfl, fun _ => rfl⟩ hK
  have hcanonical (path : Path) :
      Prepares turns options src dst K (call (.canonicalize path)) fun _ => K :=
    prepares_read rfl ⟨rfl, rfl, fun _ => rfl⟩ hK
  induction current generalizing missing with
  | nil =>
    unfold existingPrefix
    refine .bind (hlook _) fun answer => ?_
    rcases answer with error | _ | _
    · exact .pure fun _ _ hs => hs
    · exact .pure fun _ _ hs => hs
    · exact .bind (hcanonical _) fun _ => .pure fun _ _ hs => hs
  | cons name current ih =>
    unfold existingPrefix
    refine .bind (hlook _) fun answer => ?_
    rcases answer with error | _ | _
    · exact .pure fun _ _ hs => hs
    · exact .ite (fun _ => .pure fun _ _ hs => hs) fun _ => ih _
    · exact .bind (hcanonical _) fun _ => .pure fun _ _ hs => hs

theorem prepares_canonicalizeExistingPrefix (hK : Grows K) (path : Path) :
    Prepares turns options src dst K (canonicalizeExistingPrefix path) fun _ => K := by
  have hcanonical : Prepares turns options src dst K (call (.canonicalize path)) fun _ => K :=
    prepares_read rfl ⟨rfl, rfl, fun _ => rfl⟩ hK
  refine .bind (prepares_read rfl ⟨rfl, rfl, fun _ => rfl⟩ hK) fun answer => ?_
  rcases answer with error | _ | _
  · exact .pure fun _ _ hs => hs
  · refine .ite (fun _ => hcanonical) fun _ =>
      .bind (prepares_read rfl ⟨rfl, rfl, fun _ => rfl⟩ hK) fun answer => ?_
    cases answer with
    | error error => exact .pure fun _ _ hs => hs
    | ok current => exact prepares_existingPrefix hK path _ []
  · exact hcanonical

theorem prepares_absoluteDestination (hK : Grows K) (dst : Path) :
    Prepares turns options src dst K (absoluteDestination dst) fun answer past => K past ∧
      ∀ destination, answer = .ok destination → dst = [] ∧ destination = dst ∨
        Answered (.absolutePath dst) (.ok destination : IoResult Path) past := by
  refine .ite (fun hempty => .pure fun past s hs => ⟨hs.1, hs.2, fun destination heq => ?_⟩)
    fun _ => (prepares_call (c := .absolutePath dst) rfl ⟨rfl, rfl, fun _ => rfl⟩ hK).weaken
    (fun _ _ hs => hs) (fun answer past s hs => ⟨hs.1, hs.2.1, fun destination heq => ?_⟩)
    fun _ _ _ hs => hs
  · cases heq
    exact .inl ⟨hempty, rfl⟩
  · subst heq
    exact .inr hs.2.2

theorem prepares_canonicalScope (hK : Grows K) (source destination : Path)
    (scopeRoot : Option Path) :
    Prepares turns options src dst K (canonicalScope source destination scopeRoot) fun _ => K := by
  cases scopeRoot with
  | none => exact .pure fun _ _ hs => hs
  | some scopeRoot =>
    exact .bind (prepares_read rfl ⟨rfl, rfl, fun _ => rfl⟩ hK) fun _ =>
      .bind (prepares_inContext fun _ _ _ hs => hs) fun _ => .pure fun _ _ hs => hs

theorem prepares_copyDirAllWithScope (target : CopyTarget) (scopeRoot : Option Path) :
    Prepares turns options src dst (fun _ : CopyPast H => True)
      (copyDirAllWithScope target options src dst scopeRoot turns) fun _ _ => True := by
  have hgrows (source : Path) : Grows (H := H)
      (Answered (.absolutePath src) (.ok source : IoResult Path)) := grows_answered _ _
  refine .bind (prepares_call rfl ⟨rfl, rfl, fun _ => rfl⟩ grows_true) fun answer =>
    .bind (prepares_inContext (L := fun source =>
      Answered (.absolutePath src) (.ok source : IoResult Path)) fun source past heq hs => ?_)
    fun source => .bind (prepares_absoluteDestination (hgrows source) dst) fun absolute =>
    .bind (prepares_inContext (L := Anchored src dst source)
      fun destination past heq hs => ⟨hs.1, hs.2 destination heq⟩) fun destination => ?_
  · subst heq
    exact hs.2
  have hanchored := grows_anchored (H := H) src dst source destination
  refine .bind (prepares_canonicalizeExistingPrefix hanchored destination) fun answer =>
    .bind (prepares_inContext fun _ _ _ hs => hs) fun destinationRoot =>
    .bind (prepares_canonicalScope hanchored source destination scopeRoot) fun scope => ?_
  -- from here on the traversal keeps the discipline of the two absolute paths
  refine .bind ((obeys_copyDirIterative target destinationRoot scope).under hanchored
    (fun _ h => h) fun past s c hpast hc => ⟨fun _ => ⟨source, destination, hpast, hc.1⟩, hc.2⟩)
    fun _ => .get fun s => .pure fun past s' hs => ⟨hs.1, trivial⟩

end Rules

section Main

variable {options : LocalCopyDirOptions} {target : CopyTarget} {src dst : Path}
  {scopeRoot : Option Path} {bound now : Nat} {tr before after : CopyPast H}
  {r : Except (Option LocalCopyDirError) LocalCopyDirStats} {s : TreeLocals ActiveSources}

theorem limits_start (options : LocalCopyDirOptions) (now : Nat) :
    Limits options ⟨[], []⟩ 0 0 0 ([] : CopyPast H) ⟨{}, .new options now, []⟩ where
  depth := rfl
  entries limit hlimit := by
    refine ⟨_, Option.mem_map_of_mem _ hlimit, ?_⟩
    rw [ResourceBudget.remaining_new]
    rfl
  bytes limit hlimit := by
    refine ⟨_, Option.mem_map_of_mem _ hlimit, ?_⟩
    rw [ResourceBudget.remaining_new]
    rfl
  stack := rfl
  distinct := List.nodup_nil
  opened limit hlimit := by
    refine ⟨_, Option.mem_map_of_mem _ hlimit, ManagedResourcePool.limit_new _ _, ?_, ?_⟩ <;>
      rw [ManagedResourcePool.held_new]
    · rfl
    · exact Nat.zero_le limit
  readers := rfl
  identified := ⟨[], List.suffix_rfl, .nil⟩

theorem copyDirAllWithScope_kept
    (h : (copyDirAllWithScope target options src dst scopeRoot bound).Runs
      ⟨{}, .new options now, []⟩ tr r s) :
    (pipelineDiscipline options src dst).Kept [] tr ∧
      (r = .error none → ∀ limit ∈ options.maxEntries, bound ≤ 2 * limit) := by
  obtain ⟨hkept, -, herror⟩ := prepares_copyDirAllWithScope target scopeRoot [] _ tr r s
    ⟨limits_start options now, trivial⟩ h fun _ _ => trivial
  exact ⟨hkept, fun hr => herror none hr rfl⟩

/-- In every run each call finds the limits of the options kept, and no directory open twice. -/
theorem copyDirAllWithScope_within
    {ev : Event (TreeLocals ActiveSources × HostCall H) fun c => c.2.Result}
    (h : (copyDirAllWithScope target options src dst scopeRoot bound).Runs
      ⟨{}, .new options now, []⟩ tr r s)
    (htr : tr = before ++ ev :: after) : Within options before ev.call.2 := by
  obtain ⟨hkept, -⟩ := copyDirAllWithScope_kept h
  rw [htr] at hkept
  exact hkept.allows.2

/-- Where the entries are limited, a copy ends within this many turns, whatever the native calls
    answer: also where directories are moved into each other while it runs. -/
theorem copyDirAllWithScope_finishes {limit : Nat}
    (h : (copyDirAllWithScope target options src dst scopeRoot bound).Runs
      ⟨{}, .new options now, []⟩ tr r s)
    (hlimit : options.maxEntries = some limit) (hbound : 2 * limit < bound) : r ≠ .error none := by
  obtain ⟨-, hfinishes⟩ := copyDirAllWithScope_kept h
  intro hr
  have := hfinishes hr limit hlimit
  omega

end Main

end Mirror

section Single

open scoped QubitBudget

/-! A directory `s` with one file `f` is copied to `d`, where nothing is yet. -/

/-- Every call but those of the story is denied. -/
def singleAnswer (past : CopyPast Nat) : (c : HostCall Nat) → c.Result
  | .nextEntry _ => if visited past = 0 then some (.ok "f" : IoResult String) else none
  | .symlinkMetadata path =>
    (if path = ["s"] then .ok { kind := .directory, identity := none }
      else .error ⟨.notFound, "missing", none⟩ : IoResult CopyMetadata)
  | .absolutePath path => (.ok path : IoResult Path)
  | .canonicalize path => (.ok path : IoResult Path)
  | .tryExists _ => (.ok true : IoResult Bool)
  | .createPrivateDir _ => (.ok () : IoResult Unit)
  | .readDir _ => (.ok 0 : IoResult Nat)
  | .fileType _ => (.ok .file : IoResult EntryKind)
  | .createTempFile _ => (.ok ⟨["d", "tmp"], 1⟩ : IoResult (StagedCopy Nat))
  | .openSource _ _ _ => (.ok (2, 0) : IoResult (Nat × Nat))
  | .copyContents _ _ => (.ok 5 : Except CopyError Nat)
  | .moveWithoutReplacing _ _ => (.ok () : IoResult Unit)
  | c => deniedAnswer c

def singleOptions : LocalCopyDirOptions :=
  { maxEntries := some 1, maxBytes := some 5, maxOpenDirectories := some 1 }

def singleCopy : HostM Nat LocalCopyDirStats :=
  copyDirAllWithScope .unix singleOptions ["s"] ["d"] none 3

def singleStart : TreeLocals ActiveSources := ⟨{}, .new singleOptions 0, []⟩

def isMove {H : Type} : HostCall H → Bool
  | .moveWithoutReplacing _ path => path = ["d", "f"]
  | _ => false

def singleStats : LocalCopyDirStats :=
  { files := 1, directories := 1, bytes := 5, filesDurable := false }

theorem singleCopy_runs : ∃ (tr before after : CopyPast Nat) (s : TreeLocals ActiveSources)
    (ev : Event (TreeLocals ActiveSources × HostCall Nat) fun c => c.2.Result),
    singleCopy.Runs singleStart tr (.ok singleStats) s ∧ tr = before ++ ev :: after ∧
      isMove ev.call.2 = true := by
  have hruns := Proc.exec_runs (fun past c => singleAnswer past c.2) singleCopy singleStart
  have hresult : (singleCopy.exec (fun past c => singleAnswer past c.2) singleStart []).2.1 =
      .ok singleStats := by
    rfl
  rw [hresult] at hruns
  have hmoved : ((singleCopy.exec (fun past c => singleAnswer past c.2) singleStart []).1.any
      fun ev => isMove ev.call.2) = true := by
    rfl
  obtain ⟨ev, hmem, hmove⟩ := List.any_eq_true.mp hmoved
  obtain ⟨before, after, htr⟩ := List.append_of_mem hmem
  exact ⟨_, before, after, _, ev, hruns, htr, hmove⟩

/-- It is moved with all the bytes that the options allow. -/
theorem copyDirAllWithScope_within_single : ∃ (tr before after : CopyPast Nat)
    (s : TreeLocals ActiveSources)
    (ev : Event (TreeLocals ActiveSources × HostCall Nat) fun c => c.2.Result),
    singleCopy.Runs singleStart tr (.ok singleStats) s ∧ tr = before ++ ev :: after ∧
      isMove ev.call.2 = true ∧ Within singleOptions before ev.call.2 := by
  obtain ⟨tr, before, after, s, ev, hruns, htr, hmove⟩ := singleCopy_runs
  exact ⟨tr, before, after, s, ev, hruns, htr, hmove, copyDirAllWithScope_within hruns htr⟩

theorem copyDirAllWithScope_finishes_single : ∃ (tr : CopyPast Nat) (s : TreeLocals ActiveSources),
    singleCopy.Runs singleStart tr (.ok singleStats) s ∧
      (.ok singleStats : Except (Option LocalCopyDirError) LocalCopyDirStats) ≠ .error none := by
  obtain ⟨tr, -, -, s, -, hruns, -, -⟩ := singleCopy_runs
  exact ⟨tr, s, hruns, copyDirAllWithScope_finishes hruns
    (rfl : singleOptions.maxEntries = some 1) (by decide)⟩

end Single

end LocalFiles.TreeCopy.Host
