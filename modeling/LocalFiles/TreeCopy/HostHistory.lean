import LocalFiles.TreeCopy.Host

/-!
# HostHistory — which calls a copy over native paths may make, given the calls before them

A name below the destination changes only because of what was seen before at the same place below
the source and at the name itself, and only as far as the policies of the options go.  What has
been opened, looked at and copied so far stays within their limits.
-/

namespace LocalFiles.TreeCopy.Host

open Interaction Walk

variable [QubitBudget] {H : Type}

/-! ## 1. Histories -/

abbrev CopyPast (H : Type) := Past (HostCall H) HostCall.Result ActiveSources

/-- The call was made and got this answer. -/
def Answered (c : HostCall H) (answer : c.Result) (past : CopyPast H) : Prop :=
  ∃ s, ⟨(s, c), answer⟩ ∈ past

/-- The call got this answer when the history showed `K`. -/
def AnsweredAfter (K : CopyPast H → Prop) (c : HostCall H) (answer : c.Result)
    (past : CopyPast H) : Prop :=
  ∃ before s after, past = before ++ ⟨(s, c), answer⟩ :: after ∧ K before

/-- What a history shows, every longer history shows. -/
def Grows (K : CopyPast H → Prop) : Prop := ∀ past tr, K past → K (past ++ tr)

/-- What a history shows, it shows after this call as well. -/
def KeptBy (c : HostCall H) (K : CopyPast H → Prop) : Prop :=
  ∀ past s (answer : c.Result), K past → K (past ++ [⟨(s, c), answer⟩])

variable {K L : CopyPast H → Prop} {c : HostCall H} {past : CopyPast H}

theorem Grows.keptBy (hK : Grows K) : KeptBy c K := fun past _ _ => hK past _

theorem Grows.and (hK : Grows K) (hL : Grows L) : Grows fun past => K past ∧ L past :=
  fun past tr h => ⟨hK past tr h.1, hL past tr h.2⟩

theorem KeptBy.and (hK : KeptBy c K) (hL : KeptBy c L) : KeptBy c fun past => K past ∧ L past :=
  fun past s answer h => ⟨hK past s answer h.1, hL past s answer h.2⟩

theorem grows_true : Grows fun _ : CopyPast H => True := fun _ _ _ => trivial

theorem grows_exists {ι : Sort*} {K : ι → CopyPast H → Prop} (hK : ∀ i, Grows (K i)) :
    Grows fun past => ∃ i, K i past := by
  intro past tr h
  obtain ⟨i, hi⟩ := h
  exact ⟨i, hK i past tr hi⟩

theorem grows_answered (c : HostCall H) (answer : c.Result) : Grows (Answered c answer) := by
  intro past tr h
  obtain ⟨s, hmem⟩ := h
  exact ⟨s, List.mem_append_left _ hmem⟩

theorem answered_last {answer : c.Result} {s : TreeLocals ActiveSources} :
    Answered c answer (past ++ [⟨(s, c), answer⟩]) :=
  ⟨s, List.mem_append_right _ List.mem_cons_self⟩

theorem grows_answeredAfter (c : HostCall H) (answer : c.Result) :
    Grows (AnsweredAfter K c answer) := by
  intro past tr h
  obtain ⟨before, s, after, rfl, hK⟩ := h
  exact ⟨before, s, after ++ tr, by rw [List.append_assoc, List.cons_append], hK⟩

theorem answeredAfter_last {answer : c.Result} {s : TreeLocals ActiveSources} (h : K past) :
    AnsweredAfter K c answer (past ++ [⟨(s, c), answer⟩]) :=
  ⟨past, s, [], rfl, h⟩

theorem AnsweredAfter.earlier {answer : c.Result} (h : AnsweredAfter K c answer past)
    (hK : Grows K) : K past := by
  obtain ⟨before, s, after, rfl, hbefore⟩ := h
  exact hK before _ hbefore

theorem AnsweredAfter.answered {answer : c.Result} (h : AnsweredAfter K c answer past) :
    Answered c answer past := by
  obtain ⟨before, s, after, rfl, -⟩ := h
  exact ⟨s, List.mem_append_right _ List.mem_cons_self⟩

/-! ## 2. What has been seen -/

/-- A look at the path has shown a directory. -/
def SeenDirectory (path : Path) (metadata : CopyMetadata) (past : CopyPast H) : Prop :=
  metadata.kind = .directory ∧
    (Answered (.symlinkMetadata path) (.ok metadata : IoResult CopyMetadata) past ∨
      Answered (.metadata path) (.ok metadata : IoResult CopyMetadata) past)

/-- A look at the source has shown a directory with these permissions. -/
def ShownDirectory (src : Path) (permissions : Nat) (past : CopyPast H) : Prop :=
  ∃ metadata, metadata.permissions = permissions ∧ SeenDirectory src metadata past

def ShownKind (src : Path) (kind : EntryKind) (past : CopyPast H) : Prop :=
  Answered (.fileType src) (.ok kind : IoResult EntryKind) past

/-- The source was shown to be what is copied byte by byte. -/
def ShownFile (src : Path) (past : CopyPast H) : Prop :=
  ∃ kind, (kind = .file ∨ kind = .other) ∧ ShownKind src kind past

/-- The source was shown to be a directory, or to be none. -/
def ShownEntry (src : Path) (past : CopyPast H) : Bool → Prop
  | true => ∃ permissions, ShownDirectory src permissions past
  | false => ∃ kind, kind ≠ .directory ∧ ShownKind src kind past

/-- This is what the last look at the name has shown. -/
def LastLook (path : Path) (metadata : CopyMetadata) (past : CopyPast H) : Prop :=
  ∃ before s after, past = before ++
      ⟨(s, .symlinkMetadata path), (.ok metadata : IoResult CopyMetadata)⟩ :: after ∧
    ∀ ev ∈ after, ev.call.2 ≠ .symlinkMetadata path

/-- A directory has this identity by a look at its path and the canonical path found after it. -/
def Identified (path : Path) (identity : DirectoryIdentity) (past : CopyPast H) : Prop :=
  ∃ metadata canonical, identity = .fromRootedMetadata metadata.toMetadata canonical ∧
    AnsweredAfter (SeenDirectory path metadata) (.canonicalize path)
      (.ok canonical : IoResult Path) past

theorem grows_seenDirectory (path : Path) (metadata : CopyMetadata) :
    Grows (H := H) (SeenDirectory path metadata) := by
  intro past tr h
  obtain ⟨hkind, hlooked | hfollowed⟩ := h
  · exact ⟨hkind, .inl (grows_answered _ _ _ _ hlooked)⟩
  · exact ⟨hkind, .inr (grows_answered _ _ _ _ hfollowed)⟩

theorem grows_shownDirectory (src : Path) (permissions : Nat) :
    Grows (H := H) (ShownDirectory src permissions) :=
  grows_exists fun metadata _ tr h => ⟨h.1, grows_seenDirectory src metadata _ tr h.2⟩

theorem grows_shownFile (src : Path) : Grows (H := H) (ShownFile src) :=
  grows_exists fun _ _ tr h => ⟨h.1, grows_answered _ _ _ tr h.2⟩

theorem ShownFile.entry {src : Path} (h : ShownFile src past) : ShownEntry src past false := by
  obtain ⟨kind, rfl | rfl, hshown⟩ := h
  · exact ⟨.file, by decide, hshown⟩
  · exact ⟨.other, by decide, hshown⟩

theorem grows_identified (path : Path) (identity : DirectoryIdentity) :
    Grows (H := H) (Identified path identity) :=
  grows_exists fun _ => grows_exists fun _ _ tr h => ⟨h.1, grows_answeredAfter _ _ _ tr h.2⟩

theorem lastLook_last {path : Path} {metadata : CopyMetadata} {s : TreeLocals ActiveSources} :
    LastLook path metadata (past ++
      [⟨(s, .symlinkMetadata path), (.ok metadata : IoResult CopyMetadata)⟩]) :=
  ⟨past, s, [], rfl, by simp⟩

theorem keptBy_lastLook {path : Path} {metadata : CopyMetadata} (hc : c ≠ .symlinkMetadata path) :
    KeptBy c (LastLook path metadata) := by
  intro past s answer h
  obtain ⟨before, s', after, rfl, hafter⟩ := h
  refine ⟨before, s', after ++ [⟨(s, c), answer⟩], by rw [List.append_assoc, List.cons_append], ?_⟩
  rw [List.forall_mem_append]
  exact ⟨hafter, fun ev hev => by rwa [List.mem_singleton.mp hev]⟩

/-- What only another look at the name can change. -/
def Stays (path : Path) (K : CopyPast H → Prop) : Prop := ∀ c, c ≠ .symlinkMetadata path → KeptBy c K

theorem stays_lastLook {path : Path} {metadata : CopyMetadata} (hK : Grows K) :
    Stays path fun past => K past ∧ LastLook path metadata past :=
  fun _ hc => hK.keptBy.and (keptBy_lastLook hc)

theorem stays_lastLooks {path : Path} {metadata : Option CopyMetadata} (hK : Grows K) :
    Stays path fun past => K past ∧ ∀ found, metadata = some found → LastLook path found past :=
  fun _ hc => hK.keptBy.and fun past s answer h found hfound =>
    keptBy_lastLook hc past s answer (h found hfound)

/-! ## 3. What has been opened, looked at and copied -/

def isFileType : HostCall H → Bool
  | .fileType _ => true
  | _ => false

/-- How many entries have been looked at. -/
def visited (past : CopyPast H) : Nat := past.countP fun ev => isFileType ev.call.2

def copiedBy : (c : HostCall H) → c.Result → Nat
  | .copyContents _ _, answer =>
    match answer with
    | .ok copied => copied
    | .error _ => 0
  | _, _ => 0

/-- How many bytes have been copied into staging files. -/
def copied : CopyPast H → Nat
  | [] => 0
  | ev :: past => copiedBy ev.call.2 ev.answer + copied past

/-- The reader of a directory, with the calls before it was opened. -/
structure Reader (H : Type) where
  before : CopyPast H
  path : Path
  handle : H

open Classical in
/-- A reader is open from its call to the one that finds no entry any more. -/
noncomputable def readersAfter (past : CopyPast H) (readers : List (Reader H)) :
    (c : HostCall H) → c.Result → List (Reader H)
  | .readDir path, answer =>
    match answer with
    | .ok handle => ⟨past, path, handle⟩ :: readers
    | .error _ => readers
  | .nextEntry handle, answer =>
    match answer with
    | none => readers.eraseP fun reader => reader.handle = handle
    | some _ => readers
  | _, _ => readers

/-- The open readers after the calls, which are listed from the last one to the first. -/
noncomputable def readersOf : CopyPast H → List (Reader H)
  | [] => []
  | ev :: earlier => readersAfter earlier.reverse (readersOf earlier) ev.call.2 ev.answer

/-- The readers that are open, the last one first. -/
noncomputable def openReaders (past : CopyPast H) : List (Reader H) := readersOf past.reverse

def isCommit : HostCall H → Bool
  | .moveWithoutReplacing _ _ | .replaceFile _ _ => true
  | _ => false

def isReadDir : HostCall H → Bool
  | .readDir _ => true
  | _ => false

/-- Readers are opened and closed by these calls only. -/
def usesReader : HostCall H → Bool
  | .readDir _ | .nextEntry _ => true
  | _ => false

theorem visited_snoc (past : CopyPast H) (s : TreeLocals ActiveSources) (c : HostCall H)
    (answer : c.Result) : visited (past ++ [⟨(s, c), answer⟩]) =
      visited past + if isFileType c then 1 else 0 := by
  unfold visited
  rw [List.countP_append, List.countP_singleton]

theorem visited_mono (past tr : CopyPast H) : visited past ≤ visited (past ++ tr) := by
  unfold visited
  rw [List.countP_append]
  exact Nat.le_add_right _ _

theorem copied_snoc (past : CopyPast H) (s : TreeLocals ActiveSources) (c : HostCall H)
    (answer : c.Result) : copied (past ++ [⟨(s, c), answer⟩]) =
      copied past + copiedBy c answer := by
  induction past with
  | nil =>
    show copiedBy c answer + 0 = 0 + copiedBy c answer
    omega
  | cons ev past ih =>
    show copiedBy _ _ + copied (past ++ _) = copiedBy _ _ + copied past + _
    omega

theorem openReaders_snoc (past : CopyPast H) (s : TreeLocals ActiveSources) (c : HostCall H)
    (answer : c.Result) : openReaders (past ++ [⟨(s, c), answer⟩]) =
      readersAfter past (openReaders past) c answer := by
  unfold openReaders
  rw [List.reverse_append, List.reverse_singleton, List.singleton_append, readersOf,
    List.reverse_reverse]

theorem readersAfter_unused (hc : usesReader c = false) (past : CopyPast H)
    (readers : List (Reader H)) (answer : c.Result) :
    readersAfter past readers c answer = readers := by
  cases c <;> first | rfl | cases hc

/-- The reader on top is exhausted. -/
theorem readersAfter_exhausted (past : CopyPast H) (reader : Reader H) (readers : List (Reader H)) :
    readersAfter past (reader :: readers) (.nextEntry reader.handle)
      (none : Option (IoResult String)) = readers := by
  simp only [readersAfter]
  exact List.eraseP_cons_of_pos (by simp)

/-! ## 4. The discipline -/

section Discipline

variable (options : LocalCopyDirOptions) (source destination : Path)

/-- The two paths lie at the same place below the source and the destination, and not too deep. -/
def Paired (src dst : Path) : Prop :=
  ∃ rel, src = source ++ rel ∧ dst = destination ++ rel ∧
    ∀ limit ∈ options.maxDepth, rel.length ≤ limit

/-- The policies let the source, as it was shown, replace what the last look at the name has
    shown. -/
def Replaces (path : Path) (metadata : CopyMetadata) (past : CopyPast H) : Prop :=
  ∃ src isDirectory, Paired options source destination src path ∧ ShownEntry src past isDirectory ∧
    LastLook path metadata past ∧ decideCopyDestination isDirectory (some metadata.isRealDirectory)
      options.conflict options.typeConflict = some .replace

/-- The staging file was created beside the destination, for a file. -/
def Created (src dst : Path) (staged : StagedCopy H) (past : CopyPast H) : Prop :=
  AnsweredAfter (ShownFile src) (.createTempFile (parentDirFor dst))
    (.ok staged : IoResult (StagedCopy H)) past

/-- After that the file was opened, as the options want it. -/
def SourceOpened (src dst : Path) (staged : StagedCopy H) (handle : H) (permissions : Nat)
    (past : CopyPast H) : Prop :=
  AnsweredAfter (Created src dst staged)
    (.openSource src options.symlinkPolicy.follows options.openRetryTimeout)
    (.ok (handle, permissions) : IoResult (H × Nat)) past

/-- After that its bytes were copied. -/
def Poured (src dst : Path) (staged : StagedCopy H) (permissions : Nat) (past : CopyPast H) : Prop :=
  ∃ handle n, AnsweredAfter (SourceOpened options src dst staged handle permissions)
    (.copyContents handle staged) (.ok n : Except CopyError Nat) past

/-- After that the staging file got the permissions of the file. -/
def Prepared (src dst : Path) (staged : StagedCopy H) (past : CopyPast H) : Prop :=
  ∃ permissions, Poured options src dst staged permissions past ∧
    (options.preservePermissions = true →
      AnsweredAfter (Poured options src dst staged permissions)
        (.setStagedPermissions staged permissions) (.ok () : IoResult Unit) past)

/-- And after that it was synchronized. -/
def Filled (src dst : Path) (staged : StagedCopy H) (past : CopyPast H) : Prop :=
  Prepared options src dst staged past ∧ (options.durability = .required →
    AnsweredAfter (Prepared options src dst staged) (.syncStaged staged)
      (.ok () : IoResult Unit) past)

/-- A staging file that the copy created itself. -/
def Owned (staged : StagedCopy H) (past : CopyPast H) : Prop :=
  ∃ dst, Answered (.createTempFile (parentDirFor dst)) (.ok staged : IoResult (StagedCopy H)) past

/-- What has to be known before a call that changes something. -/
def Justified (past : CopyPast H) : HostCall H → Prop
  | .createPrivateDir path =>
    ∃ src permissions, Paired options source destination src path ∧
      ShownDirectory src permissions past
  | .removeFile path =>
    ∃ metadata, metadata.isRealDirectory = false ∧
      Replaces options source destination path metadata past
  | .removeDirectorySymlink path =>
    ∃ metadata, metadata.isRealDirectory = false ∧ metadata.symlinkDirectory = true ∧
      Replaces options source destination path metadata past
  | .deleteDirectory path _ policy =>
    policy = options.symlinkPolicy ∧ ∃ metadata, metadata.isRealDirectory = true ∧
      Replaces options source destination path metadata past
  | .createTempFile parent =>
    ∃ src path, Paired options source destination src path ∧ ShownFile src past ∧
      parent = parentDirFor path
  | .copyContents handle staged =>
    ∃ src dst permissions, Paired options source destination src dst ∧
      SourceOpened options src dst staged handle permissions past
  | .setStagedPermissions staged permissions =>
    options.preservePermissions = true ∧ ∃ src dst, Paired options source destination src dst ∧
      Poured options src dst staged permissions past
  | .syncStaged staged =>
    ∃ src dst, Paired options source destination src dst ∧ Prepared options src dst staged past
  | .cleanupStaged staged => Owned staged past
  | .moveWithoutReplacing staged path =>
    ∃ src, Paired options source destination src path ∧ Filled options src path staged past
  | .replaceFile staged path =>
    (∃ src, Paired options source destination src path ∧ Filled options src path staged past) ∧
      options.conflict = .overwrite
  | .createSymlink linkTarget path _ =>
    ∃ src, Paired options source destination src path ∧ ShownKind src .symlink past ∧
      Answered (.readLink src) (.ok linkTarget : IoResult Path) past
  | .setPermissions path permissions =>
    options.preservePermissions = true ∧ ∃ src, Paired options source destination src path ∧
      ShownDirectory src permissions past
  | _ => True

/-- The limits of the options, seen from a call.  The directories that have open readers were
    found to be distinct before these were opened. -/
structure Within (past : CopyPast H) (c : HostCall H) : Prop where
  distinct : ∃ identities, identities.Nodup ∧ List.Forall₂
    (fun reader identity => Identified reader.path identity reader.before)
    (openReaders past) identities
  opened : ∀ limit ∈ options.maxOpenDirectories, (openReaders past).length ≤ limit ∧
    (isReadDir c → (openReaders past).length < limit)
  visited : isFileType c → ∀ limit ∈ options.maxEntries, visited past < limit
  copied : isCommit c → ∀ limit ∈ options.maxBytes, copied past ≤ limit.toNat

def discipline : Proc.Discipline (HostCall H) HostCall.Result (TreeLocals ActiveSources) where
  fair _ := True
  allows past _ c := Justified options source destination past c ∧ Within options past c

end Discipline

/-! ## 5. What stays known of a staging file -/

section Staging

variable {options : LocalCopyDirOptions} {src dst : Path} {staging : StagedCopy H}
  {handle : H} {permissions : Nat}

theorem grows_sourceOpened : Grows (SourceOpened options src dst staging handle permissions) :=
  grows_answeredAfter _ _

theorem grows_poured : Grows (Poured options src dst staging permissions) :=
  grows_exists fun _ => grows_exists fun _ => grows_answeredAfter _ _

theorem grows_prepared : Grows (Prepared options src dst staging) :=
  grows_exists fun _ _ tr h => ⟨grows_poured _ tr h.1,
    fun heq => grows_answeredAfter _ _ _ tr (h.2 heq)⟩

theorem grows_filled : Grows (Filled options src dst staging) :=
  fun _ tr h => ⟨grows_prepared _ tr h.1, fun heq => grows_answeredAfter _ _ _ tr (h.2 heq)⟩

theorem Created.owned (h : Created src dst staging past) : Owned staging past := ⟨dst, h.answered⟩

theorem Created.file (h : Created src dst staging past) : ShownFile src past :=
  h.earlier (grows_shownFile src)

theorem SourceOpened.created (h : SourceOpened options src dst staging handle permissions past) :
    Created src dst staging past :=
  h.earlier (grows_answeredAfter _ _)

theorem Poured.created (h : Poured options src dst staging permissions past) :
    Created src dst staging past := by
  obtain ⟨handle, n, hcopied⟩ := h
  exact (hcopied.earlier grows_sourceOpened).created

theorem Poured.owned (h : Poured options src dst staging permissions past) : Owned staging past :=
  h.created.owned

theorem Prepared.created (h : Prepared options src dst staging past) :
    Created src dst staging past := by
  obtain ⟨permissions, hpoured, -⟩ := h
  exact hpoured.created

theorem Prepared.owned (h : Prepared options src dst staging past) : Owned staging past :=
  h.created.owned

theorem Filled.owned (h : Filled options src dst staging past) : Owned staging past := h.1.owned

theorem Filled.file (h : Filled options src dst staging past) : ShownFile src past :=
  h.1.created.file

end Staging

end LocalFiles.TreeCopy.Host
