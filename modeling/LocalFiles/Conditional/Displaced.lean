import LocalFiles.Conditional.Discipline

/-!
# Displaced — what a failed commit reports of the files it displaced

Every exit after the publication moves the installed entry, the displaced entries and the
receipts into the error by hand.  Three of them drop displaced entries: a verification that fails
before the last entry, a rollback without an error that has more than one entry to account for,
and a failed rollback after which an entry cannot be verified.  In every other run each displaced
entry is reported, or it has been restored.
-/

namespace LocalFiles.Conditional

open Interaction

variable {A δ : Type} [DecidableEq δ] (D : List UInt8 → δ)
variable {precondition : LocalWritePrecondition δ} {options : LocalWriteOptions}
variable {bytesWritten : UInt64} {currentDirectory : Option Path} {tr : Trace A}

/-! ## 1. Reports -/

/-- The error names `entry`: some recovery file has its namespace path. -/
def LocalConditionalCommitError.Names (e : LocalConditionalCommitError A)
    (entry : ConditionalEntry A) : Prop :=
  ∃ file ∈ e.recoveryFiles, file.namespacePath = entry.namespacePath

/-- `entry` was passed to a rollback that returned without an error, and the entry this rollback
    restored is one of the recovery files. -/
def LocalConditionalCommitError.Restores (e : LocalConditionalCommitError A) (tr : Trace A)
    (entry : ConditionalEntry A) : Prop :=
  ∃ passed receipt restored, ⟨.rollback passed, receipt⟩ ∈ tr ∧
    passed.namespacePath = entry.namespacePath ∧ passed.access = entry.access ∧
    receipt.error = none ∧ receipt.installed = some restored ∧
    restored.intoRecovery ∈ e.recoveryFiles

/-- Some entry of `kept` has the namespace path of `entry`. -/
def KeepsPath (kept : List (ConditionalEntry A)) (entry : ConditionalEntry A) : Prop :=
  ∃ other ∈ kept, other.namespacePath = entry.namespacePath

theorem keepsPath_of_mem {kept : List (ConditionalEntry A)} {entry : ConditionalEntry A}
    (h : entry ∈ kept) : KeepsPath kept entry := ⟨entry, h, rfl⟩

theorem KeepsPath.mono {kept kept' : List (ConditionalEntry A)} {entry : ConditionalEntry A}
    (h : KeepsPath kept entry) (hsub : kept ⊆ kept') : KeepsPath kept' entry := by
  obtain ⟨other, hother, hpath⟩ := h
  exact ⟨other, hsub hother, hpath⟩

theorem commitError_names {stage : LocalConditionalWriteStage} {source : IoError} {s : Locals A}
    {taken : List (ConditionalEntry A)} {entry : ConditionalEntry A}
    (h : KeepsPath s.entries entry) : (commitError stage source s taken).Names entry := by
  obtain ⟨other, hother, hpath⟩ := h
  exact ⟨other.intoRecovery, List.mem_append_right _ (List.mem_map_of_mem hother), hpath⟩

/-! ## 2. Verified entries -/

/-- `new` is `old` under another role at most. -/
def SameObject (old new : ConditionalEntry A) : Prop :=
  new.namespacePath = old.namespacePath ∧ new.access = old.access

theorem Verified.same {displaced kept : List (ConditionalEntry A)} {found : Bool}
    (h : Verified D precondition displaced tr kept found) :
    List.Forall₂ SameObject displaced kept := by
  induction h with
  | nil => exact .nil
  | cons entry bytes _ ih =>
    refine .cons ?_ ih
    unfold judged
    split
    · exact ⟨rfl, rfl⟩
    · exact ⟨rfl, rfl⟩

theorem exists_new_of_same {displaced kept : List (ConditionalEntry A)}
    (h : List.Forall₂ SameObject displaced kept) :
    ∀ old ∈ displaced, ∃ new ∈ kept, SameObject old new := by
  induction h with
  | nil => simp
  | @cons old new _ _ hsame _ ih =>
    rw [List.forall_mem_cons]
    refine ⟨⟨new, List.mem_cons_self, hsame⟩, fun other hother => ?_⟩
    obtain ⟨found, hfound, hsame'⟩ := ih other hother
    exact ⟨found, List.mem_cons_of_mem _ hfound, hsame'⟩

theorem exists_old_of_same {displaced kept : List (ConditionalEntry A)}
    (h : List.Forall₂ SameObject displaced kept) :
    ∀ new ∈ kept, ∃ old ∈ displaced, SameObject old new := by
  induction h with
  | nil => simp
  | @cons old new _ _ hsame _ ih =>
    rw [List.forall_mem_cons]
    refine ⟨⟨old, List.mem_cons_self, hsame⟩, fun other hother => ?_⟩
    obtain ⟨found, hfound, hsame'⟩ := ih other hother
    exact ⟨found, List.mem_cons_of_mem _ hfound, hsame'⟩

theorem keepsPath_of_same {displaced kept : List (ConditionalEntry A)}
    (h : List.Forall₂ SameObject displaced kept) : ∀ entry ∈ displaced, KeepsPath kept entry := by
  intro entry hentry
  obtain ⟨new, hnew, hsame⟩ := exists_new_of_same h entry hentry
  exact ⟨new, hnew, hsame.1⟩

/-- The checkpoint at the beginning of the verification of one displaced entry. -/
def Call.verifiesDisplaced : Call A → Bool
  | .checkpoint .verifyDisplaced => true
  | _ => false

theorem Verified.countP {displaced kept : List (ConditionalEntry A)} {found : Bool}
    (h : Verified D precondition displaced tr kept found) :
    tr.countP (·.call.verifiesDisplaced) = displaced.length := by
  induction h with
  | nil => rfl
  | cons entry bytes _ ih =>
    rw [List.countP_append, ih, List.length_cons]
    have hone : (displacedTrace precondition entry bytes).countP (·.call.verifiesDisplaced) = 1 := by
      cases precondition <;> rfl
    omega

/-! ## 3. The rollback -/

theorem KeptBeside.keepsPath {receipt : NativeAttempt A} {entries kept : List (ConditionalEntry A)}
    (h : KeptBeside receipt entries tr kept)
    (hverified : ∀ entry err, ⟨.verifyEntry entry, Except.error err⟩ ∉ tr) :
    ∀ entry ∈ entries, receipt.Names entry ∨ KeepsPath kept entry := by
  induction h with
  | nil => simp
  | named entry hnamed _ ih =>
    rw [List.forall_mem_cons]
    exact ⟨.inl hnamed, ih hverified⟩
  | lost entry err _ _ => exact absurd List.mem_cons_self (hverified entry err)
  | @kept entry rest kept tr hnamed _ ih =>
    rw [List.forall_mem_cons]
    constructor
    · right
      refine ⟨_, List.mem_cons_self, ?_⟩
      split
      · rfl
      · rfl
    · intro other hother
      have hrest := ih (fun entry err hmem => hverified entry err (List.mem_cons_of_mem _ hmem))
      exact (hrest other hother).imp_right fun hkept => hkept.mono (List.subset_cons_self _ _)

/-- The entries of the receipt are kept, so an entry that it names is. -/
theorem NativeAttempt.Names.keepsPath {receipt : NativeAttempt A} {entry : ConditionalEntry A}
    {kept : List (ConditionalEntry A)} (h : receipt.Names entry)
    (hinstalled : ∀ installed, receipt.installed = some installed →
      KeepsPath kept installed)
    (hdisplaced : ∀ displaced ∈ receipt.displaced, KeepsPath kept displaced) :
    KeepsPath kept entry := by
  obtain ⟨named, hnamed, hpath⟩ := h
  have hkept : KeepsPath kept named := by
    rcases List.mem_append.mp hnamed with hmem | hmem
    · exact hinstalled named (Option.mem_toList.mp hmem)
    · exact hdisplaced named hmem
  obtain ⟨other, hother, hother'⟩ := hkept
  exact ⟨other, hother, hother'.trans hpath⟩

/-- What is kept after the rollback: every entry, or the first one was restored and is kept as the
    restored entry. -/
theorem RolledBack.keepsPath {installed first : ConditionalEntry A}
    {others kept : List (ConditionalEntry A)} {receipt : NativeAttempt A}
    (h : RolledBack installed (first :: others) receipt tr kept)
    (hverified : ∀ entry err, ⟨.verifyEntry entry, Except.error err⟩ ∉ tr)
    (hrestored : ⟨.checkpoint .rollbackCompleted, Except.ok ()⟩ ∈ tr → receipt.error = none →
      receipt.installed.isSome → ∀ entry ∈ others, receipt.Names entry) :
    ∀ entry ∈ first :: others, KeepsPath kept entry ∨
      entry = first ∧ receipt.error = none ∧
        ∃ restored, receipt.installed = some restored ∧ restored ∈ kept := by
  intro entry hentry
  cases h with
  | interrupted err => exact .inl (keepsPath_of_mem (List.mem_append_right _ hentry))
  | failed verified beside herror hbeside =>
    left
    have hbeside' := hbeside.keepsPath
      (fun other err hmem => hverified other err (List.mem_cons_of_mem _ hmem)) entry hentry
    obtain hnamed | hkept := hbeside'
    · refine hnamed.keepsPath (fun named hnamed => ?_) (fun named hnamed => ?_)
      · exact ⟨named.setRole .displaced, by simp [hnamed], rfl⟩
      · refine ⟨named.setRole .rollbackDisplaced, ?_, rfl⟩
        exact List.mem_append_right _ (List.mem_map_of_mem hnamed)
    · refine hkept.mono fun other hother => ?_
      exact List.mem_append_left _ (List.mem_append_left _ hother)
  | unreported herror hinstalled =>
    exact .inl (keepsPath_of_mem (List.mem_append_left _ (List.mem_cons_of_mem _ hentry)))
  | restored restored checked herror hinstalled =>
    rcases List.mem_cons.mp hentry with rfl | hother
    · exact .inr ⟨rfl, herror, restored, hinstalled, by simp⟩
    · left
      have hnamed := hrestored List.mem_cons_self herror (by simp [hinstalled]) entry hother
      refine hnamed.keepsPath (fun named hnamed => ?_) (fun named hnamed => ?_)
      · rw [hinstalled] at hnamed
        cases hnamed
        exact keepsPath_of_mem (by simp)
      · refine ⟨named.setRole .rollbackDisplaced, ?_, rfl⟩
        exact List.mem_append_left _ (List.mem_map_of_mem hnamed)

/-! ## 4. Runs that drop no displaced entry -/

/-- The answers after the publication avoid the three exits that drop displaced entries. -/
structure DisplacedKept (displaced : List (ConditionalEntry A)) (after : Trace A) : Prop where
  /-- A call that fails while the displaced entries are verified is made for the last of them. -/
  verified : ∀ pre ev post, after = pre ++ ev :: post → (callError ev.call ev.answer).isSome →
    ⟨.checkpoint .afterPublish, Except.ok ()⟩ ∈ pre →
    (∀ other ∈ pre ++ [ev], other.call ≠ .checkpoint .verifyInstalled) →
    (pre ++ [ev]).countP (·.call.verifiesDisplaced) = displaced.length
  /-- A completed rollback that reports a restored entry and no error names all but the first. -/
  restored : ∀ passed receipt, ⟨.rollback passed, receipt⟩ ∈ after → receipt.error = none →
    receipt.installed.isSome → ⟨.checkpoint .rollbackCompleted, Except.ok ()⟩ ∈ after →
    ∀ entry ∈ displaced.tail, receipt.Names entry
  /-- No verification fails after the rollback. -/
  beside : ∀ pre passed receipt post, after = pre ++ ⟨.rollback passed, receipt⟩ :: post →
    ∀ entry err, ⟨.verifyEntry entry, Except.error err⟩ ∉ post

/-- Up to any of its calls, the failed verification of one entry has passed one checkpoint. -/
theorem Unverified.countP {err : IoError} {pre post : Trace A} {ev : Event (Call A) (Answer A)}
    (h : Unverified tr err) (htr : tr = pre ++ ev :: post) :
    (pre ++ [ev]).countP (·.call.verifiesDisplaced) = 1 ∧
      ∀ other ∈ pre ++ [ev], other.call ≠ .checkpoint .verifyInstalled := by
  obtain ⟨answer, rest, hstart, hrest⟩ := h.starts
  rw [hstart] at htr
  cases pre with
  | nil =>
    obtain ⟨rfl, -⟩ := List.cons.inj htr
    exact ⟨rfl, by simp⟩
  | cons first more =>
    rw [List.cons_append] at htr
    obtain ⟨rfl, rfl⟩ := List.cons.inj htr
    have hpoints : ∀ other ∈ more ++ [ev], ∀ point, other.call ≠ .checkpoint point := by
      intro other hother
      apply hrest
      rw [List.append_cons]
      exact List.mem_append_left _ hother
    have hnone : (more ++ [ev]).countP (·.call.verifiesDisplaced) = 0 := by
      rw [List.countP_eq_zero]
      intro other hother
      cases hcall : other.call with
      | checkpoint point => exact absurd hcall (hpoints other hother point)
      | _ => exact Bool.false_ne_true
    constructor
    · rw [List.cons_append, List.countP_cons, hnone]
      rfl
    · rw [List.cons_append, List.forall_mem_cons]
      exact ⟨by simp, fun other hother => hpoints other hother _⟩

/-- When the first two conditions hold, a verification can only fail at the last entry. -/
theorem DisplacedKept.last {displaced done rest kept : List (ConditionalEntry A)}
    {current : ConditionalEntry A} {found : Bool} {err : IoError} {tr₁ tr₂ post : Trace A}
    (h : DisplacedKept displaced
      (⟨.checkpoint .afterPublish, Except.ok ()⟩ :: (tr₁ ++ tr₂) ++ post))
    (hsplit : displaced = done ++ current :: rest)
    (hdone : Verified D precondition done tr₁ kept found) (hcurrent : Unverified tr₂ err) :
    rest = [] := by
  obtain ⟨ev, hev, -, herr⟩ := hcurrent.blames
  obtain ⟨pre, tail, rfl⟩ := List.append_of_mem hev
  obtain ⟨hone, hpoints⟩ := hcurrent.countP rfl
  have hcount := h.verified (⟨.checkpoint .afterPublish, Except.ok ()⟩ :: (tr₁ ++ pre)) ev
    (tail ++ post) (by simp) (by rw [herr]; rfl) List.mem_cons_self ?_
  · rw [List.cons_append, List.countP_cons, List.append_assoc, List.countP_append, hdone.countP,
      hone, hsplit, List.length_append, List.length_cons] at hcount
    apply List.eq_nil_of_length_eq_zero
    have hfirst : (if Call.verifiesDisplaced (.checkpoint .afterPublish : Call A) = true
        then 1 else 0) = 0 := rfl
    rw [hfirst] at hcount
    omega
  · rw [List.cons_append, List.forall_mem_cons, List.append_assoc, List.forall_mem_append]
    exact ⟨by simp, hdone.points, hpoints⟩

omit [DecidableEq δ] in
/-- Every entry the rollback of a conflict was to account for is kept, or it is the one that was
    restored. -/
theorem RollbackEnd.keepsPath {candidateDigest : δ} {installed : ConditionalEntry A}
    {displaced verified kept : List (ConditionalEntry A)} {pre settled post : Trace A}
    (h : RollbackEnd D candidateDigest installed verified settled kept)
    (hsame : List.Forall₂ SameObject displaced verified)
    (hkept : DisplacedKept displaced (pre ++ settled ++ post)) :
    ∀ entry ∈ displaced, KeepsPath kept entry ∨ ∃ passed receipt restored,
      ⟨.rollback passed, receipt⟩ ∈ settled ∧ passed.namespacePath = entry.namespacePath ∧
      passed.access = entry.access ∧ receipt.error = none ∧ receipt.installed = some restored ∧
      restored ∈ kept := by
  intro entry hentry
  cases h with
  | undisplaced =>
    cases hsame
    cases hentry
  | withheld _ _ hquiet =>
    exact .inl ((keepsPath_of_same hsame entry hentry).mono (List.subset_cons_self _ _))
  | attempted first others oldBytes bytes receipt after kept hdigest hafter hquiet =>
    cases hsame with
    | @cons old _ olds _ hfirst holds =>
      have hrolled : (⟨.rollback first, receipt⟩ : Event (Call A) (Answer A)) ∈
          pre ++ (rollbackTrace first installed oldBytes bytes ++ ⟨.rollback first, receipt⟩ :: after)
            ++ post := by
        simp
      have hothers : ⟨.checkpoint .rollbackCompleted, Except.ok ()⟩ ∈ after → receipt.error = none →
          receipt.installed.isSome → ∀ other ∈ others, receipt.Names other := by
        intro hpoint herror hinstalled other hother
        have htail := hkept.restored first receipt hrolled herror hinstalled (by simp [hpoint])
        obtain ⟨older, holder, hsame⟩ := exists_old_of_same holds other hother
        obtain ⟨named, hnamed, hpath⟩ := htail older holder
        exact ⟨named, hnamed, hpath.trans hsame.1.symm⟩
      have hverified : ∀ other err, ⟨.verifyEntry other, Except.error err⟩ ∉ after := by
        intro other err hmem
        exact hkept.beside (pre ++ rollbackTrace first installed oldBytes bytes) first receipt
          (after ++ post) (by simp) other err (List.mem_append_left _ hmem)
      obtain ⟨new, hnew, hpath, haccess⟩ :=
        exists_new_of_same (List.Forall₂.cons hfirst holds) entry hentry
      obtain ⟨other, hother, hother'⟩ | ⟨rfl, herror, restored, hinstalled, hmem⟩ :=
        hafter.keepsPath hverified hothers new hnew
      · exact .inl ⟨other, hother, hother'.trans hpath⟩
      · exact .inr ⟨new, receipt, restored, by simp, hpath, haccess, herror, hinstalled, hmem⟩

/-- **No displaced file is forgotten** in a failed run that avoids the three exits of
    `DisplacedKept`: each entry the publication displaced is named by a recovery file, or it was
    passed to a rollback without an error whose restored entry is a recovery file. -/
theorem commit_displaced_reported {e : LocalConditionalCommitError A} {before after : Trace A}
    {attempt : NativeAttempt A}
    (h : (commitConditionalWithDirectory D precondition options bytesWritten currentDirectory).Runs
      tr (.error e)) (htr : tr = before ++ publishEvent precondition attempt :: after)
    (hkept : DisplacedKept attempt.displaced after) :
    ∀ entry ∈ attempt.displaced, e.Names entry ∨ e.Restores after entry := by
  obtain ⟨stage, source, s, taken, candidate, created, bytes, settled, hready, rfl, rfl, hsettled⟩ :=
    commit_error_settlement D h htr
  intro entry hentry
  -- an entry is named through its path
  have hnames {kept : List (ConditionalEntry A)} {first : List (ConditionalEntry A)}
      (hentries : s.entries = first ++ kept) (hpath : KeepsPath kept entry) :
      (commitError stage source s taken).Names entry := by
    apply commitError_names
    rw [hentries]
    exact hpath.mono (List.subset_append_right _ _)
  generalize hresult : Except.error (stage, source) = result at hsettled
  cases hsettled with
  | refused hrefused =>
    obtain ⟨role, -, hentries⟩ := hrefused.kept
    exact .inl (hnames hentries (keepsPath_of_mem (List.mem_append_right _ hentry)))
  | @unverified installed current done rest kept tr₁ tr₂ found err _ haccepted hsplit hdone hcurrent
      hentries hconflict =>
    obtain rfl := hkept.last D hsplit hdone hcurrent
    refine .inl (hnames hentries ?_)
    rw [hsplit] at hentry
    rcases List.mem_append.mp hentry with hmem | hmem
    · refine (keepsPath_of_same hdone.same entry hmem).mono ?_
      exact List.Subset.trans (List.subset_cons_self _ _) (List.subset_cons_self _ _)
    · rw [List.mem_singleton] at hmem
      exact keepsPath_of_mem (by simp [hmem])
  | unchecked haccepted hdone hinstalled hentries hconflict =>
    refine .inl (hnames hentries ?_)
    exact (keepsPath_of_same hdone.same entry hentry).mono (List.subset_cons_self _ _)
  | @rolledBack installed verified kept tr₁ tr₂ _ _ _ hchecked hend hstage hcause hentries hconflict =>
    obtain ⟨_, _, _, _, hverified, -, -⟩ := hchecked.calls
    -- the rollback has put the entry back, or it is kept
    obtain hpath | ⟨passed, receipt, restored, hmem, hpath, haccess, herror, hinstalled, hrestored⟩ :=
      hend.keepsPath D hverified.same hkept entry hentry
    · exact .inl (hnames hentries hpath)
    · refine .inr ⟨passed, receipt, restored, by simp [hmem], hpath, haccess, herror, hinstalled, ?_⟩
      refine List.mem_append_right _ (List.mem_map_of_mem ?_)
      rw [hentries]
      exact List.mem_append_right _ hrestored
  | unsynced hchecked hquiet hstage hcause hentries hconflict =>
    obtain ⟨_, _, _, _, hverified, -, -⟩ := hchecked.calls
    refine .inl (hnames hentries ?_)
    exact (keepsPath_of_same hverified.same entry hentry).mono (List.subset_append_left _ _)
  | settled _ _ => cases hresult

/-- A run without an error in any answer keeps the displaced entries when its rollback names all
    but the first. -/
theorem displacedKept_of_answers {displaced : List (ConditionalEntry A)} {before after : Trace A}
    (hanswers : (before ++ after).all (fun ev => (callError ev.call ev.answer).isNone) = true)
    (hnames : ∀ passed receipt, ⟨.rollback passed, receipt⟩ ∈ after →
      ∀ entry ∈ displaced.tail, NativeAttempt.Names receipt entry) :
    DisplacedKept displaced after := by
  have hnone : ∀ ev ∈ after, callError ev.call ev.answer = none := by
    intro ev hev
    have hmem := List.all_eq_true.mp hanswers ev (List.mem_append_right _ hev)
    exact Option.isNone_iff_eq_none.mp hmem
  refine ⟨fun pre ev post hafter herror => ?_,
    fun passed receipt hmem _ _ _ => hnames passed receipt hmem,
    fun pre passed receipt post hafter entry err hmem => ?_⟩
  · rw [hnone ev (by simp [hafter])] at herror
    cases herror
  · have hverify := hnone ⟨.verifyEntry entry, Except.error err⟩ (by simp [hafter, hmem])
    cases hverify

/-- A publication that displaced the overtaken target and a backup. -/
def overtakenTwice : NativeAttempt Nat :=
  sampleAttempt none .published (some (sampleEntry .displaced "target" 2))
    [sampleEntry .displaced "staging" 4, sampleEntry .displaced "backup" 5]

/-- The reverse exchange of `overtakenTwice`, which names the backup. -/
def restoredTwice : NativeAttempt Nat :=
  sampleAttempt none .restored (some (sampleEntry .displaced "target" 4))
    [sampleEntry .rollbackDisplaced "staging" 2, sampleEntry .rollbackDisplaced "backup" 5]

/-- Two rollbacks of a conflict: one with a single displaced entry, one with two. -/
theorem commit_displaced_reported_conflict :
    (∃ e before after, (sampleRun (sampleBackend overtaken restored) (.content [0]) {}).2 =
        .error e ∧
      (sampleRun (sampleBackend overtaken restored) (.content [0]) {}).1 =
        before ++ publishEvent (.content [0]) overtaken :: after ∧
      ∀ entry ∈ overtaken.displaced, e.Names entry ∨ e.Restores after entry) ∧
    ∃ e before after, (sampleRun (sampleBackend overtakenTwice restoredTwice) (.content [0]) {}).2 =
        .error e ∧
      (sampleRun (sampleBackend overtakenTwice restoredTwice) (.content [0]) {}).1 =
        before ++ publishEvent (.content [0]) overtakenTwice :: after ∧
      ∀ entry ∈ overtakenTwice.displaced, e.Names entry ∨ e.Restores after entry := by
  have herror : ∀ run ∈ [(overtaken, restored), (overtakenTwice, restoredTwice)],
      errorAnd (fun _ => true) (sampleRun (sampleBackend run.1 run.2) (.content [0]) {}).2 = true := by
    decide +kernel
  have hpublished : ∀ run ∈ [(overtaken, restored), (overtakenTwice, restoredTwice)],
      (sampleRun (sampleBackend run.1 run.2) (.content [0]) {}).1.any
        (·.call = .publishContent) = true := by
    decide +kernel
  have hanswers : ∀ run ∈ [(overtaken, restored), (overtakenTwice, restoredTwice)],
      (sampleRun (sampleBackend run.1 run.2) (.content [0]) {}).1.all
        (fun ev => (callError ev.call ev.answer).isNone) = true := by
    decide +kernel
  have hnames : ∀ run ∈ [(overtaken, restored), (overtakenTwice, restoredTwice)],
      ∀ entry ∈ run.1.displaced.tail, run.2.Names entry := by
    unfold NativeAttempt.Names
    decide
  suffices hruns : ∀ run ∈ [(overtaken, restored), (overtakenTwice, restoredTwice)],
      ∃ e before after, (sampleRun (sampleBackend run.1 run.2) (.content [0]) {}).2 = .error e ∧
        (sampleRun (sampleBackend run.1 run.2) (.content [0]) {}).1 =
          before ++ publishEvent (.content [0]) run.1 :: after ∧
        ∀ entry ∈ run.1.displaced, e.Names entry ∨ e.Restores after entry from
    ⟨hruns (overtaken, restored) List.mem_cons_self,
      hruns (overtakenTwice, restoredTwice) (List.mem_cons_of_mem _ List.mem_cons_self)⟩
  intro run hmem
  obtain ⟨e, he, -⟩ := exists_of_errorAnd (herror run hmem)
  have hrun := sampleRun_runs (sampleBackend run.1 run.2) (.content [0]) {}
  obtain ⟨before, after, hsplit⟩ := sampleRun_published (hpublished run hmem)
  have hnone := hanswers run hmem
  rw [hsplit, List.append_cons] at hnone
  rw [he] at hrun
  refine ⟨e, before, after, he, hsplit, ?_⟩
  refine commit_displaced_reported id hrun hsplit (displacedKept_of_answers hnone ?_)
  intro passed receipt hrolled
  have hanswer := sampleRun_answers (sampleBackend run.1 run.2) (.content [0]) {}
    ⟨.rollback passed, receipt⟩ (by
      rw [hsplit]
      exact List.mem_append_right _ (List.mem_cons_of_mem _ hrolled))
  obtain rfl : receipt = run.2 := hanswer
  exact hnames run hmem

/-- An exchange that displaced two entries. -/
def displacedTwice : NativeAttempt Nat :=
  sampleAttempt none .published (some (sampleEntry .displaced "target" 2))
    [sampleEntry .displaced "staging" 3, sampleEntry .displaced "backup" 5]

/-- When the verification fails at the first of two displaced entries, the second one is
    forgotten. -/
theorem commit_displaced_forgotten :
    ∃ tr e before attempt after,
      (commitConditionalWithDirectory id (.content [0]) {} 1 none).Runs tr (.error e) ∧
      tr = before ++ publishEvent (A := Nat) (.content [0]) attempt :: after ∧
      ∃ entry ∈ attempt.displaced, ¬ e.Names entry ∧ ¬ e.Restores after entry := by
  let backend := unverifiable 3 (sampleBackend displacedTwice restored)
  have herror : errorAnd (fun e => e.recoveryFiles.all (·.namespacePath ≠ ["backup"]))
      (sampleRun backend (.content [0]) {}).2 = true := by
    decide +kernel
  have hpublished : (sampleRun backend (.content [0]) {}).1.any (·.call = .publishContent) = true := by
    decide +kernel
  have hrolls : .rollsBack ∉ effects (sampleRun backend (.content [0]) {}).1 := by
    decide +kernel
  obtain ⟨e, he, hfiles⟩ := exists_of_errorAnd herror
  obtain ⟨before, after, hsplit⟩ := sampleRun_published hpublished
  have hrun := sampleRun_runs backend (.content [0]) {}
  rw [he] at hrun
  refine ⟨_, e, before, displacedTwice, after, hrun, hsplit, sampleEntry .displaced "backup" 5,
    by decide, ?_, ?_⟩
  · rintro ⟨file, hfile, hpath⟩
    exact of_decide_eq_true (List.all_eq_true.mp hfiles file hfile) hpath
  · rintro ⟨passed, receipt, restored, hmem, -⟩
    apply hrolls
    rw [hsplit]
    exact mem_effects (List.mem_append_right _ (List.mem_cons_of_mem _ hmem)) rfl

end LocalFiles.Conditional
