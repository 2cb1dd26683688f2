import LocalFiles.Conditional.Discipline

/-!
# CandidateCopy — the independent copy reaches the caller

A failed commit reports the candidate copy exactly when it had been verified; a successful one
removes every entry it keeps or hands it over together with the reason, the copy last.
-/

namespace LocalFiles.Conditional

open Interaction

variable {A δ : Type} [DecidableEq δ] (D : List UInt8 → δ)
variable {precondition : LocalWritePrecondition δ} {options : LocalWriteOptions}
variable {bytesWritten : UInt64} {currentDirectory : Option Path} {tr : Trace A}

/-! ## 1. Receipts -/

/-- The entries that a receipt of the backend carries. -/
def receiptEntries : (c : Call A) → Answer A c → List (ConditionalEntry A)
  | .publishAbsent, attempt =>
    (NativeAttempt.installed attempt).toList ++ NativeAttempt.displaced attempt
  | .publishContent, attempt =>
    (NativeAttempt.installed attempt).toList ++ NativeAttempt.displaced attempt
  | .rollback _, receipt =>
    (NativeAttempt.installed receipt).toList ++ NativeAttempt.displaced receipt
  | .takeRecoveryEntries, taken => taken
  | _, _ => []

/-- No receipt in `tr` carries the role of the candidate copy, which only the protocol gives. -/
def ReceiptsWithoutCopy (tr : Trace A) : Prop :=
  ∀ ev ∈ tr, ∀ entry ∈ receiptEntries ev.call ev.answer, entry.role ≠ .candidateCopy

/-! ## 2. The run of `prepare_copy` -/

/-- In the run `tr` the call of `prepare_copy` succeeded with `copy`. -/
def CopyPrepared (tr : Trace A) (copy : ConditionalEntry A) : Prop :=
  ∃ candidate bytes made rest,
    tr = candidateTrace candidate bytes ++
      ⟨.checkpoint .prepareCandidateCopy, Except.ok ()⟩ :: (made ++ rest) ∧
    (prepareCopy D (D bytes)).Runs made (.ok copy)

/-- The run of `prepare_copy` is determined by the run of the commit around it. -/
theorem CopyPrepared.result {candidate copy : ConditionalEntry A} {bytes : List UInt8}
    {made rest : Trace A}
    {r : Except (IoError × Option (ConditionalEntry A)) (ConditionalEntry A)}
    (h : CopyPrepared D tr copy)
    (htr : tr = candidateTrace candidate bytes ++
      ⟨.checkpoint .prepareCandidateCopy, Except.ok ()⟩ :: (made ++ rest))
    (hmade : (prepareCopy D (D bytes)).Runs made r) : r = .ok copy := by
  obtain ⟨candidate', bytes', made', rest', htr', hmade'⟩ := h
  obtain ⟨rfl, rfl, htail⟩ := candidateTrace_inj (htr.symm.trans htr')
  obtain ⟨-, hmades⟩ := List.cons.inj htail
  exact (hmade.deterministic hmade' hmades).2

theorem runs_copyTrace {created : ConditionalEntry A} {bytes copyBytes : List UInt8}
    (hdigest : D copyBytes = D bytes) :
    (prepareCopy D (D bytes)).Runs (copyTrace created copyBytes)
      (.ok (created.setRole .candidateCopy)) := by
  rw [prepareCopy, Prog.runs_bind]
  refine ⟨[⟨.createCandidateCopy, Except.ok created⟩], _, .ok created, rfl,
    runs_createCandidateCopy.mpr rfl, ?_⟩
  refine Prog.runs_bind.mpr ⟨[⟨.checkpoint .candidateCopyCreated, Except.ok ()⟩], _, .ok (), rfl,
    runs_checkpoint.mpr rfl, ?_⟩
  refine Prog.runs_bind.mpr ⟨_, [], _, (List.append_nil _).symm, runs_readBack D _ copyBytes, ?_⟩
  simp only [hdigest, ne_eq, not_true_eq_false, if_false]
  exact ⟨rfl, rfl⟩

theorem copyPrepared_of_copied {candidate created : ConditionalEntry A}
    {bytes copyBytes : List UInt8} (hdigest : D copyBytes = D bytes)
    (hbegin : copiedTrace candidate created bytes copyBytes <+: tr) :
    CopyPrepared D tr (created.setRole .candidateCopy) := by
  obtain ⟨rest, rfl⟩ := hbegin
  refine ⟨candidate, bytes, copyTrace created copyBytes, rest, ?_, runs_copyTrace D hdigest⟩
  rw [copiedTrace, List.append_assoc, List.cons_append]

/-- A prepared copy is the created entry, read back with the digest of the candidate. -/
theorem CopyPrepared.verified {copy : ConditionalEntry A} (h : CopyPrepared D tr copy) :
    ∃ candidate created bytes copyBytes,
      copiedTrace candidate created bytes copyBytes <+: tr ∧ D copyBytes = D bytes ∧
      copy = created.setRole .candidateCopy := by
  obtain ⟨candidate, bytes, made, rest, rfl, hmade⟩ := h
  obtain ⟨_, habs, -⟩ | ⟨_, _, habs, -⟩ | ⟨created, copyBytes, heq, hdigest, rfl⟩ :=
    prepareCopy_runs D hmade
  · cases habs
  · cases habs
  · cases heq
    refine ⟨candidate, created, bytes, copyBytes, ⟨rest, ?_⟩, hdigest, rfl⟩
    rw [copiedTrace, List.append_assoc, List.cons_append]

/-! ## 3. A failed run -/

/-- After the publication the entries kept before it stay in front. -/
theorem Settlement.entries {candidateDigest : δ} {attempt : NativeAttempt A} {s s' : Locals A}
    {r : Except (LocalConditionalWriteStage × IoError) (ConditionalEntry A × δ)}
    (h : Settlement D precondition options candidateDigest attempt s tr r s') :
    ∃ kept, s'.entries = s.entries ++ kept := by
  cases h with
  | refused hrefused =>
    obtain ⟨role, -, hkept⟩ := hrefused.kept
    exact ⟨_, hkept⟩
  | unverified _ _ _ _ hentries _ => exact ⟨_, hentries⟩
  | unchecked _ _ _ hentries _ => exact ⟨_, hentries⟩
  | rolledBack _ _ _ _ hentries _ => exact ⟨_, hentries⟩
  | unsynced _ _ _ _ hentries _ => exact ⟨_, hentries⟩
  | settled _ _ => exact ⟨_, rfl⟩

/-- The entries of a failed run: the verified copy in front, an unverified one alone, or none. -/
theorem commit_error_entries {e : LocalConditionalCommitError A}
    (h : (commitConditionalWithDirectory D precondition options bytesWritten currentDirectory).Runs
      tr (.error e)) :
    ∃ taken entries, ⟨.takeRecoveryEntries, taken⟩ ∈ tr ∧
      e.recoveryFiles = taken.map (·.intoRecovery) ++ entries.map (·.intoRecovery) ∧
      ((∃ copy kept, CopyPrepared D tr copy ∧ entries = copy :: kept) ∨
        (∀ copy, ¬ CopyPrepared D tr copy) ∧
        ((∀ created, ⟨.createCandidateCopy, Except.ok created⟩ ∉ tr) ∧ entries = [] ∨
          ∃ created, (∀ other, ⟨.createCandidateCopy, Except.ok other⟩ ∈ tr → other = created) ∧
            entries = [created.setRole .stagedCandidate])) := by
  obtain ⟨body, stage, source, s, taken, rfl, rfl, hbody⟩ := commit_error_runs D h
  refine ⟨taken, s.entries, by simp, rfl, ?_⟩
  obtain ⟨hunpublished, -⟩ | ⟨candidate, created, bytes, before, attempt, after, hready, rfl,
    hsettled⟩ := hbody
  · -- nothing was published: there is at most the copy of the candidate
    generalize hentries : s.entries = entries at hunpublished
    cases hunpublished with
    | uncopied hstage hblame hcopy heffects =>
      have hnone (created : ConditionalEntry A) : ⟨.createCandidateCopy, Except.ok created⟩ ∉
          body ++ [⟨.takeRecoveryEntries, taken⟩] := by
        intro hmem
        rcases List.mem_append.mp hmem with hmem | hmem
        · exact hcopy created hmem
        · cases List.mem_singleton.mp hmem
      refine .inr ⟨fun copy hprepared => ?_, .inl ⟨hnone, rfl⟩⟩
      obtain ⟨_, created, _, _, hbegin, -⟩ := hprepared.verified
      exact hnone created (hbegin.subset (by simp [copiedTrace, copyTrace]))
    | @unverified candidate copy bytes made err hmade =>
      refine .inr ⟨fun copy' hprepared => ?_, .inr ?_⟩
      · have hresult := hprepared.result D
          (by rw [List.append_assoc, List.cons_append]) hmade
        cases hresult
      · obtain ⟨_, habs, -⟩ | ⟨created, _, heq, hcreated, heffects, -⟩ | ⟨_, _, habs, -⟩ :=
          prepareCopy_runs D hmade
        · cases habs
        · cases heq
          refine ⟨created, fun other hother => ?_, rfl⟩
          -- only one call of the run makes a copy
          have hcount : (effects (candidateTrace candidate bytes ++
              ⟨.checkpoint .prepareCandidateCopy, Except.ok ()⟩ :: made ++
              [⟨.takeRecoveryEntries, taken⟩])).count .copies ≤ 1 := by
            simp [heffects, candidateTrace]
          have hmade : (⟨.createCandidateCopy, Except.ok created⟩ : Event (Call A) (Answer A)) ∈
              candidateTrace candidate bytes ++
                ⟨.checkpoint .prepareCandidateCopy, Except.ok ()⟩ :: made ++
                [⟨.takeRecoveryEntries, taken⟩] :=
            List.mem_append_left _ (List.mem_append_right _ (List.mem_cons_of_mem _ hcreated))
          cases eq_of_count_effect hcount hother hmade rfl rfl
          rfl
        · cases habs
    | unready hdigest _ _ _ =>
      refine .inl ⟨_, [], ?_, rfl⟩
      apply copyPrepared_of_copied D hdigest
      exact (List.prefix_append _ _).trans (List.prefix_append _ _)
    | refused hdigest _ _ _ _ =>
      refine .inl ⟨_, [], ?_, rfl⟩
      apply copyPrepared_of_copied D hdigest
      exact ((List.prefix_append _ _).trans (List.prefix_append _ _)).trans (List.prefix_append _ _)
  · -- published: the copy comes first, then what the settlement has kept
    obtain ⟨kept, hkept⟩ := hsettled.entries
    obtain ⟨copyBytes, synced, checked, current, hdigest, -, -, -, rfl⟩ := hready.calls
    refine .inl ⟨created.setRole .candidateCopy, kept, ?_, hkept⟩
    apply copyPrepared_of_copied D hdigest
    simp only [List.append_assoc]
    exact List.prefix_append _ _

/-- The candidate of the error is the first reported file with that role. -/
theorem candidate_eq_some {e : LocalConditionalCommitError A} {file : LocalRecoveryFile A}
    {before after : List (LocalRecoveryFile A)} (hfiles : e.recoveryFiles = before ++ file :: after)
    (hbefore : ∀ other ∈ before, other.role ≠ .candidateCopy) (hfile : file.role = .candidateCopy) :
    e.candidate = some file := by
  have hskip : before.find? (fun other => other.role = .candidateCopy) = none := by
    rw [List.find?_eq_none]
    intro other hother
    simpa using hbefore other hother
  rw [LocalConditionalCommitError.candidate, hfiles, List.find?_append, hskip, Option.none_or,
    List.find?_cons_of_pos (by simpa using hfile)]

theorem candidate_eq_none {e : LocalConditionalCommitError A} :
    e.candidate = none ↔ ∀ file ∈ e.recoveryFiles, file.role ≠ .candidateCopy := by
  rw [LocalConditionalCommitError.candidate, List.find?_eq_none]
  simp

/-- What a failed commit reports of the candidate copy. -/
theorem commit_error_candidate {e : LocalConditionalCommitError A}
    (hreceipts : ReceiptsWithoutCopy tr)
    (h : (commitConditionalWithDirectory D precondition options bytesWritten currentDirectory).Runs
      tr (.error e)) :
    (∀ file, e.candidate = some file ↔ ∃ copy, CopyPrepared D tr copy ∧ copy.intoRecovery = file) ∧
    ((∀ copy, ¬ CopyPrepared D tr copy) → ∀ created,
      ⟨.createCandidateCopy, Except.ok created⟩ ∈ tr →
        (created.setRole .stagedCandidate).intoRecovery ∈ e.recoveryFiles ∧
        ∀ file ∈ e.recoveryFiles, file.role ≠ .candidateCopy) := by
  obtain ⟨taken, entries, htaken, hfiles, hentries⟩ := commit_error_entries D h
  have hroles : ∀ file ∈ taken.map (·.intoRecovery), file.role ≠ .candidateCopy := by
    intro file hfile
    obtain ⟨entry, hentry, rfl⟩ := List.mem_map.mp hfile
    exact hreceipts _ htaken entry hentry
  obtain ⟨copy, kept, hprepared, rfl⟩ | ⟨hnone, hentries⟩ := hentries
  · have hrole : copy.intoRecovery.role = .candidateCopy := by
      obtain ⟨_, created, _, _, -, -, rfl⟩ := hprepared.verified
      rfl
    rw [List.map_cons] at hfiles
    rw [candidate_eq_some hfiles hroles hrole]
    refine ⟨fun file => ⟨fun heq => ⟨copy, hprepared, Option.some.inj heq⟩, ?_⟩,
      fun hnone => absurd hprepared (hnone copy)⟩
    rintro ⟨other, ⟨candidate, bytes, made, rest, htr, hmade⟩, rfl⟩
    cases hprepared.result D htr hmade
    rfl
  · have hall : ∀ file ∈ e.recoveryFiles, file.role ≠ .candidateCopy := by
      rw [hfiles, List.forall_mem_append]
      refine ⟨hroles, ?_⟩
      obtain ⟨-, rfl⟩ | ⟨created, -, rfl⟩ := hentries
      · simp
      · simp
    refine ⟨fun file => ?_, fun _ created hcreated => ⟨?_, hall⟩⟩
    · rw [candidate_eq_none.mpr hall]
      exact ⟨nofun, fun ⟨copy, hprepared, _⟩ => absurd hprepared (hnone copy)⟩
    · obtain ⟨habs, -⟩ | ⟨other, honly, rfl⟩ := hentries
      · exact absurd hcreated (habs created)
      · rw [honly created hcreated, hfiles]
        simp

/-! ## 4. A successful run -/

/-- `error` says that `file` was left behind. -/
def Reports (error : LocalFileError) (file : LocalRecoveryFile A) : Prop :=
  error.operation = .cleanup ∧ error.path = some file.namespacePath

/-- Each entry is removed or retained, once, and every retained one has its own error. -/
theorem Cleaned.accounts {entries : List (ConditionalEntry A)} {errors : List LocalFileError}
    {retained : List (LocalRecoveryFile A)} (h : Cleaned entries tr errors retained) :
    List.Forall₂ Reports errors retained ∧ ∃ removed : List (ConditionalEntry A),
      (removed.map (·.intoRecovery) ++ retained).Perm (entries.map (·.intoRecovery)) ∧
      ∀ entry ∈ removed, ⟨.removeObserved entry, Except.ok ()⟩ ∈ tr := by
  induction h with
  | nil => exact ⟨.nil, [], .nil, by simp⟩
  | @removed entry rest calls tr errors retained hcalls htail ih =>
    obtain ⟨hreports, removed, hperm, hremoved⟩ := ih
    refine ⟨hreports, entry :: removed, hperm.cons _, ?_⟩
    rw [List.forall_mem_cons]
    refine ⟨?_, fun other hother => List.mem_append_right _ (hremoved other hother)⟩
    -- Only a removal that succeeded ends without an error.
    generalize hnone : (none : Option IoError) = error at hcalls
    cases hcalls with
    | skipped point source => cases hnone
    | unverified point source => cases hnone
    | removal point answer =>
      cases answer with
      | error source => cases hnone
      | ok _ => simp
  | @retained entry source rest calls tr errors retained hcalls htail ih =>
    obtain ⟨hreports, removed, hperm, hremoved⟩ := ih
    refine ⟨.cons ⟨rfl, rfl⟩ hreports, removed, ?_, ?_⟩
    · exact List.perm_middle.trans (hperm.cons _)
    · exact fun other hother => List.mem_append_right _ (hremoved other hother)

theorem Cleaned.split {first second : List (ConditionalEntry A)} {errors : List LocalFileError}
    {retained : List (LocalRecoveryFile A)} (h : Cleaned (first ++ second) tr errors retained) :
    ∃ tr₁ tr₂ errors₁ errors₂ retained₁ retained₂,
      Cleaned first tr₁ errors₁ retained₁ ∧ Cleaned second tr₂ errors₂ retained₂ ∧
      tr = tr₁ ++ tr₂ ∧ errors = errors₁ ++ errors₂ ∧ retained = retained₁ ++ retained₂ := by
  induction first generalizing tr errors retained with
  | nil => exact ⟨[], tr, [], errors, [], retained, .nil, h, rfl, rfl, rfl⟩
  | cons entry rest ih =>
    cases h with
    | removed _ hcalls htail =>
      obtain ⟨tr₁, tr₂, errors₁, errors₂, retained₁, retained₂, h₁, h₂, rfl, rfl, rfl⟩ := ih htail
      exact ⟨_, tr₂, errors₁, errors₂, retained₁, retained₂, .removed entry hcalls h₁, h₂,
        (List.append_assoc _ _ _).symm, rfl, rfl⟩
    | retained _ source hcalls htail =>
      obtain ⟨tr₁, tr₂, errors₁, errors₂, retained₁, retained₂, h₁, h₂, rfl, rfl, rfl⟩ := ih htail
      exact ⟨_, tr₂, _, errors₂, _, retained₂, .retained entry source hcalls h₁, h₂,
        (List.append_assoc _ _ _).symm, rfl, rfl⟩

theorem cleanupOrder_eq {copy : ConditionalEntry A} {displaced : List (ConditionalEntry A)}
    (hcopy : copy.role = .candidateCopy) (hdisplaced : ∀ entry ∈ displaced, entry.role ≠ .candidateCopy) :
    cleanupOrder (copy :: displaced) = displaced ++ [copy] := by
  have hothers : displaced.filter (fun entry => entry.role ≠ .candidateCopy) = displaced := by
    rw [List.filter_eq_self]
    intro entry hentry
    exact decide_eq_true (hdisplaced entry hentry)
  have hcopies : displaced.filter (fun entry => entry.role = .candidateCopy) = [] := by
    rw [List.filter_eq_nil_iff]
    intro entry hentry
    simpa using hdisplaced entry hentry
  rw [cleanupOrder, List.filter_cons_of_neg (by simp [hcopy]),
    List.filter_cons_of_pos (by simpa using hcopy), hothers, hcopies]

/-- How a successful commit settles the entries it kept, the copy and the displaced ones. -/
inductive EntriesSettled (copy : ConditionalEntry A) (displaced : List (ConditionalEntry A))
    (outcome : LocalConditionalWriteOutcome A δ) (tr : Trace A) : Prop
  /-- The `saveComplete` checkpoint failed: nothing is removed and one error stands for all. -/
  | skipped (source : IoError)
      (hpoint : ⟨.checkpoint .saveComplete, Except.error source⟩ ∈ tr)
      (hremoves : .removes ∉ effects tr)
      (hretained : outcome.retainedFiles = (copy :: displaced).map (·.intoRecovery))
      (herror : ∃ error ∈ outcome.cleanupErrors, error.operation = .cleanup ∧ error.path = none)
  /-- The displaced entries and then the copy were cleaned up; each one is removed or retained,
      once, and each retained one has an error of its own. -/
  | cleaned (old last : Trace A) (oldErrors lastErrors reports others : List LocalFileError)
      (oldRetained lastRetained : List (LocalRecoveryFile A))
      (removed : List (ConditionalEntry A))
      (hcalls : ⟨.checkpoint .saveComplete, Except.ok ()⟩ :: (old ++ last) <:+: tr)
      (hold : Cleaned displaced old oldErrors oldRetained)
      (hlast : Cleaned [copy] last lastErrors lastRetained)
      (hretained : outcome.retainedFiles = oldRetained ++ lastRetained)
      (hremoved : ∀ entry ∈ removed, ⟨.removeObserved entry, Except.ok ()⟩ ∈ tr)
      (honce : (removed.map (·.intoRecovery) ++ outcome.retainedFiles).Perm
        ((copy :: displaced).map (·.intoRecovery)))
      (herrors : outcome.cleanupErrors = reports ++ others)
      (hreports : List.Forall₂ Reports reports outcome.retainedFiles)

omit [DecidableEq δ] in
/-- The errors of an outcome are the collected ones, with the captured directory added. -/
theorem commitOutcome_errors {digest : δ} {s : Locals A} {errors others : List LocalFileError}
    {retained : List (LocalRecoveryFile A)} (hreports : List.Forall₂ Reports errors retained) :
    ∃ reports more, (commitOutcome bytesWritten currentDirectory digest s (errors ++ others)
        retained).cleanupErrors = reports ++ more ∧ List.Forall₂ Reports reports retained := by
  refine ⟨_, _, List.map_append, ?_⟩
  induction hreports with
  | nil => exact .nil
  | @cons error file _ _ hfirst _ ih =>
    refine .cons ?_ ih
    dsimp only
    split
    · exact hfirst
    · exact hfirst

theorem commit_ok_cleanup {outcome : LocalConditionalWriteOutcome A δ}
    (hreceipts : ReceiptsWithoutCopy tr)
    (h : (commitConditionalWithDirectory D precondition options bytesWritten currentDirectory).Runs
      tr (.ok outcome)) :
    ∃ copy attempt, CopyPrepared D tr copy ∧ publishEvent precondition attempt ∈ tr ∧
      EntriesSettled copy attempt.displaced outcome tr := by
  cases commit_ok_runs D h with
  | @intro candidate created installed bytes before checked synced cleanup sync attempt stage
      fileSynced errors syncErrors retained hready hchecked hsynced hcleanup hsync =>
    have hprepared : CopyPrepared D (before ++ publishEvent precondition attempt ::
        (checked ++ synced ++ (cleanup ++ sync))) (created.setRole .candidateCopy) := by
      obtain ⟨copyBytes, synced, checked, current, hdigest, -, -, -, rfl⟩ := hready.calls
      apply copyPrepared_of_copied D hdigest
      simp only [List.append_assoc]
      exact List.prefix_append _ _
    have hpublished : publishEvent precondition attempt ∈ before ++ publishEvent precondition attempt ::
        (checked ++ synced ++ (cleanup ++ sync)) := List.mem_append_right _ List.mem_cons_self
    have hdisplaced : ∀ entry ∈ attempt.displaced, entry.role ≠ .candidateCopy := by
      intro entry hentry
      have hreceipt := hreceipts _ hpublished entry
      cases precondition <;> exact hreceipt (List.mem_append_right _ hentry)
    have hwithin : cleanup <:+: before ++ publishEvent precondition attempt ::
        (checked ++ synced ++ (cleanup ++ sync)) := by
      refine List.infix_append_of_infix_right (List.infix_cons ?_)
      exact List.infix_append_of_infix_right List.infix_append_left
    refine ⟨_, attempt, hprepared, hpublished, ?_⟩
    -- the entries are left as they are, or removed one after the other
    cases hcleanup with
    | skipped source =>
      refine .skipped source (hwithin.subset (List.mem_singleton_self _)) ?_ rfl ?_
      · rw [effects_append, effects_cons, publishEvent_effect, hready.effects_eq]
        simp [hchecked.quiet.1, effects_of_onlySyncs hsynced.onlySyncs, effects_of_cleanupSync hsync]
      · refine ⟨_, List.mem_map_of_mem List.mem_cons_self, ?_⟩
        split
        · exact ⟨rfl, rfl⟩
        · exact ⟨rfl, rfl⟩
    | @done cleaned errors more _ hcleaned =>
      rw [cleanupOrder_eq rfl hdisplaced] at hcleaned
      obtain ⟨hreports, removed, hperm, hremoved⟩ := hcleaned.accounts
      obtain ⟨old, last, oldErrors, lastErrors, oldRetained, lastRetained, hold, hlast, rfl, rfl,
        rfl⟩ := hcleaned.split
      obtain ⟨reports, others, herrors, hmatch⟩ := @commitOutcome_errors A δ bytesWritten
        currentDirectory (D bytes)
        (Locals.committed options created before attempt stage fileSynced synced)
        _ (more ++ syncErrors) _ hreports
      refine .cleaned old last oldErrors lastErrors reports others oldRetained lastRetained removed
        ?_ hold hlast rfl ?_ ?_ ?_ hmatch
      · exact List.infix_append_left.trans hwithin
      · intro entry hentry
        have hmem := hremoved entry hentry
        exact hwithin.subset (List.mem_append_left _ (List.mem_cons_of_mem _ hmem))
      · refine hperm.trans ?_
        rw [List.map_append]
        exact List.perm_append_comm
      · rw [← herrors, List.append_assoc]

/-- **The candidate copy survives.**  Against a backend whose receipts do not claim to be the
    candidate copy: a failed commit reports a candidate exactly when `prepare_copy` succeeded, and
    then it is the created entry, read back with the candidate's digest; a created entry that was
    not verified is reported as staged.  A successful commit removes or retains every entry it
    kept, the copy last, with an error for each retained one, unless its `saveComplete` checkpoint
    fails: then it retains them all. -/
theorem commit_copy_survives
    {result : Except (LocalConditionalCommitError A) (LocalConditionalWriteOutcome A δ)}
    (hreceipts : ReceiptsWithoutCopy tr)
    (h : (commitConditionalWithDirectory D precondition options bytesWritten currentDirectory).Runs
      tr result) :
    (∀ e, result = .error e →
      (∀ file, e.candidate = some file ↔ ∃ copy, CopyPrepared D tr copy ∧ copy.intoRecovery = file) ∧
      (∀ copy, CopyPrepared D tr copy → ∃ candidate created bytes copyBytes,
        copiedTrace candidate created bytes copyBytes <+: tr ∧ D copyBytes = D bytes ∧
        copy = created.setRole .candidateCopy) ∧
      ((∀ copy, ¬ CopyPrepared D tr copy) → ∀ created,
        ⟨.createCandidateCopy, Except.ok created⟩ ∈ tr →
          (created.setRole .stagedCandidate).intoRecovery ∈ e.recoveryFiles ∧
          ∀ file ∈ e.recoveryFiles, file.role ≠ .candidateCopy)) ∧
    (∀ outcome, result = .ok outcome →
      ∃ copy attempt, CopyPrepared D tr copy ∧ publishEvent precondition attempt ∈ tr ∧
        EntriesSettled copy attempt.displaced outcome tr) := by
  constructor
  · intro e hresult
    rw [hresult] at h
    obtain ⟨hcandidate, hstaged⟩ := commit_error_candidate D hreceipts h
    exact ⟨hcandidate, fun copy hprepared => hprepared.verified, hstaged⟩
  · intro outcome hresult
    rw [hresult] at h
    exact commit_ok_cleanup D hreceipts h

/-- The receipts of a run against a sample backend, checked by evaluation. -/
def receiptsWithoutCopy (tr : Trace Nat) : Bool :=
  tr.all fun ev => (receiptEntries ev.call ev.answer).all (·.role ≠ .candidateCopy)

theorem receiptsWithoutCopy_of_check {tr : Trace Nat} (h : receiptsWithoutCopy tr = true) :
    ReceiptsWithoutCopy tr := by
  intro ev hev entry hentry
  have hall := List.all_eq_true.mp (List.all_eq_true.mp h ev hev) entry hentry
  exact of_decide_eq_true hall

theorem commit_copy_survives_conflict :
    ∃ e, (sampleRun (sampleBackend overtaken restored) (.content [0]) {}).2 = .error e ∧
      e.candidate.isSome = true ∧
      ∃ copy, CopyPrepared id (sampleRun (sampleBackend overtaken restored) (.content [0]) {}).1
        copy := by
  have herror : errorAnd (fun e => e.candidate.isSome)
      (sampleRun (sampleBackend overtaken restored) (.content [0]) {}).2 = true := by
    decide +kernel
  obtain ⟨e, he, hsome⟩ := exists_of_errorAnd herror
  have hreceipts : receiptsWithoutCopy
      (sampleRun (sampleBackend overtaken restored) (.content [0]) {}).1 = true := by
    decide +kernel
  have hrun := sampleRun_runs (sampleBackend overtaken restored) (.content [0]) {}
  have hcopy := ((commit_copy_survives id (receiptsWithoutCopy_of_check hreceipts) hrun).1 e he).1
  obtain ⟨file, hfile⟩ := Option.isSome_iff_exists.mp hsome
  obtain ⟨copy, hprepared, -⟩ := (hcopy file).mp hfile
  exact ⟨e, he, hsome, copy, hprepared⟩

/-- A commit whose `saveComplete` checkpoint fails retains its copy without an error that names
    it. -/
theorem commit_retained_unreported :
    ∃ tr outcome, (commitConditionalWithDirectory id (.content [0]) {} 1 none).Runs tr
        (.ok outcome) ∧ ReceiptsWithoutCopy (A := Nat) tr ∧
      ∃ file ∈ outcome.retainedFiles, ∀ error ∈ outcome.cleanupErrors,
        error.path ≠ some file.namespacePath := by
  let backend := failingAt .saveComplete ⟨.other, "injected", none⟩
    (sampleBackend exchanged exchanged)
  have hok : okAnd (fun outcome => outcome.retainedFiles.any fun file =>
      outcome.cleanupErrors.all fun error => error.path ≠ some file.namespacePath)
      (sampleRun backend (.content [0]) {}).2 = true := by
    decide +kernel
  have hreceipts : receiptsWithoutCopy (sampleRun backend (.content [0]) {}).1 = true := by
    decide +kernel
  obtain ⟨outcome, houtcome, hfile⟩ := exists_of_okAnd hok
  have hrun := sampleRun_runs backend (.content [0]) {}
  rw [houtcome] at hrun
  refine ⟨_, outcome, hrun, receiptsWithoutCopy_of_check hreceipts, ?_⟩
  obtain ⟨file, hmem, hall⟩ := List.any_eq_true.mp hfile
  refine ⟨file, hmem, fun error herror => ?_⟩
  exact of_decide_eq_true (List.all_eq_true.mp hall error herror)

end LocalFiles.Conditional
