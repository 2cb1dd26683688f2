import LocalFiles.Conditional.Discipline

/-!
# Durability — what the durability flags of an outcome say

The durable flag starts from the requested durability and is cleared by every failed
synchronization that does not end the commit; the file flag is set by the synchronization of the
installed entry alone.  Both are compared here with the synchronizations the run attempted.
-/

namespace LocalFiles.Conditional

open Interaction

variable {A δ : Type} [DecidableEq δ] (D : List UInt8 → δ)
variable {precondition : LocalWritePrecondition δ} {options : LocalWriteOptions}
variable {bytesWritten : UInt64} {currentDirectory : Option Path} {tr : Trace A}

/-! ## 1. Calls that occur in one part of a run only -/

/-- The preservation of the metadata, and the end of the body. -/
def Call.marks : Call A → Bool
  | .preserveMetadata _ => true
  | .checkpoint .saveComplete => true
  | _ => false

/-- No call of `tr` is one of the marks. -/
def Unmarked (tr : Trace A) : Prop := ∀ ev ∈ tr, ev.call.marks = false

theorem unmarked_of_syncs (h : ∀ ev ∈ tr, ev.call.synchronizes) : Unmarked tr := by
  intro ev hev
  have hsync := h ev hev
  cases hcall : ev.call with
  | preserveMetadata _ => rw [hcall] at hsync; cases hsync
  | checkpoint point =>
    rw [hcall] at hsync
    cases point <;> first | rfl | cases hsync
  | _ => rfl

@[simp] theorem unmarked_append {tr₁ tr₂ : Trace A} :
    Unmarked (tr₁ ++ tr₂) ↔ Unmarked tr₁ ∧ Unmarked tr₂ := List.forall_mem_append

@[simp] theorem unmarked_cons {ev : Event (Call A) (Answer A)} :
    Unmarked (ev :: tr) ↔ ev.call.marks = false ∧ Unmarked tr := List.forall_mem_cons

@[simp] theorem unmarked_nil : Unmarked ([] : Trace A) := by
  simp [Unmarked]

theorem Unmarked.excludes (h : Unmarked tr) :
    ∀ ev ∈ tr, ev.call ≠ .checkpoint .saveComplete ∧
      ∀ target, ev.call ≠ .preserveMetadata target := by
  intro ev hev
  have hmark := h ev hev
  constructor
  · intro hcall
    rw [hcall] at hmark
    cases hmark
  · intro target hcall
    rw [hcall] at hmark
    cases hmark

/-- The calls of the verification after the publication. -/
def Call.observes : Call A → Bool
  | .checkpoint .afterPublish => true
  | .checkpoint .verifyDisplaced => true
  | .checkpoint .verifyInstalled => true
  | .verifyEntry _ => true
  | .isCandidate _ => true
  | .openReader _ => true
  | .seekStart _ => true
  | .readAll _ => true
  | _ => false

theorem Call.observes_excludes {c : Call A} (h : c.observes) :
    c.marks = false ∧ c.synchronizes = false := by
  cases c with
  | checkpoint point => cases point <;> first | exact ⟨rfl, rfl⟩ | cases h
  | _ => first | exact ⟨rfl, rfl⟩ | cases h

theorem Verified.observes {displaced kept : List (ConditionalEntry A)} {found : Bool}
    (h : Verified D precondition displaced tr kept found) : ∀ ev ∈ tr, ev.call.observes := by
  induction h with
  | nil => simp
  | cons entry bytes _ ih =>
    rw [List.forall_mem_append]
    refine ⟨?_, ih⟩
    cases precondition <;> simp [displacedTrace, readBack, Call.observes]

theorem Checked.observes {candidateDigest : δ} {attempt : NativeAttempt A}
    {installed : ConditionalEntry A} {kept : List (ConditionalEntry A)} {conflict : Bool}
    (h : Checked D precondition candidateDigest attempt installed kept conflict tr) :
    ∀ ev ∈ tr, ev.call.observes := by
  obtain ⟨verified, identity, bytes, found, hverified, -, rfl⟩ := h.calls
  rw [List.forall_mem_append, List.forall_mem_cons]
  refine ⟨⟨rfl, hverified.observes⟩, ?_⟩
  simp [installedTrace, readBack, Call.observes]

theorem CleanedUp.starts {entries : List (ConditionalEntry A)} {errors : List LocalFileError}
    {retained : List (LocalRecoveryFile A)} (h : CleanedUp entries tr errors retained) :
    ∃ answer rest, tr = ⟨.checkpoint .saveComplete, answer⟩ :: rest := by
  cases h with
  | skipped source => exact ⟨_, _, rfl⟩
  | done hcleaned => exact ⟨_, _, rfl⟩

theorem CleanedUp.preserves {entries : List (ConditionalEntry A)} {errors : List LocalFileError}
    {retained : List (LocalRecoveryFile A)} (h : CleanedUp entries tr errors retained) :
    ∀ ev ∈ tr, ∀ target, ev.call ≠ .preserveMetadata target := by
  have hentry {entry : ConditionalEntry A} {calls : Trace A} {error : Option IoError}
      (hcalls : CleanupCalls entry calls error) :
      ∀ ev ∈ calls, ∀ target, ev.call ≠ .preserveMetadata target := by
    cases hcalls <;> simp
  cases h with
  | skipped source => simp
  | done hcleaned =>
    rw [List.forall_mem_append, List.forall_mem_cons]
    refine ⟨⟨by simp, ?_⟩, by simp⟩
    generalize cleanupOrder entries = ordered at hcleaned
    induction hcleaned with
    | nil => simp
    | removed _ hcalls _ ih =>
      rw [List.forall_mem_append]
      exact ⟨hentry hcalls, ih⟩
    | retained _ _ hcalls _ ih =>
      rw [List.forall_mem_append]
      exact ⟨hentry hcalls, ih⟩

/-! ## 2. Before the publication -/

omit [DecidableEq δ] in
/-- With a required durability every synchronization before the publication succeeded. -/
theorem Ready.syncs_required {candidate created : ConditionalEntry A} {bytes : List UInt8}
    (h : Ready D precondition options candidate created bytes tr)
    (hrequired : options.durability = .required) : syncsSucceed tr = true := by
  obtain ⟨copyBytes, synced, checked, current, -, hsynced, haccepted, -, rfl⟩ := h.calls
  have hbefore : syncsSucceed synced = true := by
    rw [hsynced.namespaceSync hrequired]
    rfl
  have htarget : syncsSucceed checked = true := by
    cases haccepted with
    | absent err hkind => rfl
    | content target content preserved hpreserved =>
      cases hpreserved with
      | ignored _ => rfl
      | unsynced _ => rfl
      | synced answer _ hanswer =>
        rw [hanswer (syncRequirement_of_required hrequired)]
        rfl
  simp [hbefore, htarget, precheckTrace, Call.synchronizes]

/-- `tr` has at most one mark, a preservation of the metadata that is followed by `post`. -/
def MarkedOnce (options : LocalWriteOptions) (tr : Trace A) : Prop :=
  Unmarked tr ∨ ∃ pre target post,
    tr = pre ++ ⟨.preserveMetadata target, Except.ok ()⟩ :: post ∧ Unmarked pre ∧ Unmarked post ∧
    (syncRequirement options ≠ .notRequired → ∃ answer rest, post = ⟨.syncCandidate, answer⟩ :: rest)

theorem MarkedOnce.between {tr₁ tr₂ : Trace A} (h : MarkedOnce options tr) (h₁ : Unmarked tr₁)
    (h₂ : Unmarked tr₂) : MarkedOnce options (tr₁ ++ tr ++ tr₂) := by
  obtain hnone | ⟨pre, target, post, rfl, hpre, hpost, hsync⟩ := h
  · exact .inl (by simp [hnone, h₁, h₂])
  · refine .inr ⟨tr₁ ++ pre, target, post ++ tr₂, by simp, by simp [h₁, hpre], by simp [hpost, h₂],
      fun hrequired => ?_⟩
    obtain ⟨answer, rest, rfl⟩ := hsync hrequired
    exact ⟨answer, rest ++ tr₂, rfl⟩

omit [DecidableEq δ] in
theorem Accepted.markedOnce (h : Accepted D options precondition tr) : MarkedOnce options tr := by
  cases h with
  | absent err hkind => exact .inl (by simp [Call.marks])
  | content target content preserved hpreserved =>
    have hread : Unmarked (⟨.openTarget, Except.ok target⟩ :: readBack target content) := by
      simp [readBack, Call.marks]
    cases hpreserved with
    | ignored _ => exact .inl (by simpa using hread)
    | unsynced hnone =>
      exact .inr ⟨_, target, [], rfl, hread, unmarked_nil, fun hsync => absurd hnone hsync⟩
    | synced answer _ _ =>
      refine .inr ⟨_, target, [⟨.syncCandidate, answer⟩], rfl, hread, ?_, fun _ => ⟨answer, [], rfl⟩⟩
      simp [Call.marks]

omit [DecidableEq δ] in
theorem Ready.markedOnce {candidate created : ConditionalEntry A} {bytes : List UInt8}
    (h : Ready D precondition options candidate created bytes tr) : MarkedOnce options tr := by
  obtain ⟨copyBytes, synced, checked, current, -, hsynced, haccepted, -, rfl⟩ := h.calls
  have hbefore : Unmarked (copiedTrace candidate created bytes copyBytes ++
      ⟨.checkpoint .verifyCandidateCopy, Except.ok ()⟩ :: synced ++
        [⟨.checkpoint .precheck, Except.ok ()⟩]) := by
    simp [unmarked_of_syncs hsynced.onlySyncs, copiedTrace, candidateTrace, copyTrace, readBack,
      Call.marks]
  have hafter : Unmarked ([⟨.checkpoint .afterPrecheck, Except.ok ()⟩, ⟨.candidate, current⟩,
      ⟨.verifyEntry current, Except.ok ()⟩] ++ beginTrace) := by
    simp [beginTrace, Call.marks]
  have hmarked := (haccepted.markedOnce D).between hbefore hafter
  simpa [precheckTrace] using hmarked

/-! ## 3. The flags of an outcome -/

/-- The durable flag at the end of the body. -/
theorem committed_durable {candidate created installed : ConditionalEntry A} {bytes : List UInt8}
    {before checked synced : Trace A} {attempt : NativeAttempt A}
    {stage : LocalConditionalWriteStage} {fileSynced : Bool}
    (hready : Ready D precondition options candidate created bytes before)
    (hchecked : Checked D precondition (D bytes) attempt installed attempt.displaced false checked)
    (hsynced : SyncedAfter options installed synced fileSynced) :
    (Locals.committed options created before attempt stage fileSynced synced).durable = true ↔
      options.durability ≠ .notRequired ∧ syncsSucceed (before ++ (checked ++ synced)) = true := by
  rw [syncsSucceed_append, syncsSucceed_append, hchecked.quiet.2]
  have hflag : (Locals.committed options created before attempt stage fileSynced synced).durable =
      (options.durability ≠ .notRequired && (syncsSucceed before || options.durability ≠ .preferred)
        && (syncsSucceed synced || options.durability ≠ .preferred)) := rfl
  rw [hflag]
  cases hdurability : options.durability with
  | notRequired => simp
  | preferred => simp
  | required => simp [hready.syncs_required D hdurability, hsynced.required hdurability]

/-- The preservation of the metadata is in one place only, before the publication. -/
theorem MarkedOnce.cut {before after pre post : Trace A} {target : ConditionalEntry A}
    {answer : IoResult Unit} (h : MarkedOnce options before)
    (hafter : ∀ ev ∈ after, ∀ target, ev.call ≠ .preserveMetadata target)
    (htr : before ++ after = pre ++ ⟨.preserveMetadata target, answer⟩ :: post)
    (hsync : syncRequirement options ≠ .notRequired) :
    ∃ sync mid, pre ++ ⟨.preserveMetadata target, answer⟩ :: ⟨.syncCandidate, sync⟩ :: mid =
      before := by
  have hunmarked {tr : Trace A} (hnone : Unmarked tr) :
      ∀ ev ∈ tr, ¬ ∃ target, ev.call = .preserveMetadata target :=
    fun ev hev ⟨target, hcall⟩ => (hnone.excludes ev hev).2 target hcall
  have hlast : ∀ ev ∈ after, ¬ ∃ target, ev.call = .preserveMetadata target :=
    fun ev hev ⟨target, hcall⟩ => hafter ev hev target hcall
  obtain hnone | ⟨first, marked, rest, rfl, hfirst, hrest, hfollows⟩ := h
  · have hmem : (⟨.preserveMetadata target, answer⟩ : Event (Call A) (Answer A)) ∈
        before ++ after := by
      rw [htr]
      exact List.mem_append_right _ List.mem_cons_self
    rcases List.mem_append.mp hmem with hmem | hmem
    · exact absurd ⟨target, rfl⟩ (hunmarked hnone _ hmem)
    · exact absurd ⟨target, rfl⟩ (hlast _ hmem)
  · obtain ⟨sync, mid, rfl⟩ := hfollows hsync
    rw [List.append_assoc, List.cons_append] at htr
    have hcut := cut_unique (P := fun ev => ∃ target, ev.call = .preserveMetadata target) htr
      ⟨target, rfl⟩ (hunmarked hfirst) (List.forall_mem_append.mpr ⟨hunmarked hrest, hlast⟩)
    obtain ⟨rfl, hev, -⟩ := hcut
    rw [hev]
    exact ⟨sync, mid, rfl⟩

theorem MarkedOnce.saved (h : MarkedOnce options tr) :
    ∀ ev ∈ tr, ev.call ≠ .checkpoint .saveComplete := by
  obtain hnone | ⟨pre, target, post, rfl, hpre, hpost, -⟩ := h
  · exact fun ev hev => (hnone.excludes ev hev).1
  · rw [List.forall_mem_append, List.forall_mem_cons]
    exact ⟨fun ev hev => (hpre.excludes ev hev).1, nofun, fun ev hev => (hpost.excludes ev hev).1⟩

/-- **The durability flags are exact.**  The body of a successful run ends at its `saveComplete`
    checkpoint.  The outcome is durable exactly when durability was asked for and every
    synchronization of the body succeeded (the checkpoint that guards a synchronization belongs to
    it), which is always so when durability is required.  It is file-synchronized exactly when
    that was asked for and the installed entry was synchronized after the publication.  Whenever
    metadata were preserved, the candidate was synchronized after that and before the
    publication. -/
theorem commit_durability_exact {outcome : LocalConditionalWriteOutcome A δ}
    (h : (commitConditionalWithDirectory D precondition options bytesWritten currentDirectory).Runs
      tr (.ok outcome)) :
    ∃ before attempt installed after answer rest,
      tr = before ++ publishEvent precondition attempt ::
        (after ++ ⟨.checkpoint .saveComplete, answer⟩ :: rest) ∧
      (∀ ev ∈ before ++ after, ev.call.effect ≠ some .publishes ∧
        ev.call ≠ .checkpoint .saveComplete) ∧
      attempt.installed = some installed ∧
      (outcome.writeOutcome.durable = true ↔
        options.durability ≠ .notRequired ∧ syncsSucceed (before ++ after) = true) ∧
      (options.durability = .required → outcome.writeOutcome.durable = true) ∧
      (outcome.writeOutcome.fileSynced = true ↔ syncRequirement options ≠ .notRequired ∧
        ⟨.syncEntry installed, Except.ok ()⟩ ∈ after) ∧
      (syncRequirement options ≠ .notRequired → ∀ pre target answer post,
        tr = pre ++ ⟨.preserveMetadata target, answer⟩ :: post →
        ∃ sync mid, pre ++ ⟨.preserveMetadata target, answer⟩ :: ⟨.syncCandidate, sync⟩ :: mid =
          before) := by
  cases commit_ok_runs D h with
  | @intro candidate created installed bytes before checked synced cleanup sync attempt stage
      fileSynced errors syncErrors retained hready hchecked hsynced hcleanup hlast =>
    obtain ⟨answer, rest, rfl⟩ := hcleanup.starts
    -- what follows the publication only looks and synchronizes
    have hobserved : Unmarked (checked ++ synced) := by
      rw [unmarked_append]
      refine ⟨fun ev hev => ?_, unmarked_of_syncs hsynced.onlySyncs⟩
      exact (Call.observes_excludes (hchecked.observes D ev hev)).1
    have hdurable := @committed_durable A δ _ D precondition options candidate created installed bytes
      before checked synced attempt stage fileSynced hready hchecked hsynced
    refine ⟨before, attempt, installed, checked ++ synced, answer, rest ++ sync, by simp, ?_,
      hchecked.accepted.installed, hdurable, fun hrequired => hdurable.mpr ⟨?_, ?_⟩, ?_, ?_⟩
    · rw [List.forall_mem_append]
      refine ⟨fun ev hev => ⟨fun heffect => ?_, hready.markedOnce.saved ev hev⟩,
        fun ev hev => ⟨fun heffect => ?_, (hobserved.excludes ev hev).1⟩⟩
      · have hcopies := mem_effects hev heffect
        rw [hready.effects_eq] at hcopies
        exact absurd hcopies (by decide)
      · have hnone := mem_effects hev heffect
        rw [effects_append, hchecked.quiet.1, effects_of_onlySyncs hsynced.onlySyncs] at hnone
        cases hnone
    · rw [hrequired]
      decide
    · rw [syncsSucceed_append, syncsSucceed_append, hready.syncs_required D hrequired,
        hchecked.quiet.2, hsynced.required hrequired]
      rfl
    · show fileSynced = true ↔ _
      rw [hsynced.synced, List.mem_append]
      refine and_congr_right fun _ => ⟨.inr, fun hmem => hmem.resolve_left fun hmem => ?_⟩
      cases (Call.observes_excludes (hchecked.observes _ _ hmem)).2
    · -- metadata are preserved before the publication only, and synchronized next
      intro hsync pre target answer' post htr
      refine hready.markedOnce.cut ?_ htr hsync
      refine List.forall_mem_cons.mpr ⟨?_, List.forall_mem_append.mpr
        ⟨fun ev hev => (hobserved.excludes ev hev).2, List.forall_mem_append.mpr
          ⟨hcleanup.preserves, ?_⟩⟩⟩
      · cases precondition <;> exact nofun
      · intro ev hev target hcall
        obtain hlast | hlast := hlast ev hev
        · rw [hcall] at hlast
          cases hlast
        · rw [hcall] at hlast
          cases hlast

theorem commit_durability_exact_required :
    ∃ outcome, (sampleRun (sampleBackend exchanged exchanged) (.content [0])
        { durability := .required }).2 = .ok outcome ∧
      outcome.writeOutcome.durable = true := by
  have hok : okAnd (fun _ => true) (sampleRun (sampleBackend exchanged exchanged) (.content [0])
      { durability := .required }).2 = true := by
    decide +kernel
  obtain ⟨outcome, houtcome, -⟩ := exists_of_okAnd hok
  have hrun := sampleRun_runs (sampleBackend exchanged exchanged) (.content [0])
    { durability := .required }
  rw [houtcome] at hrun
  obtain ⟨_, _, _, _, _, _, -, -, -, -, hrequired, -⟩ := commit_durability_exact id hrun
  exact ⟨outcome, houtcome, hrequired rfl⟩

end LocalFiles.Conditional
