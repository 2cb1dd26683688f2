import LocalFiles.Conditional.Trace

/-!
# Inversion — every way a piece of the protocol can end

One theorem for each piece of the protocol lists its exits: the calls it made, the entries it
keeps, what it did to the other local variables and which answer is to blame for a failure.  The
properties of whole runs are read off these lists and never unfold the protocol again.
-/

namespace LocalFiles.Conditional

open Interaction

variable {A δ α β : Type} (D : List UInt8 → δ)

/-! ## 1. Exits -/

section Exits

variable {s s' : Locals A} {tr : Trace A}

@[simp] theorem runs_setStage_bind {stage : LocalConditionalWriteStage}
    {f : Unit → CommitM A β} {r : Except (LocalConditionalWriteStage × IoError) β} :
    (setStage stage >>= f).Runs s tr r s' ↔ (f ()).Runs { s with stage := stage } tr r s' :=
  Iff.rfl

@[simp] theorem runs_setPublication_bind {publication : LocalConditionalPublicationState}
    {f : Unit → CommitM A β} {r : Except (LocalConditionalWriteStage × IoError) β} :
    (setPublication publication >>= f).Runs s tr r s' ↔
      (f ()).Runs { s with publication := publication } tr r s' := Iff.rfl

@[simp] theorem runs_keep_bind {entries : List (ConditionalEntry A)}
    {f : Unit → CommitM A β} {r : Except (LocalConditionalWriteStage × IoError) β} :
    (keep entries >>= f).Runs s tr r s' ↔
      (f ()).Runs { s with entries := s.entries ++ entries } tr r s' := Iff.rfl

@[simp] theorem runs_loseDurability {r : Except (LocalConditionalWriteStage × IoError) Unit} :
    (loseDurability : CommitM A Unit).Runs s tr r s' ↔
      tr = [] ∧ r = .ok () ∧ s' = { s with durable := false } := Proc.runs_modify

@[simp] theorem runs_fail {error : IoError}
    {r : Except (LocalConditionalWriteStage × IoError) α} :
    (fail error : CommitM A α).Runs s tr r s' ↔
      tr = [] ∧ r = .error (s.stage, error) ∧ s' = s := Proc.runs_exit

@[simp] theorem runs_fail_bind {error : IoError} {f : α → CommitM A β}
    {r : Except (LocalConditionalWriteStage × IoError) β} :
    ((fail error : CommitM A α) >>= f).Runs s tr r s' ↔
      tr = [] ∧ r = .error (s.stage, error) ∧ s' = s := Proc.runs_exit_bind

theorem runs_orFail_bind {p : BackendM A (IoResult α)} {f : α → CommitM A β}
    {r : Except (LocalConditionalWriteStage × IoError) β} :
    (orFail p >>= f).Runs s tr r s' ↔
      (∃ err, r = .error (s.stage, err) ∧ s' = s ∧ p.Runs tr (.error err)) ∨
      ∃ tr₁ tr₂ a, tr = tr₁ ++ tr₂ ∧ p.Runs tr₁ (.ok a) ∧ (f a).Runs s tr₂ r s' := by
  rw [orFail, Proc.runs_attempt_bind]
  refine or_congr_left ⟨?_, ?_⟩
  · rintro ⟨tr₁, tr₂, err, rfl, hp, hf⟩
    obtain ⟨rfl, rfl, rfl⟩ := runs_fail_bind.mp hf
    exact ⟨err, rfl, rfl, by rwa [List.append_nil]⟩
  · rintro ⟨err, rfl, rfl, hp⟩
    exact ⟨tr, [], err, (List.append_nil tr).symm, hp, runs_fail_bind.mpr ⟨rfl, rfl, rfl⟩⟩

theorem runs_orFail {p : BackendM A (IoResult α)}
    {r : Except (LocalConditionalWriteStage × IoError) α} :
    (orFail p).Runs s tr r s' ↔
      (∃ err, r = .error (s.stage, err) ∧ s' = s ∧ p.Runs tr (.error err)) ∨
      ∃ a, r = .ok a ∧ s' = s ∧ p.Runs tr (.ok a) := by
  rw [← Proc.runs_bind_pure, runs_orFail_bind]
  refine or_congr_right ⟨?_, ?_⟩
  · rintro ⟨tr₁, tr₂, a, rfl, hp, hr⟩
    obtain ⟨rfl, rfl, rfl⟩ := Proc.runs_pure.mp hr
    exact ⟨a, rfl, rfl, by rwa [List.append_nil]⟩
  · rintro ⟨a, rfl, rfl, hp⟩
    exact ⟨tr, [], a, (List.append_nil tr).symm, hp, Proc.runs_pure.mpr ⟨rfl, rfl, rfl⟩⟩

/-- The locals after `abandon`. -/
def Locals.abandoned (s : Locals A) (installed : ConditionalEntry A)
    (displaced : List (ConditionalEntry A)) : Locals A :=
  { s with entries := s.entries ++ installed :: displaced, publication := .indeterminate }

@[simp] theorem runs_abandon {installed : ConditionalEntry A}
    {displaced : List (ConditionalEntry A)} {error : IoError}
    {r : Except (LocalConditionalWriteStage × IoError) α} :
    (abandon installed displaced error : CommitM A α).Runs s tr r s' ↔
      tr = [] ∧ r = .error (s.stage, error) ∧ s' = s.abandoned installed displaced :=
  Proc.runs_exit

@[simp] theorem runs_abandon_bind {installed : ConditionalEntry A}
    {displaced : List (ConditionalEntry A)} {error : IoError} {f : α → CommitM A β}
    {r : Except (LocalConditionalWriteStage × IoError) β} :
    ((abandon installed displaced error : CommitM A α) >>= f).Runs s tr r s' ↔
      tr = [] ∧ r = .error (s.stage, error) ∧ s' = s.abandoned installed displaced :=
  Proc.runs_exit_bind

theorem runs_orAbandon_bind {installed : ConditionalEntry A}
    {displaced : List (ConditionalEntry A)} {p : BackendM A (IoResult α)} {f : α → CommitM A β}
    {r : Except (LocalConditionalWriteStage × IoError) β} :
    (orAbandon installed displaced p >>= f).Runs s tr r s' ↔
      (∃ err, r = .error (s.stage, err) ∧ s' = s.abandoned installed displaced ∧
        p.Runs tr (.error err)) ∨
      ∃ tr₁ tr₂ a, tr = tr₁ ++ tr₂ ∧ p.Runs tr₁ (.ok a) ∧ (f a).Runs s tr₂ r s' := by
  rw [orAbandon, Proc.runs_attempt_bind]
  refine or_congr_left ⟨?_, ?_⟩
  · rintro ⟨tr₁, tr₂, err, rfl, hp, hf⟩
    obtain ⟨rfl, rfl, rfl⟩ := runs_abandon_bind.mp hf
    exact ⟨err, rfl, rfl, by rwa [List.append_nil]⟩
  · rintro ⟨err, rfl, rfl, hp⟩
    exact ⟨tr, [], err, (List.append_nil tr).symm, hp, runs_abandon_bind.mpr ⟨rfl, rfl, rfl⟩⟩

end Exits

/-! ## 2. Candidate and candidate copy -/

section Prepare

variable {s s' : Locals A} {tr : Trace A}

/-- The calls of a successful `digestCandidate`. -/
def candidateTrace (candidate : ConditionalEntry A) (bytes : List UInt8) : Trace A :=
  [⟨.flush, Except.ok ()⟩, ⟨.candidate, candidate⟩] ++ readBack candidate bytes

theorem candidateTrace_inj {candidate candidate' : ConditionalEntry A} {bytes bytes' : List UInt8}
    {rest rest' : Trace A}
    (h : candidateTrace candidate bytes ++ rest = candidateTrace candidate' bytes' ++ rest') :
    candidate = candidate' ∧ bytes = bytes' ∧ rest = rest' := by
  obtain ⟨htrace, hrest⟩ := List.append_inj h rfl
  cases htrace
  exact ⟨rfl, rfl, hrest⟩

theorem digestCandidate_runs {r : Except (LocalConditionalWriteStage × IoError) δ}
    (hs : s.stage = .prepare) (h : (digestCandidate D).Runs s tr r s') :
    (∃ stage err, r = .error (stage, err) ∧ stage ≠ .precheck ∧ s' = { s with stage := stage } ∧
      effects tr = [] ∧ Blames tr err) ∨
    ∃ candidate bytes, r = .ok (D bytes) ∧ s' = { s with stage := .verifyCandidate } ∧
      tr = candidateTrace candidate bytes := by
  rw [digestCandidate, runs_orFail_bind] at h
  obtain ⟨err, rfl, rfl, hflush⟩ | ⟨tr₁, tr₂, _, rfl, hflush, h⟩ := h
  · rw [runs_flush] at hflush
    subst hflush
    exact .inl ⟨_, err, rfl, by simp [hs], rfl, rfl, blames_singleton rfl fun _ => rfl⟩
  rw [runs_flush] at hflush
  subst hflush
  rw [runs_setStage_bind, Proc.runs_lift_bind] at h
  obtain ⟨tr₃, tr₄, candidate, rfl, hcandidate, h⟩ := h
  rw [runs_candidate] at hcandidate
  subst hcandidate
  rw [runs_orFail] at h
  obtain ⟨err, rfl, rfl, hdigest⟩ | ⟨digest, rfl, rfl, hdigest⟩ := h
  · obtain ⟨hquiet, hblame⟩ := digestEntry_runs_error D hdigest
    exact .inl ⟨_, err, rfl, by simp, rfl, by simp [hquiet], (hblame.cons _).cons _⟩
  · obtain ⟨bytes, rfl, rfl⟩ := digestEntry_runs_ok D hdigest
    exact .inr ⟨candidate, bytes, rfl, rfl, rfl⟩

variable [DecidableEq δ]

/-- The calls of a successful `prepareCopy`. -/
def copyTrace (created : ConditionalEntry A) (bytes : List UInt8) : Trace A :=
  [⟨.createCandidateCopy, Except.ok created⟩, ⟨.checkpoint .candidateCopyCreated, Except.ok ()⟩] ++
    readBack (created.setRole .stagedCandidate) bytes

theorem prepareCopy_runs {candidateDigest : δ}
    {r : Except (IoError × Option (ConditionalEntry A)) (ConditionalEntry A)}
    (h : (prepareCopy D candidateDigest).Runs tr r) :
    (∃ err, r = .error (err, none) ∧ tr = [⟨.createCandidateCopy, Except.error err⟩]) ∨
    (∃ (created : ConditionalEntry A) (err : IoError),
      r = .error (err, some (created.setRole .stagedCandidate)) ∧
      ⟨.createCandidateCopy, Except.ok created⟩ ∈ tr ∧
      effects tr = [.copies] ∧ (Blames tr err ∨ err.kind = .invalidData)) ∨
    ∃ created bytes, r = .ok (created.setRole .candidateCopy) ∧ D bytes = candidateDigest ∧
      tr = copyTrace created bytes := by
  rw [prepareCopy, Prog.runs_bind] at h
  obtain ⟨tr₁, tr₂, created, rfl, hcreate, h⟩ := h
  rw [runs_createCandidateCopy] at hcreate
  subst hcreate
  cases created with
  | error err =>
    obtain ⟨rfl, rfl⟩ := h
    exact .inl ⟨err, rfl, rfl⟩
  | ok created =>
    replace h := Prog.runs_bind.mp h
    obtain ⟨tr₃, tr₄, reached, rfl, hpoint, h⟩ := h
    rw [runs_checkpoint] at hpoint
    subst hpoint
    cases reached with
    | error err =>
      obtain ⟨rfl, rfl⟩ := h
      refine .inr (.inl ⟨created, err, rfl, List.mem_cons_self, rfl, .inl ?_⟩)
      exact Blames.cons (blames_singleton rfl fun _ => rfl) _
    | ok _ =>
      replace h := Prog.runs_bind.mp h
      obtain ⟨tr₅, tr₆, digest, rfl, hdigest, h⟩ := h
      cases digest with
      | error err =>
        obtain ⟨hquiet, hblame⟩ := digestEntry_runs_error D hdigest
        obtain ⟨rfl, rfl⟩ := h
        refine .inr (.inl ⟨created, err, rfl, List.mem_cons_self, by simp [hquiet], .inl ?_⟩)
        exact ((hblame.left _).cons _).cons _
      | ok digest =>
        obtain ⟨bytes, rfl, rfl⟩ := digestEntry_runs_ok D hdigest
        dsimp only at h
        split at h
        · obtain ⟨rfl, rfl⟩ := h
          exact .inr (.inl ⟨created, _, rfl, List.mem_cons_self, rfl, .inr rfl⟩)
        · rename_i hequal
          obtain ⟨rfl, rfl⟩ := h
          exact .inr (.inr ⟨created, bytes, rfl, not_not.mp hequal, rfl⟩)

theorem registerCopy_runs {candidateDigest : δ}
    {r : Except (LocalConditionalWriteStage × IoError) (ConditionalEntry A)}
    (h : (registerCopy D candidateDigest).Runs s tr r s') :
    (∃ err, r = .error (.prepareCandidateCopy, err) ∧ Blames tr err ∧
      s' = { s with stage := .prepareCandidateCopy } ∧
      (tr = [⟨.checkpoint .prepareCandidateCopy, Except.error err⟩] ∨
        tr = [⟨.checkpoint .prepareCandidateCopy, Except.ok ()⟩,
          ⟨.createCandidateCopy, Except.error err⟩])) ∨
    (∃ err copy made, r = .error (.verifyCandidateCopy, err) ∧
      tr = ⟨.checkpoint .prepareCandidateCopy, Except.ok ()⟩ :: made ∧
      (prepareCopy D candidateDigest).Runs made (.error (err, some copy)) ∧
      s' = { s with stage := .verifyCandidateCopy, entries := s.entries ++ [copy] }) ∨
    ∃ created bytes answer, D bytes = candidateDigest ∧
      tr = ⟨.checkpoint .prepareCandidateCopy, Except.ok ()⟩ :: copyTrace created bytes ++
        [⟨.checkpoint .verifyCandidateCopy, answer⟩] ∧
      s' = { s with
        stage := .verifyCandidateCopy
        entries := s.entries ++ [created.setRole .candidateCopy] } ∧
      ((∃ err, answer = Except.error err ∧ r = .error (.verifyCandidateCopy, err)) ∨
        answer = Except.ok () ∧ r = .ok (created.setRole .candidateCopy)) := by
  rw [registerCopy, runs_setStage_bind, runs_orFail_bind] at h
  obtain ⟨err, rfl, rfl, hpoint⟩ | ⟨tr₁, tr₂, _, rfl, hpoint, h⟩ := h
  · rw [runs_checkpoint] at hpoint
    subst hpoint
    exact .inl ⟨err, rfl, blames_singleton rfl fun _ => rfl, rfl, .inl rfl⟩
  rw [runs_checkpoint] at hpoint
  subst hpoint
  rw [Proc.runs_lift_bind] at h
  obtain ⟨made, tr₃, copy, rfl, hmade, h⟩ := h
  obtain ⟨err, rfl, rfl⟩ | ⟨created, err, rfl, -, -, -⟩ |
    ⟨created, bytes, rfl, hdigest, rfl⟩ := prepareCopy_runs D hmade
  · simp only [runs_setStage_bind, runs_keep_bind, runs_fail] at h
    obtain ⟨rfl, rfl, rfl⟩ := h
    refine .inl ⟨err, rfl, Blames.cons (blames_singleton rfl fun _ => rfl) _, ?_, .inr rfl⟩
    simp
  · simp only [runs_setStage_bind, runs_keep_bind, runs_fail] at h
    obtain ⟨rfl, rfl, rfl⟩ := h
    exact .inr (.inl ⟨err, _, made, rfl, by simp, hmade, rfl⟩)
  · simp only [runs_setStage_bind, runs_keep_bind, runs_orFail_bind, runs_checkpoint,
      Proc.runs_pure] at h
    obtain ⟨err, rfl, rfl, rfl⟩ | ⟨_, _, _, rfl, rfl, rfl, rfl, rfl⟩ := h
    · exact .inr (.inr ⟨created, bytes, _, hdigest, rfl, rfl, .inl ⟨err, rfl, rfl⟩⟩)
    · exact .inr (.inr ⟨created, bytes, _, hdigest, rfl, rfl, .inr ⟨rfl, rfl⟩⟩)

end Prepare

/-! ## 3. Synchronization before publication -/

section Sync

variable {s s' : Locals A} {tr : Trace A}

/-- The locals after the synchronizations of `tr`, none of which ended the commit: a failed one
    costs a preferred durability. -/
def Locals.afterSyncs (s : Locals A) (options : LocalWriteOptions) (tr : Trace A) : Locals A :=
  { s with durable := s.durable && (syncsSucceed tr || options.durability ≠ .preferred) }

theorem afterSyncs_nil (s : Locals A) (options : LocalWriteOptions) :
    s.afterSyncs options [] = s := by
  simp [Locals.afterSyncs]

theorem afterSyncs_append (s : Locals A) (options : LocalWriteOptions) (tr₁ tr₂ : Trace A) :
    (s.afterSyncs options tr₁).afterSyncs options tr₂ = s.afterSyncs options (tr₁ ++ tr₂) := by
  unfold Locals.afterSyncs
  congr 1
  rw [syncsSucceed_append]
  cases s.durable <;> cases syncsSucceed tr₁ <;> cases syncsSucceed tr₂ <;>
    cases options.durability <;> rfl

/-- The calls of a complete file synchronization before publication. -/
def fileSyncTrace (copy : ConditionalEntry A) : Trace A :=
  [⟨.checkpoint .beforeRequiredFileSync, Except.ok ()⟩, ⟨.syncCandidate, Except.ok ()⟩,
    ⟨.syncEntry copy, Except.ok ()⟩]

theorem fileSync_runs (options : LocalWriteOptions) {copy : ConditionalEntry A}
    {sync : IoResult Unit}
    (h : Prog.Runs ((checkpoint .beforeRequiredFileSync).andThen fun _ =>
      syncCandidate.andThen fun _ => syncEntry copy) tr sync) :
    (∀ ev ∈ tr, ev.call.synchronizes) ∧
      ((sync = .ok () ∧ tr = fileSyncTrace copy) ∨
        ∃ err, sync = .error err ∧ syncsSucceed tr = false ∧
          (syncRequirement options = .required → BlamesUnder options tr err)) := by
  simp only [Prog.runs_andThen, runs_checkpoint, runs_syncCandidate, runs_syncEntry] at h
  obtain ⟨err, rfl, rfl⟩ | ⟨_, _, _, rfl, rfl, h⟩ := h
  · refine ⟨by simp [Call.synchronizes], .inr ⟨err, rfl, rfl, fun hrequired => ?_⟩⟩
    exact blamesUnder_singleton rfl (by simp [Call.tolerated, hrequired])
  obtain ⟨err, rfl, rfl⟩ | ⟨_, _, _, rfl, rfl, rfl⟩ := h
  · refine ⟨by simp [Call.synchronizes], .inr ⟨err, rfl, rfl, fun hrequired => ?_⟩⟩
    exact (blamesUnder_singleton rfl (by simp [Call.tolerated, hrequired])).cons _
  refine ⟨by simp [Call.synchronizes], ?_⟩
  cases sync with
  | ok _ => exact .inl ⟨rfl, rfl⟩
  | error err =>
    refine .inr ⟨err, rfl, rfl, fun hrequired => ?_⟩
    exact ((blamesUnder_singleton rfl (by simp [Call.tolerated, hrequired])).cons _).cons _

theorem settleFileSync_runs {options : LocalWriteOptions} {sync : IoResult Unit} {synced : Trace A}
    {r : Except (LocalConditionalWriteStage × IoError) Unit}
    (hsync : syncsSucceed synced = (resultError sync).isNone)
    (h : (settleFileSync options sync).Runs s tr r s') :
    tr = [] ∧
      ((∃ err, sync = .error err ∧ r = .error (s.stage, err) ∧ s' = s ∧
          syncRequirement options = .required) ∨
        r = .ok () ∧ (syncRequirement options = .required → sync = .ok ()) ∧
          s' = s.afterSyncs options synced) := by
  unfold Locals.afterSyncs
  rw [hsync]
  cases sync with
  | ok _ =>
    obtain ⟨rfl, rfl, rfl⟩ := Proc.runs_pure.mp h
    exact ⟨rfl, .inr ⟨rfl, fun _ => rfl, by simp [resultError]⟩⟩
  | error err =>
    simp only [settleFileSync] at h
    split at h
    · rename_i hrequired
      obtain ⟨rfl, rfl, rfl⟩ := runs_fail.mp h
      exact ⟨rfl, .inl ⟨err, rfl, rfl, rfl, hrequired⟩⟩
    rename_i hnot
    split at h
    · rename_i hpreferred
      obtain ⟨rfl, rfl, rfl⟩ := runs_loseDurability.mp h
      exact ⟨rfl, .inr ⟨rfl, fun hreq => absurd hreq hnot, by simp [resultError, hpreferred]⟩⟩
    · rename_i hpreferred
      obtain ⟨rfl, rfl, rfl⟩ := Proc.runs_pure.mp h
      exact ⟨rfl, .inr ⟨rfl, fun hreq => absurd hreq hnot, by simp [hpreferred]⟩⟩

theorem settleNamespaceSync_runs {options : LocalWriteOptions} {sync : IoResult Unit}
    {synced : Trace A} {r : Except (LocalConditionalWriteStage × IoError) Unit}
    (hsync : syncsSucceed synced = (resultError sync).isNone)
    (hdurability : options.durability ≠ .notRequired)
    (h : (settleNamespaceSync options sync).Runs s tr r s') :
    tr = [] ∧
      ((∃ err, sync = .error err ∧ r = .error (s.stage, err) ∧ s' = s ∧
          options.durability = .required) ∨
        r = .ok () ∧ (options.durability = .required → sync = .ok ()) ∧
          s' = s.afterSyncs options synced) := by
  unfold Locals.afterSyncs
  rw [hsync]
  cases sync with
  | ok _ =>
    obtain ⟨rfl, rfl, rfl⟩ := Proc.runs_pure.mp h
    exact ⟨rfl, .inr ⟨rfl, fun _ => rfl, by simp [resultError]⟩⟩
  | error err =>
    simp only [settleNamespaceSync] at h
    split at h
    · rename_i hrequired
      obtain ⟨rfl, rfl, rfl⟩ := runs_fail.mp h
      exact ⟨rfl, .inl ⟨err, rfl, rfl, rfl, hrequired⟩⟩
    · rename_i hnot
      have hpreferred : options.durability = .preferred := by
        cases hd : options.durability with
        | required => exact absurd hd hnot
        | preferred => rfl
        | notRequired => exact absurd hd hdurability
      obtain ⟨rfl, rfl, rfl⟩ := runs_loseDurability.mp h
      exact ⟨rfl, .inr ⟨rfl, fun hreq => absurd hreq hnot, by simp [resultError, hpreferred]⟩⟩

/-- What a completed synchronization before publication did: nothing but synchronizing calls,
    those that the options require having succeeded. -/
structure SyncedBefore (options : LocalWriteOptions) (copy : ConditionalEntry A) (tr : Trace A) :
    Prop where
  onlySyncs : ∀ ev ∈ tr, ev.call.synchronizes
  fileSync : syncRequirement options = .required → fileSyncTrace copy <+: tr
  namespaceSync : options.durability = .required →
    tr = fileSyncTrace copy ++ [⟨.syncNamespace, Except.ok ()⟩]

theorem syncRequirement_of_required {options : LocalWriteOptions}
    (h : options.durability = .required) : syncRequirement options = .required := by
  unfold syncRequirement
  rw [h]

theorem syncRequirement_of_either {options : LocalWriteOptions}
    (h : options.durability = .required ∨ options.fileSync = .required) :
    syncRequirement options = .required := by
  rcases h with hdurability | hsync
  · exact syncRequirement_of_required hdurability
  · unfold syncRequirement
    cases options.durability <;> simp [hsync]

theorem syncRequirement_eq_notRequired {options : LocalWriteOptions} :
    syncRequirement options = .notRequired ↔
      options.durability = .notRequired ∧ options.fileSync = .notRequired := by
  unfold syncRequirement
  cases options.durability <;> cases options.fileSync <;> simp

theorem syncBeforePublication_runs {options : LocalWriteOptions} {copy : ConditionalEntry A}
    {r : Except (LocalConditionalWriteStage × IoError) Unit}
    (h : (syncBeforePublication options copy).Runs s tr r s') :
    (∃ err durable, r = .error (.sync, err) ∧ (∀ ev ∈ tr, ev.call.synchronizes) ∧
      BlamesUnder options tr err ∧ s' = { s with stage := .sync, durable := durable }) ∨
    r = .ok () ∧ SyncedBefore options copy tr ∧
      s' = { s with stage := .sync }.afterSyncs options tr := by
  rw [syncBeforePublication, runs_setStage_bind] at h
  split at h
  · rename_i hnone
    obtain ⟨rfl, rfl, rfl⟩ := Proc.runs_pure.mp h
    rw [syncRequirement_eq_notRequired] at hnone
    refine .inr ⟨rfl, ⟨by simp, ?_, by simp [hnone]⟩, (afterSyncs_nil _ _).symm⟩
    simp [syncRequirement, hnone]
  rw [Proc.runs_lift_bind] at h
  obtain ⟨tr₁, tr₂, sync, rfl, hfile, h⟩ := h
  obtain ⟨honly, hfile⟩ := fileSync_runs options hfile
  -- the result of the synchronization is read off its calls
  have hsucceed : syncsSucceed tr₁ = (resultError sync).isNone := by
    obtain ⟨rfl, rfl⟩ | ⟨err, rfl, hfailed, -⟩ := hfile
    · rfl
    · exact hfailed
  rw [Proc.runs_bind] at h
  obtain ⟨e, rfl, h⟩ | ⟨_, tr₃, _, mid, rfl, hsettle, h⟩ := h
  · obtain ⟨rfl, ⟨err, rfl, heq, rfl, hrequired⟩ | ⟨habs, -⟩⟩ := settleFileSync_runs hsucceed h
    · cases heq
      obtain ⟨habs, -⟩ | ⟨err', heq, -, hblame⟩ := hfile
      · cases habs
      · cases heq
        exact .inl ⟨err, _, rfl, by simpa using honly, (hblame hrequired).left _, rfl⟩
    · cases habs
  obtain ⟨rfl, ⟨err, -, habs, -⟩ | ⟨-, hrequired, rfl⟩⟩ := settleFileSync_runs hsucceed hsettle
  · cases habs
  -- past a required synchronization its calls are known exactly
  have hbegin : syncRequirement options = .required → tr₁ = fileSyncTrace copy := by
    intro hreq
    obtain ⟨-, rfl⟩ | ⟨err, rfl, -⟩ := hfile
    · rfl
    · cases hrequired hreq
  split at h
  · rename_i hnone
    obtain ⟨rfl, rfl, rfl⟩ := Proc.runs_pure.mp h
    refine .inr ⟨rfl, ⟨by simpa using honly, ?_, by simp [hnone]⟩, by simp⟩
    intro hreq
    simp [hbegin hreq]
  rename_i hdurability
  rw [Proc.runs_lift_bind] at h
  obtain ⟨tr₄, tr₅, sync', rfl, hspace, h⟩ := h
  rw [runs_syncNamespace] at hspace
  subst hspace
  have honly' : ∀ ev ∈ tr₁ ++ ([] ++ ([⟨.syncNamespace, sync'⟩] ++ tr₅)), tr₅ = [] →
      ev.call.synchronizes := by
    intro ev hev htr
    subst htr
    simp only [List.nil_append, List.append_nil, List.mem_append, List.mem_singleton] at hev
    rcases hev with hev | rfl
    · exact honly ev hev
    · rfl
  have hone : syncsSucceed [(⟨.syncNamespace, sync'⟩ : Event (Call A) (Answer A))] =
      (resultError sync').isNone := by
    simp [Call.synchronizes, callError]
  obtain ⟨rfl, ⟨err, rfl, rfl, rfl, hrequired⟩ | ⟨rfl, hspace, rfl⟩⟩ :=
    settleNamespaceSync_runs hone hdurability h
  · refine .inl ⟨err, _, rfl, fun ev hev => honly' ev hev rfl, ?_, rfl⟩
    exact (blamesUnder_singleton rfl (by simp [Call.tolerated, hrequired])).right tr₁
  · refine .inr ⟨rfl, ⟨fun ev hev => honly' ev hev rfl, ?_, ?_⟩, ?_⟩
    · intro hreq
      simp [hbegin hreq]
    · intro hreq
      simp [hbegin (syncRequirement_of_required hreq), hspace hreq]
    · rw [afterSyncs_append]
      simp

end Sync

/-! ## 4. Precheck -/

section Precheck

variable {s s' : Locals A} {tr : Trace A}

/-- The calls that belong to the precheck. -/
def Call.prechecks : Call A → Bool
  | .checkpoint .precheck => true
  | .openTarget => true
  | .openReader _ => true
  | .seekStart _ => true
  | .readAll _ => true
  | .preserveMetadata _ => true
  | .syncCandidate => true
  | .checkpoint .afterPrecheck => true
  | .candidate => true
  | .verifyEntry _ => true
  | _ => false

theorem digestEntry_prechecks {entry : ConditionalEntry A} {r : IoResult δ}
    (h : (digestEntry D entry).Runs tr r) :
    ∀ ev ∈ tr, ev.call.prechecks ∧ ev.call ≠ .openTarget := by
  intro ev hev
  have hreads := digestEntry_reads D h ev hev
  cases hcall : ev.call with
  | openReader _ => exact ⟨rfl, nofun⟩
  | seekStart _ => exact ⟨rfl, nofun⟩
  | readAll _ => exact ⟨rfl, nofun⟩
  | _ => simp [hcall, Call.reads] at hreads

/-- What the precheck did to preserve the metadata of the target. -/
inductive Preserved (options : LocalWriteOptions) (target : ConditionalEntry A) : Trace A → Prop
  | ignored (hpolicy : options.metadataPolicy ≠ .preserveExisting) : Preserved options target []
  | unsynced (hsync : syncRequirement options = .notRequired) :
      Preserved options target [⟨.preserveMetadata target, Except.ok ()⟩]
  | synced (answer : IoResult Unit) (hsync : syncRequirement options ≠ .notRequired)
      (hrequired : syncRequirement options = .required → answer = .ok ()) :
      Preserved options target
        [⟨.preserveMetadata target, Except.ok ()⟩, ⟨.syncCandidate, answer⟩]

/-- What an accepted precheck observed of the target. -/
inductive Accepted (options : LocalWriteOptions) : LocalWritePrecondition δ → Trace A → Prop
  | absent (err : IoError) (hkind : err.kind = .notFound) :
      Accepted options .absent [⟨.openTarget, Except.error err⟩]
  | content (target : ConditionalEntry A) (bytes : List UInt8) (preserved : Trace A)
      (hpreserved : Preserved options target preserved) :
      Accepted options (.content (D bytes))
        (⟨.openTarget, Except.ok target⟩ :: readBack target bytes ++ preserved)

/-- Why a precheck ended the commit. -/
inductive Refused (options : LocalWriteOptions) :
    LocalWritePrecondition δ → Trace A → IoError → Prop
  | unopened (precondition : LocalWritePrecondition δ) (tr : Trace A) (err : IoError)
      (hmem : ⟨.openTarget, Except.error err⟩ ∈ tr)
      (habsent : precondition = .absent → err.kind ≠ .notFound) : Refused options precondition tr err
  | exists (tr : Trace A) (target : ConditionalEntry A)
      (hmem : ⟨.openTarget, Except.ok target⟩ ∈ tr) :
      Refused options .absent tr ⟨.alreadyExists, "target exists", none⟩
  | mismatch (expected : δ) (tr pre : Trace A) (target : ConditionalEntry A) (bytes : List UInt8)
      (htr : tr = pre ++ ⟨.openTarget, Except.ok target⟩ :: readBack target bytes)
      (hne : D bytes ≠ expected) :
      Refused options (.content expected) tr ⟨.invalidData, "content precondition mismatch", none⟩
  | failed (precondition : LocalWritePrecondition δ) (tr : Trace A) (err : IoError)
      (ev : Event (Call A) (Answer A)) (hmem : ev ∈ tr) (hcall : ev.call ≠ .openTarget)
      (hkept : ev.call.tolerated options = false)
      (herr : callError ev.call ev.answer = some err) : Refused options precondition tr err

theorem Refused.prepend {options : LocalWriteOptions} {precondition : LocalWritePrecondition δ}
    {err : IoError} (h : Refused D options precondition tr err) (before : Trace A) :
    Refused D options precondition (before ++ tr) err := by
  cases h with
  | unopened _ _ _ hmem habsent =>
    exact .unopened _ _ _ (List.mem_append_right _ hmem) habsent
  | «exists» _ target hmem => exact .exists _ target (List.mem_append_right _ hmem)
  | mismatch expected _ pre target bytes htr hne =>
    exact .mismatch expected _ (before ++ pre) target bytes (by rw [htr, List.append_assoc]) hne
  | failed _ _ _ ev hmem hcall hkept herr =>
    exact .failed _ _ _ ev (List.mem_append_right _ hmem) hcall hkept herr

theorem preserveTarget_runs {options : LocalWriteOptions} {target : ConditionalEntry A}
    {r : Except (LocalConditionalWriteStage × IoError) Unit}
    (h : (preserveTarget options target).Runs s tr r s') :
    (∀ ev ∈ tr, ev.call.prechecks ∧ ev.call ≠ .openTarget) ∧
      ((∃ err, r = .error (s.stage, err) ∧ s' = s ∧ BlamesUnder options tr err) ∨
        r = .ok () ∧ Preserved options target tr ∧ s' = s.afterSyncs options tr) := by
  rw [preserveTarget] at h
  split at h
  · rw [runs_orFail_bind] at h
    obtain ⟨err, rfl, rfl, hpreserve⟩ | ⟨tr₁, tr₂, _, rfl, hpreserve, h⟩ := h
    · rw [runs_preserveMetadata] at hpreserve
      subst hpreserve
      exact ⟨by simp [Call.prechecks], .inl ⟨err, rfl, rfl, blamesUnder_singleton rfl rfl⟩⟩
    rw [runs_preserveMetadata] at hpreserve
    subst hpreserve
    split at h
    · rename_i hsync
      obtain ⟨rfl, rfl, rfl⟩ := Proc.runs_pure.mp h
      refine ⟨by simp [Call.prechecks], .inr ⟨rfl, .unsynced hsync, ?_⟩⟩
      simp [Locals.afterSyncs, Call.synchronizes]
    · rename_i hsync
      rw [Proc.runs_lift_bind] at h
      obtain ⟨tr₃, tr₄, sync, rfl, hcandidate, h⟩ := h
      rw [runs_syncCandidate] at hcandidate
      subst hcandidate
      -- Of the two calls only the second is a synchronization.
      have hone : syncsSucceed [(⟨.preserveMetadata target, Except.ok ()⟩ :
          Event (Call A) (Answer A)), ⟨.syncCandidate, sync⟩] = (resultError sync).isNone := by
        simp [Call.synchronizes, callError]
      obtain ⟨rfl, ⟨err, rfl, rfl, rfl, hrequired⟩ | ⟨rfl, hrequired, rfl⟩⟩ :=
        settleFileSync_runs hone h
      · refine ⟨by simp [Call.prechecks], .inl ⟨err, rfl, rfl, ?_⟩⟩
        exact (blamesUnder_singleton rfl (by simp [Call.tolerated, hrequired])).cons _
      · exact ⟨by simp [Call.prechecks], .inr ⟨rfl, .synced sync hsync hrequired, rfl⟩⟩
  · rename_i hpolicy
    obtain ⟨rfl, rfl, rfl⟩ := Proc.runs_pure.mp h
    exact ⟨by simp, .inr ⟨rfl, .ignored hpolicy, (afterSyncs_nil _ _).symm⟩⟩

theorem Refused.of_blames {options : LocalWriteOptions} {precondition : LocalWritePrecondition δ}
    {err : IoError} (hcalls : ∀ ev ∈ tr, ev.call.prechecks ∧ ev.call ≠ .openTarget)
    (h : BlamesUnder options tr err) : Refused D options precondition tr err := by
  obtain ⟨ev, hev, hkept, herr⟩ := h
  exact .failed _ _ _ ev hev (hcalls ev hev).2 hkept herr

variable [DecidableEq δ]

theorem checkTarget_runs {precondition : LocalWritePrecondition δ} {options : LocalWriteOptions}
    {r : Except (LocalConditionalWriteStage × IoError) Unit}
    (h : (checkTarget D precondition options).Runs s tr r s') :
    (∀ ev ∈ tr, ev.call.prechecks) ∧
      ((∃ err, r = .error (s.stage, err) ∧ s' = s ∧ Refused D options precondition tr err) ∨
        r = .ok () ∧ Accepted D options precondition tr ∧ s' = s.afterSyncs options tr) := by
  rw [checkTarget, Proc.runs_lift_bind] at h
  obtain ⟨tr₁, tr₂, observed, rfl, hopen, h⟩ := h
  rw [runs_openTarget] at hopen
  subst hopen
  cases precondition with
  | absent =>
    cases observed with
    | ok target =>
      obtain ⟨rfl, rfl, rfl⟩ := runs_fail.mp h
      exact ⟨by simp [Call.prechecks], .inl ⟨_, rfl, rfl, .exists _ target (by simp)⟩⟩
    | error err =>
      dsimp only at h
      split at h
      · rename_i hkind
        obtain ⟨rfl, rfl, rfl⟩ := Proc.runs_pure.mp h
        refine ⟨by simp [Call.prechecks], .inr ⟨rfl, .absent err hkind, ?_⟩⟩
        simp [Locals.afterSyncs, Call.synchronizes]
      · rename_i hkind
        obtain ⟨rfl, rfl, rfl⟩ := runs_fail.mp h
        exact ⟨by simp [Call.prechecks],
          .inl ⟨err, rfl, rfl, .unopened _ _ _ (by simp) fun _ => hkind⟩⟩
  | content expected =>
    cases observed with
    | error err =>
      obtain ⟨rfl, rfl, rfl⟩ := runs_fail.mp h
      exact ⟨by simp [Call.prechecks],
        .inl ⟨err, rfl, rfl, .unopened _ _ _ (by simp) (by simp)⟩⟩
    | ok target =>
      replace h := runs_orFail_bind.mp h
      -- only content with the expected digest goes on to its metadata
      obtain ⟨err, rfl, rfl, hdigest⟩ | ⟨tr₃, tr₄, actual, rfl, hdigest, h⟩ := h
      · have hcalls := digestEntry_prechecks D hdigest
        have hblame := (digestEntry_runs_error D hdigest).2
        refine ⟨?_, .inl ⟨err, rfl, rfl, (Refused.of_blames D hcalls (hblame.under options)).prepend D _⟩⟩
        exact List.forall_mem_cons.mpr ⟨rfl, fun ev hev => (hcalls ev hev).1⟩
      have hcalls := digestEntry_prechecks D hdigest
      obtain ⟨bytes, rfl, rfl⟩ := digestEntry_runs_ok D hdigest
      split at h
      · rename_i hne
        obtain ⟨rfl, rfl, rfl⟩ := runs_fail.mp h
        exact ⟨by simp [readBack, Call.prechecks],
          .inl ⟨_, rfl, rfl, .mismatch expected _ [] target bytes (by simp) hne⟩⟩
      · rename_i heq
        rw [not_not] at heq
        subst heq
        obtain ⟨hpcalls, hpreserve⟩ := preserveTarget_runs h
        have hall : ∀ ev ∈ [(⟨.openTarget, Except.ok target⟩ : Event (Call A) (Answer A))] ++
            (readBack target bytes ++ tr₄), ev.call.prechecks := by
          rw [List.forall_mem_append, List.forall_mem_append]
          refine ⟨by simp [Call.prechecks], ?_, ?_⟩
          · exact fun ev hev => (hcalls ev hev).1
          · exact fun ev hev => (hpcalls ev hev).1
        obtain ⟨err, rfl, rfl, hblame⟩ | ⟨rfl, hpreserved, rfl⟩ := hpreserve
        · refine ⟨hall, .inl ⟨err, rfl, rfl, ?_⟩⟩
          exact ((Refused.of_blames D hpcalls hblame).prepend D _).prepend D _
        · refine ⟨hall, .inr ⟨rfl, .content target bytes tr₄ hpreserved, ?_⟩⟩
          simp [Locals.afterSyncs, Call.synchronizes]

/-- The calls of an accepted precheck around what it observed of the target. -/
def precheckTrace (checked : Trace A) (candidate : ConditionalEntry A) : Trace A :=
  ⟨.checkpoint .precheck, Except.ok ()⟩ :: checked ++
    [⟨.checkpoint .afterPrecheck, Except.ok ()⟩, ⟨.candidate, candidate⟩,
      ⟨.verifyEntry candidate, Except.ok ()⟩]

theorem precheck_runs {precondition : LocalWritePrecondition δ} {options : LocalWriteOptions}
    {r : Except (LocalConditionalWriteStage × IoError) Unit}
    (h : (precheck D precondition options).Runs s tr r s') :
    (∃ err durable, r = .error (.precheck, err) ∧ (∀ ev ∈ tr, ev.call.prechecks) ∧
      (∃ answer rest, tr = ⟨.checkpoint .precheck, answer⟩ :: rest) ∧
      Refused D options precondition tr err ∧ s' = { s with stage := .precheck, durable := durable }) ∨
    ∃ checked candidate, r = .ok () ∧ Accepted D options precondition checked ∧
      (∀ ev ∈ checked, ev.call.prechecks) ∧ tr = precheckTrace checked candidate ∧
      s' = { s with stage := .precheck }.afterSyncs options tr := by
  rw [precheck, runs_setStage_bind, runs_orFail_bind] at h
  obtain ⟨err, rfl, rfl, hpoint⟩ | ⟨tr₁, tr₂, _, rfl, hpoint, h⟩ := h
  · rw [runs_checkpoint] at hpoint
    subst hpoint
    refine .inl ⟨err, _, rfl, by simp [Call.prechecks], ⟨_, _, rfl⟩, ?_, rfl⟩
    exact .failed _ _ _ _ (List.mem_singleton_self _) (by simp) rfl rfl
  rw [runs_checkpoint] at hpoint
  subst hpoint
  rw [Proc.runs_bind] at h
  obtain ⟨e, rfl, h⟩ | ⟨checked, tr₃, _, mid, rfl, hcheck, h⟩ := h
  · obtain ⟨hcalls, ⟨err, heq, rfl, hrefused⟩ | ⟨habs, -⟩⟩ := checkTarget_runs D h
    · cases heq
      refine .inl ⟨err, _, rfl, ?_, ⟨_, _, rfl⟩, hrefused.prepend D _, rfl⟩
      simpa [Call.prechecks] using hcalls
    · cases habs
  obtain ⟨hcalls, ⟨err, habs, -⟩ | ⟨-, haccepted, rfl⟩⟩ := checkTarget_runs D hcheck
  · cases habs
  simp only [runs_orFail_bind, Proc.runs_lift_bind, runs_checkpoint, runs_candidate, runs_orFail,
    runs_verifyEntry] at h
  obtain ⟨err, rfl, rfl, rfl⟩ | ⟨_, _, _, rfl, rfl, _, _, candidate, rfl, rfl, h⟩ := h
  · refine .inl ⟨err, _, rfl, ?_, ⟨_, _, rfl⟩, ?_, rfl⟩
    · rw [List.forall_mem_append, List.forall_mem_append]
      exact ⟨by simp [Call.prechecks], hcalls, by simp [Call.prechecks]⟩
    exact .failed _ _ _ ⟨.checkpoint .afterPrecheck, Except.error err⟩ (by simp) (by simp) rfl rfl
  obtain ⟨err, rfl, rfl, rfl⟩ | ⟨_, rfl, rfl, rfl⟩ := h
  · refine .inl ⟨err, _, rfl, ?_, ⟨_, _, rfl⟩, ?_, rfl⟩
    · rw [List.forall_mem_append, List.forall_mem_append]
      exact ⟨by simp [Call.prechecks], hcalls, by simp [Call.prechecks]⟩
    exact .failed _ _ _ ⟨.verifyEntry candidate, Except.error err⟩ (by simp) (by simp) rfl rfl
  · refine .inr ⟨checked, candidate, rfl, haccepted, hcalls, rfl, ?_⟩
    simp [Locals.afterSyncs, Call.synchronizes]

end Precheck

/-! ## 5. Publication -/

section Publish

variable {s s' : Locals A} {tr : Trace A}

/-- The event of the publication `attempt`. -/
def publishEvent (precondition : LocalWritePrecondition δ) (attempt : NativeAttempt A) :
    Event (Call A) (Answer A) :=
  match precondition with
  | .absent => ⟨.publishAbsent, attempt⟩
  | .content _ => ⟨.publishContent, attempt⟩

/-- The locals after the native publication has returned `attempt`. -/
def Locals.attempted (s : Locals A) (attempt : NativeAttempt A) : Locals A :=
  { s with
    stage := .publish
    publicationMethod :=
      if attempt.publication = .notPublished then s.publicationMethod
      else attempt.publicationMethod }

def beginTrace : Trace A :=
  [⟨.checkpoint .publish, Except.ok ()⟩, ⟨.beginPublication, Except.ok ()⟩]

theorem publish_runs {precondition : LocalWritePrecondition δ}
    {r : Except (LocalConditionalWriteStage × IoError) (NativeAttempt A)}
    (h : (publish precondition).Runs s tr r s') :
    (∃ err, r = .error (.publish, err) ∧ effects tr = [] ∧ Blames tr err ∧
      s' = { s with stage := .publish }) ∨
    ∃ attempt, r = .ok attempt ∧ tr = beginTrace ++ [publishEvent precondition attempt] ∧
      s' = s.attempted attempt := by
  simp only [publish, runs_setStage_bind, runs_orFail_bind, runs_checkpoint,
    runs_beginPublication] at h
  obtain ⟨err, rfl, rfl, rfl⟩ | ⟨_, _, _, rfl, rfl, h⟩ := h
  · exact .inl ⟨err, rfl, rfl, blames_singleton rfl fun _ => rfl, rfl⟩
  obtain ⟨err, rfl, rfl, rfl⟩ | ⟨_, _, _, rfl, rfl, h⟩ := h
  · exact .inl ⟨err, rfl, rfl, Blames.cons (blames_singleton rfl fun _ => rfl) _, rfl⟩
  rw [Proc.runs_lift_bind] at h
  obtain ⟨tr₁, tr₂, attempt, rfl, hattempt, h⟩ := h
  rw [Proc.runs_modify_bind, Proc.runs_pure] at h
  obtain ⟨rfl, rfl, rfl⟩ := h
  refine .inr ⟨attempt, rfl, ?_, ?_⟩
  · cases precondition with
    | absent =>
      rw [runs_publishAbsent] at hattempt
      subst hattempt
      rfl
    | content _ =>
      rw [runs_publishContent] at hattempt
      subst hattempt
      rfl
  · unfold Locals.attempted
    split <;> rfl

end Publish

end LocalFiles.Conditional
