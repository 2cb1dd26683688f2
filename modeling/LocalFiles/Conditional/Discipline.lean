import LocalFiles.Conditional.Soundness

/-!
# Discipline — the order of the namespace-changing calls

A commit publishes at most once, after all of its preparations, and rolls back at most once,
right after it has seen its own candidate in place.  Entries are removed only by a successful
commit, each one right after it has been verified.
-/

namespace LocalFiles.Conditional

open Interaction

variable {A δ : Type} [DecidableEq δ] (D : List UInt8 → δ)
variable {precondition : LocalWritePrecondition δ} {options : LocalWriteOptions}
variable {bytesWritten : UInt64} {currentDirectory : Option Path} {tr : Trace A}

/-! ## 1. The only call with an effect -/

/-- A trace can be cut in one way only at an effect that occurs once. -/
theorem split_at_effect {before after pre post : Trace A} {ev ev' : Event (Call A) (Answer A)}
    {effect : NamespaceEffect} (h : before ++ ev :: after = pre ++ ev' :: post)
    (heffect : ev'.call.effect = some effect) (hbefore : effect ∉ effects before)
    (hafter : effect ∉ effects after) : pre = before ∧ ev' = ev ∧ post = after := by
  apply cut_unique (P := fun ev => ev.call.effect = some effect) h heffect
  · intro ev hev heq
    exact hbefore (mem_effects hev heq)
  · intro ev hev heq
    exact hafter (mem_effects hev heq)

theorem not_cut_of_effects {pre post : Trace A} {ev : Event (Call A) (Answer A)}
    {effect : NamespaceEffect} (hnone : effect ∉ effects tr) (htr : tr = pre ++ ev :: post)
    (heffect : ev.call.effect = some effect) : False := by
  apply hnone
  rw [htr]
  exact mem_effects (List.mem_append_right _ List.mem_cons_self) heffect

theorem eq_of_count_effect {ev ev' : Event (Call A) (Answer A)} {effect : NamespaceEffect}
    (hcount : (effects tr).count effect ≤ 1) (hev : ev ∈ tr) (hev' : ev' ∈ tr)
    (heffect : ev.call.effect = some effect) (heffect' : ev'.call.effect = some effect) :
    ev = ev' := by
  induction tr with
  | nil => cases hev
  | cons first rest ih =>
    rw [effects_cons, List.count_append] at hcount
    -- The effect of the first call, together with one in the rest, would make two.
    have hrest {other : Event (Call A) (Answer A)} (hmem : other ∈ rest)
        (hother : other.call.effect = some effect) (hfirst : first.call.effect = some effect) :
        False := by
      have hone := List.count_pos_iff.mpr (mem_effects hmem hother)
      rw [hfirst, Option.toList_some, List.count_singleton_self] at hcount
      omega
    rcases List.mem_cons.mp hev with rfl | hmem
    · rcases List.mem_cons.mp hev' with rfl | hmem'
      · rfl
      · exact (hrest hmem' heffect' heffect).elim
    · rcases List.mem_cons.mp hev' with rfl | hmem'
      · exact (hrest hmem heffect heffect').elim
      · exact ih (by omega) hmem hmem'

/-! ## 2. Removals -/

/-- Every removal in `tr` is of one of `entries` and directly follows its verification. -/
def RemovalsVerified (entries : List (ConditionalEntry A)) (tr : Trace A) : Prop :=
  ∀ pre entry answer post, tr = pre ++ ⟨.removeObserved entry, answer⟩ :: post →
    entry ∈ entries ∧ [⟨.verifyEntry entry, Except.ok ()⟩] <:+ pre

theorem removalsVerified_of_effects {entries : List (ConditionalEntry A)}
    (h : .removes ∉ effects tr) : RemovalsVerified entries tr := by
  intro pre entry answer post htr
  exact (not_cut_of_effects h htr rfl).elim

theorem RemovalsVerified.append {entries : List (ConditionalEntry A)} {tr₁ tr₂ : Trace A}
    (h₁ : RemovalsVerified entries tr₁) (h₂ : RemovalsVerified entries tr₂) :
    RemovalsVerified entries (tr₁ ++ tr₂) := by
  intro pre entry answer post htr
  obtain ⟨mid, rfl, hmid⟩ | ⟨mid, hmid, htail⟩ := List.append_eq_append_iff.mp htr
  · obtain ⟨hmem, hsuffix⟩ := h₂ mid entry answer post hmid
    exact ⟨hmem, hsuffix.trans (List.suffix_append _ _)⟩
  · cases mid with
    | nil =>
      -- The removal is the first call of the second part, which no verification precedes.
      obtain ⟨-, hsuffix⟩ := h₂ [] entry answer post htail.symm
      cases List.suffix_nil.mp hsuffix
    | cons first rest =>
      obtain ⟨rfl, -⟩ := List.cons.inj htail
      exact h₁ pre entry answer rest hmid

theorem RemovalsVerified.mono {entries entries' : List (ConditionalEntry A)}
    (h : RemovalsVerified entries tr) (hsub : entries ⊆ entries') :
    RemovalsVerified entries' tr := by
  intro pre entry answer post htr
  obtain ⟨hmem, hsuffix⟩ := h pre entry answer post htr
  exact ⟨hsub hmem, hsuffix⟩

theorem CleanupCalls.removalsVerified {entry : ConditionalEntry A} {error : Option IoError}
    (h : CleanupCalls entry tr error) : RemovalsVerified [entry] tr := by
  cases h with
  | skipped point source => exact removalsVerified_of_effects (by simp)
  | unverified point source => exact removalsVerified_of_effects (by simp)
  | removal point answer =>
    intro pre removed answer' post htr
    have hsplit := @split_at_effect A
      [⟨.checkpoint point, Except.ok ()⟩, ⟨.verifyEntry entry, Except.ok ()⟩] [] pre post
      ⟨.removeObserved entry, answer⟩ ⟨.removeObserved removed, answer'⟩ .removes htr rfl
      (by simp) (by simp)
    obtain ⟨rfl, hev, -⟩ := hsplit
    cases hev
    exact ⟨List.mem_singleton_self _, List.suffix_append [_] [_]⟩

theorem Cleaned.removalsVerified {entries : List (ConditionalEntry A)}
    {errors : List LocalFileError} {retained : List (LocalRecoveryFile A)}
    (h : Cleaned entries tr errors retained) : RemovalsVerified entries tr := by
  induction h with
  | nil => exact removalsVerified_of_effects (by simp)
  | removed entry hcalls _ ih =>
    exact (hcalls.removalsVerified.mono (by simp)).append (ih.mono (by simp))
  | retained entry source hcalls _ ih =>
    exact (hcalls.removalsVerified.mono (by simp)).append (ih.mono (by simp))

theorem CleanedUp.removalsVerified {entries : List (ConditionalEntry A)}
    {errors : List LocalFileError} {retained : List (LocalRecoveryFile A)}
    (h : CleanedUp entries tr errors retained) : RemovalsVerified entries tr := by
  cases h with
  | skipped source => exact removalsVerified_of_effects (by simp)
  | done hcleaned =>
    have hsub : cleanupOrder entries ⊆ entries := by
      simp [cleanupOrder]
    have hstart : RemovalsVerified entries
        [(⟨.checkpoint .saveComplete, Except.ok ()⟩ : Event (Call A) (Answer A))] :=
      removalsVerified_of_effects (by simp)
    refine (hstart.append (hcleaned.removalsVerified.mono hsub)).append ?_
    exact removalsVerified_of_effects (by simp)

/-! ## 3. Rollbacks -/

/-- What precedes a rollback of `displaced`: a publication attempt after all of its preparations,
    observations without an effect, and the check that the installed entry is still the candidate,
    with the candidate's content, and that `displaced` is still in place. -/
def RollbackValidated (precondition : LocalWritePrecondition δ) (options : LocalWriteOptions)
    (displaced : ConditionalEntry A) (tr : Trace A) : Prop :=
  ∃ candidate created bytes before attempt observed installed installedBytes,
    Ready D precondition options candidate created bytes before ∧
    attempt.installed = some installed ∧ effects observed = [] ∧ D installedBytes = D bytes ∧
    tr = before ++ publishEvent precondition attempt :: (observed ++
      ⟨.isCandidate installed, Except.ok true⟩ :: readBack installed installedBytes ++
        [⟨.verifyEntry displaced, Except.ok ()⟩, ⟨.checkpoint .rollbackValidated, Except.ok ()⟩])

/-- After the publication a failing run changes the namespace only by a validated rollback. -/
theorem Settlement.failed_effects {candidateDigest : δ} {attempt : NativeAttempt A}
    {s s' : Locals A} {failure : LocalConditionalWriteStage × IoError}
    (h : Settlement D precondition options candidateDigest attempt s tr (.error failure) s') :
    effects tr = [] ∨ ∃ observed installed bytes displaced receipt rest,
      attempt.installed = some installed ∧ effects observed = [] ∧ D bytes = candidateDigest ∧
      effects rest = [] ∧
      tr = observed ++ ⟨.isCandidate installed, Except.ok true⟩ :: readBack installed bytes ++
        [⟨.verifyEntry displaced, Except.ok ()⟩, ⟨.checkpoint .rollbackValidated, Except.ok ()⟩] ++
        ⟨.rollback displaced, receipt⟩ :: rest := by
  generalize hresult : Except.error failure = result at h
  cases h with
  | refused _ => exact .inl (by simp)
  | unverified _ _ hdone hcurrent _ _ => exact .inl (by simp [hdone.quiet.1, hcurrent.quiet])
  | unchecked _ hdone hinstalled _ _ => exact .inl (by simp [hdone.quiet.1, hinstalled.quiet])
  | unsynced hchecked honly _ _ _ _ =>
    exact .inl (by simp [hchecked.quiet.1, effects_of_onlySyncs honly])
  | settled _ _ => cases hresult
  | @rolledBack installed verified kept tr₁ tr₂ stage err _ hchecked hend _ _ _ _ =>
    have hchecks : effects tr₁ = [] := hchecked.quiet.1
    cases hend with
    | undisplaced => exact .inl (by simp [hchecks])
    | withheld _ _ hquiet => exact .inl (by simp [hchecks, hquiet])
    | attempted displaced others oldBytes bytes receipt after kept hdigest hafter hquiet =>
      refine .inr ⟨tr₁ ++ (readBack displaced oldBytes ++
        [⟨.checkpoint .rollbackPrecheck, Except.ok ()⟩, ⟨.checkpoint .rollback, Except.ok ()⟩]),
        installed, bytes, displaced, receipt, after, hchecked.accepted.installed, ?_, hdigest,
        hquiet, ?_⟩
      · simp [hchecks]
      · simp [rollbackTrace]

/-! ## 4. The discipline of a whole run -/

/-- Before the publication a run makes at most the candidate copy. -/
theorem Unpublished.effects_copies {failure : LocalConditionalWriteStage × IoError}
    {entries : List (ConditionalEntry A)}
    (h : Unpublished D precondition options tr failure entries) :
    ∀ effect ∈ effects tr, effect = .copies := by
  cases h with
  | uncopied _ _ _ heffects =>
    obtain heffects | heffects := heffects
    · simp [heffects]
    · simp [heffects]
  | unverified hmade =>
    obtain ⟨_, habs, -⟩ | ⟨created, err, -, -, heffects, -⟩ | ⟨_, _, habs, -⟩ :=
      prepareCopy_runs D hmade
    · cases habs
    · simp [candidateTrace, heffects]
    · cases habs
  | unready _ _ hquiet _ => simp [copiedTrace, candidateTrace, copyTrace, hquiet]
  | refused _ hsynced hcalls _ _ =>
    simp [copiedTrace, candidateTrace, copyTrace, effects_of_onlySyncs hsynced.onlySyncs,
      effects_of_prechecks hcalls]

/-- A failing run is cut in one way only at its publication. -/
theorem Settlement.split_unique {candidate created : ConditionalEntry A} {bytes : List UInt8}
    {attempt attempt' : NativeAttempt A} {s s' : Locals A} {before before' settled after' post : Trace A}
    {failure : LocalConditionalWriteStage × IoError}
    (h : Settlement D precondition options (D bytes) attempt s settled (.error failure) s')
    (hready : Ready D precondition options candidate created bytes before)
    (hpost : .publishes ∉ effects post)
    (htr : before ++ publishEvent precondition attempt :: (settled ++ post) =
      before' ++ publishEvent precondition attempt' :: after') :
    before' = before ∧ attempt' = attempt ∧ after' = settled ++ post := by
  have hbefore : .publishes ∉ effects before := by
    rw [hready.effects_eq]
    decide
  have hafter : .publishes ∉ effects (settled ++ post) := by
    rw [effects_append, List.mem_append, not_or]
    refine ⟨?_, hpost⟩
    obtain hquiet | ⟨observed, installed, bytes', displaced, receipt, rest, -, hobserved, -, hrest,
      rfl⟩ := h.failed_effects
    · simp [hquiet]
    · simp [hobserved, hrest]
  obtain ⟨rfl, hev, rfl⟩ := split_at_effect htr (publishEvent_effect _ _) hbefore hafter
  refine ⟨rfl, ?_, rfl⟩
  cases precondition <;> cases hev <;> rfl

/-- The settlement of the publication in a failed run. -/
theorem commit_error_settlement {e : LocalConditionalCommitError A} {before after : Trace A}
    {attempt : NativeAttempt A}
    (h : (commitConditionalWithDirectory D precondition options bytesWritten currentDirectory).Runs
      tr (.error e)) (htr : tr = before ++ publishEvent precondition attempt :: after) :
    ∃ stage source s taken candidate created bytes settled,
      Ready D precondition options candidate created bytes before ∧
      after = settled ++ [⟨.takeRecoveryEntries, taken⟩] ∧ e = commitError stage source s taken ∧
      Settlement D precondition options (D bytes) attempt (.ready options created before attempt)
        settled (.error (stage, source)) s := by
  obtain ⟨body, stage, source, s, taken, rfl, rfl, ⟨hunpublished, -⟩ |
    ⟨candidate, created, bytes, before', attempt', settled, hready, rfl, hsettled⟩⟩ :=
    commit_error_runs D h
  · have hmem : .publishes ∈ effects (body ++ [⟨.takeRecoveryEntries, taken⟩]) := by
      rw [htr]
      exact mem_effects (List.mem_append_right _ List.mem_cons_self) (publishEvent_effect _ _)
    rw [effects_append] at hmem
    rcases List.mem_append.mp hmem with hmem | hmem
    · cases hunpublished.effects_copies _ _ hmem
    · exact absurd hmem (by simp)
  · rw [List.append_assoc, List.cons_append] at htr
    obtain ⟨rfl, rfl, rfl⟩ := hsettled.split_unique D hready (by simp) htr
    exact ⟨stage, source, s, taken, candidate, created, bytes, settled, hready, rfl, rfl, hsettled⟩

/-- The calls of a run around its publication attempt; `after` is what follows the attempt. -/
structure Attempted (precondition : LocalWritePrecondition δ) (options : LocalWriteOptions)
    (attempt : NativeAttempt A) (tr after : Trace A) : Prop where
  calls : ∃ candidate created bytes before,
    Ready D precondition options candidate created bytes before ∧
    tr = before ++ publishEvent precondition attempt :: after

omit [DecidableEq δ] in
theorem Attempted.effects_eq {attempt : NativeAttempt A} {after : Trace A}
    (h : Attempted D precondition options attempt tr after) :
    effects tr = .copies :: .publishes :: effects after := by
  obtain ⟨candidate, created, bytes, before, hready, rfl⟩ := h.calls
  rw [effects_append, effects_cons, publishEvent_effect, hready.effects_eq]
  rfl

omit [DecidableEq δ] in
/-- The publication attempt is the only place where the run can be cut at a publication. -/
theorem Attempted.ready {attempt : NativeAttempt A} {after pre post : Trace A}
    {ev : Event (Call A) (Answer A)} (h : Attempted D precondition options attempt tr after)
    (hafter : .publishes ∉ effects after) (htr : tr = pre ++ ev :: post)
    (heffect : ev.call.effect = some .publishes) :
    ev = publishEvent precondition attempt ∧
      ∃ candidate created bytes, Ready D precondition options candidate created bytes pre := by
  obtain ⟨candidate, created, bytes, before, hready, rfl⟩ := h.calls
  have hbefore : .publishes ∉ effects before := by
    rw [hready.effects_eq]
    decide
  obtain ⟨rfl, rfl, -⟩ := split_at_effect htr heffect hbefore hafter
  exact ⟨rfl, candidate, created, bytes, hready⟩

/-- A failed run makes a copy at most, or attempts one publication and rolls it back at most. -/
theorem commit_error_effects {e : LocalConditionalCommitError A}
    (h : (commitConditionalWithDirectory D precondition options bytesWritten currentDirectory).Runs
      tr (.error e)) :
    (∀ effect ∈ effects tr, effect = .copies) ∨
    ∃ attempt after, Attempted D precondition options attempt tr after ∧
      (effects after = [] ∨ effects after = [.rollsBack] ∧
        ∀ pre displaced receipt post, tr = pre ++ ⟨.rollback displaced, receipt⟩ :: post →
          RollbackValidated D precondition options displaced pre) := by
  obtain ⟨body, stage, source, s, taken, rfl, -, ⟨hunpublished, -⟩ |
    ⟨candidate, created, bytes, before, attempt, after, hready, rfl, hsettled⟩⟩ :=
    commit_error_runs D h
  · refine .inl ?_
    rw [effects_append, List.forall_mem_append]
    exact ⟨hunpublished.effects_copies, by simp⟩
  refine .inr ⟨attempt, after ++ [⟨.takeRecoveryEntries, taken⟩],
    ⟨candidate, created, bytes, before, hready, by simp⟩, ?_⟩
  obtain hquiet | ⟨observed, installed, installedBytes, displaced, receipt, rest, hinstalled,
    hobserved, hdigest, hrest, rfl⟩ := hsettled.failed_effects
  · exact .inl (by simp [hquiet])
  refine .inr ⟨by simp [hobserved, hrest], fun pre displaced' receipt' post htr => ?_⟩
  -- Everything up to the rollback is the part before the only call with that effect.
  have hbefore : .rollsBack ∉ effects (before ++ publishEvent precondition attempt :: (observed ++
      ⟨.isCandidate installed, Except.ok true⟩ :: readBack installed installedBytes ++
        [⟨.verifyEntry displaced, Except.ok ()⟩,
          ⟨.checkpoint .rollbackValidated, Except.ok ()⟩])) := by
    rw [effects_append, effects_cons, publishEvent_effect, hready.effects_eq]
    simp [hobserved]
  have hafter : .rollsBack ∉ effects (rest ++ [⟨.takeRecoveryEntries, taken⟩]) := by
    simp [hrest]
  have hsplit := @split_at_effect A _ _ pre post ⟨.rollback displaced, receipt⟩
    ⟨.rollback displaced', receipt'⟩ .rollsBack (by simpa using htr) rfl hbefore hafter
  obtain ⟨rfl, hev, -⟩ := hsplit
  cases hev
  exact ⟨candidate, created, bytes, before, attempt, observed, installed, installedBytes, hready,
    hinstalled, hobserved, hdigest, rfl⟩

/-- A successful run attempts one publication and then only removes verified entries, none of
    which is the installed one when that is no other entry's object. -/
theorem commit_ok_effects {outcome : LocalConditionalWriteOutcome A δ}
    (h : (commitConditionalWithDirectory D precondition options bytesWritten currentDirectory).Runs
      tr (.ok outcome)) :
    ∃ attempt after, Attempted D precondition options attempt tr after ∧
      (∀ effect ∈ effects after, effect = .removes) ∧
      ∃ created, ⟨.createCandidateCopy, Except.ok created⟩ ∈ tr ∧
        RemovalsVerified (created.setRole .candidateCopy :: attempt.displaced) tr := by
  cases commit_ok_runs D h with
  | @intro candidate created installed bytes before checked synced cleanup sync attempt _ _ _ _ _
      hready hchecked hsynced hcleanup hsync =>
    have hremoves := effects_after_publication D hchecked hsynced hcleanup hsync
    refine ⟨attempt, _, ⟨candidate, created, bytes, before, hready, rfl⟩, hremoves, created, ?_, ?_⟩
    · obtain ⟨-, copyBytes, -, hcopy⟩ := hready.reads
      exact List.mem_append_left _ (hcopy.subset List.mem_cons_self)
    · have hquiet : .removes ∉ effects (before ++
          publishEvent precondition attempt :: (checked ++ synced)) := by
        rw [effects_append, effects_cons, publishEvent_effect, hready.effects_eq]
        simp [hchecked.quiet.1, effects_of_onlySyncs hsynced.onlySyncs]
      have hlast : .removes ∉ effects sync := by
        rw [effects_of_cleanupSync hsync]
        exact List.not_mem_nil
      have hall := ((removalsVerified_of_effects hquiet).append hcleanup.removalsVerified).append
        (removalsVerified_of_effects hlast)
      simpa using hall

/-- The effects of every run after its publication attempt, if it makes one. -/
theorem commit_effects
    {result : Except (LocalConditionalCommitError A) (LocalConditionalWriteOutcome A δ)}
    (h : (commitConditionalWithDirectory D precondition options bytesWritten currentDirectory).Runs
      tr result) :
    (∀ effect ∈ effects tr, effect = .copies) ∨
    ∃ attempt after, Attempted D precondition options attempt tr after ∧
      .publishes ∉ effects after ∧ (effects after).count .rollsBack ≤ 1 := by
  cases result with
  | error e =>
    obtain hcopies | ⟨attempt, after, hattempted, hquiet | ⟨hrolls, -⟩⟩ := commit_error_effects D h
    · exact .inl hcopies
    · refine .inr ⟨attempt, after, hattempted, ?_⟩
      rw [hquiet]
      decide
    · refine .inr ⟨attempt, after, hattempted, ?_⟩
      rw [hrolls]
      decide
  | ok outcome =>
    obtain ⟨attempt, after, hattempted, hremoves, -⟩ := commit_ok_effects D h
    refine .inr ⟨attempt, after, hattempted, fun hmem => ?_, ?_⟩
    · cases hremoves _ hmem
    · have hnone : .rollsBack ∉ effects after := by
        intro hmem
        cases hremoves _ hmem
      rw [List.count_eq_zero.mpr hnone]
      omega

theorem commit_publishes
    {result : Except (LocalConditionalCommitError A) (LocalConditionalWriteOutcome A δ)}
    (h : (commitConditionalWithDirectory D precondition options bytesWritten currentDirectory).Runs
      tr result) :
    (effects tr).count .publishes ≤ 1 ∧
    ∀ pre ev post, tr = pre ++ ev :: post → ev.call.effect = some .publishes →
      ∃ candidate created bytes, Ready D precondition options candidate created bytes pre := by
  obtain hcopies | ⟨attempt, after, hattempted, hpublishes, -⟩ := commit_effects D h
  · have hnone : .publishes ∉ effects tr := by
      intro hmem
      cases hcopies _ hmem
    refine ⟨?_, fun pre ev post htr heffect => (not_cut_of_effects hnone htr heffect).elim⟩
    rw [List.count_eq_zero.mpr hnone]
    omega
  · refine ⟨?_, fun pre ev post htr heffect => (hattempted.ready D hpublishes htr heffect).2⟩
    have hcount : (effects tr).count .publishes = 1 := by
      rw [hattempted.effects_eq, List.count_cons_of_ne (by decide), List.count_cons_self,
        List.count_eq_zero.mpr hpublishes]
    omega

theorem commit_rollsBack
    {result : Except (LocalConditionalCommitError A) (LocalConditionalWriteOutcome A δ)}
    (h : (commitConditionalWithDirectory D precondition options bytesWritten currentDirectory).Runs
      tr result) :
    (effects tr).count .rollsBack ≤ 1 ∧
    ∀ pre displaced receipt post, tr = pre ++ ⟨.rollback displaced, receipt⟩ :: post →
      RollbackValidated D precondition options displaced pre := by
  constructor
  · obtain hcopies | ⟨attempt, after, hattempted, -, hrolls⟩ := commit_effects D h
    · have hnone : .rollsBack ∉ effects tr := by
        intro hmem
        cases hcopies _ hmem
      rw [List.count_eq_zero.mpr hnone]
      omega
    · rw [hattempted.effects_eq, List.count_cons_of_ne (by decide),
        List.count_cons_of_ne (by decide)]
      exact hrolls
  · intro pre displaced receipt post htr
    have hmem : .rollsBack ∈ effects tr := by
      by_contra hnone
      exact not_cut_of_effects hnone htr rfl
    cases result with
    | error e =>
      obtain hcopies | ⟨attempt, after, hattempted, hquiet | ⟨-, hvalidated⟩⟩ :=
        commit_error_effects D h
      · cases hcopies _ hmem
      · rw [hattempted.effects_eq, hquiet] at hmem
        exact absurd hmem (by decide)
      · exact hvalidated pre displaced receipt post htr
    | ok outcome =>
      obtain ⟨attempt, after, hattempted, hremoves, -⟩ := commit_ok_effects D h
      rw [hattempted.effects_eq] at hmem
      have hafter : .rollsBack ∈ effects after := by
        simpa using hmem
      cases hremoves _ hafter

theorem commit_error_removes {e : LocalConditionalCommitError A}
    (h : (commitConditionalWithDirectory D precondition options bytesWritten currentDirectory).Runs
      tr (.error e)) : .removes ∉ effects tr := by
  intro hmem
  obtain hcopies | ⟨attempt, after, hattempted, hquiet | ⟨hrolls, -⟩⟩ := commit_error_effects D h
  · cases hcopies _ hmem
  · rw [hattempted.effects_eq, hquiet] at hmem
    exact absurd hmem (by decide)
  · rw [hattempted.effects_eq, hrolls] at hmem
    exact absurd hmem (by decide)

theorem commit_ok_removes {outcome : LocalConditionalWriteOutcome A δ} {pre post : Trace A}
    {entry : ConditionalEntry A} {answer : IoResult Unit}
    (h : (commitConditionalWithDirectory D precondition options bytesWritten currentDirectory).Runs
      tr (.ok outcome)) (htr : tr = pre ++ ⟨.removeObserved entry, answer⟩ :: post) :
    [⟨.verifyEntry entry, Except.ok ()⟩] <:+ pre ∧
      ∀ created attempt installed, ⟨.createCandidateCopy, Except.ok created⟩ ∈ tr →
        publishEvent precondition attempt ∈ tr → attempt.installed = some installed →
        installed.access ∉ (created :: attempt.displaced).map (·.access) →
        entry.access ≠ installed.access := by
  obtain ⟨attempt, after, hattempted, hremoves, created, hcreated, hverified⟩ :=
    commit_ok_effects D h
  obtain ⟨hentry, hsuffix⟩ := hverified pre entry answer post htr
  refine ⟨hsuffix, fun created' attempt' installed hcreated' hattempt' hinstalled hother heq => ?_⟩
  have hnone (effect : NamespaceEffect) (hne : effect ≠ .removes) : effect ∉ effects after :=
    fun hmem => hne (hremoves _ hmem)
  -- The copy and the attempt are those of the only events that create and publish.
  have hcopies : (effects tr).count .copies ≤ 1 := by
    have hcount : (effects tr).count .copies = 1 := by
      rw [hattempted.effects_eq, List.count_cons_self, List.count_cons_of_ne (by decide),
        List.count_eq_zero.mpr (hnone _ (by decide))]
    omega
  cases eq_of_count_effect hcopies hcreated hcreated' rfl rfl
  have hpublished : publishEvent precondition attempt ∈ tr := by
    obtain ⟨_, _, _, before, -, hsplit⟩ := hattempted.calls
    rw [hsplit]
    exact List.mem_append_right _ List.mem_cons_self
  have hevent := eq_of_count_effect (commit_publishes D h).1 hpublished hattempt'
    (publishEvent_effect _ _) (publishEvent_effect _ _)
  have hattempts : attempt = attempt' := by
    cases precondition <;> cases hevent <;> rfl
  subst hattempts
  apply hother
  rw [List.map_cons, ← heq]
  rcases List.mem_cons.mp hentry with rfl | hmem
  · exact List.mem_cons_self
  · exact List.mem_cons_of_mem _ (List.mem_map_of_mem hmem)

/-- **Trace discipline.**  In every run, whatever the backend answers: there is at most one
    publication, after all of its preparations (`Ready` lists them in their order); there is at
    most one rollback, right after its validation; a failed run removes nothing; and a successful
    run removes an entry only right after verifying it, and never the installed one.  Entries are
    owned values, so the installed one is an object apart from the copy and the displaced ones. -/
theorem commit_trace_discipline
    {result : Except (LocalConditionalCommitError A) (LocalConditionalWriteOutcome A δ)}
    (h : (commitConditionalWithDirectory D precondition options bytesWritten currentDirectory).Runs
      tr result) :
    (effects tr).count .publishes ≤ 1 ∧
    (∀ pre ev post, tr = pre ++ ev :: post → ev.call.effect = some .publishes →
      ∃ candidate created bytes, Ready D precondition options candidate created bytes pre) ∧
    (effects tr).count .rollsBack ≤ 1 ∧
    (∀ pre displaced receipt post, tr = pre ++ ⟨.rollback displaced, receipt⟩ :: post →
      RollbackValidated D precondition options displaced pre) ∧
    (∀ e, result = .error e → .removes ∉ effects tr) ∧
    (∀ outcome, result = .ok outcome →
      ∀ pre entry answer post, tr = pre ++ ⟨.removeObserved entry, answer⟩ :: post →
      [⟨.verifyEntry entry, Except.ok ()⟩] <:+ pre ∧
      ∀ created attempt installed, ⟨.createCandidateCopy, Except.ok created⟩ ∈ tr →
        publishEvent precondition attempt ∈ tr → attempt.installed = some installed →
        installed.access ∉ (created :: attempt.displaced).map (·.access) →
        entry.access ≠ installed.access) := by
  obtain ⟨hpublish, hready⟩ := commit_publishes D h
  obtain ⟨hrollback, hvalidated⟩ := commit_rollsBack D h
  refine ⟨hpublish, hready, hrollback, hvalidated, ?_, ?_⟩
  · intro e hresult
    rw [hresult] at h
    exact commit_error_removes D h
  · intro outcome hresult pre entry answer post htr
    rw [hresult] at h
    exact commit_ok_removes D h htr

theorem commit_trace_discipline_conflict :
    .rollsBack ∈ effects (sampleRun (sampleBackend overtaken restored) (.content [0]) {}).1 ∧
      (effects (sampleRun (sampleBackend overtaken restored) (.content [0]) {}).1).count
        .rollsBack ≤ 1 := by
  have hrun := sampleRun_runs (sampleBackend overtaken restored) (.content [0]) {}
  exact ⟨by decide +kernel, (commit_trace_discipline id hrun).2.2.1⟩

end LocalFiles.Conditional
