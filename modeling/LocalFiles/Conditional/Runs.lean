import LocalFiles.Conditional.Settlement

/-!
# Runs — the runs of the whole commit

A run of `commit_conditional_with_directory` either ends before the native publication or goes
through all of its preparations, makes one publication attempt and settles it.  Both kinds are
described here by the calls they make; the properties of the commit are read off them.
-/

namespace LocalFiles.Conditional

open Interaction

variable {A δ : Type} [DecidableEq δ] (D : List UInt8 → δ)

/-! ## 1. Before the publication -/

/-- The calls up to the verified candidate copy. -/
def copiedTrace (candidate created : ConditionalEntry A) (bytes copyBytes : List UInt8) : Trace A :=
  candidateTrace candidate bytes ++
    ⟨.checkpoint .prepareCandidateCopy, Except.ok ()⟩ :: copyTrace created copyBytes

/-- Everything that precedes the native publication: the candidate was flushed, digested, copied
    and synchronized as the options require, and the precheck accepted the target. -/
structure Ready (precondition : LocalWritePrecondition δ) (options : LocalWriteOptions)
    (candidate created : ConditionalEntry A) (bytes : List UInt8) (tr : Trace A) : Prop where
  calls : ∃ copyBytes synced checked current,
    D copyBytes = D bytes ∧ SyncedBefore options (created.setRole .candidateCopy) synced ∧
    Accepted D options precondition checked ∧ (∀ ev ∈ checked, ev.call.prechecks) ∧
    tr = copiedTrace candidate created bytes copyBytes ++
      ⟨.checkpoint .verifyCandidateCopy, Except.ok ()⟩ :: synced ++
      precheckTrace checked current ++ beginTrace

/-- How the protocol can end before the native publication; the entries are those it keeps. -/
inductive Unpublished (precondition : LocalWritePrecondition δ) (options : LocalWriteOptions) :
    Trace A → LocalConditionalWriteStage × IoError → List (ConditionalEntry A) → Prop
  | uncopied {tr : Trace A} {stage : LocalConditionalWriteStage} {err : IoError}
      (hstage : stage ≠ .precheck) (hblame : Blames tr err)
      (hcopy : ∀ created, ⟨.createCandidateCopy, Except.ok created⟩ ∉ tr)
      (heffects : effects tr = [] ∨ effects tr = [.copies]) :
      Unpublished precondition options tr (stage, err) []
  | unverified {candidate copy : ConditionalEntry A} {bytes : List UInt8} {made : Trace A}
      {err : IoError} (hmade : (prepareCopy D (D bytes)).Runs made (.error (err, some copy))) :
      Unpublished precondition options
        (candidateTrace candidate bytes ++
          ⟨.checkpoint .prepareCandidateCopy, Except.ok ()⟩ :: made)
        (.verifyCandidateCopy, err) [copy]
  | unready {candidate created : ConditionalEntry A} {bytes copyBytes : List UInt8} {rest : Trace A}
      {stage : LocalConditionalWriteStage} {err : IoError} (hdigest : D copyBytes = D bytes)
      (hstage : stage ≠ .precheck) (hquiet : effects rest = []) (hblame : BlamesUnder options rest err) :
      Unpublished precondition options (copiedTrace candidate created bytes copyBytes ++ rest)
        (stage, err) [created.setRole .candidateCopy]
  | refused {candidate created : ConditionalEntry A} {bytes copyBytes : List UInt8}
      {synced checked : Trace A} {err : IoError}
      (hdigest : D copyBytes = D bytes)
      (hsynced : SyncedBefore options (created.setRole .candidateCopy) synced)
      (hcalls : ∀ ev ∈ checked, ev.call.prechecks)
      (hstarts : ∃ answer rest, checked = ⟨.checkpoint .precheck, answer⟩ :: rest)
      (hrefused : Refused D options precondition checked err) :
      Unpublished precondition options
        (copiedTrace candidate created bytes copyBytes ++
          ⟨.checkpoint .verifyCandidateCopy, Except.ok ()⟩ :: synced ++ checked)
        (.precheck, err) [created.setRole .candidateCopy]

/-- The locals with which the receipt of the native publication is met, after the calls `before`. -/
def Locals.ready (options : LocalWriteOptions) (created : ConditionalEntry A) (before : Trace A)
    (attempt : NativeAttempt A) : Locals A :=
  ({ (Locals.start options : Locals A) with
    entries := [created.setRole .candidateCopy] }.afterSyncs options before).attempted attempt

@[simp] theorem start_entries (options : LocalWriteOptions) :
    (Locals.start options : Locals A).entries = [] := rfl

@[simp] theorem afterSyncs_entries (s : Locals A) (options : LocalWriteOptions) (tr : Trace A) :
    (s.afterSyncs options tr).entries = s.entries := rfl

@[simp] theorem syncsSucceed_copiedTrace (candidate created : ConditionalEntry A)
    (bytes copyBytes : List UInt8) :
    syncsSucceed (copiedTrace candidate created bytes copyBytes) = true := rfl

@[simp] theorem syncsSucceed_beginTrace : syncsSucceed (beginTrace : Trace A) = true := rfl

theorem effects_of_prechecks {tr : Trace A} (h : ∀ ev ∈ tr, ev.call.prechecks) :
    effects tr = [] := by
  apply List.filterMap_eq_nil_iff.mpr
  intro ev hev
  have hcheck := h ev hev
  cases hcall : ev.call with
  | createCandidateCopy => rw [hcall] at hcheck; cases hcheck
  | publishAbsent => rw [hcall] at hcheck; cases hcheck
  | publishContent => rw [hcall] at hcheck; cases hcheck
  | rollback _ => rw [hcall] at hcheck; cases hcheck
  | removeObserved _ => rw [hcall] at hcheck; cases hcheck
  | _ => rfl

/-! Each part of the protocol can end the run in its own way, and touches neither the publication
    state nor the conflict flag when it does. -/

section Unpublished

variable {precondition : LocalWritePrecondition δ} {options : LocalWriteOptions} {s s' : Locals A}
  {tr : Trace A} {failure : LocalConditionalWriteStage × IoError}
  {candidate created : ConditionalEntry A} {bytes copyBytes : List UInt8}

theorem Unpublished.of_digestCandidate (hstage : s.stage = .prepare) (hentries : s.entries = [])
    (h : (digestCandidate D).Runs s tr (.error failure) s') :
    Unpublished D precondition options tr failure s'.entries ∧ s'.publication = s.publication ∧
      s'.postPublicationConflict = s.postPublicationConflict := by
  obtain ⟨stage, err, heq, hstage, rfl, hquiet, hblame⟩ | ⟨_, _, habs, -⟩ :=
    digestCandidate_runs D hstage h
  · cases heq
    refine ⟨?_, rfl, rfl⟩
    rw [show ({ s with stage := stage } : Locals A).entries = [] from hentries]
    refine .uncopied hstage hblame (fun created hmem => ?_) (.inl hquiet)
    have hcopies := mem_effects hmem rfl
    rw [hquiet] at hcopies
    cases hcopies
  · cases habs

/-- Without a copy the trace shows none. -/
theorem Unpublished.of_registerCopy (candidate : ConditionalEntry A) (hentries : s.entries = [])
    (h : (registerCopy D (D bytes)).Runs s tr (.error failure) s') :
    Unpublished D precondition options (candidateTrace candidate bytes ++ tr) failure s'.entries ∧
      s'.publication = s.publication ∧ s'.postPublicationConflict = s.postPublicationConflict := by
  obtain ⟨err, heq, hblame, rfl, htr⟩ | ⟨err, copy, made, heq, rfl, hmade, rfl⟩ |
    ⟨created, copyBytes, answer, hequal, rfl, rfl, ⟨err, rfl, heq⟩ | ⟨-, habs⟩⟩ :=
    registerCopy_runs D h
  · cases heq
    refine ⟨?_, rfl, rfl⟩
    rw [show ({ s with stage := .prepareCandidateCopy } : Locals A).entries = [] from hentries]
    refine .uncopied (by simp) (hblame.right _) ?_ ?_
    · intro created hmem
      rcases List.mem_append.mp hmem with hmem | hmem
      · exact absurd (mem_effects hmem rfl) (by simp [candidateTrace])
      · obtain rfl | rfl := htr
        · exact absurd (mem_effects hmem rfl) (by simp)
        · rcases List.mem_cons.mp hmem with hmem | hmem
          · cases hmem
          · cases List.mem_singleton.mp hmem
    · obtain rfl | rfl := htr
      · exact .inl (by simp [candidateTrace])
      · exact .inr (by simp [candidateTrace])
  · cases heq
    refine ⟨?_, rfl, rfl⟩
    rw [hentries]
    exact .unverified hmade
  · cases heq
    refine ⟨?_, rfl, rfl⟩
    rw [hentries]
    have hexit := @Unpublished.unready A δ _ D precondition options candidate created bytes
      copyBytes [⟨.checkpoint .verifyCandidateCopy, Except.error err⟩] .verifyCandidateCopy err
      hequal (by simp) rfl (blamesUnder_singleton rfl rfl)
    simpa [copiedTrace] using hexit
  · cases habs

theorem Unpublished.of_syncBeforePublication (precondition : LocalWritePrecondition δ)
    (candidate : ConditionalEntry A) (hequal : D copyBytes = D bytes)
    (hentries : s.entries = [created.setRole .candidateCopy])
    (h : (syncBeforePublication options (created.setRole .candidateCopy)).Runs s tr
      (.error failure) s') :
    Unpublished D precondition options (copiedTrace candidate created bytes copyBytes ++
        ⟨.checkpoint .verifyCandidateCopy, Except.ok ()⟩ :: tr) failure s'.entries ∧
      s'.publication = s.publication ∧ s'.postPublicationConflict = s.postPublicationConflict := by
  obtain ⟨err, durable, heq, honly, hblame, rfl⟩ | ⟨habs, -⟩ := syncBeforePublication_runs h
  · cases heq
    refine ⟨?_, rfl, rfl⟩
    rw [show ({ s with stage := .sync, durable := durable } : Locals A).entries = _ from hentries]
    exact .unready hequal (by simp) (by simp [effects_of_onlySyncs honly]) (hblame.cons _)
  · cases habs

theorem Unpublished.of_precheck {synced : Trace A} (candidate : ConditionalEntry A) (hequal : D copyBytes = D bytes)
    (hentries : s.entries = [created.setRole .candidateCopy])
    (hsynced : SyncedBefore options (created.setRole .candidateCopy) synced)
    (h : (precheck D precondition options).Runs s tr (.error failure) s') :
    Unpublished D precondition options (copiedTrace candidate created bytes copyBytes ++
        ⟨.checkpoint .verifyCandidateCopy, Except.ok ()⟩ :: synced ++ tr) failure s'.entries ∧
      s'.publication = s.publication ∧ s'.postPublicationConflict = s.postPublicationConflict := by
  obtain ⟨err, durable, heq, hcalls, hstarts, hrefused, rfl⟩ | ⟨_, _, habs, -⟩ := precheck_runs D h
  · cases heq
    refine ⟨?_, rfl, rfl⟩
    rw [show ({ s with stage := .precheck, durable := durable } : Locals A).entries = _
      from hentries]
    exact .refused hequal hsynced hcalls hstarts hrefused
  · cases habs

theorem Unpublished.of_publish {before : Trace A} (candidate : ConditionalEntry A) (hequal : D copyBytes = D bytes)
    (hentries : s.entries = [created.setRole .candidateCopy]) (hbefore : effects before = [])
    (h : (publish precondition).Runs s tr (.error failure) s') :
    Unpublished D precondition options
        (copiedTrace candidate created bytes copyBytes ++ (before ++ tr)) failure s'.entries ∧
      s'.publication = s.publication ∧ s'.postPublicationConflict = s.postPublicationConflict := by
  obtain ⟨err, heq, hquiet, hblame, rfl⟩ | ⟨_, habs, -⟩ := publish_runs h
  · cases heq
    refine ⟨?_, rfl, rfl⟩
    rw [show ({ s with stage := .publish } : Locals A).entries = _ from hentries]
    exact .unready hequal (by simp) (by simp [hbefore, hquiet])
      ((hblame.right _).under options)
  · cases habs

end Unpublished

theorem protocol_runs {precondition : LocalWritePrecondition δ} {options : LocalWriteOptions}
    {tr : Trace A} {s' : Locals A}
    {r : Except (LocalConditionalWriteStage × IoError) (ConditionalEntry A × δ)}
    (h : (protocol D precondition options).Runs (.start options) tr r s') :
    (∃ failure, r = .error failure ∧ Unpublished D precondition options tr failure s'.entries ∧
      s'.publication = .notPublished ∧ s'.postPublicationConflict = false) ∨
    ∃ candidate created bytes before attempt after,
      Ready D precondition options candidate created bytes before ∧
      tr = before ++ publishEvent precondition attempt :: after ∧
      Settlement D precondition options (D bytes) attempt
        (.ready options created before attempt) after r s' := by
  rw [protocol, Proc.runs_bind] at h
  obtain ⟨e, rfl, h⟩ | ⟨tr₁, tr₂, digest, mid, rfl, hdigest, h⟩ := h
  · exact .inl ⟨_, rfl, Unpublished.of_digestCandidate D rfl rfl h⟩
  obtain ⟨_, _, habs, -⟩ | ⟨candidate, bytes, heq, rfl, rfl⟩ := digestCandidate_runs D rfl hdigest
  · cases habs
  cases heq
  -- the copy of the candidate is made and verified
  rw [Proc.runs_bind] at h
  obtain ⟨e, rfl, h⟩ | ⟨tr₃, tr₄, copy, mid, rfl, hcopy, h⟩ := h
  · exact .inl ⟨_, rfl, Unpublished.of_registerCopy D candidate rfl h⟩
  obtain ⟨_, habs, -⟩ | ⟨_, _, _, habs, -⟩ |
    ⟨created, copyBytes, _, hequal, rfl, rfl, ⟨_, -, habs⟩ | ⟨rfl, heq⟩⟩ := registerCopy_runs D hcopy
  · cases habs
  · cases habs
  · cases habs
  cases heq
  -- what has to be durable before the publication is synchronized
  rw [Proc.runs_bind] at h
  obtain ⟨e, rfl, h⟩ | ⟨synced, tr₆, _, mid, rfl, hsync, h⟩ := h
  · obtain ⟨hexit, hflags⟩ :=
      Unpublished.of_syncBeforePublication D precondition candidate hequal rfl h
    refine .inl ⟨_, rfl, ?_, hflags⟩
    simpa [copiedTrace] using hexit
  obtain ⟨_, _, habs, -⟩ | ⟨-, hsynced, rfl⟩ := syncBeforePublication_runs hsync
  · cases habs
  -- the target is looked at once more
  rw [Proc.runs_bind] at h
  obtain ⟨e, rfl, h⟩ | ⟨tr₇, tr₈, _, mid, rfl, hcheck, h⟩ := h
  · obtain ⟨hexit, hflags⟩ := Unpublished.of_precheck D candidate hequal rfl hsynced h
    refine .inl ⟨_, rfl, ?_, hflags⟩
    simpa [copiedTrace] using hexit
  obtain ⟨_, _, habs, -⟩ | ⟨checked, current, -, haccepted, hcalls, rfl, rfl⟩ :=
    precheck_runs D hcheck
  · cases habs
  -- the one call that publishes
  rw [Proc.runs_bind] at h
  obtain ⟨e, rfl, h⟩ | ⟨tr₉, after, attempt, mid, rfl, hpublish, h⟩ := h
  · have hquiet : effects (⟨.checkpoint .verifyCandidateCopy, Except.ok ()⟩ :: synced ++
        precheckTrace checked current) = [] := by
      simp [effects_of_onlySyncs hsynced.onlySyncs, effects_of_prechecks hcalls, precheckTrace]
    obtain ⟨hexit, hflags⟩ := Unpublished.of_publish D candidate hequal rfl hquiet h
    refine .inl ⟨_, rfl, ?_, hflags⟩
    simpa [copiedTrace] using hexit
  obtain ⟨_, habs, -⟩ | ⟨attempt', heq, rfl, rfl⟩ := publish_runs hpublish
  · cases habs
  cases heq
  refine .inr ⟨candidate, created, bytes, _, attempt, after,
    ⟨copyBytes, synced, checked, current, hequal, hsynced, haccepted, hcalls, rfl⟩, ?_, ?_⟩
  · simp [copiedTrace]
  · have hlocals := settlePublication_runs D rfl rfl rfl rfl h
    -- the losses of durability are collected in another order than they arise
    have hdurable (d a b p : Bool) : (d && (a && b || p)) = (d && (a || p) && (b || p)) := by
      cases d <;> cases a <;> cases b <;> cases p <;> rfl
    convert hlocals using 1
    simp [Locals.ready, Locals.attempted, Locals.afterSyncs, Call.synchronizes, hdurable]

omit [DecidableEq δ] in
theorem Ready.effects_eq {precondition : LocalWritePrecondition δ} {options : LocalWriteOptions}
    {candidate created : ConditionalEntry A} {bytes : List UInt8} {tr : Trace A}
    (h : Ready D precondition options candidate created bytes tr) : effects tr = [.copies] := by
  obtain ⟨copyBytes, synced, checked, current, -, hsynced, -, hcalls, rfl⟩ := h.calls
  simp [copiedTrace, candidateTrace, copyTrace, precheckTrace, beginTrace,
    effects_of_onlySyncs hsynced.onlySyncs, effects_of_prechecks hcalls]

omit [DecidableEq δ] in
theorem publishEvent_effect (precondition : LocalWritePrecondition δ) (attempt : NativeAttempt A) :
    (publishEvent precondition attempt).call.effect = some .publishes := by
  cases precondition <;> rfl

/-! ## 2. Cleanup after a successful publication -/

/-- The calls that clean up one entry, with the error that left it in place, if any. -/
inductive CleanupCalls (entry : ConditionalEntry A) : Trace A → Option IoError → Prop
  | skipped (point : ConditionalPoint) (source : IoError) :
      CleanupCalls entry [⟨.checkpoint point, Except.error source⟩] (some source)
  | unverified (point : ConditionalPoint) (source : IoError) :
      CleanupCalls entry
        [⟨.checkpoint point, Except.ok ()⟩, ⟨.verifyEntry entry, Except.error source⟩] (some source)
  | removal (point : ConditionalPoint) (answer : IoResult Unit) :
      CleanupCalls entry
        [⟨.checkpoint point, Except.ok ()⟩, ⟨.verifyEntry entry, Except.ok ()⟩,
          ⟨.removeObserved entry, answer⟩] (resultError answer)

/-- `Cleaned entries tr errors retained`: the cleanup loop went over `entries` with the calls
    `tr`, collecting `errors` and retaining `retained`. -/
inductive Cleaned : List (ConditionalEntry A) → Trace A → List LocalFileError →
    List (LocalRecoveryFile A) → Prop
  | nil : Cleaned [] [] [] []
  | removed (entry : ConditionalEntry A) {rest : List (ConditionalEntry A)} {calls tr : Trace A}
      {errors : List LocalFileError} {retained : List (LocalRecoveryFile A)}
      (hcalls : CleanupCalls entry calls none) (htail : Cleaned rest tr errors retained) :
      Cleaned (entry :: rest) (calls ++ tr) errors retained
  | retained (entry : ConditionalEntry A) (source : IoError) {rest : List (ConditionalEntry A)}
      {calls tr : Trace A} {errors : List LocalFileError} {retained : List (LocalRecoveryFile A)}
      (hcalls : CleanupCalls entry calls (some source)) (htail : Cleaned rest tr errors retained) :
      Cleaned (entry :: rest) (calls ++ tr)
        (.fromIo .cleanup (some entry.namespacePath) none source :: errors)
        (entry.intoRecovery :: retained)

theorem cleanupLoop_runs {entries : List (ConditionalEntry A)} {errors : List LocalFileError}
    {retained : List (LocalRecoveryFile A)} {tr : Trace A}
    {r : List LocalFileError × List (LocalRecoveryFile A)}
    (h : (cleanupLoop entries errors retained).Runs tr r) :
    ∃ errors' retained', Cleaned entries tr errors' retained' ∧
      r = (errors ++ errors', retained ++ retained') := by
  induction entries generalizing tr errors retained with
  | nil =>
    obtain ⟨rfl, rfl⟩ := Prog.runs_pure.mp h
    exact ⟨[], [], .nil, by simp⟩
  | cons entry rest ih =>
    rw [cleanupLoop, Prog.runs_bind] at h
    obtain ⟨calls, tr₂, answer, rfl, hcalls, h⟩ := h
    have hentry : CleanupCalls entry calls (resultError answer) := by
      simp only [Prog.runs_andThen, runs_checkpoint, runs_verifyEntry, runs_removeObserved] at hcalls
      obtain ⟨source, rfl, rfl⟩ | ⟨_, _, _, rfl, rfl, hcalls⟩ := hcalls
      · exact .skipped _ source
      obtain ⟨source, rfl, rfl⟩ | ⟨_, _, _, rfl, rfl, rfl⟩ := hcalls
      · exact .unverified _ source
      · exact .removal _ answer
    cases answer with
    | ok _ =>
      obtain ⟨errors', retained', htail, rfl⟩ := ih h
      exact ⟨errors', retained', .removed entry hentry htail, rfl⟩
    | error source =>
      obtain ⟨errors', retained', htail, rfl⟩ := ih h
      exact ⟨_, _, .retained entry source hentry htail, by simp⟩

/-- What the end of a successful commit did with the entries it had kept. -/
inductive CleanedUp (entries : List (ConditionalEntry A)) :
    Trace A → List LocalFileError → List (LocalRecoveryFile A) → Prop
  | skipped (source : IoError) :
      CleanedUp entries [⟨.checkpoint .saveComplete, Except.error source⟩]
        [.fromIo .cleanup none none source] (entries.map (·.intoRecovery))
  | done {cleaned : Trace A} {errors more : List LocalFileError}
      {retained : List (LocalRecoveryFile A)}
      (hcleaned : Cleaned (cleanupOrder entries) cleaned errors retained) :
      CleanedUp entries
        (⟨.checkpoint .saveComplete, Except.ok ()⟩ :: cleaned ++ [⟨.takeCleanupErrors, more⟩])
        (errors ++ more) retained

theorem finishCleanup_runs {entries : List (ConditionalEntry A)} {tr : Trace A}
    {r : List LocalFileError × List (LocalRecoveryFile A)}
    (h : (finishCleanup entries).Runs tr r) : CleanedUp entries tr r.1 r.2 := by
  rw [finishCleanup, Prog.runs_bind] at h
  obtain ⟨tr₁, tr₂, answer, rfl, hpoint, h⟩ := h
  rw [runs_checkpoint] at hpoint
  subst hpoint
  cases answer with
  | error source =>
    obtain ⟨rfl, rfl⟩ := Prog.runs_pure.mp h
    exact .skipped source
  | ok _ =>
    dsimp only at h
    rw [cleanupEntries, Prog.runs_bind] at h
    obtain ⟨tr₃, tr₄, ⟨errors, retained⟩, rfl, hloop, h⟩ := h
    obtain ⟨errors', retained', hcleaned, heq⟩ := cleanupLoop_runs hloop
    cases heq
    replace h := Prog.runs_bind.mp h
    obtain ⟨tr₅, tr₆, more, rfl, hmore, h⟩ := h
    rw [runs_takeCleanupErrors] at hmore
    subst hmore
    obtain ⟨rfl, rfl⟩ := Prog.runs_pure.mp h
    exact .done hcleaned

theorem Cleaned.effects_removes {entries : List (ConditionalEntry A)} {tr : Trace A}
    {errors : List LocalFileError} {retained : List (LocalRecoveryFile A)}
    (h : Cleaned entries tr errors retained) : ∀ effect ∈ effects tr, effect = .removes := by
  have hentry {entry : ConditionalEntry A} {calls : Trace A} {error : Option IoError}
      (hcalls : CleanupCalls entry calls error) : ∀ effect ∈ effects calls, effect = .removes := by
    cases hcalls <;> simp
  induction h with
  | nil => simp
  | removed _ hcalls _ ih =>
    rw [effects_append, List.forall_mem_append]
    exact ⟨hentry hcalls, ih⟩
  | retained _ _ hcalls _ ih =>
    rw [effects_append, List.forall_mem_append]
    exact ⟨hentry hcalls, ih⟩

theorem CleanedUp.effects_removes {entries : List (ConditionalEntry A)} {tr : Trace A}
    {errors : List LocalFileError} {retained : List (LocalRecoveryFile A)}
    (h : CleanedUp entries tr errors retained) : ∀ effect ∈ effects tr, effect = .removes := by
  cases h with
  | skipped source => simp
  | done hcleaned => simpa using hcleaned.effects_removes

/-- The calls of the last synchronization, whose failure is only reported. -/
theorem syncCleanup_runs {options : LocalWriteOptions} {tr : Trace A} {r : List LocalFileError}
    (h : (syncCleanup options).Runs tr r) :
    ∀ ev ∈ tr, ev.call = .checkpoint .cleanupSync ∨ ev.call = .syncNamespace := by
  rw [syncCleanup] at h
  split at h
  · obtain ⟨rfl, -⟩ := Prog.runs_pure.mp h
    simp
  rw [Prog.runs_bind] at h
  obtain ⟨tr₁, tr₂, answer, rfl, hsync, h⟩ := h
  have hnil : tr₂ = [] := by
    cases answer with
    | ok _ => exact (Prog.runs_pure.mp h).1
    | error _ => exact (Prog.runs_pure.mp h).1
  subst hnil
  simp only [Prog.runs_andThen, runs_checkpoint, runs_syncNamespace] at hsync
  obtain ⟨_, rfl, rfl⟩ | ⟨_, _, _, rfl, rfl, rfl⟩ := hsync
  · simp
  · simp

theorem effects_of_cleanupSync {tr : Trace A}
    (h : ∀ ev ∈ tr, ev.call = .checkpoint .cleanupSync ∨ ev.call = .syncNamespace) :
    effects tr = [] := by
  apply List.filterMap_eq_nil_iff.mpr
  intro ev hev
  obtain hcall | hcall := h ev hev
  · rw [hcall]; rfl
  · rw [hcall]; rfl

/-! ## 3. The whole commit -/

/-- The error a commit returns that stopped at `stage` with `source` and the locals `s`, when the
    backend hands `taken` over at the end. -/
def commitError (stage : LocalConditionalWriteStage) (source : IoError) (s : Locals A)
    (taken : List (ConditionalEntry A)) : LocalConditionalCommitError A where
  error := .fromIo .commit none none source
  reason := failureReason stage source s.postPublicationConflict
  stage := stage
  publication := s.publication
  recoveryFiles := taken.map (·.intoRecovery) ++ s.entries.map (·.intoRecovery)

/-- The outcome a commit returns that ended with the locals `s`. -/
def commitOutcome (bytesWritten : UInt64) (currentDirectory : Option Path) (digest : δ)
    (s : Locals A) (errors : List LocalFileError) (retained : List (LocalRecoveryFile A)) :
    LocalConditionalWriteOutcome A δ :=
  .new digest
    { state := .committed
      atomic := true
      publicationMethod := s.publicationMethod
      durable := s.durable
      fileSynced := s.fileSynced
      bytesWritten := bytesWritten
      failureState := none } retained errors currentDirectory

/-- A run of the commit is a run of its body followed by the transfer of the recovery entries or
    by the cleanup. -/
inductive CommitRun (precondition : LocalWritePrecondition δ) (options : LocalWriteOptions)
    (bytesWritten : UInt64) (currentDirectory : Option Path) :
    Trace A → Except (LocalConditionalCommitError A) (LocalConditionalWriteOutcome A δ) → Prop
  | failed {body : Trace A} {stage : LocalConditionalWriteStage} {source : IoError} {s : Locals A}
      (taken : List (ConditionalEntry A))
      (hbody : (protocol D precondition options).Runs (.start options) body
        (.error (stage, source)) s) :
      CommitRun precondition options bytesWritten currentDirectory
        (body ++ [⟨.takeRecoveryEntries, taken⟩]) (.error (commitError stage source s taken))
  | succeeded {body cleanup sync : Trace A} {installed : ConditionalEntry A} {digest : δ}
      {s : Locals A} {errors syncErrors : List LocalFileError}
      {retained : List (LocalRecoveryFile A)}
      (hbody : (protocol D precondition options).Runs (.start options) body
        (.ok (installed, digest)) s)
      (hcleanup : CleanedUp s.entries cleanup errors retained)
      (hsync : ∀ ev ∈ sync, ev.call = .checkpoint .cleanupSync ∨ ev.call = .syncNamespace) :
      CommitRun precondition options bytesWritten currentDirectory (body ++ (cleanup ++ sync))
        (.ok (commitOutcome bytesWritten currentDirectory digest s (errors ++ syncErrors) retained))

theorem commit_runs {precondition : LocalWritePrecondition δ} {options : LocalWriteOptions}
    {bytesWritten : UInt64} {currentDirectory : Option Path} {tr : Trace A}
    {result : Except (LocalConditionalCommitError A) (LocalConditionalWriteOutcome A δ)}
    (h : (commitConditionalWithDirectory D precondition options bytesWritten currentDirectory).Runs
      tr result) :
    CommitRun D precondition options bytesWritten currentDirectory tr result := by
  rw [commitConditionalWithDirectory, Prog.runs_bind] at h
  obtain ⟨body, rest, ⟨r, s⟩, rfl, hbody, h⟩ := h
  cases r with
  | error failure =>
    obtain ⟨stage, source⟩ := failure
    replace h := Prog.runs_bind.mp h
    obtain ⟨tr₁, tr₂, e, rfl, hreport, h⟩ := h
    obtain ⟨rfl, rfl⟩ := Prog.runs_pure.mp h
    rw [reportFailure, Prog.runs_bind] at hreport
    obtain ⟨tr₃, tr₄, taken, rfl, htaken, hreport⟩ := hreport
    rw [runs_takeRecoveryEntries] at htaken
    subst htaken
    obtain ⟨rfl, rfl⟩ := Prog.runs_pure.mp hreport
    exact .failed taken hbody
  | ok done =>
    obtain ⟨installed, digest⟩ := done
    replace h := Prog.runs_bind.mp h
    obtain ⟨tr₁, tr₂, outcome, rfl, hreport, h⟩ := h
    obtain ⟨rfl, rfl⟩ := Prog.runs_pure.mp h
    rw [reportSuccess, Prog.runs_bind] at hreport
    obtain ⟨cleanup, tr₄, ⟨errors, retained⟩, rfl, hcleanup, hreport⟩ := hreport
    replace hreport := Prog.runs_bind.mp hreport
    obtain ⟨sync, tr₆, syncErrors, rfl, hsync, hreport⟩ := hreport
    obtain ⟨rfl, rfl⟩ := Prog.runs_pure.mp hreport
    rw [List.append_nil, List.append_nil]
    exact .succeeded hbody (finishCleanup_runs hcleanup) (syncCleanup_runs hsync)

/-- A failed run stopped before the publication or after it, and then handed the recovery entries
    over. -/
theorem commit_error_runs {precondition : LocalWritePrecondition δ} {options : LocalWriteOptions}
    {bytesWritten : UInt64} {currentDirectory : Option Path} {tr : Trace A}
    {e : LocalConditionalCommitError A}
    (h : (commitConditionalWithDirectory D precondition options bytesWritten currentDirectory).Runs
      tr (.error e)) :
    ∃ body stage source s taken, tr = body ++ [⟨.takeRecoveryEntries, taken⟩] ∧
      e = commitError stage source s taken ∧
      ((Unpublished D precondition options body (stage, source) s.entries ∧
          s.publication = .notPublished ∧ s.postPublicationConflict = false) ∨
        ∃ candidate created bytes before attempt after,
          Ready D precondition options candidate created bytes before ∧
          body = before ++ publishEvent precondition attempt :: after ∧
          Settlement D precondition options (D bytes) attempt
            (.ready options created before attempt) after (.error (stage, source)) s) := by
  generalize hresult : Except.error e = result at h
  cases commit_runs D h with
  | succeeded hbody hcleanup hsync => cases hresult
  | @failed body stage source s taken hbody =>
    cases hresult
    refine ⟨body, stage, source, s, taken, rfl, rfl, ?_⟩
    obtain ⟨failure, heq, hunpublished⟩ | hpublished := protocol_runs D hbody
    · cases heq
      exact .inl hunpublished
    · exact .inr hpublished

end LocalFiles.Conditional
