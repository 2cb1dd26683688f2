import LocalFiles.Conditional.Runs

/-!
# Soundness — what a successful commit has verified

A commit that returns an outcome has read the digest it reports three times: from the candidate
before the publication, from the independent copy and from the installed entry after the
publication.  The publication itself was clean and the target met the precondition.
-/

namespace LocalFiles.Conditional

open Interaction

variable {A δ : Type} [DecidableEq δ] (D : List UInt8 → δ)
variable {precondition : LocalWritePrecondition δ} {options : LocalWriteOptions}
variable {bytesWritten : UInt64} {currentDirectory : Option Path} {tr : Trace A}

/-! ## 1. The shape of a successful run -/

/-- The locals at the end of a successful body. -/
def Locals.committed (options : LocalWriteOptions) (created : ConditionalEntry A)
    (before : Trace A) (attempt : NativeAttempt A) (stage : LocalConditionalWriteStage)
    (fileSynced : Bool) (synced : Trace A) : Locals A :=
  { Locals.ready options created before attempt with
    entries := created.setRole .candidateCopy :: attempt.displaced
    stage := stage
    publication := attempt.publication
    fileSynced := fileSynced }.afterSyncs options synced

/-- A successful run, cut at its native publication and at the end of its body. -/
inductive Committed (precondition : LocalWritePrecondition δ) (options : LocalWriteOptions)
    (bytesWritten : UInt64) (currentDirectory : Option Path) :
    Trace A → LocalConditionalWriteOutcome A δ → Prop
  | intro {candidate created installed : ConditionalEntry A} {bytes : List UInt8}
      {before checked synced cleanup sync : Trace A} {attempt : NativeAttempt A}
      {stage : LocalConditionalWriteStage} {fileSynced : Bool}
      {errors syncErrors : List LocalFileError} {retained : List (LocalRecoveryFile A)}
      (hready : Ready D precondition options candidate created bytes before)
      (hchecked : Checked D precondition (D bytes) attempt installed attempt.displaced false checked)
      (hsynced : SyncedAfter options installed synced fileSynced)
      (hcleanup : CleanedUp (created.setRole .candidateCopy :: attempt.displaced) cleanup errors
        retained)
      (hsync : ∀ ev ∈ sync, ev.call = .checkpoint .cleanupSync ∨ ev.call = .syncNamespace) :
      Committed precondition options bytesWritten currentDirectory
        (before ++ publishEvent precondition attempt :: (checked ++ synced ++ (cleanup ++ sync)))
        (commitOutcome bytesWritten currentDirectory (D bytes)
          (.committed options created before attempt stage fileSynced synced)
          (errors ++ syncErrors) retained)

theorem commit_ok_runs {outcome : LocalConditionalWriteOutcome A δ}
    (h : (commitConditionalWithDirectory D precondition options bytesWritten currentDirectory).Runs
      tr (.ok outcome)) :
    Committed D precondition options bytesWritten currentDirectory tr outcome := by
  generalize hresult : Except.ok outcome = result at h
  cases commit_runs D h with
  | failed taken hbody => cases hresult
  | succeeded hbody hcleanup hsync =>
    cases hresult
    obtain ⟨_, habs, -⟩ | ⟨candidate, created, bytes, before, attempt, after, hready, rfl, hsettled⟩ :=
      protocol_runs D hbody
    · cases habs
    cases hsettled with
    | settled hchecked hsynced =>
      -- Without a conflict the displaced entries are kept as the receipt reported them.
      have hkept := hchecked
      obtain ⟨verified, identity, content, found, hverified, hconflict, -⟩ := hkept.calls
      have hfound : found = false :=
        (Bool.or_eq_false_iff.mp (Bool.or_eq_false_iff.mp hconflict.symm).1).2
      obtain ⟨rfl, -⟩ := hverified.all_match D hfound
      rw [List.append_assoc, List.cons_append]
      exact .intro hready hchecked hsynced hcleanup hsync

/-- After its publication a successful run only removes entries. -/
theorem effects_after_publication {candidateDigest : δ} {attempt : NativeAttempt A}
    {installed : ConditionalEntry A} {kept entries : List (ConditionalEntry A)} {fileSynced : Bool}
    {checked synced cleanup sync : Trace A} {errors : List LocalFileError}
    {retained : List (LocalRecoveryFile A)}
    (hchecked : Checked D precondition candidateDigest attempt installed kept false checked)
    (hsynced : SyncedAfter options installed synced fileSynced)
    (hcleanup : CleanedUp entries cleanup errors retained)
    (hsync : ∀ ev ∈ sync, ev.call = .checkpoint .cleanupSync ∨ ev.call = .syncNamespace) :
    ∀ effect ∈ effects (checked ++ synced ++ (cleanup ++ sync)), effect = .removes := by
  simpa [hchecked.quiet.1, effects_of_onlySyncs hsynced.onlySyncs, effects_of_cleanupSync hsync]
    using hcleanup.effects_removes

/-! ## 2. Success is sound -/

/-- The target met the precondition at the precheck, and the entries that the publication
    displaced are the ones the precondition speaks of. -/
def TargetMet (attempt : NativeAttempt A) (before after : Trace A) :
    LocalWritePrecondition δ → Prop
  | .absent => ∃ err : IoError, err.kind = .notFound ∧ ⟨.openTarget, Except.error err⟩ ∈ before
  | .content expected =>
    (∃ target bytes, D bytes = expected ∧
      ⟨.openTarget, Except.ok target⟩ :: readBack target bytes <:+: before) ∧
    (attempt.publication ≠ .notPublished → attempt.displaced ≠ []) ∧
    ∀ displaced ∈ attempt.displaced, ∃ bytes, D bytes = expected ∧
      ⟨.verifyEntry displaced, Except.ok ()⟩ :: readBack displaced bytes <:+: after

omit [DecidableEq δ] in
theorem Ready.reads {candidate created : ConditionalEntry A} {bytes : List UInt8}
    (h : Ready D precondition options candidate created bytes tr) :
    candidateTrace candidate bytes <:+: tr ∧
      ∃ copyBytes, D copyBytes = D bytes ∧ copyTrace created copyBytes <:+: tr := by
  obtain ⟨copyBytes, synced, checked, current, hequal, -, -, -, rfl⟩ := h.calls
  have hcandidate : candidateTrace candidate bytes <:+:
      copiedTrace candidate created bytes copyBytes := List.infix_append_left
  have hcopy : copyTrace created copyBytes <:+: copiedTrace candidate created bytes copyBytes :=
    List.infix_append_of_infix_right (List.infix_cons List.infix_rfl)
  have hcopied : copiedTrace candidate created bytes copyBytes <:+:
      copiedTrace candidate created bytes copyBytes ++
        ⟨.checkpoint .verifyCandidateCopy, Except.ok ()⟩ :: synced ++
        precheckTrace checked current ++ beginTrace := by
    simp only [List.append_assoc]
    exact List.infix_append_left
  exact ⟨hcandidate.trans hcopied, copyBytes, hequal, hcopy.trans hcopied⟩

omit [DecidableEq δ] in
theorem Ready.candidate_first {candidate created : ConditionalEntry A} {bytes : List UInt8}
    (h : Ready D precondition options candidate created bytes tr) :
    candidateTrace candidate bytes <+: tr := by
  obtain ⟨copyBytes, synced, checked, current, -, -, -, -, rfl⟩ := h.calls
  simp only [copiedTrace, List.append_assoc]
  exact List.prefix_append _ _

omit [DecidableEq δ] in
theorem Ready.accepted {candidate created : ConditionalEntry A} {bytes : List UInt8}
    (h : Ready D precondition options candidate created bytes tr) :
    ∃ checked, Accepted D options precondition checked ∧ checked <:+: tr := by
  obtain ⟨copyBytes, synced, checked, current, -, -, haccepted, -, rfl⟩ := h.calls
  refine ⟨checked, haccepted, List.infix_append_of_infix_left ?_⟩
  refine List.infix_append_of_infix_right (List.infix_cons ?_)
  exact List.infix_append_left

theorem Checked.installed_reads {candidateDigest : δ} {attempt : NativeAttempt A}
    {installed : ConditionalEntry A} {kept : List (ConditionalEntry A)}
    (h : Checked D precondition candidateDigest attempt installed kept false tr) :
    attempt.error = none ∧ ∃ bytes, D bytes = candidateDigest ∧
      installedTrace installed true bytes <:+: tr := by
  obtain ⟨verified, identity, bytes, found, -, hconflict, rfl⟩ := h.calls
  simp only [Bool.false_eq, Bool.or_eq_false_iff, Bool.not_eq_eq_eq_not, Bool.not_false,
    Bool.and_eq_true, decide_eq_true_eq, Option.isSome_eq_false_iff, Option.isNone_iff_eq_none]
    at hconflict
  obtain ⟨⟨hnone, -⟩, rfl, hdigest⟩ := hconflict
  exact ⟨hnone, bytes, hdigest, List.infix_append_right⟩

theorem Checked.displaced_reads {expected candidateDigest : δ} {attempt : NativeAttempt A}
    {installed : ConditionalEntry A} {kept : List (ConditionalEntry A)}
    (h : Checked D (.content expected) candidateDigest attempt installed kept false tr) :
    (attempt.publication ≠ .notPublished → attempt.displaced ≠ []) ∧
      ∀ displaced ∈ attempt.displaced, ∃ bytes, D bytes = expected ∧
        ⟨.verifyEntry displaced, Except.ok ()⟩ :: readBack displaced bytes <:+: tr := by
  obtain ⟨verified, identity, bytes, found, hverified, hconflict, rfl⟩ := h.calls
  have hfound : found = false :=
    (Bool.or_eq_false_iff.mp (Bool.or_eq_false_iff.mp hconflict.symm).1).2
  refine ⟨fun hpublished => ?_, fun displaced hmem => ?_⟩
  · obtain habs | hnot | hsome := h.accepted.displaced
    · cases habs
    · exact absurd hnot hpublished
    · exact hsome
  · obtain ⟨oldBytes, hmatch, hwithin⟩ := (hverified.all_match D hfound).2 displaced hmem
    refine ⟨oldBytes, of_not_not fun hne => ?_, ?_⟩
    · rw [mismatches, decide_eq_true hne] at hmatch
      cases hmatch
    · have hinner : ⟨.verifyEntry displaced, Except.ok ()⟩ :: readBack displaced oldBytes <:+:
          displacedTrace (.content expected) displaced oldBytes := List.infix_cons List.infix_rfl
      exact List.infix_append_of_infix_left (List.infix_cons (hinner.trans hwithin))

/-- **Success is sound.**  Whatever the backend answered, a commit that returns `outcome` made
    one publication attempt, without error and without a rollback.  The reported digest was read
    from the candidate and from its independent copy before it, and from the installed entry,
    which is the candidate, after it.  The target met the precondition when it was checked, and
    over existing content every displaced entry was verified and reads as expected. -/
theorem commit_ok_sound {outcome : LocalConditionalWriteOutcome A δ}
    (h : (commitConditionalWithDirectory D precondition options bytesWritten currentDirectory).Runs
      tr (.ok outcome)) :
    ∃ before attempt after candidate created installed bytes copyBytes installedBytes,
      tr = before ++ publishEvent precondition attempt :: after ∧
      (∀ ev ∈ before ++ after, ev.call.effect ≠ some .publishes) ∧
      candidateTrace candidate bytes <:+: before ∧ D bytes = outcome.digest ∧
      copyTrace created copyBytes <:+: before ∧ D copyBytes = outcome.digest ∧
      attempt.installed = some installed ∧
      installedTrace installed true installedBytes <:+: after ∧ D installedBytes = outcome.digest ∧
      attempt.error = none ∧ (∀ ev ∈ tr, ev.call.effect ≠ some .rollsBack) ∧
      TargetMet D attempt before after precondition := by
  cases commit_ok_runs D h with
  | intro hready hchecked hsynced hcleanup hsync =>
    rename_i candidate created installed bytes before checked synced cleanup sync attempt _ _ _ _ _
    obtain ⟨hcandidate, copyBytes, hcopyDigest, hcopy⟩ := hready.reads
    obtain ⟨hnone, installedBytes, hinstalledDigest, hinstalled⟩ := hchecked.installed_reads
    have hafter : checked <:+: checked ++ synced ++ (cleanup ++ sync) :=
      List.infix_append_of_infix_left List.infix_append_left
    -- nothing behind the publication publishes or rolls back
    have heffects := effects_after_publication D hchecked hsynced hcleanup hsync
    refine ⟨before, attempt, _, candidate, created, installed, bytes, copyBytes, installedBytes, rfl,
      ?_, hcandidate, rfl, hcopy, hcopyDigest, hchecked.accepted.installed, hinstalled.trans hafter,
      hinstalledDigest, hnone, ?_, ?_⟩
    · intro ev hev heffect
      rcases List.mem_append.mp hev with hev | hev
      · have hcopies := mem_effects hev heffect
        rw [hready.effects_eq] at hcopies
        simp at hcopies
      · cases heffects _ (mem_effects hev heffect)
    · intro ev hev heffect
      rcases List.mem_append.mp hev with hev | hev
      · have hcopies := mem_effects hev heffect
        rw [hready.effects_eq] at hcopies
        simp at hcopies
      · rcases List.mem_cons.mp hev with rfl | hev
        · rw [publishEvent_effect] at heffect
          cases heffect
        · cases heffects _ (mem_effects hev heffect)
    · obtain ⟨target, haccepted, htarget⟩ := hready.accepted
      cases haccepted with
      | absent err hkind => exact ⟨err, hkind, htarget.subset (List.mem_singleton_self _)⟩
      | content entry content preserved =>
        obtain ⟨hsome, hreads⟩ := hchecked.displaced_reads
        refine ⟨⟨entry, content, rfl, ?_⟩, hsome, fun displaced hmem => ?_⟩
        · exact List.infix_append_left.trans htarget
        · obtain ⟨oldBytes, hdigest, hwithin⟩ := hreads displaced hmem
          exact ⟨oldBytes, hdigest, hwithin.trans hafter⟩

/-! ## 3. A backend to run against -/

/-- An entry of the sample backend; `access` identifies the object it gives access to. -/
def sampleEntry (role : LocalRecoveryFileRole) (name : String) (access : Nat) :
    ConditionalEntry Nat where
  role := role
  namespacePath := [name]
  diagnosticPath := none
  access := access

/-- A receipt of the sample backend. -/
def sampleAttempt (error : Option IoError) (publication : LocalConditionalPublicationState)
    (installed : Option (ConditionalEntry Nat)) (displaced : List (ConditionalEntry Nat)) :
    NativeAttempt Nat where
  publicationMethod := .atomicExchange
  error := error
  publication := publication
  installed := installed
  displaced := displaced

/-- A backend on which every call succeeds.  The objects `0`, `1` and `2` are the candidate, its
    copy and the installed entry and read `[1]`; the object `4` reads `[2]`, and every other one
    the expected `[0]`. -/
def sampleBackend (attempt receipt : NativeAttempt Nat) : (c : Call Nat) → Answer Nat c
  | .candidate => sampleEntry .stagedCandidate "staging" 0
  | .openReader _ => Except.ok ()
  | .readAll entry => Except.ok (if entry.access < 3 then [1] else if entry.access = 4 then [2] else [0])
  | .createCandidateCopy => Except.ok (sampleEntry .candidateCopy "copy" 1)
  | .openTarget => Except.ok (sampleEntry .displaced "target" 9)
  | .isCandidate _ => Except.ok true
  | .publishAbsent => attempt
  | .publishContent => attempt
  | .rollback _ => receipt
  | .takeRecoveryEntries => ([] : List (ConditionalEntry Nat))
  | .takeCleanupErrors => ([] : List LocalFileError)
  | .flush => Except.ok ()
  | .seekStart _ => Except.ok ()
  | .checkpoint _ => Except.ok ()
  | .preserveMetadata _ => Except.ok ()
  | .syncCandidate => Except.ok ()
  | .syncEntry _ => Except.ok ()
  | .syncNamespace => Except.ok ()
  | .verifyEntry _ => Except.ok ()
  | .beginPublication => Except.ok ()
  | .removeObserved _ => Except.ok ()

/-- The run of a commit against a backend whose answers depend on the call alone, with the digest
    being the content itself. -/
def sampleRun (backend : (c : Call Nat) → Answer Nat c)
    (precondition : LocalWritePrecondition (List UInt8)) (options : LocalWriteOptions) :
    Trace Nat × Except (LocalConditionalCommitError Nat)
      (LocalConditionalWriteOutcome Nat (List UInt8)) :=
  (commitConditionalWithDirectory id precondition options 1 none).exec (fun _ => backend) []

theorem sampleRun_runs (backend : (c : Call Nat) → Answer Nat c)
    (precondition : LocalWritePrecondition (List UInt8)) (options : LocalWriteOptions) :
    (commitConditionalWithDirectory id precondition options 1 none).Runs
      (sampleRun backend precondition options).1 (sampleRun backend precondition options).2 :=
  Prog.exec_runs _ _

theorem sampleRun_answers (backend : (c : Call Nat) → Answer Nat c)
    (precondition : LocalWritePrecondition (List UInt8)) (options : LocalWriteOptions) :
    ∀ ev ∈ (sampleRun backend precondition options).1, ev.answer = backend ev.call :=
  Prog.exec_answers backend _ [] (by simp)

/-- The publication event of a run of the sample backend. -/
theorem sampleRun_published {backend : (c : Call Nat) → Answer Nat c} {expected : List UInt8}
    {options : LocalWriteOptions}
    (h : (sampleRun backend (.content expected) options).1.any (·.call = .publishContent) = true) :
    ∃ before after, (sampleRun backend (.content expected) options).1 =
      before ++ publishEvent (.content expected) (backend .publishContent) :: after := by
  obtain ⟨ev, hev, hcall⟩ := List.any_eq_true.mp h
  have hanswer := sampleRun_answers backend _ _ ev hev
  obtain ⟨before, after, hsplit⟩ := List.append_of_mem hev
  obtain ⟨c, answer⟩ := ev
  obtain rfl : c = .publishContent := of_decide_eq_true hcall
  obtain rfl : answer = backend .publishContent := hanswer
  exact ⟨before, after, hsplit⟩

/-- The exchange of the candidate with an old target. -/
def exchanged : NativeAttempt Nat :=
  sampleAttempt none .published (some (sampleEntry .displaced "target" 2))
    [sampleEntry .displaced "staging" 3]

/-- The exchange of the candidate with a target that was overtaken after the precheck. -/
def overtaken : NativeAttempt Nat :=
  sampleAttempt none .published (some (sampleEntry .displaced "target" 2))
    [sampleEntry .displaced "staging" 4]

/-- The reverse exchange of `overtaken`. -/
def restored : NativeAttempt Nat :=
  sampleAttempt none .restored (some (sampleEntry .displaced "target" 4))
    [sampleEntry .rollbackDisplaced "staging" 2]

/-- `backend` with a checkpoint that fails. -/
def failingAt (point : ConditionalPoint) (error : IoError) (backend : (c : Call Nat) → Answer Nat c) :
    (c : Call Nat) → Answer Nat c
  | .checkpoint reached => if reached = point then Except.error error else Except.ok ()
  | c => backend c

/-- `backend` with an entry that cannot be verified. -/
def unverifiable (access : Nat) (backend : (c : Call Nat) → Answer Nat c) :
    (c : Call Nat) → Answer Nat c
  | .verifyEntry entry =>
    if entry.access = access then Except.error ⟨.invalidData, "identity changed", none⟩
    else Except.ok ()
  | c => backend c

/-- The result is an outcome with the property `p`. -/
def okAnd {ε α : Type} (p : α → Bool) : Except ε α → Bool
  | .ok a => p a
  | .error _ => false

/-- The result is an error with the property `p`. -/
def errorAnd {ε α : Type} (p : ε → Bool) : Except ε α → Bool
  | .ok _ => false
  | .error e => p e

theorem exists_of_okAnd {ε α : Type} {p : α → Bool} {r : Except ε α} (h : okAnd p r = true) :
    ∃ a, r = .ok a ∧ p a = true := by
  cases r with
  | error e => cases h
  | ok a => exact ⟨a, rfl, h⟩

theorem exists_of_errorAnd {ε α : Type} {p : ε → Bool} {r : Except ε α}
    (h : errorAnd p r = true) : ∃ e, r = .error e ∧ p e = true := by
  cases r with
  | error e => exact ⟨e, rfl, h⟩
  | ok a => cases h

theorem commit_ok_sound_exchange :
    ∃ outcome, (sampleRun (sampleBackend exchanged exchanged) (.content [0]) {}).2 = .ok outcome ∧
      ∃ before attempt after, (sampleRun (sampleBackend exchanged exchanged) (.content [0]) {}).1 =
        before ++ publishEvent (.content [0]) attempt :: after ∧ attempt.error = none := by
  have hok : okAnd (fun _ => true)
      (sampleRun (sampleBackend exchanged exchanged) (.content [0]) {}).2 = true := by
    decide +kernel
  obtain ⟨outcome, houtcome, -⟩ := exists_of_okAnd hok
  have hrun := sampleRun_runs (sampleBackend exchanged exchanged) (.content [0]) {}
  rw [houtcome] at hrun
  obtain ⟨before, attempt, after, _, _, _, _, _, _, htr, _, _, _, _, _, _, _, _, hnone, _⟩ :=
    commit_ok_sound id hrun
  exact ⟨outcome, houtcome, before, attempt, after, htr, hnone⟩

end LocalFiles.Conditional
