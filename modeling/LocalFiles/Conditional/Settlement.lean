import LocalFiles.Conditional.Inversion

/-!
# Settlement — every way the protocol can go on after the native publication

The exits after the publication: the receipt is refused, a displaced or the installed entry
cannot be verified, a detected conflict is rolled back, the final synchronization fails, or the
publication stands.  Each exit is listed with the entries it keeps.
-/

namespace LocalFiles.Conditional

open Interaction

variable {A δ α : Type} (D : List UInt8 → δ) {s s' : Locals A} {tr : Trace A}

/-! ## 1. The receipt of the publication -/

/-- The receipt of a publication over existing content that took effect with an error; the
    protocol rolls it back. -/
def NativeAttempt.Conflicts (precondition : LocalWritePrecondition δ) (attempt : NativeAttempt A) :
    Prop :=
  precondition ≠ .absent ∧ attempt.publication = .published ∧ attempt.error.isSome ∧
    attempt.displaced ≠ []

/-- The locals with which the protocol goes on after it has accepted the receipt. -/
def Locals.accepted (s : Locals A) (attempt : NativeAttempt A) : Locals A :=
  { s with
    publication := attempt.publication
    postPublicationConflict := attempt.error.isSome
    publicationAttemptError := attempt.error }

/-- The protocol goes on with the installed entry of the receipt. -/
structure ReceiptAccepted (precondition : LocalWritePrecondition δ) (attempt : NativeAttempt A)
    (installed : ConditionalEntry A) : Prop where
  installed : attempt.installed = some installed
  error : attempt.error = none ∨ attempt.Conflicts precondition
  displaced : precondition = .absent ∨ attempt.publication = .notPublished ∨ attempt.displaced ≠ []

/-- The protocol refuses the receipt with `err`, given the answer of the checkpoint after the
    publication. -/
structure ReceiptRefused (precondition : LocalWritePrecondition δ) (attempt : NativeAttempt A)
    (answer : IoResult Unit) (err : IoError) (s s' : Locals A) : Prop where
  kept : ∃ role : ConditionalEntry A → ConditionalEntry A,
    (role = id ∨ role = ConditionalEntry.setRole .stagedCandidate) ∧
    s'.entries = s.entries ++ ((attempt.installed.map role).toList ++ attempt.displaced)
  conflict : s'.postPublicationConflict = true ↔
    answer = .ok () ∧ attempt.Conflicts precondition
  cause : answer = .error err ∨ attempt.error = some err ∨ err.kind = .invalidData

theorem requireInstalled_runs {attempt : NativeAttempt A}
    {r : Except (LocalConditionalWriteStage × IoError) (ConditionalEntry A)}
    (h : (requireInstalled attempt).Runs s tr r s') :
    tr = [] ∧
      ((∃ installed, attempt.installed = some installed ∧ r = .ok installed ∧ s' = s) ∨
        ∃ err, attempt.installed = none ∧ err.kind = .invalidData ∧ r = .error (s.stage, err) ∧
          s' = { s with
            entries := s.entries ++ attempt.displaced
            publication := .indeterminate }) := by
  rw [requireInstalled] at h
  cases hinstalled : attempt.installed with
  | some installed =>
    rw [hinstalled] at h
    obtain ⟨rfl, rfl, rfl⟩ := Proc.runs_pure.mp h
    exact ⟨rfl, .inl ⟨installed, rfl, rfl, rfl⟩⟩
  | none =>
    rw [hinstalled] at h
    simp only [runs_keep_bind, runs_setPublication_bind, runs_fail] at h
    obtain ⟨rfl, rfl, rfl⟩ := h
    exact ⟨rfl, .inr ⟨_, rfl, rfl, rfl, rfl⟩⟩

variable [DecidableEq δ]

theorem acceptAttempt_runs {precondition : LocalWritePrecondition δ} {attempt : NativeAttempt A}
    {r : Except (LocalConditionalWriteStage × IoError) (ConditionalEntry A)}
    (hconflict : s.postPublicationConflict = false) (herror : s.publicationAttemptError = none)
    (h : (acceptAttempt precondition attempt).Runs s tr r s') :
    ∃ answer, tr = [⟨.checkpoint .afterPublish, answer⟩] ∧
      ((∃ err, r = .error (s.stage, err) ∧ s'.stage = s.stage ∧
          ReceiptRefused precondition attempt answer err s s') ∨
        ∃ installed, answer = Except.ok () ∧ r = .ok installed ∧
          ReceiptAccepted precondition attempt installed ∧ s' = s.accepted attempt) := by
  rw [acceptAttempt, Proc.runs_lift_bind] at h
  obtain ⟨tr₁, tr₂, answer, rfl, hpoint, h⟩ := h
  rw [runs_checkpoint] at hpoint
  subst hpoint
  cases answer with
  | error err =>
    simp only [runs_setPublication_bind, runs_keep_bind, runs_fail] at h
    obtain ⟨rfl, rfl, rfl⟩ := h
    refine ⟨_, rfl, .inl ⟨err, rfl, rfl, ⟨⟨id, .inl rfl, by simp⟩, ?_, .inl rfl⟩⟩⟩
    simp [hconflict]
  | ok _ =>
    simp only [runs_setPublication_bind] at h
    split at h
    · rename_i hlost
      simp only [runs_keep_bind, runs_setPublication_bind, runs_fail] at h
      obtain ⟨rfl, rfl, rfl⟩ := h
      refine ⟨_, rfl, .inl ⟨_, rfl, rfl, ⟨⟨id, .inl rfl, by simp [hlost.2.2]⟩, ?_, ?_⟩⟩⟩
      · simp [hconflict, NativeAttempt.Conflicts, hlost.2.2]
      · cases attempt.error with
        | none => exact .inr (.inr rfl)
        | some err => exact .inr (.inl rfl)
    rename_i hlost
    have hdisplaced : precondition = .absent ∨ attempt.publication = .notPublished ∨
        attempt.displaced ≠ [] := by
      by_cases hpre : precondition = .absent
      · exact .inl hpre
      · by_cases hpub : attempt.publication = .notPublished
        · exact .inr (.inl hpub)
        · exact .inr (.inr fun hnil => hlost ⟨hpre, hpub, hnil⟩)
    cases hattempt : attempt.error with
    | none =>
      rw [hattempt] at h
      obtain ⟨rfl, ⟨installed, hinstalled, rfl, rfl⟩ | ⟨err, hinstalled, hkind, rfl, rfl⟩⟩ :=
        requireInstalled_runs h
      · refine ⟨_, rfl, .inr ⟨installed, rfl, rfl, ⟨hinstalled, .inl hattempt, hdisplaced⟩, ?_⟩⟩
        simp [Locals.accepted, hattempt, hconflict, herror]
      · refine ⟨_, rfl, .inl ⟨err, rfl, rfl, ⟨⟨id, .inl rfl, by simp [hinstalled]⟩, ?_, ?_⟩⟩⟩
        · simp [hconflict, NativeAttempt.Conflicts, hattempt]
        · exact .inr (.inr hkind)
    | some error =>
      rw [hattempt] at h
      dsimp only at h
      split at h
      · rename_i hpublished
        -- The attempt error is put aside: the protocol goes on to roll the publication back.
        have hconflicts : attempt.Conflicts precondition := by
          refine ⟨hpublished.1, hpublished.2, by simp [hattempt], fun hnil => ?_⟩
          exact hlost ⟨hpublished.1, by simp [hpublished.2], hnil⟩
        simp only [Proc.runs_modify_bind] at h
        obtain ⟨rfl, ⟨installed, hinstalled, rfl, rfl⟩ | ⟨err, hinstalled, hkind, rfl, rfl⟩⟩ :=
          requireInstalled_runs h
        · refine ⟨_, rfl, .inr ⟨installed, rfl, rfl, ⟨hinstalled, .inr hconflicts, hdisplaced⟩, ?_⟩⟩
          simp [Locals.accepted, hattempt]
        · refine ⟨_, rfl, .inl ⟨err, rfl, rfl, ⟨⟨id, .inl rfl, by simp [hinstalled]⟩, ?_, ?_⟩⟩⟩
          · simp [hconflicts]
          · exact .inr (.inr hkind)
      · rename_i hpublished
        simp only [runs_keep_bind, runs_fail] at h
        obtain ⟨rfl, rfl, rfl⟩ := h
        refine ⟨_, rfl, .inl ⟨error, rfl, rfl, ⟨⟨_, .inr rfl, rfl⟩, ?_, ?_⟩⟩⟩
        · simp only [hconflict, Bool.false_eq_true, false_iff]
          rintro ⟨-, hconflicts⟩
          exact hpublished ⟨hconflicts.1, hconflicts.2.1⟩
        · exact .inr (.inl hattempt)

/-! ## 2. The displaced entries -/

/-- The calls of the verification of one displaced entry, whose content reads `bytes`. -/
def displacedTrace (precondition : LocalWritePrecondition δ) (displaced : ConditionalEntry A)
    (bytes : List UInt8) : Trace A :=
  [⟨.checkpoint .verifyDisplaced, Except.ok ()⟩, ⟨.verifyEntry displaced, Except.ok ()⟩] ++
    match precondition with
    | .absent => []
    | .content _ => readBack displaced bytes

/-- The content of a displaced entry is not the expected one. -/
def mismatches (precondition : LocalWritePrecondition δ) (bytes : List UInt8) : Bool :=
  match precondition with
  | .absent => false
  | .content expected => D bytes ≠ expected

/-- What a verified displaced entry is kept as. -/
def judged (precondition : LocalWritePrecondition δ) (displaced : ConditionalEntry A)
    (bytes : List UInt8) : ConditionalEntry A :=
  if mismatches D precondition bytes then displaced.setRole .rollbackDisplaced else displaced

/-- `Verified pre displaced tr kept found`: the displaced entries were verified in order with the
    calls `tr` and are kept as `kept`; `found` says whether one of them is a conflict. -/
inductive Verified (precondition : LocalWritePrecondition δ) :
    List (ConditionalEntry A) → Trace A → List (ConditionalEntry A) → Bool → Prop
  | nil : Verified precondition [] [] [] false
  | cons (displaced : ConditionalEntry A) (bytes : List UInt8) {rest kept : List (ConditionalEntry A)}
      {tr : Trace A} {found : Bool} (htail : Verified precondition rest tr kept found) :
      Verified precondition (displaced :: rest) (displacedTrace precondition displaced bytes ++ tr)
        (judged D precondition displaced bytes :: kept)
        (mismatches D precondition bytes || found)

omit [DecidableEq δ] in
@[simp] theorem effects_displacedTrace (precondition : LocalWritePrecondition δ)
    (displaced : ConditionalEntry A) (bytes : List UInt8) :
    effects (displacedTrace precondition displaced bytes) = [] := by
  cases precondition <;> rfl

omit [DecidableEq δ] in
@[simp] theorem syncsSucceed_displacedTrace (precondition : LocalWritePrecondition δ)
    (displaced : ConditionalEntry A) (bytes : List UInt8) :
    syncsSucceed (displacedTrace precondition displaced bytes) = true := by
  cases precondition <;> rfl

theorem Verified.quiet {precondition : LocalWritePrecondition δ}
    {displaced kept : List (ConditionalEntry A)} {found : Bool}
    (h : Verified D precondition displaced tr kept found) :
    effects tr = [] ∧ syncsSucceed tr = true := by
  induction h with
  | nil => exact ⟨rfl, rfl⟩
  | cons _ _ _ ih => simp [ih]

theorem Verified.points {precondition : LocalWritePrecondition δ}
    {displaced kept : List (ConditionalEntry A)} {found : Bool}
    (h : Verified D precondition displaced tr kept found) :
    ∀ ev ∈ tr, ev.call ≠ .checkpoint .verifyInstalled := by
  induction h with
  | nil => simp
  | cons entry bytes _ ih =>
    rw [List.forall_mem_append]
    refine ⟨?_, ih⟩
    cases precondition <;> simp [displacedTrace, readBack]

/-- Without a conflict every displaced entry was verified and reads as expected. -/
theorem Verified.all_match {precondition : LocalWritePrecondition δ}
    {displaced kept : List (ConditionalEntry A)} {found : Bool}
    (h : Verified D precondition displaced tr kept found) (hfound : found = false) :
    kept = displaced ∧ ∀ entry ∈ displaced, ∃ bytes, mismatches D precondition bytes = false ∧
      displacedTrace precondition entry bytes <:+: tr := by
  induction h with
  | nil => exact ⟨rfl, by simp⟩
  | cons entry bytes htail ih =>
    have hparts := Bool.or_eq_false_iff.mp hfound
    obtain ⟨rfl, hrest⟩ := ih hparts.2
    refine ⟨by simp [judged, hparts.1], ?_⟩
    rw [List.forall_mem_cons]
    refine ⟨⟨bytes, hparts.1, List.infix_append' [] _ _⟩, fun other hother => ?_⟩
    obtain ⟨bytes', hmatch, hwithin⟩ := hrest other hother
    exact ⟨bytes', hmatch, hwithin.trans (List.suffix_append _ _).isInfix⟩

/-- The calls of the verification of one displaced entry that failed with `err`. -/
structure Unverified (tr : Trace A) (err : IoError) : Prop where
  starts : ∃ answer rest, tr = ⟨.checkpoint .verifyDisplaced, answer⟩ :: rest ∧
    ∀ ev ∈ rest, ∀ point, ev.call ≠ .checkpoint point
  quiet : effects tr = []
  blames : Blames tr err
  unread : ∀ entry bytes post, ¬ [⟨.checkpoint .verifyDisplaced, Except.ok ()⟩,
    ⟨.verifyEntry entry, Except.ok ()⟩] ++ readBack entry bytes <+: tr ++ post

theorem judgeDisplaced_runs {precondition : LocalWritePrecondition δ}
    {installed displaced : ConditionalEntry A} {verified : List (ConditionalEntry A)}
    {r : Except (LocalConditionalWriteStage × IoError) (ConditionalEntry A)}
    (h : (judgeDisplaced D precondition installed verified displaced).Runs s tr r s') :
    (∃ err, r = .error (s.stage, err) ∧ s' = s.abandoned installed (displaced :: verified) ∧
      (digestEntry D displaced).Runs tr (.error err)) ∨
    ∃ bytes, r = .ok (judged D precondition displaced bytes) ∧
      displacedTrace precondition displaced bytes =
        [⟨.checkpoint .verifyDisplaced, Except.ok ()⟩, ⟨.verifyEntry displaced, Except.ok ()⟩] ++ tr ∧
      s' = { s with
        postPublicationConflict :=
          s.postPublicationConflict || mismatches D precondition bytes } := by
  cases precondition with
  | absent =>
    obtain ⟨rfl, rfl, rfl⟩ := Proc.runs_pure.mp h
    exact .inr ⟨[], rfl, rfl, by simp [mismatches]⟩
  | content expected =>
    rw [judgeDisplaced, runs_orAbandon_bind] at h
    obtain ⟨err, rfl, rfl, hdigest⟩ | ⟨tr₁, tr₂, actual, rfl, hdigest, h⟩ := h
    · exact .inl ⟨err, rfl, rfl, hdigest⟩
    obtain ⟨bytes, rfl, rfl⟩ := digestEntry_runs_ok D hdigest
    refine .inr ⟨bytes, ?_⟩
    split at h
    · rename_i hne
      rw [Proc.runs_modify_bind, Proc.runs_pure] at h
      obtain ⟨rfl, rfl, rfl⟩ := h
      have hmis : mismatches D (.content expected) bytes = true := decide_eq_true hne
      exact ⟨by simp [judged, hmis], by simp [displacedTrace], by simp [hmis]⟩
    · rename_i heq
      obtain ⟨rfl, rfl, rfl⟩ := Proc.runs_pure.mp h
      have hmis : mismatches D (.content expected) bytes = false := decide_eq_false heq
      exact ⟨by simp [judged, hmis], by simp [displacedTrace], by simp [hmis]⟩

theorem verifyDisplaced_runs {precondition : LocalWritePrecondition δ}
    {installed : ConditionalEntry A} {displaced verified : List (ConditionalEntry A)}
    {r : Except (LocalConditionalWriteStage × IoError) (List (ConditionalEntry A))}
    (h : (verifyDisplaced D precondition installed displaced verified).Runs s tr r s') :
    (∃ done current rest tr₁ tr₂ kept found err, displaced = done ++ current :: rest ∧
      Verified D precondition done tr₁ kept found ∧ Unverified tr₂ err ∧
      tr = tr₁ ++ tr₂ ∧ r = .error (.verifyDisplaced, err) ∧
      s' = { s with
        stage := .verifyDisplaced
        postPublicationConflict := s.postPublicationConflict || found }.abandoned installed
          (current :: (verified ++ kept))) ∨
    ∃ kept found stage, r = .ok (verified ++ kept) ∧
      Verified D precondition displaced tr kept found ∧
      s' = { s with
        stage := stage
        postPublicationConflict := s.postPublicationConflict || found } := by
  induction displaced generalizing s tr verified with
  | nil =>
    obtain ⟨rfl, rfl, rfl⟩ := Proc.runs_pure.mp h
    exact .inr ⟨[], false, s'.stage, by simp, .nil, by simp⟩
  | cons current rest ih =>
    rw [verifyDisplaced, runs_setStage_bind, runs_orAbandon_bind] at h
    simp only [Prog.runs_andThen, runs_checkpoint, runs_verifyEntry] at h
    obtain ⟨err, rfl, rfl, hfail⟩ | ⟨_, tr₂, _, rfl, hentry, h⟩ := h
    · -- The checkpoint or the verification of the current entry failed.
      refine .inl ⟨[], current, rest, [], tr, [], false, err, rfl, .nil, ?_, rfl, rfl, by simp⟩
      obtain ⟨_, heq, rfl⟩ | ⟨_, _, _, rfl, rfl, rfl⟩ := hfail
      · cases heq
        refine ⟨⟨_, [], rfl, by simp⟩, rfl, blames_singleton rfl fun _ => rfl, ?_⟩
        rintro entry bytes post ⟨rest, hrest⟩
        cases hrest
      · refine ⟨⟨_, _, rfl, by simp⟩, rfl, Blames.cons (blames_singleton rfl fun _ => rfl) _, ?_⟩
        rintro entry bytes post ⟨rest, hrest⟩
        cases hrest
    obtain ⟨_, habs, -⟩ | ⟨_, _, _, rfl, rfl, rfl⟩ := hentry
    · cases habs
    rw [Proc.runs_bind] at h
    obtain ⟨e, rfl, h⟩ | ⟨tr₃, tr₄, entry, mid, rfl, hjudge, h⟩ := h
    · obtain ⟨err, heq, rfl, hread⟩ | ⟨_, habs, -⟩ := judgeDisplaced_runs D h
      · cases heq
        obtain ⟨hquiet, hblame⟩ := digestEntry_runs_error D hread
        refine .inl ⟨[], current, rest, [], _, [], false, err, rfl, .nil, ?_, rfl, rfl, by simp⟩
        refine ⟨⟨_, _, rfl, ?_⟩, by simp [hquiet], (hblame.cons _).cons _, ?_⟩
        · intro ev hev point hcall
          rcases List.mem_cons.mp hev with rfl | hev
          · cases hcall
          · have hreads := digestEntry_reads D hread ev hev
            rw [hcall] at hreads
            cases hreads
        · rintro entry bytes post ⟨after, hafter⟩
          obtain ⟨-, htail⟩ := List.cons.inj hafter
          obtain ⟨hev, hread'⟩ := List.cons.inj htail
          cases hev
          exact not_readBack_of_error D hread post ⟨after, hread'⟩
      · cases habs
    obtain ⟨_, habs, -⟩ | ⟨bytes, heq, htrace, rfl⟩ := judgeDisplaced_runs D hjudge
    · cases habs
    cases heq
    -- The current entry is verified; the rest of the loop is the induction hypothesis.
    obtain ⟨done, failing, rest', tr₁, tr₂, kept, found, err, rfl, hdone, hfail, rfl, rfl, rfl⟩ |
      ⟨kept, found, stage, rfl, hverified, rfl⟩ := ih h
    · refine .inl ⟨current :: done, failing, rest', _, tr₂, _, _, err, rfl,
        .cons current bytes hdone, hfail, ?_, rfl, ?_⟩
      · rw [htrace]
        simp
      · simp [Locals.abandoned, Bool.or_assoc]
    · have htail := Verified.cons current bytes hverified
      rw [htrace] at htail
      refine .inr ⟨judged D precondition current bytes :: kept,
        mismatches D precondition bytes || found, stage, by simp, ?_, by simp [Bool.or_assoc]⟩
      simpa using htail

/-! ## 3. The installed entry -/

/-- The calls of a complete check of the installed entry. -/
def installedTrace (installed : ConditionalEntry A) (identity : Bool) (bytes : List UInt8) :
    Trace A :=
  [⟨.checkpoint .verifyInstalled, Except.ok ()⟩, ⟨.isCandidate installed, Except.ok identity⟩] ++
    readBack installed bytes

/-- The calls of a check of the installed entry that failed with `err`. -/
structure Unchecked (tr : Trace A) (err : IoError) : Prop where
  starts : ∃ answer rest, tr = ⟨.checkpoint .verifyInstalled, answer⟩ :: rest ∧
    ∀ ev ∈ rest, ∀ point, ev.call ≠ .checkpoint point
  quiet : effects tr = []
  blames : Blames tr err
  unread : ∀ entry identity bytes post, ¬ installedTrace entry identity bytes <+: tr ++ post

theorem verifyInstalled_runs {installed : ConditionalEntry A}
    {displaced : List (ConditionalEntry A)} {candidateDigest : δ}
    {r : Except (LocalConditionalWriteStage × IoError) Bool}
    (h : (verifyInstalled D installed displaced candidateDigest).Runs s tr r s') :
    (∃ err, r = .error (.verifyInstalled, err) ∧ Unchecked tr err ∧
      s' = { s with stage := .verifyInstalled }.abandoned installed displaced) ∨
    ∃ identity bytes, tr = installedTrace installed identity bytes ∧
      r = .ok (identity && D bytes = candidateDigest) ∧
      s' = { s with
        stage := .verifyInstalled
        postPublicationConflict :=
          s.postPublicationConflict || !(identity && D bytes = candidateDigest) } := by
  simp only [verifyInstalled, runs_setStage_bind, runs_orAbandon_bind, runs_checkpoint,
    runs_isCandidate] at h
  obtain ⟨err, rfl, rfl, rfl⟩ | ⟨_, _, _, rfl, rfl, h⟩ := h
  · refine .inl ⟨err, rfl, ⟨⟨_, [], rfl, by simp⟩, rfl, blames_singleton rfl fun _ => rfl, ?_⟩, rfl⟩
    rintro entry identity bytes post ⟨after, hafter⟩
    cases hafter
  obtain ⟨err, rfl, rfl, rfl⟩ | ⟨_, tr₂, identity, rfl, rfl, h⟩ := h
  · refine .inl ⟨err, rfl, ⟨⟨_, _, rfl, by simp⟩, rfl, Blames.cons (blames_singleton rfl fun _ => rfl) _, ?_⟩,
      rfl⟩
    rintro entry identity bytes post ⟨after, hafter⟩
    cases hafter
  obtain ⟨err, rfl, rfl, hread⟩ | ⟨tr₃, tr₄, digest, rfl, hread, h⟩ := h
  · obtain ⟨hquiet, hblame⟩ := digestEntry_runs_error D hread
    refine .inl ⟨err, rfl, ⟨⟨_, _, rfl, ?_⟩, by simp [hquiet], (hblame.cons _).cons _, ?_⟩, rfl⟩
    · intro ev hev point hcall
      rcases List.mem_cons.mp hev with rfl | hev
      · cases hcall
      · have hreads := digestEntry_reads D hread ev hev
        rw [hcall] at hreads
        cases hreads
    · rintro entry identity bytes post ⟨after, hafter⟩
      obtain ⟨-, htail⟩ := List.cons.inj hafter
      obtain ⟨hev, hread'⟩ := List.cons.inj htail
      cases hev
      exact not_readBack_of_error D hread post ⟨after, hread'⟩
  · obtain ⟨bytes, rfl, rfl⟩ := digestEntry_runs_ok D hread
    rw [Proc.runs_modify_bind, Proc.runs_pure] at h
    obtain ⟨rfl, rfl, rfl⟩ := h
    refine .inr ⟨identity, bytes, by simp [installedTrace], rfl, ?_⟩
    cases hvalid : identity && D bytes = candidateDigest with
    | true => simp
    | false => simp

/-! ## 4. The receipt of the rollback -/

/-- Some entry of the receipt has the namespace path of `entry`. -/
def NativeAttempt.Names (receipt : NativeAttempt A) (entry : ConditionalEntry A) : Prop :=
  ∃ named ∈ receipt.installed.toList ++ receipt.displaced,
    named.namespacePath = entry.namespacePath

/-- The entries that are kept beside the receipt of a failed rollback: those the receipt does not
    name and that can still be verified. -/
inductive KeptBeside (receipt : NativeAttempt A) :
    List (ConditionalEntry A) → Trace A → List (ConditionalEntry A) → Prop
  | nil : KeptBeside receipt [] [] []
  | named (entry : ConditionalEntry A) {rest kept : List (ConditionalEntry A)} {tr : Trace A}
      (hnamed : receipt.Names entry) (htail : KeptBeside receipt rest tr kept) :
      KeptBeside receipt (entry :: rest) tr kept
  | lost (entry : ConditionalEntry A) (err : IoError) {rest kept : List (ConditionalEntry A)}
      {tr : Trace A} (htail : KeptBeside receipt rest tr kept) :
      KeptBeside receipt (entry :: rest) (⟨.verifyEntry entry, Except.error err⟩ :: tr) kept
  | kept (entry : ConditionalEntry A) {rest kept : List (ConditionalEntry A)} {tr : Trace A}
      (hnamed : ¬ receipt.Names entry) (htail : KeptBeside receipt rest tr kept) :
      KeptBeside receipt (entry :: rest) (⟨.verifyEntry entry, Except.ok ()⟩ :: tr)
        ((if receipt.displaced = [] then entry.setRole .displaced else entry) :: kept)

theorem any_namespacePath {receipt : NativeAttempt A} {entry : ConditionalEntry A} :
    ((receipt.installed.toList ++ receipt.displaced).any
      (·.namespacePath = entry.namespacePath)) = true ↔ receipt.Names entry := by
  simp only [List.any_eq_true, decide_eq_true_eq, NativeAttempt.Names]

theorem keepUnrepresented_runs {receipt : NativeAttempt A} {entries : List (ConditionalEntry A)}
    {r : Except (LocalConditionalWriteStage × IoError) Unit}
    (h : (keepUnrepresented receipt entries).Runs s tr r s') :
    ∃ kept, r = .ok () ∧ KeptBeside receipt entries tr kept ∧
      s' = { s with entries := s.entries ++ kept } := by
  induction entries generalizing s tr with
  | nil =>
    obtain ⟨rfl, rfl, rfl⟩ := Proc.runs_pure.mp h
    exact ⟨[], rfl, .nil, by simp⟩
  | cons entry rest ih =>
    rw [keepUnrepresented] at h
    split at h
    · rename_i hany
      obtain ⟨kept, rfl, htail, rfl⟩ := ih h
      exact ⟨kept, rfl, .named entry (any_namespacePath.mp hany) htail, rfl⟩
    rename_i hany
    have hnamed : ¬ receipt.Names entry := fun hnamed => hany (any_namespacePath.mpr hnamed)
    rw [Proc.runs_lift_bind] at h
    obtain ⟨_, tr₂, answer, rfl, hverify, h⟩ := h
    rw [runs_verifyEntry] at hverify
    subst hverify
    cases answer with
    | error err =>
      obtain ⟨kept, rfl, htail, rfl⟩ := ih h
      exact ⟨kept, rfl, .lost entry err htail, rfl⟩
    | ok _ =>
      simp only [runs_keep_bind] at h
      obtain ⟨kept, rfl, htail, rfl⟩ := ih h
      exact ⟨_, rfl, .kept entry hnamed htail, by simp⟩

/-- The body stops after the calls `tr`, keeping `kept`; the error comes from one of these calls,
    is a verification failure of the protocol itself, or is one that `deferred` allows. -/
structure Stops (options : LocalWriteOptions) (deferred : IoError → Prop)
    (kept : List (ConditionalEntry A)) (s : Locals A) (tr : Trace A)
    (r : Except (LocalConditionalWriteStage × IoError) α) (s' : Locals A) : Prop where
  error : ∃ stage err, r = .error (stage, err) ∧ stage ≠ .precheck ∧
    (BlamesUnder options tr err ∨ err.kind = .invalidData ∨ deferred err)
  kept : s'.entries = s.entries ++ kept
  conflict : s'.postPublicationConflict = s.postPublicationConflict

theorem syncRestored_runs {options : LocalWriteOptions} {restored : ConditionalEntry A}
    {r : IoResult Unit} (hrequired : options.durability = .required ∨ options.fileSync = .required)
    (h : (syncRestored options restored).Runs tr r) :
    effects tr = [] ∧ ∀ err, r = .error err → BlamesUnder options tr err := by
  have hsync := syncRequirement_of_either hrequired
  simp only [syncRestored, Prog.runs_andThen, runs_checkpoint, runs_syncEntry] at h
  obtain ⟨err, rfl, rfl⟩ | ⟨_, _, _, rfl, rfl, h⟩ := h
  · refine ⟨rfl, fun err' heq => ?_⟩
    cases heq
    exact blamesUnder_singleton rfl rfl
  obtain ⟨err, rfl, rfl⟩ | ⟨_, _, _, rfl, rfl, h⟩ := h
  · refine ⟨rfl, fun err' heq => ?_⟩
    cases heq
    exact (blamesUnder_singleton rfl (by simp [Call.tolerated, hsync])).cons _
  split at h
  · rename_i hdurability
    rw [runs_syncNamespace] at h
    subst h
    refine ⟨rfl, fun err' heq => ?_⟩
    cases heq
    exact ((blamesUnder_singleton rfl (by simp [Call.tolerated, hdurability])).cons _).cons _
  · obtain ⟨rfl, rfl⟩ := Prog.runs_pure.mp h
    refine ⟨rfl, fun err heq => ?_⟩
    cases heq

theorem verifyRestored_runs {options : LocalWriteOptions} {oldDigest : δ}
    {restored : ConditionalEntry A} {r : Except (LocalConditionalWriteStage × IoError) α}
    (h : (verifyRestored D options oldDigest restored).Runs s tr r s') :
    effects tr = [] ∧ Stops options (s.publicationAttemptError = some ·) [restored] s tr r s' := by
  -- the error of the attempt that was rolled back, where no other arises
  have hdeferred (default : IoError) (hkind : default.kind = .invalidData) (tr : Trace A) :
      BlamesUnder options tr (s.publicationAttemptError.getD default) ∨
        (s.publicationAttemptError.getD default).kind = .invalidData ∨
        s.publicationAttemptError = some (s.publicationAttemptError.getD default) := by
    cases s.publicationAttemptError with
    | none => exact .inr (.inl hkind)
    | some err => exact .inr (.inr rfl)
  rw [verifyRestored, runs_setStage_bind, Proc.runs_lift_bind] at h
  obtain ⟨tr₁, tr₂, digest, rfl, hread, h⟩ := h
  have hread' : effects tr₁ = [] ∧ ∀ err, digest = .error err → Blames tr₁ err := by
    rw [Prog.runs_andThen] at hread
    simp only [runs_checkpoint] at hread
    obtain ⟨err, rfl, rfl⟩ | ⟨_, tr₃, _, rfl, rfl, hread⟩ := hread
    · refine ⟨rfl, fun err' heq => ?_⟩
      cases heq
      exact blames_singleton rfl fun _ => rfl
    cases digest with
    | error err =>
      obtain ⟨hquiet, hblame⟩ := digestEntry_runs_error D hread
      refine ⟨by simp [hquiet], fun err' heq => ?_⟩
      cases heq
      exact hblame.cons _
    | ok _ =>
      obtain ⟨bytes, -, rfl⟩ := digestEntry_runs_ok D hread
      refine ⟨rfl, fun err heq => ?_⟩
      cases heq
  obtain ⟨hquiet, hblame⟩ := hread'
  cases digest with
  | error err =>
    simp only [runs_keep_bind, runs_setPublication_bind, runs_fail] at h
    obtain ⟨rfl, rfl, rfl⟩ := h
    exact ⟨by simp [hquiet], ⟨_, err, rfl, by simp, .inl (((hblame err rfl).left _).under options)⟩, rfl, rfl⟩
  | ok restoredDigest =>
    simp only [Proc.runs_get_bind] at h
    split at h
    · simp only [runs_keep_bind, runs_setPublication_bind, runs_fail] at h
      obtain ⟨rfl, rfl, rfl⟩ := h
      exact ⟨by simp [hquiet], ⟨_, _, rfl, by simp, .inr (.inl rfl)⟩, rfl, rfl⟩
    split at h
    · rename_i hrequired
      rw [runs_setStage_bind, Proc.runs_lift_bind] at h
      obtain ⟨tr₃, tr₄, sync, rfl, hsync, h⟩ := h
      obtain ⟨hsyncQuiet, hsyncBlame⟩ := syncRestored_runs hrequired hsync
      cases sync with
      | error err =>
        simp only [runs_keep_bind, runs_fail] at h
        obtain ⟨rfl, rfl, rfl⟩ := h
        refine ⟨by simp [hquiet, hsyncQuiet], ⟨_, err, rfl, by simp, .inl ?_⟩, rfl, rfl⟩
        exact ((hsyncBlame err rfl).left _).right _
      | ok _ =>
        simp only [runs_keep_bind, runs_fail] at h
        obtain ⟨rfl, rfl, rfl⟩ := h
        exact ⟨by simp [hquiet, hsyncQuiet], ⟨_, _, rfl, by simp, hdeferred _ rfl _⟩, rfl, rfl⟩
    · simp only [runs_keep_bind, runs_fail] at h
      obtain ⟨rfl, rfl, rfl⟩ := h
      exact ⟨by simp [hquiet], ⟨_, _, rfl, by simp, hdeferred _ rfl _⟩, rfl, rfl⟩

/-- What is kept after the rollback returned `receipt`: one case for each way to read it. -/
inductive RolledBack (installed : ConditionalEntry A) (displaced : List (ConditionalEntry A))
    (receipt : NativeAttempt A) : Trace A → List (ConditionalEntry A) → Prop
  | interrupted (err : IoError) :
      RolledBack installed displaced receipt
        [⟨.checkpoint .rollbackCompleted, Except.error err⟩]
        (receipt.installed.toList ++ receipt.displaced ++ displaced)
  | failed (verified : Trace A) (beside : List (ConditionalEntry A)) (herror : receipt.error.isSome)
      (hbeside : KeptBeside receipt displaced verified beside) :
      RolledBack installed displaced receipt
        (⟨.checkpoint .rollbackCompleted, Except.ok ()⟩ :: verified)
        (beside ++ (receipt.installed.map (·.setRole .displaced)).toList ++
          receipt.displaced.map (·.setRole .rollbackDisplaced))
  | unreported (herror : receipt.error = none) (hinstalled : receipt.installed = none) :
      RolledBack installed displaced receipt [⟨.checkpoint .rollbackCompleted, Except.ok ()⟩]
        (installed :: displaced ++ receipt.displaced)
  | restored (restored : ConditionalEntry A) (checked : Trace A) (herror : receipt.error = none)
      (hinstalled : receipt.installed = some restored) :
      RolledBack installed displaced receipt
        (⟨.checkpoint .rollbackCompleted, Except.ok ()⟩ :: checked)
        (receipt.displaced.map (·.setRole .rollbackDisplaced) ++ [restored])

theorem KeptBeside.quiet {receipt : NativeAttempt A} {entries kept : List (ConditionalEntry A)}
    (h : KeptBeside receipt entries tr kept) : effects tr = [] := by
  induction h with
  | nil => rfl
  | named _ _ _ ih => exact ih
  | lost _ _ _ ih => simp [ih]
  | kept _ _ _ ih => simp [ih]

theorem acceptRollback_runs {options : LocalWriteOptions} {installed : ConditionalEntry A}
    {displaced : List (ConditionalEntry A)} {oldDigest : δ} {receipt : NativeAttempt A}
    {r : Except (LocalConditionalWriteStage × IoError) α} (hstage : s.stage = .rollback)
    (h : (acceptRollback D options installed displaced oldDigest receipt).Runs s tr r s') :
    ∃ kept, RolledBack installed displaced receipt tr kept ∧ effects tr = [] ∧
      Stops options (fun err => receipt.error = some err ∨ s.publicationAttemptError = some err)
        kept s tr r s' := by
  rw [acceptRollback, runs_setPublication_bind, Proc.runs_lift_bind] at h
  obtain ⟨tr₁, tr₂, answer, rfl, hpoint, h⟩ := h
  rw [runs_checkpoint] at hpoint
  subst hpoint
  cases answer with
  | error err =>
    simp only [runs_keep_bind, runs_setPublication_bind, runs_fail] at h
    obtain ⟨rfl, rfl, rfl⟩ := h
    refine ⟨_, .interrupted err, rfl, ⟨⟨_, err, rfl, by simp [hstage], .inl ?_⟩, rfl, rfl⟩⟩
    exact blamesUnder_singleton rfl rfl
  | ok _ =>
    cases herror : receipt.error with
    | some error =>
      simp only [herror] at h
      rw [Proc.runs_bind] at h
      obtain ⟨e, rfl, h⟩ | ⟨verified, tr₃, _, mid, rfl, hkeep, h⟩ := h
      · obtain ⟨_, habs, -⟩ := keepUnrepresented_runs h
        cases habs
      -- entries that the receipt does not name are kept besides
      obtain ⟨beside, -, hbeside, rfl⟩ := keepUnrepresented_runs hkeep
      simp only [runs_keep_bind, runs_fail] at h
      obtain ⟨rfl, rfl, rfl⟩ := h
      rw [List.append_nil]
      refine ⟨_, .failed verified beside (by simp [herror]) hbeside, by simp [hbeside.quiet], ?_⟩
      exact ⟨⟨_, error, rfl, by simp [hstage], .inr (.inr (.inl rfl))⟩, by simp, rfl⟩
    | none =>
      simp only [herror] at h
      cases hinstalled : receipt.installed with
      | none =>
        simp only [hinstalled, runs_keep_bind, runs_setPublication_bind, runs_fail] at h
        obtain ⟨rfl, rfl, rfl⟩ := h
        exact ⟨_, .unreported herror hinstalled, rfl,
          ⟨⟨_, _, rfl, by simp [hstage], .inr (.inl rfl)⟩, rfl, rfl⟩⟩
      | some restored =>
        simp only [hinstalled, runs_keep_bind] at h
        obtain ⟨hquiet, ⟨stage, err, rfl, hne, hcause⟩, hkept, hconflict⟩ :=
          verifyRestored_runs D h
        refine ⟨_, .restored restored tr₂ herror hinstalled, by simp [hquiet],
          ⟨⟨stage, err, rfl, hne, ?_⟩, ?_, hconflict⟩⟩
        · rcases hcause with hblame | hkind | hattempt
          · exact .inl (hblame.cons _)
          · exact .inr (.inl hkind)
          · exact .inr (.inr (.inr hattempt))
        · rw [hkept, List.append_assoc]

/-! ## 5. The rollback -/

/-- The calls between the verification of a conflicting publication and its native rollback. -/
def rollbackTrace (displaced installed : ConditionalEntry A) (oldBytes bytes : List UInt8) :
    Trace A :=
  readBack displaced oldBytes ++
    [⟨.checkpoint .rollbackPrecheck, Except.ok ()⟩, ⟨.checkpoint .rollback, Except.ok ()⟩,
      ⟨.isCandidate installed, Except.ok true⟩] ++
    readBack installed bytes ++
    [⟨.verifyEntry displaced, Except.ok ()⟩, ⟨.checkpoint .rollbackValidated, Except.ok ()⟩]

/-- How the rollback of a detected conflict ends, with the entries it keeps. -/
inductive RollbackEnd (candidateDigest : δ) (installed : ConditionalEntry A) :
    List (ConditionalEntry A) → Trace A → List (ConditionalEntry A) → Prop
  | undisplaced : RollbackEnd candidateDigest installed [] [] [installed]
  | withheld (displaced : List (ConditionalEntry A)) (tr : Trace A) (hquiet : effects tr = []) :
      RollbackEnd candidateDigest installed displaced tr (installed :: displaced)
  | attempted (displaced : ConditionalEntry A) (others : List (ConditionalEntry A))
      (oldBytes bytes : List UInt8) (receipt : NativeAttempt A) (after : Trace A)
      (kept : List (ConditionalEntry A)) (hdigest : D bytes = candidateDigest)
      (hafter : RolledBack installed (displaced :: others) receipt after kept)
      (hquiet : effects after = []) :
      RollbackEnd candidateDigest installed (displaced :: others)
        (rollbackTrace displaced installed oldBytes bytes ++ ⟨.rollback displaced, receipt⟩ :: after)
        kept

theorem rollbackConflict_runs {options : LocalWriteOptions} {installed : ConditionalEntry A}
    {candidateDigest : δ} {displaced : List (ConditionalEntry A)}
    {r : Except (LocalConditionalWriteStage × IoError) α} (hstage : s.stage ≠ .precheck)
    (h : (rollbackConflict D options installed candidateDigest displaced).Runs s tr r s') :
    ∃ kept, RollbackEnd D candidateDigest installed displaced tr kept ∧
      Stops options (s.publicationAttemptError = some ·) kept s tr r s' := by
  cases displaced with
  | nil =>
    simp only [rollbackConflict, runs_keep_bind, runs_fail] at h
    obtain ⟨rfl, rfl, rfl⟩ := h
    exact ⟨_, .undisplaced, ⟨⟨_, _, rfl, hstage, .inr (.inl rfl)⟩, rfl, rfl⟩⟩
  | cons displaced others =>
    simp only [rollbackConflict, runs_setStage_bind, runs_orAbandon_bind, runs_checkpoint] at h
    -- Every failure up to the native call withholds the rollback and keeps both namespaces.
    obtain ⟨err, rfl, rfl, hread⟩ | ⟨tr₁, tr₂, oldDigest, rfl, hread, h⟩ := h
    · obtain ⟨hquiet, hblame⟩ := digestEntry_runs_error D hread
      exact ⟨_, .withheld _ _ hquiet, ⟨⟨_, err, rfl, by simp, .inl (hblame.under _)⟩, rfl, rfl⟩⟩
    obtain ⟨oldBytes, rfl, rfl⟩ := digestEntry_runs_ok D hread
    obtain ⟨err, rfl, rfl, rfl⟩ | ⟨_, _, _, rfl, rfl, h⟩ := h
    · refine ⟨_, .withheld _ _ rfl, ⟨⟨_, err, rfl, by simp, .inl ?_⟩, rfl, rfl⟩⟩
      exact (blamesUnder_singleton rfl rfl).right _
    rw [Proc.runs_lift_bind] at h
    obtain ⟨_, tr₃, answer, rfl, hpoint, h⟩ := h
    rw [runs_checkpoint] at hpoint
    subst hpoint
    cases answer with
    | error err =>
      simp only [runs_keep_bind, runs_fail] at h
      obtain ⟨rfl, rfl, rfl⟩ := h
      refine ⟨_, .withheld _ _ rfl, ⟨⟨_, err, rfl, by simp, .inl ?_⟩, rfl, rfl⟩⟩
      exact ((blamesUnder_singleton rfl rfl).cons _).right _
    | ok _ =>
      simp only [runs_setStage_bind, runs_orAbandon_bind, runs_isCandidate] at h
      obtain ⟨err, rfl, rfl, rfl⟩ | ⟨_, _, still, rfl, rfl, h⟩ := h
      · refine ⟨_, .withheld _ _ rfl, ⟨⟨_, err, rfl, by simp, .inl ?_⟩, rfl, rfl⟩⟩
        exact (((blamesUnder_singleton rfl rfl).cons _).cons _).right _
      obtain ⟨err, rfl, rfl, hread⟩ | ⟨tr₄, tr₅, current, rfl, hread, h⟩ := h
      · obtain ⟨hquiet, hblame⟩ := digestEntry_runs_error D hread
        refine ⟨_, .withheld _ _ (by simp [hquiet]), ⟨⟨_, err, rfl, by simp, .inl ?_⟩, rfl, rfl⟩⟩
        exact ((((hblame.cons _).cons _).cons _).right _).under _
      obtain ⟨bytes, rfl, rfl⟩ := digestEntry_runs_ok D hread
      split at h
      · obtain ⟨rfl, rfl, rfl⟩ := runs_abandon.mp h
        exact ⟨_, .withheld _ _ rfl, ⟨⟨_, _, rfl, by simp, .inr (.inl rfl)⟩, rfl, rfl⟩⟩
      rename_i hstill
      simp only [Bool.not_eq_eq_eq_not, Bool.not_true, Bool.or_eq_true, decide_eq_true_eq, not_or,
        Bool.not_eq_false, not_not] at hstill
      obtain ⟨rfl, hdigest⟩ := hstill
      simp only [runs_orAbandon_bind, runs_verifyEntry, runs_checkpoint, runs_setStage_bind,
        Proc.runs_lift_bind, runs_rollback] at h
      obtain ⟨err, rfl, rfl, rfl⟩ | ⟨_, _, _, rfl, rfl, h⟩ := h
      · refine ⟨_, .withheld _ _ rfl, ⟨⟨_, err, rfl, by simp, .inl ?_⟩, rfl, rfl⟩⟩
        refine BlamesUnder.right ?_ _
        exact ((((blamesUnder_singleton rfl rfl).right _).cons _).cons _).cons _
      obtain ⟨err, rfl, rfl, rfl⟩ | ⟨_, _, _, rfl, rfl, _, after, receipt, rfl, rfl, h⟩ := h
      · refine ⟨_, .withheld _ _ rfl, ⟨⟨_, err, rfl, by simp, .inl ?_⟩, rfl, rfl⟩⟩
        refine BlamesUnder.right ?_ _
        exact (((((blamesUnder_singleton rfl rfl).cons _).right _).cons _).cons _).cons _
      obtain ⟨kept, hrolled, hquiet, ⟨stage, err, rfl, hne, hcause⟩, hkept, hconflict⟩ :=
        acceptRollback_runs D rfl h
      have hend := RollbackEnd.attempted (D := D) displaced others oldBytes bytes receipt after kept
        hdigest hrolled hquiet
      refine ⟨kept, by simpa [rollbackTrace] using hend, ⟨⟨stage, err, rfl, hne, ?_⟩, hkept, hconflict⟩⟩
      rcases hcause with hblame | hkind | hreceipt | hattempt
      · refine .inl (BlamesUnder.right ?_ _)
        exact (((((hblame.cons _).cons _).cons _).right _).cons _).cons _ |>.cons _
      · exact .inr (.inl hkind)
      · exact .inl ⟨⟨.rollback displaced, receipt⟩, by simp, rfl, hreceipt⟩
      · exact .inr (.inr hattempt)

/-! ## 6. Synchronization after publication -/

/-- What a completed synchronization after publication did; `synced` is the reported file
    synchronization. -/
structure SyncedAfter (options : LocalWriteOptions) (installed : ConditionalEntry A)
    (tr : Trace A) (synced : Bool) : Prop where
  onlySyncs : ∀ ev ∈ tr, ev.call.synchronizes
  required : options.durability = .required → syncsSucceed tr = true
  synced : synced = true ↔
    syncRequirement options ≠ .notRequired ∧ ⟨.syncEntry installed, Except.ok ()⟩ ∈ tr

theorem effects_of_onlySyncs (h : ∀ ev ∈ tr, ev.call.synchronizes) : effects tr = [] := by
  apply List.filterMap_eq_nil_iff.mpr
  intro ev hev
  have hsync := h ev hev
  cases hcall : ev.call with
  | createCandidateCopy => rw [hcall] at hsync; cases hsync
  | publishAbsent => rw [hcall] at hsync; cases hsync
  | publishContent => rw [hcall] at hsync; cases hsync
  | rollback _ => rw [hcall] at hsync; cases hsync
  | removeObserved _ => rw [hcall] at hsync; cases hsync
  | _ => rfl

theorem syncInstalled_runs {options : LocalWriteOptions} {installed : ConditionalEntry A}
    {r : Except (LocalConditionalWriteStage × IoError) Unit} (hsynced : s.fileSynced = false)
    (h : (syncInstalled options installed).Runs s tr r s') :
    (∀ ev ∈ tr, ev.call.synchronizes) ∧
      ((∃ err, r = .error (.sync, err) ∧ BlamesUnder options tr err ∧
          s' = { s with stage := .sync, entries := s.entries ++ [installed] }) ∨
        ∃ stage synced, r = .ok () ∧ SyncedAfter options installed tr synced ∧
          s' = { s with stage := stage, fileSynced := synced }.afterSyncs options tr) := by
  rw [syncInstalled] at h
  split at h
  · rename_i hnone
    obtain ⟨rfl, rfl, rfl⟩ := Proc.runs_pure.mp h
    refine ⟨by simp, .inr ⟨s'.stage, false, rfl, ⟨by simp, fun _ => rfl, by simp [hnone]⟩, ?_⟩⟩
    rw [afterSyncs_nil, ← hsynced]
  rename_i hsome
  rw [runs_setStage_bind, Proc.runs_lift_bind] at h
  obtain ⟨tr₁, tr₂, sync, rfl, hsync, h⟩ := h
  simp only [Prog.runs_andThen, runs_checkpoint, runs_syncEntry] at hsync
  -- the checkpoint may fail, and then the file is not synchronized
  have honly : ∀ ev ∈ tr₁, ev.call.synchronizes := by
    obtain ⟨_, rfl, rfl⟩ | ⟨_, _, _, rfl, rfl, rfl⟩ := hsync
    · simp [Call.synchronizes]
    · simp [Call.synchronizes]
  cases sync with
  | ok _ =>
    obtain ⟨_, habs, -⟩ | ⟨_, _, _, rfl, rfl, rfl⟩ := hsync
    · cases habs
    obtain ⟨rfl, rfl, rfl⟩ := Proc.runs_modify.mp h
    refine ⟨by simpa using honly, .inr ⟨.sync, true, rfl, ⟨by simpa using honly, ?_, ?_⟩, ?_⟩⟩
    · intro _
      rfl
    · simp [hsome]
    · simp [Locals.afterSyncs, callError, resultError]
  | error err =>
    -- the entry is unsynchronized after an error, whichever of the two calls it came from
    have hblame (hrequired : syncRequirement options = .required) : BlamesUnder options tr₁ err := by
      obtain ⟨_, heq, rfl⟩ | ⟨_, _, _, rfl, rfl, rfl⟩ := hsync
      · cases heq
        exact blamesUnder_singleton rfl rfl
      · exact (blamesUnder_singleton rfl (by simp [Call.tolerated, hrequired])).cons _
    have hfailed : syncsSucceed tr₁ = false := by
      obtain ⟨_, heq, rfl⟩ | ⟨_, _, _, rfl, rfl, rfl⟩ := hsync
      · cases heq
        rfl
      · rfl
    have hnotSynced : (⟨.syncEntry installed, Except.ok ()⟩ : Event (Call A) (Answer A)) ∉ tr₁ := by
      intro hmem
      obtain ⟨_, heq, rfl⟩ | ⟨_, _, _, rfl, rfl, rfl⟩ := hsync
      · rw [List.mem_singleton] at hmem
        cases hmem
      · rcases List.mem_cons.mp hmem with hmem | hmem
        · cases hmem
        · rcases List.mem_singleton.mp hmem with hmem
          cases hmem
    dsimp only at h
    split at h
    · rename_i hrequired
      simp only [runs_keep_bind, runs_fail] at h
      obtain ⟨rfl, rfl, rfl⟩ := h
      exact ⟨by simpa using honly, .inl ⟨err, rfl, (hblame hrequired).left _, rfl⟩⟩
    rename_i hnotRequired
    simp only [Proc.runs_modify_bind] at h
    have hdurability : options.durability ≠ .required :=
      fun hreq => hnotRequired (syncRequirement_of_required hreq)
    -- an error is lost durability where it was preferred, and nothing where it was not
    split at h
    · rename_i hpreferred
      obtain ⟨rfl, rfl, rfl⟩ := runs_loseDurability.mp h
      rw [List.append_nil]
      refine ⟨honly, .inr ⟨.sync, false, rfl,
        ⟨honly, fun hreq => absurd hreq hdurability, ?_⟩, ?_⟩⟩
      · simp [hnotSynced]
      · simp [Locals.afterSyncs, hfailed, hpreferred]
    · rename_i hpreferred
      obtain ⟨rfl, rfl, rfl⟩ := Proc.runs_pure.mp h
      rw [List.append_nil]
      refine ⟨honly, .inr ⟨.sync, false, rfl,
        ⟨honly, fun hreq => absurd hreq hdurability, ?_⟩, ?_⟩⟩
      · simp [hnotSynced]
      · simp [Locals.afterSyncs, hpreferred]

theorem syncPublishedNamespace_runs {options : LocalWriteOptions} {installed : ConditionalEntry A}
    {r : Except (LocalConditionalWriteStage × IoError) Unit}
    (h : (syncPublishedNamespace options installed).Runs s tr r s') :
    (∀ ev ∈ tr, ev.call.synchronizes ∧ ev.call ≠ .syncEntry installed) ∧
      ((∃ err, r = .error (.sync, err) ∧ BlamesUnder options tr err ∧
          s' = { s with stage := .sync, entries := s.entries ++ [installed] }) ∨
        ∃ stage, r = .ok () ∧ (options.durability = .required → syncsSucceed tr = true) ∧
          s' = { s with stage := stage }.afterSyncs options tr) := by
  unfold syncPublishedNamespace at h
  cases hdurability : options.durability with
  | notRequired =>
    simp only [hdurability] at h
    obtain ⟨rfl, rfl, rfl⟩ := Proc.runs_pure.mp h
    exact ⟨by simp, .inr ⟨s'.stage, rfl, fun _ => rfl, (afterSyncs_nil _ _).symm⟩⟩
  | preferred =>
    simp only [hdurability, runs_setStage_bind, Proc.runs_lift_bind, runs_syncNamespace] at h
    obtain ⟨_, _, sync, rfl, rfl, h⟩ := h
    cases sync with
    | ok _ =>
      obtain ⟨rfl, rfl, rfl⟩ := Proc.runs_pure.mp h
      refine ⟨by simp [Call.synchronizes], .inr ⟨.sync, rfl, fun _ => rfl, ?_⟩⟩
      simp [Locals.afterSyncs, callError, resultError]
    | error err =>
      obtain ⟨rfl, rfl, rfl⟩ := runs_loseDurability.mp h
      refine ⟨by simp [Call.synchronizes], .inr ⟨.sync, rfl, fun habs => ?_, ?_⟩⟩
      · cases habs
      simp [Locals.afterSyncs, Call.synchronizes, callError, resultError, hdurability]
  | required =>
    simp only [hdurability, runs_setStage_bind, Proc.runs_lift_bind, Prog.runs_andThen,
      runs_checkpoint, runs_syncNamespace] at h
    obtain ⟨tr₁, tr₂, sync, rfl, hsync, h⟩ := h
    cases sync with
    | ok _ =>
      obtain ⟨_, habs, -⟩ | ⟨_, _, _, rfl, rfl, rfl⟩ := hsync
      · cases habs
      obtain ⟨rfl, rfl, rfl⟩ := Proc.runs_pure.mp h
      refine ⟨by simp [Call.synchronizes], .inr ⟨.sync, rfl, fun _ => rfl, ?_⟩⟩
      simp [Locals.afterSyncs, callError, resultError]
    | error err =>
      simp only [runs_keep_bind, runs_fail] at h
      obtain ⟨rfl, rfl, rfl⟩ := h
      obtain ⟨_, heq, rfl⟩ | ⟨_, _, _, rfl, rfl, rfl⟩ := hsync
      · cases heq
        exact ⟨by simp [Call.synchronizes], .inl ⟨err, rfl, blamesUnder_singleton rfl rfl, rfl⟩⟩
      · refine ⟨by simp [Call.synchronizes], .inl ⟨err, rfl, ?_, rfl⟩⟩
        exact (blamesUnder_singleton rfl (by simp [Call.tolerated, hdurability])).cons _

theorem syncAfterPublication_runs {options : LocalWriteOptions} {installed : ConditionalEntry A}
    {r : Except (LocalConditionalWriteStage × IoError) Unit} (hsynced : s.fileSynced = false)
    (h : (syncAfterPublication options installed).Runs s tr r s') :
    ((∀ ev ∈ tr, ev.call.synchronizes) ∧ Stops options (fun _ => False) [installed] s tr r s') ∨
    ∃ stage synced, r = .ok () ∧ SyncedAfter options installed tr synced ∧
      s' = { s with stage := stage, fileSynced := synced }.afterSyncs options tr := by
  rw [syncAfterPublication, Proc.runs_bind] at h
  obtain ⟨e, rfl, h⟩ | ⟨tr₁, tr₂, _, mid, rfl, hinstalled, h⟩ := h
  · obtain ⟨honly, ⟨err, heq, hblame, rfl⟩ | ⟨_, _, habs, -⟩⟩ := syncInstalled_runs hsynced h
    · cases heq
      exact .inl ⟨honly, ⟨_, err, rfl, by simp, .inl hblame⟩, rfl, rfl⟩
    · cases habs
  obtain ⟨-, ⟨_, habs, -⟩ | ⟨stage, synced, -, hafter, rfl⟩⟩ := syncInstalled_runs hsynced hinstalled
  · cases habs
  obtain ⟨honly, hspace⟩ := syncPublishedNamespace_runs h
  obtain ⟨err, rfl, hblame, rfl⟩ | ⟨stage', rfl, hrequired, rfl⟩ := hspace
  · refine .inl ⟨?_, ⟨_, err, rfl, by simp, .inl (hblame.right _)⟩, rfl, rfl⟩
    rw [List.forall_mem_append]
    exact ⟨hafter.onlySyncs, fun ev hev => (honly ev hev).1⟩
  · refine .inr ⟨stage', synced, rfl, ⟨?_, ?_, ?_⟩, ?_⟩
    · rw [List.forall_mem_append]
      exact ⟨hafter.onlySyncs, fun ev hev => (honly ev hev).1⟩
    · intro hreq
      rw [syncsSucceed_append, hafter.required hreq, hrequired hreq]
      rfl
    · rw [hafter.synced, List.mem_append]
      refine and_congr_right fun _ => ⟨.inl, fun hmem => hmem.resolve_right fun hmem => ?_⟩
      exact (honly _ hmem).2 rfl
    · rw [← afterSyncs_append]
      rfl

/-! ## 7. From the publication to the end of the body -/

/-- The calls of a complete verification after publication: the displaced entries are kept as
    `kept` and `conflict` says whether the protocol detected a conflict. -/
structure Checked (precondition : LocalWritePrecondition δ) (candidateDigest : δ)
    (attempt : NativeAttempt A) (installed : ConditionalEntry A)
    (kept : List (ConditionalEntry A)) (conflict : Bool) (tr : Trace A) : Prop where
  accepted : ReceiptAccepted precondition attempt installed
  calls : ∃ verified identity bytes found,
    Verified D precondition attempt.displaced verified kept found ∧
    conflict = (attempt.error.isSome || found || !(identity && D bytes = candidateDigest)) ∧
    tr = ⟨.checkpoint .afterPublish, Except.ok ()⟩ :: verified ++
      installedTrace installed identity bytes

theorem Checked.quiet {precondition : LocalWritePrecondition δ} {candidateDigest : δ}
    {attempt : NativeAttempt A} {installed : ConditionalEntry A}
    {kept : List (ConditionalEntry A)} {conflict : Bool}
    (h : Checked D precondition candidateDigest attempt installed kept conflict tr) :
    effects tr = [] ∧ syncsSucceed tr = true := by
  obtain ⟨verified, identity, bytes, found, hverified, -, rfl⟩ := h.calls
  obtain ⟨hquiet, hsyncs⟩ := hverified.quiet
  exact ⟨by simp [hquiet, installedTrace], by simp [hsyncs, installedTrace, Call.synchronizes]⟩

/-- Every way the protocol can end once the native publication returned `attempt`. -/
inductive Settlement (precondition : LocalWritePrecondition δ) (options : LocalWriteOptions)
    (candidateDigest : δ) (attempt : NativeAttempt A) (s : Locals A) :
    Trace A → Except (LocalConditionalWriteStage × IoError) (ConditionalEntry A × δ) →
      Locals A → Prop
  | refused {answer : IoResult Unit} {err : IoError} {s' : Locals A}
      (hrefused : ReceiptRefused precondition attempt answer err s s') :
      Settlement precondition options candidateDigest attempt s
        [⟨.checkpoint .afterPublish, answer⟩] (.error (.publish, err)) s'
  | unverified {installed current : ConditionalEntry A}
      {done rest kept : List (ConditionalEntry A)} {tr₁ tr₂ : Trace A} {found : Bool}
      {err : IoError} {s' : Locals A}
      (haccepted : ReceiptAccepted precondition attempt installed)
      (hsplit : attempt.displaced = done ++ current :: rest)
      (hdone : Verified D precondition done tr₁ kept found) (hcurrent : Unverified tr₂ err)
      (hentries : s'.entries = s.entries ++ installed :: current :: kept)
      (hconflict : s'.postPublicationConflict = (attempt.error.isSome || found)) :
      Settlement precondition options candidateDigest attempt s
        (⟨.checkpoint .afterPublish, Except.ok ()⟩ :: (tr₁ ++ tr₂))
        (.error (.verifyDisplaced, err)) s'
  | unchecked {installed : ConditionalEntry A} {kept : List (ConditionalEntry A)}
      {tr₁ tr₂ : Trace A} {found : Bool} {err : IoError} {s' : Locals A}
      (haccepted : ReceiptAccepted precondition attempt installed)
      (hdone : Verified D precondition attempt.displaced tr₁ kept found)
      (hinstalled : Unchecked tr₂ err) (hentries : s'.entries = s.entries ++ installed :: kept)
      (hconflict : s'.postPublicationConflict = (attempt.error.isSome || found)) :
      Settlement precondition options candidateDigest attempt s
        (⟨.checkpoint .afterPublish, Except.ok ()⟩ :: (tr₁ ++ tr₂))
        (.error (.verifyInstalled, err)) s'
  | rolledBack {installed : ConditionalEntry A} {verified kept : List (ConditionalEntry A)}
      {tr₁ tr₂ : Trace A} {stage : LocalConditionalWriteStage} {err : IoError} {s' : Locals A}
      (hchecked : Checked D precondition candidateDigest attempt installed verified true tr₁)
      (hend : RollbackEnd D candidateDigest installed verified tr₂ kept)
      (hstage : stage ≠ .precheck)
      (hcause : BlamesUnder options tr₂ err ∨ err.kind = .invalidData ∨ attempt.error = some err)
      (hentries : s'.entries = s.entries ++ kept) (hconflict : s'.postPublicationConflict = true) :
      Settlement precondition options candidateDigest attempt s (tr₁ ++ tr₂) (.error (stage, err)) s'
  | unsynced {installed : ConditionalEntry A} {kept : List (ConditionalEntry A)}
      {tr₁ tr₂ : Trace A} {stage : LocalConditionalWriteStage} {err : IoError} {s' : Locals A}
      (hchecked : Checked D precondition candidateDigest attempt installed kept false tr₁)
      (honly : ∀ ev ∈ tr₂, ev.call.synchronizes) (hstage : stage ≠ .precheck)
      (hcause : BlamesUnder options tr₂ err ∨ err.kind = .invalidData)
      (hentries : s'.entries = s.entries ++ (kept ++ [installed]))
      (hconflict : s'.postPublicationConflict = false) :
      Settlement precondition options candidateDigest attempt s (tr₁ ++ tr₂) (.error (stage, err)) s'
  | settled {installed : ConditionalEntry A} {kept : List (ConditionalEntry A)}
      {tr₁ tr₂ : Trace A} {stage : LocalConditionalWriteStage} {synced : Bool}
      (hchecked : Checked D precondition candidateDigest attempt installed kept false tr₁)
      (hsynced : SyncedAfter options installed tr₂ synced) :
      Settlement precondition options candidateDigest attempt s (tr₁ ++ tr₂)
        (.ok (installed, candidateDigest))
        ({ s with
          entries := s.entries ++ kept
          stage := stage
          publication := attempt.publication
          fileSynced := synced }.afterSyncs options tr₂)

/-- What follows a verification that found nothing: the synchronization, if it is asked for. -/
theorem settled_runs {precondition : LocalWritePrecondition δ} {options : LocalWriteOptions}
    {candidateDigest : δ} {attempt : NativeAttempt A} {installed : ConditionalEntry A}
    {kept : List (ConditionalEntry A)} {tr₁ tr₂ : Trace A}
    {r : Except (LocalConditionalWriteStage × IoError) (ConditionalEntry A × δ)}
    (stage : LocalConditionalWriteStage)
    (hchecked : Checked D precondition candidateDigest attempt installed kept false tr₁)
    (hconflict : s.postPublicationConflict = false) (hsynced : s.fileSynced = false)
    (h : (do
      syncAfterPublication options installed
      pure (installed, candidateDigest) : CommitM A (ConditionalEntry A × δ)).Runs
        { s with
          entries := s.entries ++ kept
          stage := stage
          publication := attempt.publication } tr₂ r s') :
    Settlement D precondition options candidateDigest attempt s (tr₁ ++ tr₂) r s' := by
  rw [Proc.runs_bind] at h
  obtain ⟨e, rfl, h⟩ | ⟨tr₃, tr₄, _, mid, rfl, hsync, h⟩ := h
  · obtain ⟨honly, ⟨stage', err, heq, hne, hcause⟩, hentries, hconflict'⟩ | ⟨_, _, habs, -⟩ :=
      syncAfterPublication_runs (by exact hsynced) h
    · cases heq
      refine .unsynced hchecked honly hne ?_ ?_ ?_
      · exact hcause.imp_right fun hc => hc.resolve_right id
      · rw [hentries, ← List.append_assoc]
      · rw [hconflict']
        exact hconflict
    · cases habs
  obtain ⟨-, ⟨_, _, habs, -⟩, -⟩ | ⟨stage', synced, -, hafter, rfl⟩ :=
    syncAfterPublication_runs (by exact hsynced) hsync
  · cases habs
  obtain ⟨rfl, rfl, rfl⟩ := Proc.runs_pure.mp h
  rw [List.append_nil]
  exact .settled hchecked hafter

theorem settlePublication_runs {precondition : LocalWritePrecondition δ}
    {options : LocalWriteOptions} {candidateDigest : δ} {attempt : NativeAttempt A}
    {r : Except (LocalConditionalWriteStage × IoError) (ConditionalEntry A × δ)}
    (hstage : s.stage = .publish) (hconflict : s.postPublicationConflict = false)
    (herror : s.publicationAttemptError = none) (hsynced : s.fileSynced = false)
    (h : (settlePublication D precondition options candidateDigest attempt).Runs s tr r s') :
    Settlement D precondition options candidateDigest attempt s tr r s' := by
  rw [settlePublication, Proc.runs_bind] at h
  obtain ⟨e, rfl, h⟩ | ⟨tr₁, tr₂, installed, mid, rfl, haccept, h⟩ := h
  · obtain ⟨answer, rfl, ⟨err, heq, -, hrefused⟩ | ⟨_, -, habs, -⟩⟩ :=
      acceptAttempt_runs hconflict herror h
    · cases heq
      rw [hstage]
      exact .refused hrefused
    · cases habs
  obtain ⟨_, rfl, ⟨_, habs, -⟩ | ⟨_, rfl, heq, haccepted, rfl⟩⟩ :=
    acceptAttempt_runs hconflict herror haccept
  · cases habs
  cases heq
  rw [Proc.runs_bind] at h
  obtain ⟨e, rfl, h⟩ | ⟨tr₃, tr₄, displaced, mid, rfl, hdisplaced, h⟩ := h
  · obtain ⟨done, current, rest, tr₁, tr₂, kept, found, err, hsplit, hdone, hcurrent, rfl, heq, rfl⟩ |
      ⟨_, _, _, habs, -⟩ := verifyDisplaced_runs D h
    · cases heq
      rw [List.singleton_append]
      exact .unverified haccepted hsplit hdone hcurrent rfl rfl
    · cases habs
  obtain ⟨_, _, _, _, _, _, _, _, -, -, -, -, habs, -⟩ | ⟨kept, found, stage, heq, hdone, rfl⟩ :=
    verifyDisplaced_runs D hdisplaced
  · cases habs
  cases heq
  rw [Proc.runs_bind] at h
  obtain ⟨e, rfl, h⟩ | ⟨tr₅, tr₆, valid, mid, rfl, hinstalled, h⟩ := h
  · obtain ⟨err, heq, hunchecked, rfl⟩ | ⟨_, _, -, habs, -⟩ := verifyInstalled_runs D h
    · cases heq
      rw [List.singleton_append]
      exact .unchecked haccepted hdone hunchecked rfl rfl
    · cases habs
  obtain ⟨_, habs, -⟩ | ⟨identity, bytes, rfl, heq, rfl⟩ := verifyInstalled_runs D hinstalled
  · cases habs
  cases heq
  -- Both ways on share the trace of the completed verification.
  have hchecked (conflict : Bool) (heq : conflict = (attempt.error.isSome || found ||
      !(identity && decide (D bytes = candidateDigest)))) :
      Checked D precondition candidateDigest attempt installed kept conflict
        ([⟨.checkpoint .afterPublish, Except.ok ()⟩] ++ tr₃ ++
          installedTrace installed identity bytes) :=
    ⟨haccepted, tr₃, identity, bytes, found, hdone, heq, by simp⟩
  rw [Proc.runs_get_bind] at h
  rw [← List.append_assoc, ← List.append_assoc]
  split at h
  · rename_i hflag
    obtain ⟨kept', hend, ⟨stage', err, rfl, hne, hcause⟩, hentries, hconflict'⟩ :=
      rollbackConflict_runs D (by simp) h
    exact .rolledBack (hchecked true hflag.symm) hend hne hcause hentries (hconflict'.trans hflag)
  · rename_i hflag
    have hfalse : (attempt.error.isSome || found ||
        !(identity && decide (D bytes = candidateDigest))) = false := Bool.eq_false_iff.mpr hflag
    have hvalid : (identity && decide (D bytes = candidateDigest)) = true := by
      have hor := (Bool.or_eq_false_iff.mp hfalse).2
      simpa using hor
    have herr : attempt.error = none := by
      have hor := (Bool.or_eq_false_iff.mp (Bool.or_eq_false_iff.mp hfalse).1).1
      simpa using hor
    rw [runs_keep_bind] at h
    simp only [List.nil_append] at h
    rw [if_pos hvalid] at h
    refine settled_runs D .verifyInstalled (hchecked false hfalse.symm) hconflict hsynced ?_
    convert h using 1
    have hflags := hfalse
    simp only [Bool.or_eq_false_iff, Bool.not_eq_eq_eq_not, Bool.not_false, Bool.and_eq_true,
      decide_eq_true_eq] at hflags
    simp [Locals.accepted, hconflict, herror, herr, hflags]

end LocalFiles.Conditional
