import LocalFiles.Conditional.Discipline

/-!
# Reason — what the reason of a failed commit says

The reason is reconstructed from the stage of the failure, the kind of the error and one flag.
Calls that share a stage can fail with the same kinds, so the reason is true only when their
errors stay apart: `Distinguishable` says how.
-/

namespace LocalFiles.Conditional

open Interaction

variable {A δ : Type} [DecidableEq δ] (D : List UInt8 → δ)
variable {precondition : LocalWritePrecondition δ} {options : LocalWriteOptions}
variable {bytesWritten : UInt64} {currentDirectory : Option Path} {tr : Trace A}

/-! ## 1. Where a read can stand in a trace -/

section Infix

variable {x y : Event (Call A) (Answer A)} {l before after : Trace A}

/-- An occurrence starts behind a part without its first call. -/
theorem infix_of_infix_append (h : x :: l <:+: before ++ after)
    (hx : ∀ ev ∈ before, ev.call ≠ x.call) : x :: l <:+: after := by
  induction before with
  | nil => exact h
  | cons first rest ih =>
    rw [List.forall_mem_cons] at hx
    rw [List.cons_append, List.infix_cons_iff] at h
    rcases h with hbegin | hrest
    · obtain ⟨rfl, -⟩ := List.cons_prefix_cons.mp hbegin
      exact absurd rfl hx.1
    · exact ih hrest hx.2

theorem infix_of_infix_cons (h : x :: l <:+: y :: after) (hy : y.call ≠ x.call) :
    x :: l <:+: after := by
  apply infix_of_infix_append (show x :: l <:+: [y] ++ after from h)
  simpa using hy

/-- An occurrence that can only start at the head does start there. -/
theorem prefix_of_infix_cons (h : x :: l <:+: y :: after)
    (hx : ∀ ev ∈ after, ev.call ≠ x.call) : x :: l <+: y :: after := by
  rcases List.infix_cons_iff.mp h with hbegin | hrest
  · exact hbegin
  · exact absurd rfl (hx x (hrest.subset List.mem_cons_self))

theorem not_infix_of_call (hx : ∀ ev ∈ after, ev.call ≠ x.call) : ¬ x :: l <:+: after :=
  fun h => hx x (h.subset List.mem_cons_self) rfl

end Infix

/-! ## 2. Conflicts -/

/-- The calls of the verification of a displaced entry, up to its content. -/
def displacedRead (entry : ConditionalEntry A) (bytes : List UInt8) : Trace A :=
  [⟨.checkpoint .verifyDisplaced, Except.ok ()⟩, ⟨.verifyEntry entry, Except.ok ()⟩] ++
    readBack entry bytes

/-- The receipt reported an error of a publication that took effect. -/
def AttemptConflict (attempt : NativeAttempt A) (after : Trace A) : Prop :=
  attempt.error.isSome ∧ attempt.publication = .published ∧
    [⟨.checkpoint .afterPublish, Except.ok ()⟩] <+: after

/-- A displaced entry was read with other content than expected. -/
def DisplacedConflict (precondition : LocalWritePrecondition δ) (after : Trace A) : Prop :=
  ∃ expected entry bytes, precondition = .content expected ∧
    displacedRead entry bytes <:+: after ∧ D bytes ≠ expected

/-- The installed entry was not the candidate, or read with other content. -/
def InstalledConflict (before after : Trace A) : Prop :=
  ∃ candidate bytes entry identity installedBytes, candidateTrace candidate bytes <+: before ∧
    installedTrace entry identity installedBytes <:+: after ∧
    ¬ (identity = true ∧ D installedBytes = D bytes)

/-- A conflict was detected after the publication of the run `tr`. -/
def ConflictDetected (precondition : LocalWritePrecondition δ) (tr : Trace A) : Prop :=
  ∃ before attempt after, tr = before ++ publishEvent precondition attempt :: after ∧
    (AttemptConflict attempt after ∨ DisplacedConflict D precondition after ∨
      InstalledConflict D before after)

/-- A found mismatch is in the trace of the verified entries. -/
theorem Verified.displacedRead {displaced kept : List (ConditionalEntry A)} {found : Bool}
    (h : Verified D precondition displaced tr kept found) (hfound : found = true) :
    ∃ expected entry bytes, precondition = .content expected ∧
      displacedRead entry bytes <:+: tr ∧ D bytes ≠ expected := by
  induction h with
  | nil => cases hfound
  | @cons entry bytes rest kept tr found _ ih =>
    rcases Bool.or_eq_true_iff.mp hfound with hmis | hrest
    · cases precondition with
      | absent => cases hmis
      | content expected =>
        refine ⟨expected, entry, bytes, rfl, List.infix_append_left, ?_⟩
        exact of_decide_eq_true hmis
    · obtain ⟨expected, other, otherBytes, hpre, hwithin, hne⟩ := ih hrest
      exact ⟨expected, other, otherBytes, hpre, List.infix_append_of_infix_right hwithin, hne⟩

/-- A mismatching read that starts in the verification of the displaced entries was found. -/
theorem Verified.found_of_displacedRead {expected : δ} {displaced kept : List (ConditionalEntry A)}
    {found : Bool} {entry : ConditionalEntry A} {bytes : List UInt8} {post : Trace A}
    (h : Verified D (.content expected) displaced tr kept found)
    (hread : Conditional.displacedRead entry bytes <:+: tr ++ post) (hne : D bytes ≠ expected) :
    found = true ∨ Conditional.displacedRead entry bytes <:+: post := by
  induction h with
  | nil => exact .inr hread
  | @cons other otherBytes rest kept tr found _ ih =>
    rw [List.append_assoc] at hread
    rcases List.infix_cons_iff.mp hread with hbegin | hrest
    · -- The read is the one of the current entry.
      left
      obtain ⟨-, hbegin⟩ := List.cons_prefix_cons.mp hbegin
      obtain ⟨hev, hbegin⟩ := List.cons_prefix_cons.mp hbegin
      cases hev
      obtain ⟨post', hpost⟩ := hbegin
      obtain ⟨-, hresult⟩ := (runs_readBack D entry bytes).deterministic
        (runs_readBack D entry otherBytes) hpost
      have hdigest : D bytes = D otherBytes := Except.ok.inj hresult
      rw [Bool.or_eq_true_iff]
      left
      exact decide_eq_true (hdigest ▸ hne)
    · have hlater : (⟨.checkpoint .verifyDisplaced, Except.ok ()⟩ : Event (Call A) (Answer A)) ::
          (⟨.verifyEntry entry, Except.ok ()⟩ :: readBack entry bytes) <:+:
          (⟨.verifyEntry other, Except.ok ()⟩ :: readBack other otherBytes) ++ (tr ++ post) := hrest
      have hskip := infix_of_infix_append hlater (by simp [readBack])
      rcases ih hskip with hfound | hpost
      · left
        rw [hfound, Bool.or_true]
      · exact .inr hpost

/-! ## 3. The conflict flag -/

/-- The calls of an exit that do not belong to the verification of the displaced or the installed
    entry. -/
def Call.settles (c : Call A) : Prop :=
  c ≠ .checkpoint .verifyDisplaced ∧ c ≠ .checkpoint .verifyInstalled

theorem settles_of_syncs (h : ∀ ev ∈ tr, ev.call.synchronizes) : ∀ ev ∈ tr, ev.call.settles := by
  intro ev hev
  have hsync := h ev hev
  constructor
  · intro hcall
    rw [hcall] at hsync
    cases hsync
  · intro hcall
    rw [hcall] at hsync
    cases hsync

/-- Whether a displaced entry was a conflict is decided by the entries verified before one whose
    verification failed. -/
theorem displacedConflict_unverified {done kept : List (ConditionalEntry A)} {found : Bool}
    {err : IoError} {tr₁ tr₂ post : Trace A} (hdone : Verified D precondition done tr₁ kept found)
    (hcurrent : Unverified tr₂ err) (hpost : ∀ ev ∈ post, ev.call.settles) :
    DisplacedConflict D precondition
      (⟨.checkpoint .afterPublish, Except.ok ()⟩ :: (tr₁ ++ tr₂) ++ post) ↔ found = true := by
  constructor
  · rintro ⟨expected, entry, bytes, rfl, hread, hne⟩
    rw [List.cons_append, List.append_assoc] at hread
    have hskip := infix_of_infix_cons hread (by simp)
    refine (hdone.found_of_displacedRead D hskip hne).resolve_right fun hlater => ?_
    -- The read would have to be the one that failed.
    obtain ⟨answer, rest, hstart, hrest⟩ := hcurrent.starts
    have hothers : ∀ ev ∈ rest ++ post, ev.call ≠ .checkpoint .verifyDisplaced :=
      List.forall_mem_append.mpr ⟨fun ev hev => hrest ev hev _, fun ev hev => (hpost ev hev).1⟩
    apply hcurrent.unread entry bytes post
    rw [hstart] at hlater ⊢
    exact prefix_of_infix_cons hlater hothers
  · intro hfound
    obtain ⟨expected, entry, bytes, hpre, hread, hne⟩ := hdone.displacedRead D hfound
    refine ⟨expected, entry, bytes, hpre, ?_, hne⟩
    refine List.infix_append_of_infix_left (List.infix_cons ?_)
    exact List.infix_append_of_infix_left hread

/-- Behind the verified entries no call belongs to such a verification. -/
theorem displacedConflict_verified {displaced kept : List (ConditionalEntry A)} {found : Bool}
    {tr₁ post : Trace A} (hdone : Verified D precondition displaced tr₁ kept found)
    (hpost : ∀ ev ∈ post, ev.call ≠ .checkpoint .verifyDisplaced) :
    DisplacedConflict D precondition
      (⟨.checkpoint .afterPublish, Except.ok ()⟩ :: (tr₁ ++ post)) ↔ found = true := by
  constructor
  · rintro ⟨expected, entry, bytes, rfl, hread, hne⟩
    have hskip := infix_of_infix_cons hread (by simp)
    refine (hdone.found_of_displacedRead D hskip hne).resolve_right fun hlater => ?_
    exact not_infix_of_call hpost hlater
  · intro hfound
    obtain ⟨expected, entry, bytes, hpre, hread, hne⟩ := hdone.displacedRead D hfound
    exact ⟨expected, entry, bytes, hpre,
      List.infix_cons (List.infix_append_of_infix_left hread), hne⟩

omit [DecidableEq δ] in
theorem not_installedConflict {before after : Trace A}
    (hafter : ∀ ev ∈ after, ev.call ≠ .checkpoint .verifyInstalled) :
    ¬ InstalledConflict D before after := by
  rintro ⟨candidate, bytes, entry, identity, installedBytes, -, hread, -⟩
  exact not_infix_of_call hafter hread

/-- A complete check of the installed entry is a conflict exactly when it did not see the
    candidate. -/
theorem installedConflict_iff {candidate installed : ConditionalEntry A}
    {bytes installedBytes : List UInt8} {identity : Bool} {before tr₁ post : Trace A}
    (hcandidate : candidateTrace candidate bytes <+: before)
    (hbefore : ∀ ev ∈ tr₁, ev.call ≠ .checkpoint .verifyInstalled)
    (hpost : ∀ ev ∈ post, ev.call ≠ .checkpoint .verifyInstalled) :
    InstalledConflict D before (tr₁ ++ (installedTrace installed identity installedBytes ++ post)) ↔
      (identity && D installedBytes = D bytes) = false := by
  constructor
  · rintro ⟨candidate', bytes', entry, identity', installedBytes', hcandidate', hread, hne⟩
    have hbytes : bytes' = bytes := by
      obtain ⟨rest, hrest⟩ := hcandidate
      obtain ⟨rest', hrest'⟩ := hcandidate'
      exact (candidateTrace_inj (hrest'.trans hrest.symm)).2.1
    subst hbytes
    have hskip := infix_of_infix_append hread hbefore
    have hothers : ∀ ev ∈ (⟨.isCandidate installed, Except.ok identity⟩ ::
        readBack installed installedBytes) ++ post, ev.call ≠ .checkpoint .verifyInstalled :=
      List.forall_mem_append.mpr ⟨by simp [readBack], hpost⟩
    have hbegin := prefix_of_infix_cons hskip hothers
    -- The calls and answers of both checks are the same, so they read the same content.
    replace hbegin := (List.cons_prefix_cons.mp hbegin).2
    obtain ⟨hev, hcontent⟩ := List.cons_prefix_cons.mp hbegin
    cases hev
    obtain ⟨post', hpost'⟩ := hcontent
    obtain ⟨-, hresult⟩ := (runs_readBack D installed installedBytes').deterministic
      (runs_readBack D installed installedBytes) hpost'
    have hdigest : D installedBytes' = D installedBytes := Except.ok.inj hresult
    rw [← hdigest]
    simpa using hne
  · intro hinvalid
    refine ⟨candidate, bytes, installed, identity, installedBytes, hcandidate, ?_, ?_⟩
    · exact List.infix_append_of_infix_right List.infix_append_left
    · simpa using hinvalid

/-- A conflict of the publication `attempt` shows in the calls around it. -/
def Detects (precondition : LocalWritePrecondition δ) (attempt : NativeAttempt A)
    (before after : Trace A) : Prop :=
  AttemptConflict attempt after ∨ DisplacedConflict D precondition after ∨
    InstalledConflict D before after

section Flag

variable {candidate installed : ConditionalEntry A} {bytes : List UInt8} {attempt : NativeAttempt A}
  {kept : List (ConditionalEntry A)} {before post tr₁ tr₂ : Trace A} {found : Bool} {err : IoError}

omit [DecidableEq δ] in
/-- An accepted receipt with an error is that of a publication that took effect. -/
theorem attemptConflict_accepted (haccepted : ReceiptAccepted precondition attempt installed)
    (tail : Trace A) :
    AttemptConflict attempt (⟨.checkpoint .afterPublish, Except.ok ()⟩ :: tail) ↔
      attempt.error.isSome = true := by
  constructor
  · exact fun hconflict => hconflict.1
  · intro herror
    obtain hnone | hconflict := haccepted.error
    · rw [hnone] at herror
      cases herror
    · exact ⟨herror, hconflict.2.1, List.prefix_append [_] _⟩

omit [DecidableEq δ] in
theorem detects_refused {answer : IoResult Unit}
    (hattempt : attempt.error.isSome → attempt.publication = .published →
      answer = .ok () → attempt.Conflicts precondition)
    (hpost : ∀ ev ∈ post, ev.call.settles) :
    Detects D precondition attempt before ([⟨.checkpoint .afterPublish, answer⟩] ++ post) ↔
      answer = .ok () ∧ attempt.Conflicts precondition := by
  constructor
  · rintro (⟨herror, hpublished, hbegin⟩ | hdisplaced | hinstalled)
    · obtain ⟨hev, -⟩ := List.cons_prefix_cons.mp hbegin
      cases hev
      exact ⟨rfl, hattempt herror hpublished rfl⟩
    · obtain ⟨expected, entry, content, -, hread, -⟩ := hdisplaced
      refine absurd hread (not_infix_of_call (List.forall_mem_append.mpr ⟨by simp, ?_⟩))
      exact fun ev hev => (hpost ev hev).1
    · refine absurd hinstalled (not_installedConflict D (List.forall_mem_append.mpr ⟨?_, ?_⟩))
      · simp
      · exact fun ev hev => (hpost ev hev).2
  · rintro ⟨rfl, hconflict⟩
    exact .inl ⟨hconflict.2.2.1, hconflict.2.1, List.prefix_append [_] _⟩

/-- Where the verification of a displaced entry fails, the installed entry is not looked at. -/
theorem detects_unverified {done : List (ConditionalEntry A)}
    (haccepted : ReceiptAccepted precondition attempt installed)
    (hdone : Verified D precondition done tr₁ kept found) (hcurrent : Unverified tr₂ err)
    (hpost : ∀ ev ∈ post, ev.call.settles) :
    Detects D precondition attempt before
        (⟨.checkpoint .afterPublish, Except.ok ()⟩ :: (tr₁ ++ tr₂) ++ post) ↔
      (attempt.error.isSome || found) = true := by
  have hnone : ¬ InstalledConflict D before
      (⟨.checkpoint .afterPublish, Except.ok ()⟩ :: (tr₁ ++ tr₂) ++ post) := by
    obtain ⟨answer, rest, rfl, hrest⟩ := hcurrent.starts
    apply not_installedConflict
    refine List.forall_mem_append.mpr ⟨List.forall_mem_cons.mpr ⟨by simp, ?_⟩, ?_⟩
    · refine List.forall_mem_append.mpr ⟨hdone.points, List.forall_mem_cons.mpr ⟨by simp, ?_⟩⟩
      exact fun ev hev => hrest ev hev _
    · exact fun ev hev => (hpost ev hev).2
  rw [Bool.or_eq_true, ← displacedConflict_unverified D hdone hcurrent hpost,
    ← attemptConflict_accepted haccepted (tr₁ ++ tr₂ ++ post)]
  rw [List.cons_append] at hnone ⊢
  unfold Detects
  simp only [hnone, or_false]

/-- Where the check of the installed entry fails, it has not been read. -/
theorem detects_unchecked (haccepted : ReceiptAccepted precondition attempt installed)
    (hdone : Verified D precondition attempt.displaced tr₁ kept found)
    (hinstalled : Unchecked tr₂ err) (hpost : ∀ ev ∈ post, ev.call.settles) :
    Detects D precondition attempt before
        (⟨.checkpoint .afterPublish, Except.ok ()⟩ :: (tr₁ ++ tr₂) ++ post) ↔
      (attempt.error.isSome || found) = true := by
  obtain ⟨answer, rest, hstart, hrest⟩ := hinstalled.starts
  have hnone : ¬ InstalledConflict D before
      (⟨.checkpoint .afterPublish, Except.ok ()⟩ :: (tr₁ ++ (tr₂ ++ post))) := by
    rintro ⟨_, _, entry, identity, content, -, hread, -⟩
    have hskip := infix_of_infix_append (infix_of_infix_cons hread (by simp)) hdone.points
    -- The check would have to be the one that failed.
    have hothers : ∀ ev ∈ rest ++ post, ev.call ≠ .checkpoint .verifyInstalled :=
      List.forall_mem_append.mpr ⟨fun ev hev => hrest ev hev _, fun ev hev => (hpost ev hev).2⟩
    apply hinstalled.unread entry identity content post
    rw [hstart] at hskip ⊢
    exact prefix_of_infix_cons hskip hothers
  have hothers : ∀ ev ∈ tr₂ ++ post, ev.call ≠ .checkpoint .verifyDisplaced := by
    rw [hstart]
    refine List.forall_mem_append.mpr ⟨List.forall_mem_cons.mpr ⟨by simp, ?_⟩, ?_⟩
    · exact fun ev hev => hrest ev hev _
    · exact fun ev hev => (hpost ev hev).1
  rw [List.cons_append, List.append_assoc, Bool.or_eq_true,
    ← displacedConflict_verified D hdone hothers,
    ← attemptConflict_accepted haccepted (tr₁ ++ (tr₂ ++ post))]
  unfold Detects
  simp only [hnone, or_false]

/-- A complete verification that set the flag saw the conflict. -/
theorem detects_conflicting (hcandidate : candidateTrace candidate bytes <+: before)
    (hchecked : Checked D precondition (D bytes) attempt installed kept true tr₁)
    (tail : Trace A) : Detects D precondition attempt before (tr₁ ++ tail) := by
  obtain ⟨checks, identity, content, found, hverified, hflag, rfl⟩ := hchecked.calls
  replace hflag := hflag.symm
  rw [Bool.or_eq_true, Bool.or_eq_true, Bool.not_eq_true'] at hflag
  rcases hflag with (herror | hfound) | hinvalid
  · left
    exact (attemptConflict_accepted hchecked.accepted _).mpr herror
  · right; left
    obtain ⟨expected, entry, bytes', hpre, hread, hne⟩ := hverified.displacedRead D hfound
    refine ⟨expected, entry, bytes', hpre, ?_, hne⟩
    refine List.infix_append_of_infix_left ?_
    exact List.infix_append_of_infix_left (List.infix_cons hread)
  · right; right
    refine ⟨candidate, bytes, installed, identity, content, hcandidate, ?_, by simpa using hinvalid⟩
    exact List.infix_append_of_infix_left List.infix_append_right

/-- A complete verification that left the flag unset saw no conflict, and no later call is part of
    one. -/
theorem not_detects_settled (hcandidate : candidateTrace candidate bytes <+: before)
    (hchecked : Checked D precondition (D bytes) attempt installed kept false tr₁)
    (htail : ∀ ev ∈ tr₂, ev.call.settles) :
    ¬ Detects D precondition attempt before (tr₁ ++ tr₂) := by
  obtain ⟨checks, identity, content, found, hverified, hflag, rfl⟩ := hchecked.calls
  replace hflag := hflag.symm
  rw [Bool.or_eq_false_iff, Bool.or_eq_false_iff, Bool.not_eq_false'] at hflag
  have hinvalid := @installedConflict_iff A δ _ D candidate installed bytes content identity before
    (⟨.checkpoint .afterPublish, Except.ok ()⟩ :: checks) tr₂ hcandidate
    (List.forall_mem_cons.mpr ⟨by simp, hverified.points⟩) fun ev hev => (htail ev hev).2
  have hdisplaced := @displacedConflict_verified A δ _ D precondition attempt.displaced kept found
    checks (installedTrace installed identity content ++ tr₂) hverified
    (List.forall_mem_append.mpr
      ⟨by simp [installedTrace, readBack], fun ev hev => (htail ev hev).1⟩)
  unfold Detects
  simp only [List.append_assoc, List.cons_append] at hinvalid hdisplaced ⊢
  rw [hdisplaced, hinvalid, attemptConflict_accepted hchecked.accepted, hflag.1.1, hflag.1.2,
    hflag.2]
  simp

end Flag

/-- At the end of a run that failed after the publication, the flag tells whether a conflict was
    detected. -/
theorem Settlement.flag_iff {candidate : ConditionalEntry A} {bytes : List UInt8}
    {attempt : NativeAttempt A} {s s' : Locals A} {before settled post : Trace A}
    {failure : LocalConditionalWriteStage × IoError}
    (h : Settlement D precondition options (D bytes) attempt s settled (.error failure) s')
    (hcandidate : candidateTrace candidate bytes <+: before)
    (hattempt : attempt.error.isSome → attempt.publication = .published →
      ⟨.checkpoint .afterPublish, Except.ok ()⟩ ∈ settled →
      precondition ≠ .absent ∧ attempt.displaced ≠ [])
    (hpost : ∀ ev ∈ post, ev.call.settles) :
    s'.postPublicationConflict = true ↔
      Detects D precondition attempt before (settled ++ post) := by
  generalize hresult : Except.error failure = result at h
  cases h with
  | refused hrefused =>
    rw [hrefused.conflict, detects_refused D ?_ hpost]
    rintro herror hpublished rfl
    obtain ⟨hcontent, hdisplaced⟩ := hattempt herror hpublished List.mem_cons_self
    exact ⟨hcontent, hpublished, herror, hdisplaced⟩
  | unverified haccepted hsplit hdone hcurrent hentries hconflict =>
    rw [hconflict, detects_unverified D haccepted hdone hcurrent hpost]
  | unchecked haccepted hdone hinstalled hentries hconflict =>
    rw [hconflict, detects_unchecked D haccepted hdone hinstalled hpost]
  | rolledBack hchecked hend hstage hcause hentries hconflict =>
    rw [List.append_assoc]
    exact iff_of_true hconflict (detects_conflicting D hcandidate hchecked _)
  | unsynced hchecked honly hstage hcause hentries hconflict =>
    rw [List.append_assoc]
    refine iff_of_false (by rw [hconflict]; exact Bool.false_ne_true) ?_
    refine not_detects_settled D hcandidate hchecked (List.forall_mem_append.mpr ⟨?_, hpost⟩)
    exact settles_of_syncs honly
  | settled _ _ => cases hresult

/-! ## 4. Errors that can be told apart -/

/-- The errors of the run can be told apart by their stage and kind. -/
structure Distinguishable (precondition : LocalWritePrecondition δ) (options : LocalWriteOptions)
    (tr : Trace A) : Prop where
  /-- Only `publish_absent` fails with `AlreadyExists`, unless the failure is tolerated. -/
  occupied : ∀ ev ∈ tr, ev.call.tolerated options = false → ∀ err,
    callError ev.call ev.answer = some err → err.kind = .alreadyExists → ev.call = .publishAbsent
  /-- From the `precheck` checkpoint to the `publish` checkpoint no call fails with `InvalidData`,
      and only `open_target` fails with `NotFound`; the same exception holds. -/
  precheck : ∀ pre answer mid post, tr = pre ++ ⟨.checkpoint .precheck, answer⟩ :: mid ++ post →
    (∀ ev ∈ mid, ev.call ≠ .checkpoint .publish) →
    ∀ ev ∈ (⟨.checkpoint .precheck, answer⟩ :: mid : Trace A), ev.call.tolerated options = false →
      ∀ err, callError ev.call ev.answer = some err →
      err.kind ≠ .invalidData ∧ (err.kind = .notFound → ev.call = .openTarget)
  /-- A publication that took effect with an error is over content and reports what it displaced,
      unless the run fails right behind it. -/
  published : ∀ attempt, publishEvent precondition attempt ∈ tr → attempt.error.isSome →
    attempt.publication = .published → ⟨.checkpoint .afterPublish, Except.ok ()⟩ ∈ tr →
    precondition ≠ .absent ∧ attempt.displaced ≠ []

omit [DecidableEq δ] in
theorem Distinguishable.kind_ne {err : IoError} {part : Trace A}
    (h : Distinguishable precondition options tr) (hpart : part ⊆ tr)
    (heffects : .publishes ∉ effects part) (hblame : BlamesUnder options part err) :
    err.kind ≠ .alreadyExists := by
  intro hkind
  obtain ⟨ev, hev, hkept, herr⟩ := hblame
  have hcall := h.occupied ev (hpart hev) hkept err herr hkind
  exact heffects (mem_effects hev (by rw [hcall]; rfl))

/-- Where the error of a run that failed after the publication comes from. -/
theorem Settlement.cause {candidateDigest : δ} {attempt : NativeAttempt A} {s s' : Locals A}
    {stage : LocalConditionalWriteStage} {err : IoError}
    (h : Settlement D precondition options candidateDigest attempt s tr (.error (stage, err)) s') :
    stage ≠ .precheck ∧
      (BlamesUnder options tr err ∨ err.kind = .invalidData ∨ attempt.error = some err) := by
  generalize hresult : Except.error (stage, err) = result at h
  cases h with
  | refused hrefused =>
    cases hresult
    refine ⟨by decide, ?_⟩
    rcases hrefused.cause with rfl | hattempt | hkind
    · exact .inl (blamesUnder_singleton rfl rfl)
    · exact .inr (.inr hattempt)
    · exact .inr (.inl hkind)
  | unverified _ _ _ hcurrent _ _ =>
    cases hresult
    exact ⟨by decide, .inl (((hcurrent.blames.right _).cons _).under _)⟩
  | unchecked _ _ hinstalled _ _ =>
    cases hresult
    exact ⟨by decide, .inl (((hinstalled.blames.right _).cons _).under _)⟩
  | rolledBack _ _ hstage hcause _ _ =>
    cases hresult
    exact ⟨hstage, hcause.imp_left fun hblame => hblame.right _⟩
  | unsynced _ _ hstage hcause _ _ =>
    cases hresult
    refine ⟨hstage, ?_⟩
    rcases hcause with hblame | hkind
    · exact .inl (hblame.right _)
    · exact .inr (.inl hkind)
  | settled _ _ => cases hresult

/-- Over an absent target the protocol stops at a receipt with an error. -/
theorem Settlement.flag_of_absent {candidateDigest : δ} {attempt : NativeAttempt A}
    {s s' : Locals A} {failure : LocalConditionalWriteStage × IoError}
    (h : Settlement D .absent options candidateDigest attempt s tr (.error failure) s')
    (herror : attempt.error.isSome) : s'.postPublicationConflict = false := by
  have haccepted {installed : ConditionalEntry A}
      (haccepted : ReceiptAccepted (.absent : LocalWritePrecondition δ) attempt installed) :
      False := by
    obtain hnone | hconflict := haccepted.error
    · rw [hnone] at herror
      cases herror
    · exact hconflict.1 rfl
  generalize hresult : Except.error failure = result at h
  cases h with
  | refused hrefused =>
    rw [Bool.eq_false_iff, ne_eq, hrefused.conflict]
    rintro ⟨-, hconflict⟩
    exact hconflict.1 rfl
  | unverified hreceipt _ _ _ _ _ => exact (haccepted hreceipt).elim
  | unchecked hreceipt _ _ _ _ => exact (haccepted hreceipt).elim
  | rolledBack hchecked _ _ _ _ _ => exact (haccepted hchecked.accepted).elim
  | unsynced hchecked _ _ _ _ _ => exact (haccepted hchecked.accepted).elim
  | settled _ _ => cases hresult

/-- Where the error of a run that failed before the publication comes from. -/
theorem Unpublished.cause {stage : LocalConditionalWriteStage} {err : IoError}
    {entries : List (ConditionalEntry A)}
    (h : Unpublished D precondition options tr (stage, err) entries) :
    (stage ≠ .precheck ∧ (BlamesUnder options tr err ∨ err.kind = .invalidData)) ∨
    stage = .precheck ∧ ∃ pre answer mid, tr = pre ++ ⟨.checkpoint .precheck, answer⟩ :: mid ∧
      (∀ ev ∈ mid, ev.call ≠ .checkpoint .publish) ∧
      Refused D options precondition (⟨.checkpoint .precheck, answer⟩ :: mid) err := by
  cases h with
  | uncopied hstage hblame _ _ => exact .inl ⟨hstage, .inl (hblame.under _)⟩
  | unverified hmade =>
    refine .inl ⟨by decide, ?_⟩
    obtain ⟨_, habs, -⟩ | ⟨created, _, heq, -, -, hcause⟩ | ⟨_, _, habs, -⟩ :=
      prepareCopy_runs D hmade
    · cases habs
    · cases heq
      exact hcause.imp_left fun hblame => ((hblame.cons _).right _).under _
    · cases habs
  | unready _ hstage _ hblame => exact .inl ⟨hstage, .inl (hblame.right _)⟩
  | refused _ _ hcalls hstarts hrefused =>
    obtain ⟨answer, mid, rfl⟩ := hstarts
    refine .inr ⟨rfl, _, answer, mid, rfl, fun ev hev hcall => ?_, hrefused⟩
    have hcheck := hcalls ev (List.mem_cons_of_mem _ hev)
    rw [hcall] at hcheck
    cases hcheck

/-! ## 5. The reason of a failed run -/

theorem failureReason_targetExists {stage : LocalConditionalWriteStage} {source : IoError}
    {flag : Bool} (h : failureReason stage source flag = .targetExists) :
    source.kind = .alreadyExists := by
  unfold failureReason at h
  split at h <;> first | assumption | (split at h <;> cases h) | cases h

theorem failureReason_targetMissing {stage : LocalConditionalWriteStage} {source : IoError}
    {flag : Bool} (h : failureReason stage source flag = .targetMissing) :
    stage = .precheck ∧ source.kind = .notFound := by
  unfold failureReason at h
  split at h <;> first | exact ⟨rfl, by assumption⟩ | (split at h <;> cases h) | cases h

theorem failureReason_preconditionMismatch {stage : LocalConditionalWriteStage} {source : IoError}
    {flag : Bool} (h : failureReason stage source flag = .preconditionMismatch) :
    stage = .precheck ∧ source.kind = .invalidData := by
  unfold failureReason at h
  split at h <;> first | exact ⟨rfl, by assumption⟩ | (split at h <;> cases h) | cases h

theorem failureReason_conflict {stage : LocalConditionalWriteStage} {source : IoError}
    {flag : Bool} (hstage : stage ≠ .precheck) :
    failureReason stage source flag = .postPublicationConflict ↔
      flag = true ∧ source.kind ≠ .alreadyExists := by
  unfold failureReason
  cases flag <;> cases stage <;> cases source.kind <;> simp_all

theorem failureReason_without_flag (stage : LocalConditionalWriteStage) (source : IoError) :
    failureReason stage source false ≠ .postPublicationConflict := by
  unfold failureReason
  split <;> simp

/-- What the reason of a failed commit says about its run. -/
structure ReasonTrue (precondition : LocalWritePrecondition δ)
    (reason : LocalConditionalFailureReason) (tr : Trace A) : Prop where
  targetExists : reason = .targetExists → precondition = .absent ∧
    ((∃ target, ⟨.openTarget, Except.ok target⟩ ∈ tr) ∨
      ∃ attempt err, ⟨.publishAbsent, attempt⟩ ∈ tr ∧ NativeAttempt.error attempt = some err ∧
        err.kind = .alreadyExists)
  targetMissing : reason = .targetMissing → precondition ≠ .absent ∧
    ∃ err : IoError, ⟨.openTarget, Except.error err⟩ ∈ tr ∧ err.kind = .notFound
  preconditionMismatch : reason = .preconditionMismatch →
    ∃ expected target bytes, precondition = .content expected ∧
      ⟨.openTarget, Except.ok target⟩ :: readBack target bytes <:+: tr ∧ D bytes ≠ expected
  postPublicationConflict : reason = .postPublicationConflict ↔ ConflictDetected D precondition tr

omit [DecidableEq δ] in
/-- A conflict is detected only in a run with a publication. -/
theorem ConflictDetected.publishes (h : ConflictDetected D precondition tr) :
    .publishes ∈ effects tr := by
  obtain ⟨before, attempt, after, rfl, -⟩ := h
  exact mem_effects (List.mem_append_right _ List.mem_cons_self) (publishEvent_effect _ _)

omit [DecidableEq δ] in
/-- The reason of a run that stopped in its precheck. -/
theorem reason_of_refused {err : IoError} {pre mid post : Trace A} {answer : IoResult Unit}
    (hdist : Distinguishable precondition options (pre ++ ⟨.checkpoint .precheck, answer⟩ :: mid ++ post))
    (hmid : ∀ ev ∈ mid, ev.call ≠ .checkpoint .publish)
    (hrefused : Refused D options precondition (⟨.checkpoint .precheck, answer⟩ :: mid) err)
    (hnone : .publishes ∉ effects (pre ++ ⟨.checkpoint .precheck, answer⟩ :: mid ++ post)) :
    ReasonTrue D precondition (failureReason .precheck err false)
      (pre ++ ⟨.checkpoint .precheck, answer⟩ :: mid ++ post) := by
  have hsub : (⟨.checkpoint .precheck, answer⟩ :: mid : Trace A) ⊆
      pre ++ ⟨.checkpoint .precheck, answer⟩ :: mid ++ post :=
    List.Subset.trans (List.subset_append_right _ _) (List.subset_append_left _ _)
  have hkinds := hdist.precheck pre answer mid post rfl hmid
  have hoccupied {ev : Event (Call A) (Answer A)}
      (hev : ev ∈ (⟨.checkpoint .precheck, answer⟩ :: mid : Trace A))
      (hkept : ev.call.tolerated options = false) (herr : callError ev.call ev.answer = some err) :
      err.kind ≠ .alreadyExists := by
    intro hkind
    have hcall := hdist.occupied ev (hsub hev) hkept err herr hkind
    exact hnone (mem_effects (hsub hev) (by rw [hcall]; rfl))
  refine ⟨fun hreason => ?_, fun hreason => ?_, fun hreason => ?_, ?_⟩
  · have hkind := failureReason_targetExists hreason
    cases hrefused with
    | unopened _ _ _ hmem _ => exact absurd hkind (hoccupied hmem rfl rfl)
    | «exists» _ target hmem => exact ⟨rfl, .inl ⟨target, hsub hmem⟩⟩
    | mismatch _ _ _ _ _ _ _ => cases hkind
    | failed _ _ _ ev hmem _ hkept herr => exact absurd hkind (hoccupied hmem hkept herr)
  · have hkind := (failureReason_targetMissing hreason).2
    cases hrefused with
    | unopened _ _ _ hmem habsent =>
      exact ⟨fun hpre => habsent hpre hkind, err, hsub hmem, hkind⟩
    | «exists» _ _ _ => cases hkind
    | mismatch _ _ _ _ _ _ _ => cases hkind
    | failed _ _ _ ev hmem hcall hkept herr =>
      exact absurd ((hkinds ev hmem hkept err herr).2 hkind) hcall
  · have hkind := (failureReason_preconditionMismatch hreason).2
    cases hrefused with
    | unopened _ _ _ hmem _ => exact absurd hkind (hkinds _ hmem rfl err rfl).1
    | «exists» _ _ _ => cases hkind
    | mismatch expected _ start target bytes htr hne =>
      refine ⟨expected, target, bytes, rfl, ?_, hne⟩
      rw [htr]
      exact List.infix_append_of_infix_left (List.infix_append_of_infix_right List.infix_append_right)
    | failed _ _ _ ev hmem _ hkept herr => exact absurd hkind (hkinds ev hmem hkept err herr).1
  · refine ⟨fun hreason => absurd hreason (failureReason_without_flag _ _), fun hconflict => ?_⟩
    exact absurd hconflict.publishes hnone

/-- **Reasons tell the truth** about every failed run whose errors can be told apart. -/
theorem commit_reason_truthful {e : LocalConditionalCommitError A}
    (h : (commitConditionalWithDirectory D precondition options bytesWritten currentDirectory).Runs
      tr (.error e)) (hdist : Distinguishable precondition options tr) :
    ReasonTrue D precondition e.reason tr := by
  obtain ⟨body, stage, source, s, taken, rfl, rfl, ⟨hunpublished, -, hflag⟩ |
    ⟨candidate, created, bytes, before, attempt, settled, hready, rfl, hsettled⟩⟩ :=
    commit_error_runs D h
  · show ReasonTrue D precondition (failureReason stage source s.postPublicationConflict) _
    rw [hflag]
    have hnone : .publishes ∉ effects (body ++ [⟨.takeRecoveryEntries, taken⟩]) := by
      rw [effects_append]
      intro hmem
      rcases List.mem_append.mp hmem with hmem | hmem
      · cases hunpublished.effects_copies D _ hmem
      · exact absurd hmem (by simp)
    obtain ⟨hstage, hcause⟩ | ⟨rfl, pre, answer, mid, rfl, hmid, hrefused⟩ := hunpublished.cause
    · have hkind : source.kind ≠ .alreadyExists := by
        rcases hcause with hblame | hkind
        · refine hdist.kind_ne (List.subset_append_left _ _) (fun hmem => hnone ?_) hblame
          rw [effects_append]
          exact List.mem_append_left _ hmem
        · rw [hkind]
          decide
      refine ⟨fun hreason => absurd (failureReason_targetExists hreason) hkind,
        fun hreason => absurd (failureReason_targetMissing hreason).1 hstage,
        fun hreason => absurd (failureReason_preconditionMismatch hreason).1 hstage,
        fun hreason => absurd hreason (failureReason_without_flag _ _),
        fun hconflict => absurd hconflict.publishes hnone⟩
    · exact reason_of_refused D hdist hmid hrefused hnone
  · show ReasonTrue D precondition (failureReason stage source s.postPublicationConflict) _
    obtain ⟨hstage, hcause⟩ := hsettled.cause
    have hpublished : publishEvent precondition attempt ∈
        before ++ publishEvent precondition attempt :: settled ++ [⟨.takeRecoveryEntries, taken⟩] :=
      List.mem_append_left _ (List.mem_append_right _ List.mem_cons_self)
    have hbehind : settled ⊆ before ++ publishEvent precondition attempt :: settled ++
        [⟨.takeRecoveryEntries, taken⟩] := fun ev hev =>
      List.mem_append_left _ (List.mem_append_right _ (List.mem_cons_of_mem _ hev))
    have hsettles : .publishes ∉ effects settled := by
      obtain hquiet | ⟨observed, installed, bytes', displaced, receipt, rest, -, hobserved, -, hrest,
        rfl⟩ := hsettled.failed_effects
      · simp [hquiet]
      · simp [hobserved, hrest]
    -- Only a receipt over an absent target can end the run with `AlreadyExists`.
    have hoccupied (hkind : source.kind = .alreadyExists) :
        precondition = .absent ∧ attempt.error = some source := by
      rcases hcause with hblame | hinvalid | hattempt
      · exact absurd hkind (hdist.kind_ne hbehind hsettles hblame)
      · rw [hinvalid] at hkind
        cases hkind
      · cases precondition with
        | absent => exact ⟨rfl, hattempt⟩
        | content expected => cases hdist.occupied _ hpublished rfl source hattempt hkind
    have hlast : ∀ ev ∈ ([⟨.takeRecoveryEntries, taken⟩] : Trace A), ev.call.settles := by
      simp [Call.settles]
    have hflag := hsettled.flag_iff D (hready.candidate_first D) (fun herror htook hreached =>
      hdist.published attempt hpublished herror htook (hbehind hreached)) hlast
    refine ⟨fun hreason => ?_, fun hreason => absurd (failureReason_targetMissing hreason).1 hstage,
      fun hreason => absurd (failureReason_preconditionMismatch hreason).1 hstage, ?_⟩
    · have hkind := failureReason_targetExists hreason
      obtain ⟨rfl, hattempt⟩ := hoccupied hkind
      exact ⟨rfl, .inr ⟨attempt, source, hpublished, hattempt, hkind⟩⟩
    · rw [failureReason_conflict hstage]
      constructor
      · rintro ⟨htrue, -⟩
        exact ⟨before, attempt, _, by rw [List.append_assoc, List.cons_append], hflag.mp htrue⟩
      · rintro ⟨before', attempt', after', hsplit, hconflict⟩
        rw [List.append_assoc, List.cons_append] at hsplit
        obtain ⟨rfl, rfl, rfl⟩ := hsettled.split_unique D hready (by simp) hsplit
        have htrue := hflag.mpr hconflict
        refine ⟨htrue, fun hkind => ?_⟩
        obtain ⟨rfl, hattempt⟩ := hoccupied hkind
        rw [hsettled.flag_of_absent D (by rw [hattempt]; rfl)] at htrue
        cases htrue

omit [DecidableEq δ] in
/-- Errors that do not occur need not be told apart. -/
theorem distinguishable_of_answers
    (h : tr.all (fun ev => (callError ev.call ev.answer).isNone) = true) :
    Distinguishable precondition options tr := by
  have hnone : ∀ ev ∈ tr, callError ev.call ev.answer = none := by
    intro ev hev
    exact Option.isNone_iff_eq_none.mp (List.all_eq_true.mp h ev hev)
  refine ⟨fun ev hev _ err herr => ?_, fun pre answer mid post htr _ ev hev _ err herr => ?_,
    fun attempt hattempt herror => ?_⟩
  · rw [hnone ev hev] at herr
    cases herr
  · have hmem : ev ∈ tr := by
      rw [htr]
      exact List.mem_append_left _ (List.mem_append_right _ hev)
    rw [hnone ev hmem] at herr
    cases herr
  · have hreceipt : callError (publishEvent precondition attempt).call
        (publishEvent precondition attempt).answer = attempt.error := by
      cases precondition <;> rfl
    rw [← hreceipt, hnone _ hattempt] at herror
    cases herror

theorem commit_reason_truthful_conflict :
    ∃ e, (sampleRun (sampleBackend overtaken restored) (.content [0]) {}).2 = .error e ∧
      e.reason = .postPublicationConflict ∧
      ConflictDetected id (.content [0])
        (sampleRun (sampleBackend overtaken restored) (.content [0]) {}).1 := by
  have herror : errorAnd (fun e => e.reason = .postPublicationConflict)
      (sampleRun (sampleBackend overtaken restored) (.content [0]) {}).2 = true := by
    decide +kernel
  obtain ⟨e, he, hreason⟩ := exists_of_errorAnd herror
  have hanswers : (sampleRun (sampleBackend overtaken restored) (.content [0]) {}).1.all
      (fun ev => (callError ev.call ev.answer).isNone) = true := by
    decide +kernel
  have hrun := sampleRun_runs (sampleBackend overtaken restored) (.content [0]) {}
  rw [he] at hrun
  have htrue := commit_reason_truthful id hrun (distinguishable_of_answers hanswers)
  exact ⟨e, he, of_decide_eq_true hreason,
    htrue.postPublicationConflict.mp (of_decide_eq_true hreason)⟩

/-- A candidate that cannot be verified right before the publication is reported as a mismatch of
    the target, whose content was the expected one. -/
theorem commit_reason_false :
    ∃ (tr : Trace Nat) (e : LocalConditionalCommitError Nat),
      (commitConditionalWithDirectory id (.content [0]) {} 1 none).Runs tr (.error e) ∧
      ¬ ReasonTrue id (.content [0]) e.reason tr := by
  let backend := unverifiable 0 (sampleBackend exchanged exchanged)
  have herror : errorAnd (fun e => e.reason = .preconditionMismatch)
      (sampleRun backend (.content [0]) {}).2 = true := by
    decide +kernel
  obtain ⟨e, he, hreason⟩ := exists_of_errorAnd herror
  have hrun := sampleRun_runs backend (.content [0]) {}
  rw [he] at hrun
  refine ⟨_, e, hrun, fun htrue => ?_⟩
  obtain ⟨expected, target, bytes, hexpected, hread, hne⟩ :=
    htrue.preconditionMismatch (of_decide_eq_true hreason)
  cases hexpected
  -- The backend has no memory, so the answers of the read are known.
  have hanswer := sampleRun_answers backend (.content [0]) {}
  have hopened := hanswer ⟨.openTarget, Except.ok target⟩ (hread.subset List.mem_cons_self)
  have hbytes := hanswer ⟨.readAll target, Except.ok bytes⟩ (hread.subset (by simp [readBack]))
  cases hopened
  cases hbytes
  exact hne rfl

end LocalFiles.Conditional
