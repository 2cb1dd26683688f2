import LocalFiles.DeleteReach
import LocalFiles.Temp.Resource

/-!
# Temp.Authority — what the owner of a temporary entry may do

The discipline of the native calls: an entry is renamed or removed only while it is owned, and a
removal follows a check of its identity; the sandbox goes after the entry.  The invariant ties the
state of the core to the calls made so far.
-/

namespace LocalFiles.Temp

open Interaction

/-! ## 1. Calls and events -/

namespace LocalTempResourceCore

/-- The coordinates of the entry and of its sandbox, which no operation changes. -/
def place (core : LocalTempResourceCore) : Path × LocalTempResourceBackend :=
  (core.path, core.backend)

variable {core owner : LocalTempResourceCore}

theorem path_of_place (h : core.place = owner.place) : core.path = owner.path :=
  congrArg Prod.fst h

theorem backend_of_place (h : core.place = owner.place) : core.backend = owner.backend :=
  congrArg Prod.snd h

theorem sourcePath_of_place (h : core.place = owner.place) : core.sourcePath = owner.sourcePath := by
  unfold sourcePath
  rw [path_of_place h, backend_of_place h]

theorem sandboxPath_of_place (h : core.place = owner.place) :
    core.sandboxPath = owner.sandboxPath := by
  unfold sandboxPath
  rw [backend_of_place h]

end LocalTempResourceCore

namespace TempCall

def IsRename : TempCall → Prop
  | .rename _ _ _ => True
  | _ => False

/-- Removals of the entry, or of something in it. -/
def IsRemoval : TempCall → Prop
  | .removeFile _ _ => True
  | .tree (.removeNonDirectory _ _) => True
  | .tree (.removeEmptyDirectory _) => True
  | _ => False

def IsSandboxRemoval : TempCall → Prop
  | .removeSandbox _ _ => True
  | _ => False

/-- The calls that a recursive deletion makes. -/
def InTree : TempCall → Prop
  | .tree _ => True
  | _ => False

/-- Calls that neither rename nor remove. -/
def Quiet : TempCall → Prop
  | .rename _ _ _ | .removeFile _ _ | .tree _ | .removeSandbox _ _ => False
  | _ => True

end TempCall

variable {ρ ε α : Type}

/-- The entry of `owner` was moved. -/
def RenameSucceeded (owner : LocalTempResourceCore) (ev : TempEvent ρ) : Prop :=
  match ev with
  | ⟨(_, .rename _ source _), answer⟩ =>
    source = owner.sourcePath ∧ RenameAnswer.result answer = .ok ()
  | _ => False

/-- A rename that succeeded, or that failed after it had moved the entry. -/
def TookEffect (ev : TempEvent ρ) : Prop :=
  match ev with
  | ⟨(_, .rename _ _ _), answer⟩ =>
    RenameAnswer.result answer = .ok () ∨ RenameAnswer.effect answer = true
  | _ => False

/-- The entry of `owner` itself is gone. -/
def RemovalSucceeded (owner : LocalTempResourceCore) (ev : TempEvent ρ) : Prop :=
  match ev with
  | ⟨(_, .removeFile _ path), answer⟩ => path = owner.sourcePath ∧ answer = Except.ok ()
  | ⟨(_, .tree (.removeEmptyDirectory path)), answer⟩ =>
    path = owner.sourcePath ∧ answer = Except.ok ()
  | _ => False

/-- The entry of `owner` was moved or removed. -/
def Gone (owner : LocalTempResourceCore) (past : TempHistory ρ) : Prop :=
  ∃ ev ∈ past, RenameSucceeded owner ev ∨ RemovalSucceeded owner ev

/-- An identity check of the entry of `owner` that found it. -/
def Matched (owner : LocalTempResourceCore) (ev : TempEvent ρ) : Prop :=
  match ev with
  | ⟨(_, .identityAt path), answer⟩ => ∃ identity sandbox,
    owner.backend = .host identity sandbox ∧ path = owner.path ∧ answer = Except.ok identity
  | ⟨(_, .symlinkMetadata path), answer⟩ => ∃ identity sandbox found,
    owner.backend = .rooted identity path sandbox ∧ answer = Except.ok found ∧
    found.isSameFile identity = true
  | _ => False

/-- A rename that reports one of the failures that leave the source in place did nothing. -/
def FairRename (ev : TempEvent ρ) : Prop :=
  match ev with
  | ⟨(_, .rename _ _ _), answer⟩ => ∀ error, RenameAnswer.result answer = .error error →
    LocalPersistFailureState.fromNativeError error.kind = .notPublished →
    RenameAnswer.effect answer = false
  | _ => True

/-- The last call was a check that found the entry. -/
def JustMatched (owner : LocalTempResourceCore) (past : TempHistory ρ) : Prop :=
  ∃ before ev, past = before ++ [ev] ∧ Matched owner ev

/-- One of the calls listed `child` in the directory `parent`. -/
def TreeListed (past : TempHistory ρ) (parent child : Path) : Prop :=
  ∃ ev ∈ past, match ev with
    | ⟨(_, .tree c), answer⟩ => Delete.Lists parent child c answer
    | _ => False

/-- The entry of `owner`, or what these calls found in it. -/
def InEntry (owner : LocalTempResourceCore) (during : TempHistory ρ) (path : Path) : Prop :=
  Relation.ReflTransGen (TreeListed during) owner.sourcePath path

/-- Since the last check that found the entry there were only calls of its recursive deletion,
    and the call `c` is about the entry or about something that this deletion found in it. -/
def DeletingMatched (owner : LocalTempResourceCore) (past : TempHistory ρ)
    (c : Delete.DeleteCall Path Metadata File) : Prop :=
  ∃ before ev during, past = before ++ ev :: during ∧ Matched owner ev ∧
    (∀ x ∈ during, x.call.2.InTree) ∧ ∀ path, c.about = some path → InEntry owner during path

def Permitted (owner : LocalTempResourceCore) (writable : ρ → Prop) (past : TempHistory ρ)
    (s : LocalTemp ρ) (c : TempCall) : Prop :=
  match c with
  | .rename _ source _ => s.core.state = .owned ∧ source = owner.sourcePath ∧ writable s.own ∧
    ∀ ev ∈ past, ¬ TookEffect ev
  | .removeFile _ path => s.core.state = .owned ∧ path = owner.sourcePath ∧
    JustMatched owner past ∧ ∀ ev ∈ past, ¬ TookEffect ev
  | .tree c => s.core.state = .owned ∧ DeletingMatched owner past c ∧
    ∀ ev ∈ past, ¬ TookEffect ev
  | .removeSandbox _ path => s.core.state = .sandboxPending ∧ path = owner.sandboxPath ∧
    Gone owner past
  | _ => True

/-- The authority was lost at the start of the operation or at one of the calls. -/
def Lost (first : LocalTempResourceCore) (past : TempHistory ρ) : Prop :=
  first.state = .indeterminate ∨ ∃ ev ∈ past, ev.call.1.core.state = .indeterminate

/-- The rules for an operation that starts with the core `first`. -/
def discipline (writable : ρ → Prop) (first : LocalTempResourceCore) :
    Proc.Discipline TempCall TempCall.Result (LocalTemp ρ) where
  fair := FairRename
  allows past s c :=
    Permitted first writable past s c ∧ (Lost first past → s.core.state = .indeterminate)

/-! ## 2. The invariant -/

/-- What the state of the core says about the calls so far. -/
structure Authority (first : LocalTempResourceCore) (past : TempHistory ρ) (s : LocalTemp ρ) :
    Prop where
  untouched : s.core.state = .owned → ∀ ev ∈ past, ¬ TookEffect ev
  gone : s.core.state = .sandboxPending ∨ s.core.state = .released → Gone first past
  lost : Lost first past → s.core.state = .indeterminate
  place : s.core.place = first.place

/-- No rename took effect in the calls since `base`. -/
def Unmoved (base past : TempHistory ρ) : Prop :=
  ∃ now, past = base ++ now ∧ ∀ ev ∈ now, ¬ TookEffect ev

/-- One of the calls since `base` renamed the entry. -/
def Moved (first : LocalTempResourceCore) (base past : TempHistory ρ) : Prop :=
  ∃ now, past = base ++ now ∧ ∃ ev ∈ now, RenameSucceeded first ev

/-- What a failed publication may report, for the calls since `base`. -/
structure Truthful (first : LocalTempResourceCore) (base : TempHistory ρ)
    (error : LocalPersistError) (past : TempHistory ρ) : Prop where
  notPublished : error.state = .notPublished → Unmoved base past
  published : error.state = .published → Moved first base past

section Events

variable {first : LocalTempResourceCore} {base past : TempHistory ρ} {s : LocalTemp ρ}
  {c : TempCall} {answer : c.Result}

theorem not_tookEffect_of_quiet (hc : ¬ c.IsRename) : ¬ TookEffect ⟨(s, c), answer⟩ := by
  cases c <;> first | exact absurd trivial hc | exact id

theorem quiet_not_rename (hc : c.Quiet) : ¬ c.IsRename := by
  cases c <;> first | exact absurd hc id | exact id

theorem permitted_of_quiet (writable : ρ → Prop) (hc : c.Quiet) :
    Permitted first writable past s c := by
  cases c <;> first | exact absurd hc id | trivial

theorem lost_snoc (h : Lost first past → s.core.state = .indeterminate) :
    Lost first (past ++ [⟨(s, c), answer⟩]) → s.core.state = .indeterminate := by
  rintro (hfirst | ⟨ev, hmem, hev⟩)
  · exact h (.inl hfirst)
  · rw [List.mem_append, List.mem_singleton] at hmem
    cases hmem with
    | inl hpast => exact h (.inr ⟨ev, hpast, hev⟩)
    | inr hlast =>
      subst hlast
      exact hev

/-- A call other than a rename changes nothing of what is known. -/
theorem Authority.snoc (h : Authority first past s) (hc : ¬ c.IsRename) :
    Authority first (past ++ [⟨(s, c), answer⟩]) s where
  untouched hs ev hmem := by
    rw [List.mem_append, List.mem_singleton] at hmem
    cases hmem with
    | inl hpast => exact h.untouched hs ev hpast
    | inr hlast =>
      subst hlast
      exact not_tookEffect_of_quiet hc
  gone hs := by
    obtain ⟨ev, hmem, hev⟩ := h.gone hs
    exact ⟨ev, List.mem_append_left _ hmem, hev⟩
  lost := lost_snoc h.lost
  place := h.place

theorem Unmoved.snoc (h : Unmoved base past) {ev : TempEvent ρ} (hev : ¬ TookEffect ev) :
    Unmoved base (past ++ [ev]) := by
  obtain ⟨now, rfl, hnow⟩ := h
  refine ⟨now ++ [ev], List.append_assoc _ _ _, ?_⟩
  rw [List.forall_mem_append, List.forall_mem_singleton]
  exact ⟨hnow, hev⟩

theorem Moved.snoc (h : Moved first base past) (ev : TempEvent ρ) :
    Moved first base (past ++ [ev]) := by
  obtain ⟨now, rfl, moved, hmem, hmoved⟩ := h
  exact ⟨now ++ [ev], List.append_assoc _ _ _, moved, List.mem_append_left _ hmem, hmoved⟩

/-- Losing the authority is always consistent. -/
theorem Authority.lose {s' : LocalTemp ρ} (hs : s'.core.state = .indeterminate)
    (hplace : s'.core.place = first.place) : Authority first past s' where
  untouched howned := by
    rw [hs] at howned
    cases howned
  gone hgone := by
    rw [hs] at hgone
    cases hgone with
    | inl h => cases h
    | inr h => cases h
  lost _ := hs
  place := hplace

/-- The invariant is about the core alone. -/
theorem Authority.congr {s' : LocalTemp ρ} (h : Authority first past s) (hs : s'.core = s.core) :
    Authority first past s' where
  untouched howned := h.untouched (hs ▸ howned)
  gone hgone := h.gone (hs ▸ hgone)
  lost hlost := hs ▸ h.lost hlost
  place := hs ▸ h.place

/-- Whoever has found the entry gone may say so. -/
theorem Authority.settle {s' : LocalTemp ρ} (h : Authority first past s)
    (hs : s.core.state ≠ .indeterminate)
    (hstate : s'.core.state = .sandboxPending ∨ s'.core.state = .released)
    (hplace : s'.core.place = s.core.place) (hgone : Gone first past) :
    Authority first past s' where
  untouched howned := by
    rw [howned] at hstate
    cases hstate with
    | inl h => cases h
    | inr h => cases h
  gone _ := hgone
  lost hlost := absurd (h.lost hlost) hs
  place := hplace.trans h.place

end Events

/-! ## 3. Conditions of an operation -/

/-- A condition that entails the invariant and that quiet calls keep. -/
structure Stable (first : LocalTempResourceCore) (P : TempHistory ρ → LocalTemp ρ → Prop) :
    Prop where
  authority : ∀ {past s}, P past s → Authority first past s
  quiet : ∀ {past s} {c : TempCall} {answer : c.Result}, P past s → c.Quiet →
    P (past ++ [⟨(s, c), answer⟩]) s

/-- Nothing was moved yet, and the resource satisfies `Q`. -/
structure Ready (first : LocalTempResourceCore) (base : TempHistory ρ) (Q : LocalTemp ρ → Prop)
    (past : TempHistory ρ) (s : LocalTemp ρ) : Prop where
  authority : Authority first past s
  unmoved : Unmoved base past
  state : Q s

/-- The entry was published and the sandbox is still there. -/
structure Published (first : LocalTempResourceCore) (base past : TempHistory ρ)
    (s : LocalTemp ρ) : Prop where
  authority : Authority first past s
  moved : Moved first base past
  state : s.core.state = .sandboxPending

/-- How a publication ends without an outcome. -/
structure Failed (first : LocalTempResourceCore) (base : TempHistory ρ)
    (error : LocalPersistError) (past : TempHistory ρ) (s : LocalTemp ρ) : Prop where
  authority : Authority first past s
  truthful : Truthful first base error past

def IsOwned (s : LocalTemp ρ) : Prop := s.core.state = .owned

section Conditions

variable {first : LocalTempResourceCore} {base past : TempHistory ρ} {s : LocalTemp ρ}
  {Q Q' : LocalTemp ρ → Prop} {P : TempHistory ρ → LocalTemp ρ → Prop} {writable : ρ → Prop}

theorem Ready.mono (h : Ready first base Q past s) (hQ : ∀ s, Q s → Q' s) :
    Ready first base Q' past s :=
  ⟨h.authority, h.unmoved, hQ s h.state⟩

theorem stable_ready : Stable first (Ready first base Q) where
  authority h := h.authority
  quiet h hc := ⟨h.authority.snoc (quiet_not_rename hc),
    h.unmoved.snoc (not_tookEffect_of_quiet (quiet_not_rename hc)), h.state⟩

theorem stable_published : Stable (ρ := ρ) first (Published first base) where
  authority h := h.authority
  quiet h hc := ⟨h.authority.snoc (quiet_not_rename hc), h.moved.snoc _, h.state⟩

/-- The condition with what a `get` has just read. -/
theorem Stable.and (h : Stable first P) : Stable first fun past s => P past s ∧ Q s where
  authority hP := h.authority hP.1
  quiet hP hc := ⟨h.quiet hP.1 hc, hP.2⟩

theorem upholds_quiet {c : TempCall} {leave : ε → TempHistory ρ → LocalTemp ρ → Prop}
    (hP : Stable first P) (hc : c.Quiet) :
    Proc.Upholds (discipline writable first) P (call c : TempM ρ ε c.Result) (fun _ => P) leave :=
  .ask fun _ _ hs => ⟨⟨permitted_of_quiet writable hc, (hP.authority hs).lost⟩,
    fun _ _ => hP.quiet hs hc⟩

/-- A failure before any rename took effect. -/
theorem upholds_persistError {error : IoError} {requestedTarget : Path}
    {resolvedTarget : Option Path} {stage : LocalPersistStage}
    {publication : LocalPersistFailureState} {pre : TempHistory ρ → LocalTemp ρ → Prop}
    {post : α → TempHistory ρ → LocalTemp ρ → Prop}
    (hauthority : ∀ past s, pre past s → Authority first past s)
    (hnot : ∀ past s, pre past s → publication = .notPublished → Unmoved base past)
    (hpublished : ∀ past s, pre past s → publication = .published → Moved first base past) :
    Proc.Upholds (discipline writable first) pre
      (persistError error requestedTarget resolvedTarget stage publication) post
      (Failed first base) := by
  apply Proc.Upholds.get
  intro s
  apply Proc.Upholds.exit
  intro past s' hs
  refine ⟨hauthority past s' hs.1, ?_, ?_⟩
  · rw [LocalTempResourceCore.persistError_state]
    exact hnot past s' hs.1
  · rw [LocalTempResourceCore.persistError_state]
    exact hpublished past s' hs.1

/-- A result that is only turned into a value or an exit. -/
theorem upholds_orPersistError {requestedTarget : Path} {resolvedTarget : Option Path}
    {stage : LocalPersistStage} {result : IoResult α}
    {pre : TempHistory ρ → LocalTemp ρ → Prop}
    (hpre : ∀ past s, pre past s → Ready first base (fun _ => True) past s) :
    Proc.Upholds (discipline writable first) pre
      (orPersistError requestedTarget resolvedTarget stage result) (fun a past s =>
        result = .ok a ∧ pre past s) (Failed first base) := by
  cases result with
  | ok a => exact .pure fun _ _ hs => ⟨rfl, hs⟩
  | error error =>
    apply upholds_persistError
    · exact fun past s hs => (hpre past s hs).authority
    · exact fun past s hs _ => (hpre past s hs).unmoved
    · rintro past s hs ⟨⟩

end Conditions

/-! ## 4. The core keeps the discipline -/

section Core

variable {first : LocalTempResourceCore} {base : TempHistory ρ} {Q : LocalTemp ρ → Prop}
  {P : TempHistory ρ → LocalTemp ρ → Prop} {writable : ρ → Prop}
  {leave : ε → TempHistory ρ → LocalTemp ρ → Prop}

theorem upholds_identityMatches (hP : Stable first P) :
    Proc.Upholds (discipline writable first) P (identityMatches : TempM ρ ε (IoResult Bool))
      (fun result past s => P past s ∧ (result = .ok true → JustMatched first past)) leave := by
  apply Proc.Upholds.get
  intro s
  split
  · rename_i identity sandbox hbackend
    refine .bind (.ask fun past s' hs => ?_) fun answer =>
      .pure (a := answer.map (identity == ·)) fun past s' hs => hs
    obtain ⟨hs, rfl⟩ := hs
    refine ⟨⟨trivial, (hP.authority hs).lost⟩, fun answer _ => ⟨hP.quiet hs trivial, fun hmatch => ?_⟩⟩
    have hplace := (hP.authority hs).place
    refine ⟨past, _, rfl, identity, sandbox,
      (LocalTempResourceCore.backend_of_place hplace).symm.trans hbackend,
      LocalTempResourceCore.path_of_place hplace, ?_⟩
    cases answer with
    | error error => cases hmatch
    | ok found =>
      have hfound : (identity == found) = true := Except.ok.inj hmatch
      rw [beq_iff_eq] at hfound
      rw [hfound]
  · rename_i identity path sandbox hbackend
    refine .bind (.ask fun past s' hs => ?_) fun answer =>
      .pure (a := answer.map (·.isSameFile identity)) fun past s' hs => hs
    obtain ⟨hs, rfl⟩ := hs
    refine ⟨⟨trivial, (hP.authority hs).lost⟩, fun answer _ => ⟨hP.quiet hs trivial, fun hmatch => ?_⟩⟩
    cases answer with
    | error error => cases hmatch
    | ok found =>
      have hplace := (hP.authority hs).place
      exact ⟨past, _, rfl, identity, sandbox, found,
        (LocalTempResourceCore.backend_of_place hplace).symm.trans hbackend, rfl,
        Except.ok.inj hmatch⟩

/-- What an identity check leaves behind. -/
def Identified (first : LocalTempResourceCore) (base : TempHistory ρ) (Q : LocalTemp ρ → Prop)
    (result : IoResult Unit) (past : TempHistory ρ) (s : LocalTemp ρ) : Prop :=
  match result with
  | .ok () => Ready first base (fun s => IsOwned s ∧ Q s) past s ∧ JustMatched first past
  | .error _ => Ready first base (fun _ => True) past s

theorem ensurePublishable_ok {core : LocalTempResourceCore} {u : Unit}
    (h : core.ensurePublishable = .ok u) : core.state = .owned := by
  unfold LocalTempResourceCore.ensurePublishable at h
  by_cases hstate : core.state = .owned
  · exact hstate
  · rw [if_pos hstate] at h
    cases h

theorem upholds_lose (base : TempHistory ρ) {pre : TempHistory ρ → LocalTemp ρ → Prop}
    (hpre : ∀ past s, pre past s → Ready first base Q past s) :
    Proc.Upholds (discipline writable first) pre
      (setState .indeterminate : TempM ρ ε Unit)
      (fun _ => Ready first base fun _ => True) leave :=
  .modify fun past s hs => ⟨.lose rfl (hpre past s hs).authority.place, (hpre past s hs).unmoved, trivial⟩

theorem upholds_ensureIdentityMatches :
    Proc.Upholds (discipline writable first) (Ready first base Q)
      (ensureIdentityMatches : TempM ρ ε (IoResult Unit)) (Identified first base Q) leave := by
  apply Proc.Upholds.get
  intro s
  split
  · exact .pure fun past s' hs => hs.1.mono fun _ _ => trivial
  · rename_i howned
    have howned := ensurePublishable_ok howned
    refine .bind (upholds_identityMatches (stable_ready.and (Q := (· = s)))) fun result => ?_
    split
    · refine .pure fun past s' hs => ⟨⟨hs.1.1.authority, hs.1.1.unmoved, ?_, hs.1.1.state⟩, hs.2 rfl⟩
      rw [hs.1.2]
      exact howned
    · refine .bind (upholds_lose base fun past s' hs => hs.1.1) fun _ =>
        .pure fun past s' hs => hs
    · refine .bind (upholds_lose base fun past s' hs => hs.1.1) fun _ =>
        .pure fun past s' hs => hs

theorem fromNativeError_cases (kind : ErrorKind) :
    LocalPersistFailureState.fromNativeError kind = .notPublished ∨
    LocalPersistFailureState.fromNativeError kind = .indeterminate := by
  cases kind <;> decide

/-- After a failed rename, what is reported about it. -/
theorem upholds_recordNativePersistFailure (base : TempHistory ρ) {error : IoError}
    {pre : TempHistory ρ → LocalTemp ρ → Prop}
    (hplace : ∀ past s, pre past s → s.core.place = first.place)
    (hpre : ∀ past s, pre past s →
      LocalPersistFailureState.fromNativeError error.kind = .notPublished →
      Ready first base (fun _ => True) past s) :
    Proc.Upholds (discipline writable first) pre
      (recordNativePersistFailure error : TempM ρ ε LocalPersistFailureState)
      (fun publication past s => Authority first past s ∧ publication ≠ .published ∧
        (publication = .notPublished → Unmoved base past)) leave := by
  unfold recordNativePersistFailure
  cases fromNativeError_cases error.kind with
  | inl hkind =>
    rw [hkind]
    have hready : ∀ past s, pre past s → Ready first base (fun _ => True) past s :=
      fun past s hs => hpre past s hs hkind
    refine .bind (upholds_ensureIdentityMatches.before hready) fun result => ?_
    cases result with
    | ok _ => exact .pure fun past s hs => ⟨hs.1.authority, by decide, fun _ => hs.1.unmoved⟩
    | error _ =>
      exact .bind (upholds_lose base fun past s hs => hs) fun _ =>
        .pure fun past s hs => ⟨hs.authority, by decide, fun _ => hs.unmoved⟩
  | inr hkind =>
    rw [hkind]
    refine .through (fun _ past s => Authority first past s)
      (.modify fun past s hs => .lose rfl (hplace past s hs)) fun _ =>
      .pure fun past s hs => ⟨hs, by decide, ?_⟩
    rintro ⟨⟩

/-- The sandbox may go when the entry is gone. -/
theorem upholds_releaseSandbox {pre : TempHistory ρ → LocalTemp ρ → Prop}
    (hauthority : ∀ past s, pre past s → Authority first past s)
    (hstate : ∀ past s, pre past s → s.core.state = .sandboxPending)
    (hpre : ∀ past s (c : TempCall) (answer : c.Result), pre past s → ¬ c.IsRename →
      pre (past ++ [⟨(s, c), answer⟩]) s) :
    Proc.Upholds (discipline writable first) pre (releaseSandbox : TempM ρ ε (IoResult Unit))
      (fun _ => pre) leave := by
  apply Proc.Upholds.get
  intro s
  apply Proc.Upholds.ask
  rintro past s' ⟨hs, rfl⟩
  have hauth := hauthority past s' hs
  have hpending := hstate past s' hs
  refine ⟨⟨⟨hpending, LocalTempResourceCore.sandboxPath_of_place hauth.place,
    hauth.gone (.inl hpending)⟩, hauth.lost⟩, fun answer _ => ?_⟩
  exact hpre past s' _ answer hs id

end Core

/-! ## 5. Publication keeps the discipline -/

section Publication

variable {first : LocalTempResourceCore} {base : TempHistory ρ} {Q : LocalTemp ρ → Prop}
  {writable : ρ → Prop} {leave : ε → TempHistory ρ → LocalTemp ρ → Prop}

theorem Ready.forget {past : TempHistory ρ} {s : LocalTemp ρ} (h : Ready first base Q past s) :
    Ready first base (fun _ => True) past s :=
  h.mono fun _ _ => trivial

theorem upholds_releaseAfterPublication {namespaceTarget : Path} {durable : Bool} :
    Proc.Upholds (discipline writable first) (Published first base)
      (releaseAfterPublication namespaceTarget durable : TempM ρ ε LocalPersistOutcome)
      (fun _ past s => Authority first past s ∧ Moved first base past ∧ s.core.state = .released)
      leave := by
  unfold releaseAfterPublication
  refine .bind (upholds_releaseSandbox (fun _ _ hs => hs.authority) (fun _ _ hs => hs.state)
    fun past s c answer hs hc => ⟨hs.authority.snoc hc, hs.moved.snoc _, hs.state⟩) fun result => ?_
  apply Proc.Upholds.get
  intro s
  refine .through (fun _ past s => Authority first past s ∧ Moved first base past ∧
    s.core.state = .released) (.modify fun past s' hs => ?_) fun _ => .pure fun past s' hs => hs
  have hpending : s'.core.state = .sandboxPending := hs.1.state
  refine ⟨hs.1.authority.settle ?_ (.inr rfl) rfl (hs.1.authority.gone (.inl hpending)),
    hs.1.moved, rfl⟩
  rw [hpending]
  decide

/-- A function of the authority that is asked before the rename. -/
theorem upholds_ready {c : TempCall} {pre : TempHistory ρ → LocalTemp ρ → Prop}
    (hpre : ∀ past s, pre past s → Ready first base Q past s) (hc : c.Quiet) :
    Proc.Upholds (discipline writable first) pre (call c : TempM ρ ε c.Result)
      (fun _ => Ready first base Q) leave :=
  (upholds_quiet stable_ready hc).before hpre

theorem upholds_orPersistError_ready {requestedTarget : Path} {resolvedTarget : Option Path}
    {stage : LocalPersistStage} {result : IoResult α} :
    Proc.Upholds (discipline writable first) (Ready first base Q)
      (orPersistError requestedTarget resolvedTarget stage result)
      (fun _ => Ready first base Q) (Failed first base) :=
  (upholds_orPersistError fun _ _ hs => hs.forget).weaken (fun _ _ hs => hs)
    (fun _ _ _ hs => hs.2) fun _ _ _ hs => hs

theorem upholds_prepareDestination {requestedTarget : Path} {target : LocalNamespacePath}
    {create : Bool} :
    Proc.Upholds (discipline writable first) (Ready first base Q)
      (prepareDestination requestedTarget target create : TempM ρ _ _)
      (fun _ => Ready first base Q) (Failed first base) := by
  apply Proc.Upholds.get
  intro s
  have hstart : ∀ past s', Ready first base Q past s' ∧ s' = s → Ready first base Q past s' :=
    fun _ _ hs => hs.1
  split
  · exact .bind (upholds_ready hstart trivial) fun _ =>
      .bind upholds_orPersistError_ready fun _ =>
      .bind (upholds_ready (fun _ _ hs => hs) trivial) fun _ =>
      .bind upholds_orPersistError_ready fun _ => .pure fun _ _ hs => hs
  · exact .bind (upholds_ready hstart trivial) fun _ =>
      .bind upholds_orPersistError_ready fun _ =>
      .bind (upholds_ready (fun _ _ hs => hs) trivial) fun _ =>
      .bind upholds_orPersistError_ready fun _ =>
      .bind (upholds_ready (fun _ _ hs => hs) trivial) fun _ =>
      .bind upholds_orPersistError_ready fun _ => .pure fun _ _ hs => hs

/-- The resource is owned once its target has been resolved. -/
theorem upholds_resolveTarget {from_ : Option Path} {target : Path} :
    Proc.Upholds (discipline writable first) (Ready first base Q)
      (resolveTarget from_ target : TempM ρ _ _)
      (fun _ => Ready first base fun s => IsOwned s ∧ Q s) (Failed first base) := by
  apply Proc.Upholds.get
  intro s
  refine .bind (upholds_orPersistError fun _ _ hs => hs.1.forget) fun u => ?_
  have howned : ∀ past s', s.core.ensurePublishable = .ok u ∧ Ready first base Q past s' ∧ s' = s →
      Ready first base (fun s => IsOwned s ∧ Q s) past s' := by
    rintro past s' ⟨hok, hs, rfl⟩
    exact ⟨hs.authority, hs.unmoved, ensurePublishable_ok hok, hs.state⟩
  refine .bind (upholds_ready howned trivial) fun _ => .bind upholds_orPersistError_ready fun _ => ?_
  split
  · apply upholds_persistError
    · exact fun past s hs => hs.authority
    · exact fun past s hs _ => hs.unmoved
    · rintro past s hs ⟨⟩
  · exact .pure fun _ _ hs => hs

theorem upholds_validateBase {from_ : Option Path} {requestedTarget : Path}
    {target : LocalNamespacePath} :
    Proc.Upholds (discipline writable first) (Ready first base Q)
      (validateBase from_ requestedTarget target : TempM ρ _ _)
      (fun _ => Ready first base Q) (Failed first base) := by
  cases from_ with
  | none => exact .pure fun _ _ hs => hs
  | some directory =>
    apply Proc.Upholds.get
    intro s
    exact .bind (upholds_ready (fun _ _ hs => hs.1) trivial) fun _ => upholds_orPersistError_ready

/-- What is known right after the rename. -/
def AfterRename (first : LocalTempResourceCore) (base : TempHistory ρ) (answer : RenameAnswer)
    (past : TempHistory ρ) (s : LocalTemp ρ) : Prop :=
  s.core.place = first.place ∧ match answer.result with
  | .ok () => (Lost first past → s.core.state = .indeterminate) ∧ IsOwned s ∧ Moved first base past
  | .error error => LocalPersistFailureState.fromNativeError error.kind = .notPublished →
    Ready first base (fun _ => True) past s

theorem upholds_rename {method : RenameMethod} {destination : Path} {s : LocalTemp ρ} :
    Proc.Upholds (discipline writable first)
      (fun past s' => Ready first base (fun s => IsOwned s ∧ writable s.own) past s' ∧ s' = s)
      (rename method s.core.sourcePath destination : TempM ρ ε RenameAnswer)
      (AfterRename first base) leave := by
  apply Proc.Upholds.ask
  rintro past s' ⟨hs, rfl⟩
  have hcall := hs.authority.untouched hs.state.1
  have hsource := LocalTempResourceCore.sourcePath_of_place hs.authority.place
  refine ⟨⟨⟨hs.state.1, hsource, hs.state.2, hcall⟩, hs.authority.lost⟩, fun answer hfair =>
    ⟨hs.authority.place, ?_⟩⟩
  split
  · rename_i hok
    obtain ⟨now, rfl, -⟩ := hs.unmoved
    refine ⟨lost_snoc hs.authority.lost, hs.state.1, now ++ [_], List.append_assoc _ _ _, _,
      List.mem_append_right _ List.mem_cons_self, hsource, hok⟩
  · rename_i error herror
    intro hkind
    have heffect : answer.effect = false := hfair error herror hkind
    have hnothing : ¬ TookEffect (ρ := ρ) ⟨(s', .rename method s'.core.sourcePath destination), answer⟩ := by
      rintro (hok | hmoved)
      · rw [herror] at hok
        cases hok
      · rw [heffect] at hmoved
        cases hmoved
    refine ⟨⟨fun _ => ?_, fun hgone => ?_, lost_snoc hs.authority.lost, hs.authority.place⟩,
      hs.unmoved.snoc hnothing, trivial⟩
    · rw [List.forall_mem_append, List.forall_mem_singleton]
      exact ⟨hcall, hnothing⟩
    · obtain ⟨ev, hmem, hev⟩ := hs.authority.gone hgone
      exact ⟨ev, List.mem_append_left _ hmem, hev⟩

/-- Exactly one rename, and a report that says what became of it. -/
theorem upholds_install {method : RenameMethod} {requestedTarget destination : Path}
    {target : LocalNamespacePath} {synchronize : TempM ρ LocalPersistError (IoResult Bool)}
    {sourceDurable : Bool}
    (hsync : Proc.Upholds (discipline writable first) (Published first base) synchronize
      (fun _ => Published first base) (Failed first base)) :
    Proc.Upholds (discipline writable first)
      (Ready first base fun s => IsOwned s ∧ writable s.own)
      (install method requestedTarget target destination synchronize sourceDurable)
      (fun _ past s => Authority first past s ∧ Moved first base past ∧ s.core.state = .released)
      (Failed first base) := by
  apply Proc.Upholds.get
  intro s
  refine .bind upholds_rename fun answer => ?_
  split
  · rename_i error herror
    refine .bind (upholds_recordNativePersistFailure base (fun past s hs => hs.1)
      fun past s hs hkind => ?_) fun publication => upholds_persistError (fun _ _ hs => hs.1)
        (fun _ _ hs => hs.2.2) fun _ _ hs hpublished => absurd hpublished hs.2.1
    have hready := hs.2
    rw [herror] at hready
    exact hready hkind
  · rename_i hok
    refine .through (fun _ => Published first base) (.modify fun past s hs => ?_) fun _ => ?_
    · obtain ⟨hplace, hrenamed⟩ := hs
      rw [hok] at hrenamed
      obtain ⟨hlost, howned, hmoved⟩ := hrenamed
      obtain ⟨now, rfl, ev, hmem, hev⟩ := hmoved
      have hnot : s.core.state ≠ .indeterminate := by
        rw [show s.core.state = .owned from howned]
        decide
      refine ⟨⟨fun h => ?_, fun _ => ⟨ev, List.mem_append_right _ hmem, .inl hev⟩, fun h => ?_,
        hplace⟩, ⟨now, rfl, ev, hmem, hev⟩, rfl⟩
      · cases h
      · exact absurd (hlost h) hnot
    · refine .bind hsync fun result => ?_
      split
      · apply upholds_persistError
        · exact fun past s hs => hs.authority
        · rintro past s hs ⟨⟩
        · exact fun past s hs _ => hs.moved
      · exact upholds_releaseAfterPublication

end Publication

end LocalFiles.Temp
