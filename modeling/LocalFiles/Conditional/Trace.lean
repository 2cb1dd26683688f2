import LocalFiles.Conditional.Commit

/-!
# Trace — what the calls of a run say about it

Vocabulary for statements about the runs of the commit protocol: which calls change the
namespace, which error an answer carries, which entries a backend hands over, and the events of
a complete read.
-/

namespace LocalFiles.Conditional

open Interaction

variable {A δ : Type}

/-! ## 1. Namespace effects -/

inductive NamespaceEffect where
  | copies | publishes | rollsBack | removes
  deriving DecidableEq, Repr

def Call.effect : Call A → Option NamespaceEffect
  | .createCandidateCopy => some .copies
  | .publishAbsent => some .publishes
  | .publishContent => some .publishes
  | .rollback _ => some .rollsBack
  | .removeObserved _ => some .removes
  | _ => none

/-- The namespace-changing calls of a trace, in order. -/
def effects (tr : Trace A) : List NamespaceEffect := tr.filterMap (·.call.effect)

@[simp] theorem effects_nil : effects ([] : Trace A) = [] := rfl

@[simp] theorem effects_append (tr tr' : Trace A) :
    effects (tr ++ tr') = effects tr ++ effects tr' := List.filterMap_append

@[simp] theorem effects_cons (ev : Event (Call A) (Answer A)) (tr : Trace A) :
    effects (ev :: tr) = ev.call.effect.toList ++ effects tr := by
  unfold effects
  rw [List.filterMap_cons]
  cases heff : ev.call.effect with
  | none => rfl
  | some eff => rfl

attribute [simp] Call.effect

theorem mem_effects {tr : Trace A} {ev : Event (Call A) (Answer A)} {effect : NamespaceEffect}
    (hmem : ev ∈ tr) (heffect : ev.call.effect = some effect) : effect ∈ effects tr :=
  List.mem_filterMap.mpr ⟨ev, hmem, heffect⟩

/-! ## 2. Errors -/

def resultError {α : Type} : IoResult α → Option IoError
  | .ok _ => none
  | .error e => some e

/-- The error an answer carries: that of a failed call, or the one a native receipt reports. -/
def callError : (c : Call A) → Answer A c → Option IoError
  | .candidate, _ => none
  | .openReader _, answer => resultError (Except.mapError IoError.wrapping answer)
  | .readAll _, answer => resultError answer
  | .createCandidateCopy, answer => resultError answer
  | .openTarget, answer => resultError answer
  | .isCandidate _, answer => resultError answer
  | .publishAbsent, receipt => NativeAttempt.error receipt
  | .publishContent, receipt => NativeAttempt.error receipt
  | .rollback _, receipt => NativeAttempt.error receipt
  | .takeRecoveryEntries, _ => none
  | .takeCleanupErrors, _ => none
  | .flush, answer => resultError answer
  | .seekStart _, answer => resultError answer
  | .checkpoint _, answer => resultError answer
  | .preserveMetadata _, answer => resultError answer
  | .syncCandidate, answer => resultError answer
  | .syncEntry _, answer => resultError answer
  | .syncNamespace, answer => resultError answer
  | .verifyEntry _, answer => resultError answer
  | .beginPublication, answer => resultError answer
  | .removeObserved _, answer => resultError answer

/-- The calls whose failure costs a commit with these options no more than its durability. -/
def Call.tolerated (options : LocalWriteOptions) : Call A → Bool
  | .checkpoint .beforeRequiredFileSync => syncRequirement options ≠ .required
  | .syncCandidate => syncRequirement options ≠ .required
  | .syncEntry _ => syncRequirement options ≠ .required
  | .syncNamespace => options.durability ≠ .required
  | _ => false

/-- Some answer of the trace carries the error, and the options do not tolerate it. -/
def BlamesUnder (options : LocalWriteOptions) (tr : Trace A) (err : IoError) : Prop :=
  ∃ ev ∈ tr, ev.call.tolerated options = false ∧ callError ev.call ev.answer = some err

/-- Some answer of the trace carries the error, one that no options tolerate. -/
def Blames (tr : Trace A) (err : IoError) : Prop :=
  ∃ ev ∈ tr, (∀ options, ev.call.tolerated options = false) ∧ callError ev.call ev.answer = some err

section Blames

variable {tr tr' : Trace A} {err : IoError} {options : LocalWriteOptions}

theorem Blames.under (h : Blames tr err) (options : LocalWriteOptions) :
    BlamesUnder options tr err := by
  obtain ⟨ev, hev, hkept, herr⟩ := h
  exact ⟨ev, hev, hkept options, herr⟩

theorem BlamesUnder.mono (h : BlamesUnder options tr err) (hsub : tr ⊆ tr') :
    BlamesUnder options tr' err := by
  obtain ⟨ev, hev, hblamed⟩ := h
  exact ⟨ev, hsub hev, hblamed⟩

theorem Blames.mono (h : Blames tr err) (hsub : tr ⊆ tr') : Blames tr' err := by
  obtain ⟨ev, hev, hblamed⟩ := h
  exact ⟨ev, hsub hev, hblamed⟩

theorem Blames.left (h : Blames tr err) (tr' : Trace A) : Blames (tr ++ tr') err :=
  h.mono (List.subset_append_left _ _)

theorem Blames.right (h : Blames tr err) (tr' : Trace A) : Blames (tr' ++ tr) err :=
  h.mono (List.subset_append_right _ _)

theorem Blames.cons (h : Blames tr err) (ev : Event (Call A) (Answer A)) :
    Blames (ev :: tr) err := h.right [ev]

theorem BlamesUnder.left (h : BlamesUnder options tr err) (tr' : Trace A) :
    BlamesUnder options (tr ++ tr') err := h.mono (List.subset_append_left _ _)

theorem BlamesUnder.right (h : BlamesUnder options tr err) (tr' : Trace A) :
    BlamesUnder options (tr' ++ tr) err := h.mono (List.subset_append_right _ _)

theorem BlamesUnder.cons (h : BlamesUnder options tr err) (ev : Event (Call A) (Answer A)) :
    BlamesUnder options (ev :: tr) err := h.right [ev]

theorem blames_singleton {c : Call A} {answer : Answer A c}
    (h : callError c answer = some err) (hkept : ∀ options, c.tolerated options = false) :
    Blames [⟨c, answer⟩] err := ⟨_, List.mem_singleton_self _, hkept, h⟩

theorem blamesUnder_singleton {c : Call A} {answer : Answer A c}
    (h : callError c answer = some err) (hkept : c.tolerated options = false) :
    BlamesUnder options [⟨c, answer⟩] err := ⟨_, List.mem_singleton_self _, hkept, h⟩

end Blames

/-! ## 3. Synchronization -/

/-- The calls that make up a synchronization: the synchronizing calls themselves and the
    checkpoints that stand before them in the same `and_then` chain. -/
def Call.synchronizes : Call A → Bool
  | .syncCandidate => true
  | .syncEntry _ => true
  | .syncNamespace => true
  | .checkpoint .beforeRequiredFileSync => true
  | .checkpoint .syncInstalled => true
  | .checkpoint .beforeRequiredParentSync => true
  | _ => false

/-- Every synchronization of the trace succeeded. -/
def syncsSucceed (tr : Trace A) : Bool :=
  tr.all fun ev => !ev.call.synchronizes || (callError ev.call ev.answer).isNone

@[simp] theorem syncsSucceed_nil : syncsSucceed ([] : Trace A) = true := rfl

@[simp] theorem syncsSucceed_append (tr tr' : Trace A) :
    syncsSucceed (tr ++ tr') = (syncsSucceed tr && syncsSucceed tr') := List.all_append

@[simp] theorem syncsSucceed_cons (ev : Event (Call A) (Answer A)) (tr : Trace A) :
    syncsSucceed (ev :: tr) =
      ((!ev.call.synchronizes || (callError ev.call ev.answer).isNone) && syncsSucceed tr) := rfl

/-! ## 4. Complete reads -/

variable (D : List UInt8 → δ)

/-- A run of `digest_entry` either reads the whole entry or ends with the error of one of its
    calls. -/
theorem digestEntry_runs {entry : ConditionalEntry A} {tr : Trace A} {r : IoResult δ}
    (h : (digestEntry D entry).Runs tr r) :
    (∃ bytes, r = .ok (D bytes) ∧ tr = readBack entry bytes) ∨
      ∃ err, r = .error err ∧ effects tr = [] ∧ Blames tr err := by
  rw [digestEntry, Prog.runs_bind] at h
  obtain ⟨tr₁, tr₂, opened, rfl, hopen, h⟩ := h
  rw [runs_openReader] at hopen
  subst hopen
  cases opened with
  | error error =>
    obtain ⟨rfl, rfl⟩ := h
    exact .inr ⟨_, rfl, rfl, blames_singleton rfl fun _ => rfl⟩
  | ok _ =>
    simp only [Prog.runs_andThen, runs_seekStart, runs_readAll, Prog.runs_pure] at h
    obtain ⟨err, rfl, rfl⟩ | ⟨_, _, _, rfl, rfl, h⟩ := h
    · exact .inr ⟨err, rfl, rfl, Blames.cons (blames_singleton rfl fun _ => rfl) _⟩
    obtain ⟨err, rfl, rfl⟩ | ⟨_, _, bytes, rfl, rfl, rfl, rfl⟩ := h
    · exact .inr ⟨err, rfl, rfl, Blames.cons (Blames.cons (blames_singleton rfl fun _ => rfl) _) _⟩
    · exact .inl ⟨bytes, rfl, rfl⟩

def Call.reads : Call A → Bool
  | .openReader _ => true
  | .seekStart _ => true
  | .readAll _ => true
  | _ => false

theorem digestEntry_reads {entry : ConditionalEntry A} {tr : Trace A} {r : IoResult δ}
    (h : (digestEntry D entry).Runs tr r) : ∀ ev ∈ tr, ev.call.reads := by
  rw [digestEntry, Prog.runs_bind] at h
  obtain ⟨tr₁, tr₂, opened, rfl, hopen, h⟩ := h
  rw [runs_openReader] at hopen
  subst hopen
  cases opened with
  | error error =>
    obtain ⟨rfl, rfl⟩ := h
    simp [Call.reads]
  | ok _ =>
    simp only [Prog.runs_andThen, runs_seekStart, runs_readAll, Prog.runs_pure] at h
    obtain ⟨err, rfl, rfl⟩ | ⟨_, _, _, rfl, rfl, ⟨err, rfl, rfl⟩ | ⟨_, _, bytes, rfl, rfl, rfl, rfl⟩⟩ :=
      h
    · simp [Call.reads]
    · simp [Call.reads]
    · simp [Call.reads]

theorem runs_readBack (entry : ConditionalEntry A) (bytes : List UInt8) :
    (digestEntry D entry).Runs (readBack entry bytes) (.ok (D bytes)) := by
  rw [digestEntry, Prog.runs_bind]
  refine ⟨[⟨.openReader entry, Except.ok ()⟩], _, .ok (), rfl, runs_openReader.mpr rfl, ?_⟩
  simp only [Prog.runs_andThen, runs_seekStart, runs_readAll, Prog.runs_pure]
  exact .inr ⟨_, _, (), rfl, rfl, .inr ⟨_, [], bytes, rfl, rfl, rfl, rfl⟩⟩

theorem digestEntry_runs_ok {entry : ConditionalEntry A} {tr : Trace A} {digest : δ}
    (h : (digestEntry D entry).Runs tr (.ok digest)) :
    ∃ bytes, digest = D bytes ∧ tr = readBack entry bytes := by
  obtain ⟨bytes, heq, rfl⟩ | ⟨err, habs, -⟩ := digestEntry_runs D h
  · cases heq
    exact ⟨bytes, rfl, rfl⟩
  · cases habs

theorem digestEntry_runs_error {entry : ConditionalEntry A} {tr : Trace A} {err : IoError}
    (h : (digestEntry D entry).Runs tr (.error err)) : effects tr = [] ∧ Blames tr err := by
  obtain ⟨bytes, habs, -⟩ | ⟨err', heq, hquiet⟩ := digestEntry_runs D h
  · cases habs
  · cases heq
    exact hquiet

/-- A failed read is not a complete one. -/
theorem not_readBack_of_error {entry : ConditionalEntry A} {bytes : List UInt8} {tr : Trace A}
    {err : IoError} (h : (digestEntry D entry).Runs tr (.error err)) (post : Trace A) :
    ¬ readBack entry bytes <+: tr ++ post := by
  intro hbegin
  obtain ⟨rest, hrest⟩ := hbegin
  obtain ⟨-, habs⟩ := (runs_readBack D entry bytes).deterministic h hrest
  cases habs

@[simp] theorem syncsSucceed_readBack (entry : ConditionalEntry A) (bytes : List UInt8) :
    syncsSucceed (readBack entry bytes) = true := rfl

@[simp] theorem effects_readBack (entry : ConditionalEntry A) (bytes : List UInt8) :
    effects (readBack entry bytes) = [] := rfl

end LocalFiles.Conditional
