import LocalFiles.TreeCopy.Scheduler

/-!
# Ledger — what an observer of the calls knows about the destination

A copy reports counters and, when it fails, a state of its destination.  An observer who sees the
calls with their answers keeps a tally of his own.  `Balanced` compares the counters with it,
`Sound` is the invariant of both pipelines, and `Honest` says what a reported failure is worth.
-/

namespace LocalFiles.TreeCopy

open Interaction

/-! ## 1. The public state -/

/-- What lets the counters show that something was done. -/
def Counted (stats : LocalCopyDirStats) : Prop :=
  0 < stats.files ∨ 0 < stats.directories ∨ stats.metadataEffect ≠ .none

section States

variable {failure : LocalCopyDirError}

/-- The stages that leave a destination unchanged. -/
def Harmless (stage : LocalCopyDirStage) : Prop :=
  stage ∈ [.inspectSource, .inspectSourceEntry, .readSourceDirectory, .prepareDestination,
    .cleanupTemporaryFile, .publishSymlinkUnchanged]

instance : DecidablePred Harmless := fun stage => inferInstanceAs (Decidable (stage ∈ _))

theorem copyFailureState_unchanged {stage : LocalCopyDirStage} {stats : LocalCopyStats}
    (h : copyFailureState stage stats = .unchanged) :
    stats.files = 0 ∧ stats.directories = 0 ∧ Harmless stage := by
  unfold copyFailureState at h
  split at h
  · cases h
  · split at h
    · cases h
    next hpartly =>
      rw [not_or, Nat.not_lt, Nat.le_zero, Nat.not_lt, Nat.le_zero] at hpartly
      refine ⟨hpartly.1, hpartly.2, ?_⟩
      cases stage <;> first | decide | cases h

theorem copyFailureState_partially {stage : LocalCopyDirStage} {stats : LocalCopyStats}
    (h : copyFailureState stage stats = .partiallyPublished) :
    0 < stats.files ∨ 0 < stats.directories ∨ stage = .publishSymlinkPartially := by
  unfold copyFailureState at h
  split at h
  · cases h
  · split at h
    next hpartly => exact hpartly.imp_right .inl
    · cases stage <;> first | exact .inr (.inr rfl) | cases h

theorem copyFailureState_published {stage : LocalCopyDirStage} {stats : LocalCopyStats}
    (h : copyFailureState stage stats = .published) :
    stage = .synchronizeFile ∧ 0 < stats.files := by
  unfold copyFailureState at h
  split at h
  next hsync => exact hsync
  · split at h
    · cases h
    · cases stage <;> cases h

theorem stateBeforeMetadata_unchanged (h : stateBeforeMetadata failure = .unchanged) :
    failure.stats.files = 0 ∧ failure.stats.directories = 0 ∧
      (failure.atomicDestinationState = some .unchanged ∨ Harmless failure.stage) := by
  unfold stateBeforeMetadata at h
  dsimp only at h
  split at h
  · cases h
  · cases h
  next hatomic =>
    split at h
    · cases h
    · split at h
      · cases h
      next hpartly =>
        simp only [LocalCopyStats.fromInternal, not_or] at hpartly
        exact ⟨by omega, by omega, .inl hatomic⟩
  · obtain ⟨hfiles, hdirectories, hstage⟩ := copyFailureState_unchanged h
    exact ⟨hfiles, hdirectories, .inr hstage⟩
  · obtain ⟨hfiles, hdirectories, hstage⟩ := copyFailureState_unchanged h
    exact ⟨hfiles, hdirectories, .inr hstage⟩

theorem stateBeforeMetadata_partially (h : stateBeforeMetadata failure = .partiallyPublished) :
    0 < failure.stats.files ∨ 0 < failure.stats.directories ∨
      failure.stats.metadataEffect = .applied ∨ failure.stage = .publishSymlinkPartially := by
  unfold stateBeforeMetadata at h
  dsimp only at h
  split at h
  · cases h
  · cases h
  · split at h
    · cases h
    · split at h
      next hpartly => exact hpartly.imp_right (.imp_right .inl)
      · cases h
  · exact (copyFailureState_partially h).imp_right (.imp_right .inr)
  · exact (copyFailureState_partially h).imp_right (.imp_right .inr)

theorem stateBeforeMetadata_published (h : stateBeforeMetadata failure = .published) :
    failure.stage = .synchronizeFile ∧ 0 < failure.stats.files := by
  unfold stateBeforeMetadata at h
  dsimp only at h
  split at h
  · cases h
  · cases h
  · split at h
    · cases h
    · split at h
      · cases h
      · cases h
  · exact copyFailureState_published h
  · exact copyFailureState_published h

theorem inferredState_unchanged (h : inferredState failure = .unchanged) :
    ¬ Counted failure.stats ∧
      (failure.atomicDestinationState = some .unchanged ∨ Harmless failure.stage) := by
  unfold inferredState at h
  dsimp only at h
  split at h
  next hmetadata =>
    obtain ⟨hfiles, hdirectories, hstage⟩ := stateBeforeMetadata_unchanged h
    refine ⟨?_, hstage⟩
    rintro (hpos | hpos | hne)
    · omega
    · omega
    · exact hne hmetadata
  · split at h
    · cases h
    next hne => exact absurd h hne
  · cases h

theorem inferredState_partially (h : inferredState failure = .partiallyPublished) :
    0 < failure.stats.files ∨ 0 < failure.stats.directories ∨
      failure.stats.metadataEffect = .applied ∨ failure.stage = .publishSymlinkPartially := by
  unfold inferredState at h
  dsimp only at h
  split at h
  · exact stateBeforeMetadata_partially h
  next hmetadata => exact .inr (.inr (.inl hmetadata))
  · cases h

theorem inferredState_published (h : inferredState failure = .published) :
    failure.stage = .synchronizeFile ∧ 0 < failure.stats.files := by
  unfold inferredState at h
  dsimp only at h
  split at h
  · exact stateBeforeMetadata_published h
  · split at h
    · cases h
    · exact stateBeforeMetadata_published h
  · cases h

theorem mergeCopyFailureState_eq (inferred : LocalCopyFailureState)
    (hint : Option LocalCopyFailureState) :
    mergeCopyFailureState inferred hint = inferred ∧
        (inferred = .unchanged → hint = none ∨ hint = some .unchanged) ∨
      some (mergeCopyFailureState inferred hint) = hint ∧ hint ≠ some .unchanged := by
  rcases hint with _ | _ | _ | _ | _ <;> cases inferred <;> decide

theorem publicState_unchanged (h : publicState failure = .unchanged) :
    inferredState failure = .unchanged ∧
      (failure.failureState = none ∨ failure.failureState = some .unchanged) := by
  unfold publicState at h
  obtain ⟨heq, hhint⟩ | ⟨heq, hne⟩ :=
    mergeCopyFailureState_eq (inferredState failure) failure.failureState
  · rw [h] at heq
    exact ⟨heq.symm, hhint heq.symm⟩
  · rw [h] at heq
    exact absurd heq.symm hne

theorem publicState_partially (h : publicState failure = .partiallyPublished) :
    inferredState failure = .partiallyPublished ∨
      failure.failureState = some .partiallyPublished := by
  unfold publicState at h
  obtain ⟨heq, -⟩ | ⟨heq, -⟩ :=
    mergeCopyFailureState_eq (inferredState failure) failure.failureState
  · exact .inl (heq.symm.trans h)
  · exact .inr (heq.symm.trans (congrArg some h))

theorem publicState_published (h : publicState failure = .published) :
    inferredState failure = .published ∨ failure.failureState = some .published := by
  unfold publicState at h
  obtain ⟨heq, -⟩ | ⟨heq, -⟩ :=
    mergeCopyFailureState_eq (inferredState failure) failure.failureState
  · exact .inl (heq.symm.trans h)
  · exact .inr (heq.symm.trans (congrArg some h))

theorem publicState_ne_unchanged_of_stage (hatomic : failure.atomicDestinationState = none)
    (hstage : ¬ Harmless failure.stage) : publicState failure ≠ .unchanged := by
  intro hstate
  obtain ⟨-, hunchanged | hharmless⟩ := inferredState_unchanged (publicState_unchanged hstate).1
  · rw [hatomic] at hunchanged
    cases hunchanged
  · exact hstage hharmless

theorem publicState_ne_unchanged_of_hint {hint : LocalCopyFailureState}
    (hhint : failure.failureState = some hint) (hne : hint ≠ .unchanged) :
    publicState failure ≠ .unchanged := by
  intro hstate
  obtain hnone | hsome := (publicState_unchanged hstate).2
  · rw [hhint] at hnone
    cases hnone
  · rw [hhint] at hsome
    exact hne (Option.some.inj hsome)

end States

variable [QubitBudget] {C : Type} {R : C → Type} {B Frame Entry α : Type}

/-! ## 2. Observers -/

/-- A call with such an answer is part of the history. -/
def Happened (P : (c : C) → R c → Prop) (past : Past C R B) : Prop :=
  ∃ ev ∈ past, P ev.call.2 ev.answer

/-- The first happened, and after it the second. -/
def Later (P Q : (c : C) → R c → Prop) (past : Past C R B) : Prop :=
  ∃ before after, past = before ++ after ∧ Happened P before ∧ Happened Q after

section Histories

variable {P Q : (c : C) → R c → Prop} {past : Past C R B} {s : TreeLocals B} {c : C} {answer : R c}

theorem Happened.append (h : Happened P past) (tr : Past C R B) : Happened P (past ++ tr) := by
  obtain ⟨ev, hmem, hev⟩ := h
  exact ⟨ev, List.mem_append_left _ hmem, hev⟩

theorem happened_last (h : P c answer) : Happened P (past ++ [⟨(s, c), answer⟩]) :=
  ⟨_, List.mem_append_right _ List.mem_cons_self, h⟩

theorem Happened.imp (h : Happened P past) (hPQ : ∀ c answer, P c answer → Q c answer) :
    Happened Q past := by
  obtain ⟨ev, hmem, hev⟩ := h
  exact ⟨ev, hmem, hPQ _ _ hev⟩

theorem Happened.later (h : Happened P past) (hQ : Q c answer) :
    Later P Q (past ++ [⟨(s, c), answer⟩]) :=
  ⟨past, _, rfl, h, _, List.mem_cons_self, hQ⟩

theorem Later.append (h : Later P Q past) (tr : Past C R B) : Later P Q (past ++ tr) := by
  obtain ⟨before, after, rfl, hP, hQ⟩ := h
  exact ⟨before, after ++ tr, List.append_assoc _ _ _, hP, hQ.append tr⟩

end Histories

/-- What an answered call did to the destination. -/
inductive DestinationEffect where
  | none | applied | unknown
  deriving DecidableEq, Repr

/-- `staged` are the bytes of the last staging file, which are counted when it is published. -/
structure Tally where
  files : Nat := 0
  directories : Nat := 0
  bytes : Nat := 0
  staged : Nat := 0
  deriving DecidableEq, Repr

/-- `concealed` and `vanished` are histories that mislead the pipeline: a removal that it forgets,
    and an entry that goes away before it is removed. -/
structure Observer (C : Type) (R : C → Type) (B : Type) where
  effect : (c : C) → R c → DestinationEffect
  count : (c : C) → R c → Tally → Tally
  unsynced : (c : C) → R c → Prop
  concealed : Past C R B → Prop
  vanished : Past C R B → Prop
  count_unapplied : ∀ c answer tally, effect c answer ≠ .applied →
    ∃ staged, count c answer tally = { tally with staged := staged }
  concealed_append : ∀ past tr, concealed past → concealed (past ++ tr)
  vanished_append : ∀ past tr, vanished past → vanished (past ++ tr)

namespace Observer

variable (observer : Observer C R B)

def tally (past : Past C R B) : Tally :=
  past.foldl (fun tally ev => observer.count ev.call.2 ev.answer tally) {}

def Untouched (past : Past C R B) : Prop :=
  ∀ ev ∈ past, observer.effect ev.call.2 ev.answer = .none

def Touched (past : Past C R B) : Prop :=
  Happened (fun c answer => observer.effect c answer = .applied) past

/-- The observer learns nothing from the answer. -/
structure Silent (c : C) (answer : R c) : Prop where
  effect : observer.effect c answer = .none
  count : ∀ tally, observer.count c answer tally = tally

variable {observer} {past : Past C R B} {s : TreeLocals B} {c : C} {answer : R c}

@[simp] theorem tally_nil : observer.tally [] = {} := rfl

@[simp] theorem tally_snoc : observer.tally (past ++ [⟨(s, c), answer⟩]) =
    observer.count c answer (observer.tally past) := by
  unfold tally
  rw [List.foldl_append]
  rfl

theorem Untouched.snoc (h : observer.Untouched past) (hnone : observer.effect c answer = .none) :
    observer.Untouched (past ++ [⟨(s, c), answer⟩]) := by
  intro ev hmem
  rw [List.mem_append, List.mem_singleton] at hmem
  obtain hmem | rfl := hmem
  · exact h ev hmem
  · exact hnone

/-- Only an effect moves the counters of the tally. -/
theorem touched_of_tally
    (h : 0 < (observer.tally past).files ∨ 0 < (observer.tally past).directories) :
    observer.Touched past := by
  induction past using List.reverseRecOn with
  | nil =>
    rw [tally_nil] at h
    simp at h
  | append_singleton past ev ih =>
    obtain ⟨⟨s, c⟩, answer⟩ := ev
    rw [tally_snoc] at h
    by_cases heffect : observer.effect c answer = .applied
    · exact happened_last heffect
    · obtain ⟨staged, hcount⟩ := observer.count_unapplied c answer (observer.tally past) heffect
      rw [hcount] at h
      exact (ih h).append _

/-! ## 3. Invariants -/

/-- The counters may owe to the tally what has been done and is not recorded yet. -/
structure Balanced (observer : Observer C R B) (owed : Tally) (past : Past C R B)
    (s : TreeLocals B) : Prop where
  books : observer.tally past = ⟨s.stats.files + owed.files, s.stats.directories + owed.directories,
    s.stats.bytes + owed.bytes, owed.staged⟩
  applied : s.stats.metadataEffect = .applied → observer.Touched past

def Explained (observer : Observer C R B) (past : Past C R B) (s : TreeLocals B) : Prop :=
  Counted s.stats ∨ observer.Untouched past ∨ observer.concealed past

/-- Nothing is owed, and `n` bytes were staged last. -/
structure Sound (observer : Observer C R B) (n : Nat) (past : Past C R B) (s : TreeLocals B) :
    Prop where
  balanced : observer.Balanced ⟨0, 0, 0, n⟩ past s
  explained : observer.Explained past s

/-- The condition outlives silent answers. -/
def Keeps (observer : Observer C R B) (P : Past C R B → TreeLocals B → Prop) : Prop :=
  ∀ past s c answer, observer.Silent c answer → P past s → P (past ++ [⟨(s, c), answer⟩]) s

theorem Balanced.snoc {owed owed' : Tally} (h : observer.Balanced owed past s)
    (hcount : ∀ tally, observer.tally past = tally → observer.count c answer tally =
      ⟨s.stats.files + owed'.files, s.stats.directories + owed'.directories,
        s.stats.bytes + owed'.bytes, owed'.staged⟩) :
    observer.Balanced owed' (past ++ [⟨(s, c), answer⟩]) s where
  books := by
    rw [tally_snoc]
    exact hcount _ rfl
  applied happlied := (h.applied happlied).append _

theorem keeps_balanced (owed : Tally) : observer.Keeps (observer.Balanced owed) := by
  intro past s c answer hsilent h
  refine h.snoc fun tally htally => ?_
  rw [hsilent.count, ← htally, h.books]

theorem Explained.snoc (h : observer.Explained past s)
    (hnone : observer.effect c answer = .none) :
    observer.Explained (past ++ [⟨(s, c), answer⟩]) s := by
  obtain hcounted | huntouched | hconcealed := h
  · exact .inl hcounted
  · exact .inr (.inl (huntouched.snoc hnone))
  · exact .inr (.inr (observer.concealed_append _ _ hconcealed))

theorem keeps_sound (n : Nat) : observer.Keeps (observer.Sound n) :=
  fun past s c answer hsilent h =>
    ⟨keeps_balanced _ past s c answer hsilent h.balanced, h.explained.snoc hsilent.effect⟩

theorem Keeps.and {P Q : Past C R B → TreeLocals B → Prop} (hP : observer.Keeps P)
    (hQ : observer.Keeps Q) : observer.Keeps fun past s => P past s ∧ Q past s :=
  fun past s c answer hsilent h => ⟨hP past s c answer hsilent h.1, hQ past s c answer hsilent h.2⟩

/-- Conditions that do not read the budget or what the backend keeps. -/
theorem Sound.congr {n : Nat} {s' : TreeLocals B} (h : observer.Sound n past s)
    (hstats : s'.stats = s.stats) : observer.Sound n past s' := by
  obtain ⟨⟨hbooks, happlied⟩, hexplained⟩ := h
  refine ⟨⟨?_, ?_⟩, ?_⟩
  · rw [hstats]
    exact hbooks
  · rw [hstats]
    exact happlied
  · unfold Explained
    rw [hstats]
    exact hexplained

end Observer

/-! ## 4. Failures -/

/-- The stages whose failures say nothing about the destination by themselves. -/
def Plain (stage : LocalCopyDirStage) : Prop :=
  stage ≠ .publishSymlinkPartially ∧ stage ≠ .synchronizeFile

instance : DecidablePred Plain := fun _ => inferInstanceAs (Decidable (_ ∧ _))

namespace Observer

variable {observer : Observer C R B} {past : Past C R B} {s : TreeLocals B} {owed : Tally} {n : Nat}
  {failure : LocalCopyDirError}

/-- What a failure that is reported after `past` is worth.  Only a counter that overflows can be
    behind the tally. -/
structure Honest (observer : Observer C R B) (failure : LocalCopyDirError) (past : Past C R B) :
    Prop where
  bounded : failure.stats.files ≤ (observer.tally past).files ∧
    failure.stats.directories ≤ (observer.tally past).directories ∧
    failure.stats.bytes ≤ (observer.tally past).bytes
  counted : failure.stage ≠ .updateStatistics →
    failure.stats.files = (observer.tally past).files ∧
    failure.stats.directories = (observer.tally past).directories ∧
    failure.stats.bytes = (observer.tally past).bytes
  unchanged : publicState failure = .unchanged → observer.Untouched past ∨ observer.concealed past
  partially : publicState failure = .partiallyPublished →
    observer.Touched past ∨ observer.vanished past
  published : publicState failure = .published → observer.Touched past ∧ Happened observer.unsynced past

theorem Balanced.touched (h : observer.Balanced owed past s)
    (hcounted : 0 < s.stats.files ∨ 0 < s.stats.directories ∨ s.stats.metadataEffect = .applied) :
    observer.Touched past := by
  have hbooks := h.books
  obtain hfiles | hdirectories | happlied := hcounted
  · apply touched_of_tally
    rw [hbooks]
    exact .inl (Nat.lt_of_lt_of_le hfiles (Nat.le_add_right _ _))
  · apply touched_of_tally
    rw [hbooks]
    exact .inr (Nat.lt_of_lt_of_le hdirectories (Nat.le_add_right _ _))
  · exact h.applied happlied

theorem Balanced.honest (h : observer.Balanced owed past s) (hstats : failure.stats = s.stats)
    (howed : failure.stage = .updateStatistics ∨ ∃ staged, owed = ⟨0, 0, 0, staged⟩)
    (hunchanged : publicState failure = .unchanged →
      observer.Untouched past ∨ observer.concealed past)
    (hpartially : failure.failureState = some .partiallyPublished ∨
      failure.stage = .publishSymlinkPartially → observer.Touched past ∨ observer.vanished past)
    (hsynchronize : failure.stage = .synchronizeFile → Happened observer.unsynced past)
    (hpublished : failure.failureState = some .published →
      observer.Touched past ∧ Happened observer.unsynced past) : observer.Honest failure past where
  bounded := by
    rw [h.books, hstats]
    exact ⟨Nat.le_add_right _ _, Nat.le_add_right _ _, Nat.le_add_right _ _⟩
  counted hstage := by
    obtain ⟨staged, rfl⟩ := howed.resolve_left hstage
    rw [h.books, hstats]
    exact ⟨rfl, rfl, rfl⟩
  unchanged := hunchanged
  partially hstate := by
    obtain hinferred | hhint := publicState_partially hstate
    · have hcounted := inferredState_partially hinferred
      rw [hstats] at hcounted
      obtain hfiles | hdirectories | happlied | hstage := hcounted
      · exact .inl (h.touched (.inl hfiles))
      · exact .inl (h.touched (.inr (.inl hdirectories)))
      · exact .inl (h.touched (.inr (.inr happlied)))
      · exact hpartially (.inr hstage)
    · exact hpartially (.inl hhint)
  published hstate := by
    obtain hinferred | hhint := publicState_published hstate
    · obtain ⟨hstage, hfiles⟩ := inferredState_published hinferred
      rw [hstats] at hfiles
      exact ⟨h.touched (.inl hfiles), hsynchronize hstage⟩
    · exact hpublished hhint

/-- The state cannot be unchanged where the counters show something. -/
theorem Explained.unchanged (h : observer.Explained past s) (hstats : failure.stats = s.stats)
    (hstate : publicState failure = .unchanged) :
    observer.Untouched past ∨ observer.concealed past := by
  obtain ⟨huncounted, -⟩ := inferredState_unchanged (publicState_unchanged hstate).1
  rw [hstats] at huncounted
  exact h.resolve_left huncounted

theorem Sound.honest (h : observer.Sound n past s) (hstats : failure.stats = s.stats)
    (hstage : Plain failure.stage)
    (hhint : failure.failureState = none ∨ failure.failureState = some .unchanged) :
    observer.Honest failure past := by
  refine h.balanced.honest hstats (.inr ⟨n, rfl⟩) (h.explained.unchanged hstats) ?_ ?_ ?_
  · rintro (hpartially | hpartially)
    · rw [hpartially] at hhint
      simp at hhint
    · exact absurd hpartially hstage.1
  · intro hsynchronize
    exact absurd hsynchronize hstage.2
  · intro hpublished
    rw [hpublished] at hhint
    simp at hhint

/-! ## 5. Rules -/

/-- Triples under which every failure is reported honestly. -/
abbrev Reports (observer : Observer C R B) (pre : Past C R B → TreeLocals B → Prop)
    (t : TreeM C R B α) (post : α → Past C R B → TreeLocals B → Prop) : Prop :=
  Proc.Upholds ⟨fun _ => True, fun _ _ _ => True⟩ pre t post fun halt past _ =>
    ∀ failure, halt = some failure → observer.Honest failure past

variable {P : Past C R B → TreeLocals B → Prop} {post : α → Past C R B → TreeLocals B → Prop}
  {stage : LocalCopyDirStage} {src dst : Path} {error : CopyError}

theorem reports_ask {c : C} (hP : observer.Keeps P) (h : ∀ answer, observer.Silent c answer) :
    observer.Reports P (Proc.ask c) fun _ => P :=
  .ask fun past s hs => ⟨trivial, fun answer _ => hP past s c answer (h answer) hs⟩

theorem reports_get {f : TreeLocals B → TreeM C R B α}
    (h : ∀ s, observer.Reports P (f s) post) : observer.Reports P (Proc.get >>= f) post :=
  .get fun s => (h s).before fun _ _ hs => hs.1

theorem reports_modify {g : TreeLocals B → TreeLocals B} (h : ∀ s, (g s).stats = s.stats) :
    observer.Reports (observer.Sound n) (Proc.modify g) fun _ => observer.Sound n :=
  .modify fun _ s hs => hs.congr (h s)

/-- A counter that overflows is reported in a stage of its own. -/
theorem Balanced.overflow (h : observer.Balanced owed past s) (hatomic :
    failure.atomicDestinationState = none) (hstats : failure.stats = s.stats)
    (hstage : failure.stage = .updateStatistics)
    (hhint : failure.failureState = none ∨
      failure.failureState = some .partiallyPublished ∧ observer.Touched past) :
    observer.Honest failure past := by
  have hchanged : publicState failure ≠ .unchanged := by
    apply publicState_ne_unchanged_of_stage hatomic
    rw [hstage]
    decide
  refine h.honest hstats (.inl hstage) (fun hstate => absurd hstate hchanged) ?_ ?_ ?_
  · rintro (hpartially | hpartially)
    · obtain hnone | ⟨-, htouched⟩ := hhint
      · rw [hnone] at hpartially
        cases hpartially
      · exact .inl htouched
    · rw [hstage] at hpartially
      cases hpartially
  · intro hsynchronize
    rw [hstage] at hsynchronize
    cases hsynchronize
  · intro hpublished
    obtain hnone | ⟨hsome, -⟩ := hhint
    · rw [hnone] at hpublished
      cases hpublished
    · rw [hsome] at hpublished
      cases hpublished

theorem reports_checkDeadline {now : TreeM C R B Nat}
    (hnow : observer.Reports P now fun _ => P) :
    observer.Reports P (checkDeadline now) fun _ => P :=
  upholds_checkDeadline hnow

/-! ## 6. The scheduler -/

/-- The history is sound at the borders of a turn, whatever was staged last. -/
def Settled (observer : Observer C R B) (past : Past C R B) (s : TreeLocals B) : Prop :=
  ∃ n, observer.Sound n past s

theorem Sound.settled (h : observer.Sound n past s) : observer.Settled past s := ⟨n, h⟩

theorem Reports.settled {t : TreeM C R B α}
    (h : ∀ n, observer.Reports (observer.Sound n) t post) :
    observer.Reports observer.Settled t post := by
  intro past s tr r s' hs
  obtain ⟨n, hs⟩ := hs
  exact h n past s tr r s' hs

variable {backend : CopyTreeBackend C R B Frame Entry}

end Observer

end LocalFiles.TreeCopy
