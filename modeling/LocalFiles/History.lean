import LocalFiles.Procedure

/-!
# History — triples over the calls made so far

`Proc.Safe` speaks about the local variables alone.  Where the rule for a call depends on the
calls before it, the conditions take the history as well: the triple `Upholds` says that every
call keeps a discipline, as long as the answers are those the environment may give.
-/

namespace LocalFiles.Interaction.Proc

/-! ## 1. Disciplines -/

section Disciplines

variable {C : Type} {R : C → Type} {σ : Type}

/-- The calls so far, each with the local variables at that moment and its answer. -/
abbrev History (C : Type) (R : C → Type) (σ : Type) := List (Event (σ × C) fun c => R c.2)

/-- `fair` is what the environment promises about an answer, `allows` what the program owes
    for a call. -/
structure Discipline (C : Type) (R : C → Type) (σ : Type) where
  fair : Event (σ × C) (fun c => R c.2) → Prop
  allows : History C R σ → σ → C → Prop

/-- Each call of `tr` is allowed after `past` and the calls before it. -/
def Discipline.Kept (D : Discipline C R σ) : History C R σ → History C R σ → Prop
  | _, [] => True
  | past, ev :: tr => D.allows past ev.call.1 ev.call.2 ∧ D.Kept (past ++ [ev]) tr

variable {D : Discipline C R σ} {past tr tr' : History C R σ}

@[simp] theorem Discipline.kept_nil : D.Kept past [] := trivial

@[simp] theorem Discipline.kept_cons {ev : Event (σ × C) fun c => R c.2} :
    D.Kept past (ev :: tr) ↔ D.allows past ev.call.1 ev.call.2 ∧ D.Kept (past ++ [ev]) tr := Iff.rfl

theorem Discipline.kept_append :
    D.Kept past (tr ++ tr') ↔ D.Kept past tr ∧ D.Kept (past ++ tr) tr' := by
  induction tr generalizing past with
  | nil =>
    rw [List.nil_append, List.append_nil]
    exact ⟨fun h => ⟨trivial, h⟩, fun h => h.2⟩
  | cons ev tr ih =>
    rw [List.cons_append, kept_cons, kept_cons, ih, and_assoc, List.append_assoc,
      List.singleton_append]

/-- What the discipline says about one call of a kept trace. -/
theorem Discipline.Kept.allows {before after : History C R σ} {ev : Event (σ × C) fun c => R c.2}
    (h : D.Kept past (before ++ ev :: after)) :
    D.allows (past ++ before) ev.call.1 ev.call.2 :=
  (kept_append.mp h).2.1

/-- Another discipline is kept where what is known of the history makes it the weaker one. -/
theorem Discipline.Kept.under {D' : Discipline C R σ} {Q : History C R σ → Prop}
    (hQ : ∀ past tr, Q past → Q (past ++ tr))
    (hallows : ∀ past s c, Q past → D.allows past s c → D'.allows past s c) (hpast : Q past)
    (h : D.Kept past tr) : D'.Kept past tr := by
  induction tr generalizing past with
  | nil => exact trivial
  | cons ev tr ih => exact ⟨hallows _ _ _ hpast h.1, ih (hQ _ _ hpast) h.2⟩

end Disciplines

/-! ## 2. Triples -/

section Triples

variable {C : Type} {R : C → Type} {σ ε α β : Type}

/-- From every history and state with `pre`, and with fair answers, the procedure keeps the
    discipline, ends normally with `post` and leaves early with `leave`. -/
def Upholds (D : Discipline C R σ) (pre : History C R σ → σ → Prop) (t : Recorded C R σ ε α)
    (post : α → History C R σ → σ → Prop) (leave : ε → History C R σ → σ → Prop) : Prop :=
  ∀ past s tr r s', pre past s → t.Runs s tr r s' → (∀ ev ∈ tr, D.fair ev) →
    D.Kept past tr ∧ (∀ a, r = .ok a → post a (past ++ tr) s') ∧
    ∀ e, r = .error e → leave e (past ++ tr) s'

variable {D : Discipline C R σ} {pre : History C R σ → σ → Prop}
  {post : α → History C R σ → σ → Prop} {post' : β → History C R σ → σ → Prop}
  {leave : ε → History C R σ → σ → Prop}

theorem Upholds.pure {a : α} (h : ∀ past s, pre past s → post a past s) :
    Upholds D pre (Pure.pure a : Recorded C R σ ε α) post leave := by
  intro past s tr r s' hpre hruns hfair
  obtain ⟨rfl, rfl, rfl⟩ := runs_pure.mp hruns
  refine ⟨trivial, ?_, by simp⟩
  rintro a' ⟨⟩
  rw [List.append_nil]
  exact h past s' hpre

theorem Upholds.exit {e : ε} (h : ∀ past s, pre past s → leave e past s) :
    Upholds D pre (Proc.exit e : Recorded C R σ ε α) post leave := by
  intro past s tr r s' hpre hruns hfair
  obtain ⟨rfl, rfl, rfl⟩ := runs_exit.mp hruns
  refine ⟨trivial, by simp, ?_⟩
  rintro e' ⟨⟩
  rw [List.append_nil]
  exact h past s' hpre

theorem Upholds.bind {t : Recorded C R σ ε α} {f : α → Recorded C R σ ε β}
    (ht : Upholds D pre t post leave) (hf : ∀ a, Upholds D (post a) (f a) post' leave) :
    Upholds D pre (t >>= f) post' leave := by
  intro past s tr r s' hpre hruns hfair
  obtain ⟨e, rfl, ht'⟩ | ⟨tr₁, tr₂, a, mid, rfl, ht', hf'⟩ := runs_bind.mp hruns
  · obtain ⟨hkept, -, hleave⟩ := ht past s tr _ s' hpre ht' hfair
    refine ⟨hkept, by simp, ?_⟩
    rintro e' ⟨⟩
    exact hleave e rfl
  · rw [List.forall_mem_append] at hfair
    obtain ⟨hkept, hpost, -⟩ := ht past s tr₁ _ mid hpre ht' hfair.1
    have hrest := hf a (past ++ tr₁) mid tr₂ r s' (hpost a rfl) hf' hfair.2
    rw [List.append_assoc] at hrest
    exact ⟨Discipline.kept_append.mpr ⟨hkept, hrest.1⟩, hrest.2⟩

/-- `bind` with the condition between the two parts written out. -/
theorem Upholds.through (mid : α → History C R σ → σ → Prop) {t : Recorded C R σ ε α}
    {f : α → Recorded C R σ ε β} (ht : Upholds D pre t mid leave)
    (hf : ∀ a, Upholds D (mid a) (f a) post' leave) : Upholds D pre (t >>= f) post' leave :=
  ht.bind hf

theorem Upholds.get {f : σ → Recorded C R σ ε β}
    (h : ∀ s, Upholds D (fun past s' => pre past s' ∧ s' = s) (f s) post' leave) :
    Upholds D pre (Proc.get >>= f) post' leave := by
  intro past s tr r s' hpre hruns
  exact h s past s tr r s' ⟨hpre, rfl⟩ hruns

theorem Upholds.modify {g : σ → σ} {post : Unit → History C R σ → σ → Prop}
    (h : ∀ past s, pre past s → post () past (g s)) :
    Upholds D pre (Proc.modify g : Recorded C R σ ε Unit) post leave := by
  intro past s tr r s' hpre hruns hfair
  obtain ⟨rfl, rfl, rfl⟩ := runs_modify.mp hruns
  refine ⟨trivial, ?_, by simp⟩
  rintro a ⟨⟩
  rw [List.append_nil]
  exact h past s hpre

theorem Upholds.ask {c : C} {post : R c → History C R σ → σ → Prop}
    (h : ∀ past s, pre past s → D.allows past s c ∧
      ∀ answer, D.fair ⟨(s, c), answer⟩ → post answer (past ++ [⟨(s, c), answer⟩]) s) :
    Upholds D pre (Proc.ask c : Recorded C R σ ε (R c)) post leave := by
  intro past s tr r s' hpre hruns hfair
  obtain ⟨answer, rfl, rfl, rfl⟩ := runs_ask.mp hruns
  have hcall := h past s' hpre
  refine ⟨⟨hcall.1, trivial⟩, ?_, by simp⟩
  rintro a ⟨⟩
  exact hcall.2 answer (hfair _ List.mem_cons_self)

theorem Upholds.weaken {pre' : History C R σ → σ → Prop} {post' : α → History C R σ → σ → Prop}
    {leave' : ε → History C R σ → σ → Prop} {t : Recorded C R σ ε α}
    (h : Upholds D pre t post leave) (hpre : ∀ past s, pre' past s → pre past s)
    (hpost : ∀ a past s, post a past s → post' a past s)
    (hleave : ∀ e past s, leave e past s → leave' e past s) :
    Upholds D pre' t post' leave' := by
  intro past s tr r s' hs hruns hfair
  obtain ⟨hkept, hok, herror⟩ := h past s tr r s' (hpre past s hs) hruns hfair
  exact ⟨hkept, fun a ha => hpost a _ s' (hok a ha), fun e he => hleave e _ s' (herror e he)⟩

/-- A part of the condition that does not depend on the moment. -/
theorem Upholds.given {p : Prop} {t : Recorded C R σ ε α}
    (h : p → Upholds D pre t post leave) :
    Upholds D (fun past s => pre past s ∧ p) t post leave := by
  intro past s tr r s' hs
  exact h hs.2 past s tr r s' hs.1

/-- The condition may leave open what it is about. -/
theorem Upholds.exists {ι : Sort*} {P : ι → History C R σ → σ → Prop} {t : Recorded C R σ ε α}
    (h : ∀ i, Upholds D (P i) t post leave) :
    Upholds D (fun past s => ∃ i, P i past s) t post leave := by
  intro past s tr r s' hs
  obtain ⟨i, hi⟩ := hs
  exact h i past s tr r s' hi

/-- What is known of the history stays known. -/
theorem Upholds.remember {Q : History C R σ → Prop} {t : Recorded C R σ ε α}
    (h : Upholds D pre t post leave) (hQ : ∀ past tr, Q past → Q (past ++ tr)) :
    Upholds D (fun past s => pre past s ∧ Q past) t (fun a past s => post a past s ∧ Q past)
      leave := by
  intro past s tr r s' hs hruns hfair
  obtain ⟨hkept, hok, herror⟩ := h past s tr r s' hs.1 hruns hfair
  exact ⟨hkept, fun a ha => ⟨hok a ha, hQ past tr hs.2⟩, herror⟩

/-- The triple for another discipline that the history so far makes weaker. -/
theorem Upholds.under {D' : Discipline C R σ} {Q : History C R σ → Prop} {t : Recorded C R σ ε α}
    (h : Upholds D pre t post leave) (hQ : ∀ past tr, Q past → Q (past ++ tr))
    (hfair : ∀ ev, D'.fair ev → D.fair ev)
    (hallows : ∀ past s c, Q past → D.allows past s c → D'.allows past s c) :
    Upholds D' (fun past s => pre past s ∧ Q past) t post leave := by
  intro past s tr r s' hs hruns hfair'
  obtain ⟨hkept, hends⟩ := h past s tr r s' hs.1 hruns fun ev hev => hfair ev (hfair' ev hev)
  exact ⟨hkept.under hQ hallows hs.2, hends⟩

theorem Upholds.ite {c : Prop} [Decidable c] {t u : Recorded C R σ ε α}
    (ht : c → Upholds D pre t post leave) (hu : ¬ c → Upholds D pre u post leave) :
    Upholds D pre (if c then t else u) post leave := by
  split
  next h => exact ht h
  next h => exact hu h

/-- Nothing is owed for a case that cannot arise. -/
theorem Upholds.vacuous {t : Recorded C R σ ε α} (h : ∀ past s, ¬ pre past s) :
    Upholds D pre t post leave := by
  intro past s tr r s' hpre
  exact absurd hpre (h past s)

theorem Upholds.before {pre' : History C R σ → σ → Prop} {t : Recorded C R σ ε α}
    (h : Upholds D pre t post leave) (hpre : ∀ past s, pre' past s → pre past s) :
    Upholds D pre' t post leave :=
  h.weaken hpre (fun _ _ _ hs => hs) fun _ _ _ hs => hs

end Triples

/-! ## 3. Results and interpreted programs -/

section Handlers

variable {C C' : Type} {R : C → Type} {R' : C' → Type} {σ ε ε' α : Type}

/-- The procedure as a statement: an early exit becomes a value. -/
def outcome (t : Recorded C R σ ε α) : Recorded C R σ ε' (Except ε α) := fun s =>
  (t s).bind fun end_ => .ret (.ok end_.1, end_.2)

theorem runs_outcome {t : Recorded C R σ ε α} {s s' : σ} {tr : History C R σ}
    {r : Except ε' (Except ε α)} :
    (t.outcome : Recorded C R σ ε' (Except ε α)).Runs s tr r s' ↔
      ∃ r', r = .ok r' ∧ t.Runs s tr r' s' := by
  constructor
  · intro h
    obtain ⟨tr₁, tr₂, ⟨r', mid⟩, rfl, ht, rfl, heq⟩ := Prog.runs_bind.mp h
    obtain ⟨rfl, rfl⟩ := Prod.mk.inj heq
    rw [List.append_nil]
    exact ⟨r', rfl, ht⟩
  · rintro ⟨r', rfl, ht⟩
    exact Prog.runs_bind.mpr ⟨tr, [], (r', s'), (List.append_nil tr).symm, ht, rfl, rfl⟩

theorem Upholds.outcome {D : Discipline C R σ} {pre : History C R σ → σ → Prop}
    {t : Recorded C R σ ε α} {post : α → History C R σ → σ → Prop}
    {leave : ε → History C R σ → σ → Prop} {leave' : ε' → History C R σ → σ → Prop}
    (h : Upholds D pre t post leave) :
    Upholds D pre t.outcome (fun r past s => match r with
      | .ok a => post a past s
      | .error e => leave e past s) leave' := by
  intro past s tr r s' hpre hruns hfair
  obtain ⟨r', rfl, ht⟩ := runs_outcome.mp hruns
  obtain ⟨hkept, hok, herror⟩ := h past s tr r' s' hpre ht hfair
  refine ⟨hkept, ?_, by simp⟩
  rintro a ⟨⟩
  cases r' with
  | ok a => exact hok a rfl
  | error e => exact herror e rfl

end Handlers

end LocalFiles.Interaction.Proc
