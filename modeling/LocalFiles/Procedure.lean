import LocalFiles.Interaction

/-!
# Procedure — rules for function bodies

The calls of a procedure are recorded together with the local variables at that moment, so that
a run shows every intermediate state.  `Safe` is the triple of a procedure: an invariant that
holds at every call, a postcondition for the normal end and a condition on the early exits.
`exec` computes the run against one environment; its rules execute a body step by step.
-/

namespace LocalFiles.Interaction.Proc

/-! ## 1. Calls that record the local variables -/

section Ask

variable {C : Type} {R : C → Type} {σ ε α β : Type}

/-- The procedures over `σ` whose calls show the local variables. -/
abbrev Recorded (C : Type) (R : C → Type) (σ ε α : Type) :=
  Proc (σ × C) (fun c => R c.2) σ ε α

def ask (c : C) : Recorded C R σ ε (R c) := fun s => .call (s, c) fun answer => .ret (.ok answer, s)

theorem runs_ask {c : C} {s s' : σ} {tr : List (Event (σ × C) fun c => R c.2)}
    {r : Except ε (R c)} : (ask c : Recorded C R σ ε (R c)).Runs s tr r s' ↔
      ∃ answer, tr = [⟨(s, c), answer⟩] ∧ r = .ok answer ∧ s' = s := by
  constructor
  · rintro ⟨answer, rest, rfl, rfl, heq⟩
    obtain ⟨rfl, rfl⟩ := Prod.mk.inj heq
    exact ⟨answer, rfl, rfl, rfl⟩
  · rintro ⟨answer, rfl, rfl, rfl⟩
    exact ⟨answer, [], rfl, rfl, rfl⟩

end Ask

/-! ## 2. Triples -/

section Triples

variable {C : Type} {R : C → Type} {σ ε α β : Type}

/-- From every state with `pre`, the procedure makes its calls in states with `I` only, ends
    normally with `post`, and leaves early with `I` and an exit that satisfies `X`. -/
def Safe (I : σ → Prop) (X : ε → Prop) (pre : σ → Prop) (t : Recorded C R σ ε α)
    (post : α → σ → Prop) : Prop :=
  ∀ s tr r s', pre s → t.Runs s tr r s' →
    (∀ ev ∈ tr, I ev.call.1) ∧
    (∀ a, r = .ok a → post a s') ∧ ∀ e, r = .error e → X e ∧ I s'

variable {I : σ → Prop} {X : ε → Prop} {pre : σ → Prop} {post : α → σ → Prop}
  {post' : β → σ → Prop}

theorem Safe.pure {a : α} (h : ∀ s, pre s → post a s) :
    Safe I X pre (Pure.pure a : Recorded C R σ ε α) post := by
  intro s tr r s' hs hruns
  obtain ⟨rfl, rfl, rfl⟩ := runs_pure.mp hruns
  refine ⟨by simp, ?_, by simp⟩
  rintro a' ⟨⟩
  exact h s' hs

theorem Safe.exit {e : ε} (h : ∀ s, pre s → X e ∧ I s) :
    Safe I X pre (Proc.exit e : Recorded C R σ ε α) post := by
  intro s tr r s' hs hruns
  obtain ⟨rfl, rfl, rfl⟩ := runs_exit.mp hruns
  refine ⟨by simp, by simp, ?_⟩
  rintro e' ⟨⟩
  exact h s' hs

theorem Safe.bind {t : Recorded C R σ ε α} {f : α → Recorded C R σ ε β}
    (ht : Safe I X pre t post) (hf : ∀ a, Safe I X (post a) (f a) post') :
    Safe I X pre (t >>= f) post' := by
  intro s tr r s' hs hruns
  obtain ⟨e, rfl, ht'⟩ | ⟨tr₁, tr₂, a, mid, rfl, ht', hf'⟩ := runs_bind.mp hruns
  · obtain ⟨hcalls, -, hexit⟩ := ht s tr _ s' hs ht'
    refine ⟨hcalls, by simp, ?_⟩
    rintro e' ⟨⟩
    exact hexit e rfl
  · obtain ⟨hcalls, hpost, -⟩ := ht s tr₁ _ mid hs ht'
    obtain ⟨hcalls', hrest⟩ := hf a mid tr₂ r s' (hpost a rfl) hf'
    rw [List.forall_mem_append]
    exact ⟨⟨hcalls, hcalls'⟩, hrest⟩

theorem Safe.get {f : σ → Recorded C R σ ε β}
    (h : ∀ s, Safe I X (fun s' => pre s' ∧ s' = s) (f s) post') :
    Safe I X pre (Proc.get >>= f) post' := by
  intro s tr r s' hs hruns
  exact h s s tr r s' ⟨hs, rfl⟩ hruns

theorem Safe.modify {g : σ → σ} {post : Unit → σ → Prop} (h : ∀ s, pre s → post () (g s)) :
    Safe I X pre (Proc.modify g : Recorded C R σ ε Unit) post := by
  intro s tr r s' hs hruns
  obtain ⟨rfl, rfl, rfl⟩ := runs_modify.mp hruns
  refine ⟨by simp, ?_, by simp⟩
  rintro a ⟨⟩
  exact h s hs

/-- An update that takes the state to `mid`, and what follows it. -/
theorem Safe.modify_bind (mid : σ → Prop) {g : σ → σ} {f : Unit → Recorded C R σ ε β}
    (h : ∀ s, pre s → mid (g s)) (hf : Safe I X mid (f ()) post') :
    Safe I X pre (Proc.modify g >>= f) post' := by
  intro s tr r s' hs hruns
  exact hf (g s) tr r s' (h s hs) hruns

theorem Safe.ask {c : C} {post : R c → σ → Prop} (h : ∀ s, pre s → I s ∧ ∀ answer, post answer s) :
    Safe I X pre (Proc.ask c : Recorded C R σ ε (R c)) post := by
  intro s tr r s' hs hruns
  obtain ⟨answer, rfl, rfl, rfl⟩ := runs_ask.mp hruns
  refine ⟨?_, ?_, by simp⟩
  · rw [List.forall_mem_singleton]
    exact (h s' hs).1
  · rintro a ⟨⟩
    exact (h s' hs).2 answer

theorem Safe.weaken {pre' : σ → Prop} {post' : α → σ → Prop} {t : Recorded C R σ ε α}
    (h : Safe I X pre t post) (hpre : ∀ s, pre' s → pre s) (hpost : ∀ a s, post a s → post' a s) :
    Safe I X pre' t post' := by
  intro s tr r s' hs hruns
  obtain ⟨hcalls, hok, hexit⟩ := h s tr r s' (hpre s hs) hruns
  exact ⟨hcalls, fun a ha => hpost a s' (hok a ha), hexit⟩

end Triples

/-! ## 3. Execution against one environment -/

section Exec

variable {C : Type} {R : C → Type} {σ ε α β : Type}

/-- The calls of the run, after those of the past, and how it ends. -/
def exec (env : List (Event C R) → (c : C) → R c) (t : Proc C R σ ε α) (s : σ)
    (past : List (Event C R)) : List (Event C R) × Except ε α × σ :=
  (t s).exec env past

theorem exec_runs (env : List (Event C R) → (c : C) → R c) (t : Proc C R σ ε α) (s : σ) :
    t.Runs s (t.exec env s []).1 (t.exec env s []).2.1 (t.exec env s []).2.2 :=
  Prog.exec_runs env (t s)

variable {env : List (Event C R) → (c : C) → R c} {s : σ} {past : List (Event C R)}

theorem prog_exec_bind (p : Prog C R α) (f : α → Prog C R β) (past : List (Event C R)) :
    (p.bind f).exec env past = (f (p.exec env past).2).exec env (p.exec env past).1 := by
  induction p generalizing past with
  | ret a => rfl
  | call c k ih => exact ih (env past c) (past ++ [⟨c, env past c⟩])

@[simp] theorem exec_pure {a : α} :
    (Pure.pure a : Proc C R σ ε α).exec env s past = (past, .ok a, s) := rfl

@[simp] theorem exec_exit {e : ε} :
    (Proc.exit e : Proc C R σ ε α).exec env s past = (past, .error e, s) := rfl

@[simp] theorem exec_modify {g : σ → σ} :
    (Proc.modify g : Proc C R σ ε Unit).exec env s past = (past, .ok (), g s) := rfl

@[simp] theorem exec_pure_bind {a : α} {f : α → Proc C R σ ε β} :
    (Pure.pure a >>= f : Proc C R σ ε β).exec env s past = (f a).exec env s past := rfl

@[simp] theorem exec_get_bind {f : σ → Proc C R σ ε β} :
    (Proc.get >>= f : Proc C R σ ε β).exec env s past = (f s).exec env s past := rfl

@[simp] theorem exec_modify_bind {g : σ → σ} {f : Unit → Proc C R σ ε β} :
    (Proc.modify g >>= f : Proc C R σ ε β).exec env s past = (f ()).exec env (g s) past := rfl

theorem exec_bind {t : Proc C R σ ε α} {f : α → Proc C R σ ε β} {past' : List (Event C R)}
    {a : α} {s' : σ} (h : t.exec env s past = (past', .ok a, s')) :
    (t >>= f).exec env s past = (f a).exec env s' past' := by
  have hbind : (t >>= f).exec env s past = Prog.exec env _ _ := prog_exec_bind _ _ past
  rw [hbind, show (t s).exec env past = _ from h]
  rfl

end Exec

end LocalFiles.Interaction.Proc
