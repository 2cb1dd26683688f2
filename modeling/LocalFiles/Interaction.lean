import Mathlib.Data.List.Basic

/-!
# Interaction — programs that call an unknown environment

A program is a finite tree of calls; what comes next depends on the answer of the last call.
`Prog.Runs` collects the runs of a program against an environment that may answer anything,
`Prog.RunsIn` those against an environment with a state and a step relation of its own, and
`Prog.exec` computes the run against one deterministic environment.  `Proc` adds the local
variables and the early exits of an imperative function body.
-/

namespace LocalFiles.Interaction

/-! ## 1. Programs and their runs -/

inductive Prog (C : Type) (R : C → Type) (α : Type) where
  | ret (a : α)
  | call (c : C) (k : R c → Prog C R α)

/-- A call together with the answer it got. -/
structure Event (C : Type) (R : C → Type) where
  call : C
  answer : R call

/-- A list can be cut in one way only at an element with a property that no other element has. -/
theorem cut_unique {α : Type} {P : α → Prop} {before after pre post : List α} {x y : α}
    (h : before ++ x :: after = pre ++ y :: post) (hy : P y) (hbefore : ∀ a ∈ before, ¬ P a)
    (hafter : ∀ a ∈ after, ¬ P a) : pre = before ∧ y = x ∧ post = after := by
  obtain ⟨mid, rfl, hmid⟩ | ⟨mid, rfl, hmid⟩ := List.append_eq_append_iff.mp h
  · cases mid with
    | nil =>
      obtain ⟨rfl, rfl⟩ := List.cons.inj hmid
      exact ⟨List.append_nil _, rfl, rfl⟩
    | cons first rest =>
      obtain ⟨-, rfl⟩ := List.cons.inj hmid
      exact absurd hy (hafter y (List.mem_append_right _ List.mem_cons_self))
  · cases mid with
    | nil =>
      obtain ⟨rfl, rfl⟩ := List.cons.inj hmid
      exact ⟨(List.append_nil _).symm, rfl, rfl⟩
    | cons first rest =>
      obtain ⟨rfl, -⟩ := List.cons.inj hmid
      exact absurd hy (hbefore y (List.mem_append_right _ List.mem_cons_self))

namespace Prog

variable {C : Type} {R : C → Type} {α β : Type}

def bind : Prog C R α → (α → Prog C R β) → Prog C R β
  | .ret a, f => f a
  | .call c k, f => .call c fun answer => (k answer).bind f

theorem bind_assoc {γ : Type} (p : Prog C R α) (f : α → Prog C R β) (g : β → Prog C R γ) :
    (p.bind f).bind g = p.bind fun a => (f a).bind g := by
  induction p with
  | ret a => rfl
  | call c k ih =>
    simp only [bind]
    congr 1
    funext answer
    exact ih answer

def request (c : C) : Prog C R (R c) := .call c .ret

instance : Monad (Prog C R) where
  pure := .ret
  bind := bind

/-- `p.Runs tr a`: for some answers of the environment, `p` makes the calls of `tr`, gets the
    answers of `tr` and returns `a`. -/
def Runs : Prog C R α → List (Event C R) → α → Prop
  | .ret a, tr, b => tr = [] ∧ b = a
  | .call c k, tr, b => ∃ answer rest, tr = ⟨c, answer⟩ :: rest ∧ (k answer).Runs rest b

@[simp] theorem runs_ret {a b : α} {tr : List (Event C R)} :
    (ret a : Prog C R α).Runs tr b ↔ tr = [] ∧ b = a := Iff.rfl

@[simp] theorem runs_pure {a b : α} {tr : List (Event C R)} :
    (pure a : Prog C R α).Runs tr b ↔ tr = [] ∧ b = a := Iff.rfl

@[simp] theorem runs_call {c : C} {k : R c → Prog C R α} {tr : List (Event C R)} {b : α} :
    (call c k).Runs tr b ↔ ∃ answer rest, tr = ⟨c, answer⟩ :: rest ∧ (k answer).Runs rest b :=
  Iff.rfl

@[simp] theorem runs_request {c : C} {tr : List (Event C R)} {b : R c} :
    (request c : Prog C R (R c)).Runs tr b ↔ tr = [⟨c, b⟩] := by
  simp only [request, runs_call, runs_ret]
  constructor
  · rintro ⟨answer, rest, rfl, rfl, rfl⟩
    rfl
  · rintro rfl
    exact ⟨b, [], rfl, rfl, rfl⟩

theorem runs_bind {p : Prog C R α} {f : α → Prog C R β} {tr : List (Event C R)} {b : β} :
    (p >>= f).Runs tr b ↔
      ∃ tr₁ tr₂ a, tr = tr₁ ++ tr₂ ∧ p.Runs tr₁ a ∧ (f a).Runs tr₂ b := by
  change (p.bind f).Runs tr b ↔ _
  induction p generalizing tr with
  | ret a =>
    constructor
    · intro h
      exact ⟨[], tr, a, rfl, ⟨rfl, rfl⟩, h⟩
    · rintro ⟨tr₁, tr₂, a', rfl, ⟨rfl, rfl⟩, h⟩
      exact h
  | call c k ih =>
    constructor
    · rintro ⟨answer, rest, rfl, h⟩
      obtain ⟨tr₁, tr₂, a, rfl, hk, hf⟩ := (ih answer).mp h
      exact ⟨⟨c, answer⟩ :: tr₁, tr₂, a, rfl, ⟨answer, tr₁, rfl, hk⟩, hf⟩
    · rintro ⟨tr₁, tr₂, a, rfl, ⟨answer, tr₁', rfl, hk⟩, hf⟩
      exact ⟨answer, tr₁' ++ tr₂, rfl, (ih answer).mpr ⟨tr₁', tr₂, a, rfl, hk, hf⟩⟩

/-- The answers determine the run: of two runs of a program, neither can be cut short by the
    other. -/
theorem Runs.deterministic {p : Prog C R α} {tr tr' post post' : List (Event C R)} {a b : α}
    (h : p.Runs tr a) (h' : p.Runs tr' b) (heq : tr ++ post = tr' ++ post') :
    tr = tr' ∧ a = b := by
  induction p generalizing tr tr' with
  | ret c =>
    obtain ⟨rfl, rfl⟩ := h
    obtain ⟨rfl, rfl⟩ := h'
    exact ⟨rfl, rfl⟩
  | call c k ih =>
    obtain ⟨answer, rest, rfl, hk⟩ := h
    obtain ⟨answer', rest', rfl, hk'⟩ := h'
    rw [List.cons_append, List.cons_append, List.cons.injEq, Event.mk.injEq] at heq
    obtain ⟨⟨-, heq⟩, hrest⟩ := heq
    cases heq
    obtain ⟨rfl, rfl⟩ := ih answer hk hk' hrest
    exact ⟨rfl, rfl⟩

/-- `Result::and_then` over programs: `f` is not reached when `p` fails. -/
def andThen {ε : Type} (p : Prog C R (Except ε α)) (f : α → Prog C R (Except ε β)) :
    Prog C R (Except ε β) := do
  match ← p with
  | .error e => pure (.error e)
  | .ok a => f a

theorem runs_andThen {ε : Type} {p : Prog C R (Except ε α)} {f : α → Prog C R (Except ε β)}
    {tr : List (Event C R)} {r : Except ε β} :
    (p.andThen f).Runs tr r ↔
      (∃ e, r = .error e ∧ p.Runs tr (.error e)) ∨
      ∃ tr₁ tr₂ a, tr = tr₁ ++ tr₂ ∧ p.Runs tr₁ (.ok a) ∧ (f a).Runs tr₂ r := by
  rw [andThen, runs_bind]
  constructor
  · rintro ⟨tr₁, tr₂, _ | a, rfl, hp, hf⟩
    · rename_i e
      obtain ⟨rfl, rfl⟩ := hf
      exact .inl ⟨e, rfl, by rwa [List.append_nil]⟩
    · exact .inr ⟨tr₁, tr₂, a, rfl, hp, hf⟩
  · rintro (⟨e, rfl, hp⟩ | ⟨tr₁, tr₂, a, rfl, hp, hf⟩)
    · exact ⟨tr, [], .error e, (List.append_nil tr).symm, hp, rfl, rfl⟩
    · exact ⟨tr₁, tr₂, .ok a, rfl, hp, hf⟩

/-- The result of `p` when its calls are answered as in the trace, if the trace is a run of it. -/
def replay [DecidableEq C] : Prog C R α → List (Event C R) → Option α
  | .ret a, [] => some a
  | .call c k, ev :: rest =>
    if h : ev.call = c then (k (h ▸ ev.answer)).replay rest else none
  | _, _ => none

theorem replay_runs [DecidableEq C] {p : Prog C R α} {tr : List (Event C R)} {a : α}
    (h : p.replay tr = some a) : p.Runs tr a := by
  induction p generalizing tr with
  | ret b =>
    cases tr with
    | nil => exact ⟨rfl, (Option.some.inj h).symm⟩
    | cons ev rest => cases h
  | call c k ih =>
    cases tr with
    | nil => cases h
    | cons ev rest =>
      unfold replay at h
      split at h
      next hcall =>
        obtain ⟨c', answer⟩ := ev
        dsimp only at hcall
        subst hcall
        exact ⟨answer, rest, rfl, ih answer h⟩
      next => cases h

/-! ## 2. One deterministic environment -/

/-- The run of `p` against an environment that answers from the calls and answers so far. -/
def exec (env : List (Event C R) → (c : C) → R c) :
    Prog C R α → List (Event C R) → List (Event C R) × α
  | .ret a, past => (past, a)
  | .call c k, past => exec env (k (env past c)) (past ++ [⟨c, env past c⟩])

theorem exec_runs_from (env : List (Event C R) → (c : C) → R c) (p : Prog C R α)
    (past : List (Event C R)) :
    ∃ tr, (p.exec env past).1 = past ++ tr ∧ p.Runs tr (p.exec env past).2 := by
  induction p generalizing past with
  | ret a => exact ⟨[], (List.append_nil past).symm, rfl, rfl⟩
  | call c k ih =>
    obtain ⟨tr, htr, hrun⟩ := ih (env past c) (past ++ [⟨c, env past c⟩])
    refine ⟨⟨c, env past c⟩ :: tr, ?_, env past c, tr, rfl, hrun⟩
    rw [exec, htr, List.append_assoc, List.singleton_append]

theorem exec_runs (env : List (Event C R) → (c : C) → R c) (p : Prog C R α) :
    p.Runs (p.exec env []).1 (p.exec env []).2 := by
  obtain ⟨tr, htr, hrun⟩ := exec_runs_from env p []
  rw [htr]
  exact hrun

/-- An environment without memory gives the same answer to the same call. -/
theorem exec_answers (answer : (c : C) → R c) (p : Prog C R α) (past : List (Event C R))
    (hpast : ∀ ev ∈ past, ev.answer = answer ev.call) :
    ∀ ev ∈ (p.exec (fun _ => answer) past).1, ev.answer = answer ev.call := by
  induction p generalizing past with
  | ret a => exact hpast
  | call c k ih =>
    apply ih
    rw [List.forall_mem_append, List.forall_mem_singleton]
    exact ⟨hpast, rfl⟩

end Prog

/-! ## 3. Environments with a state -/

section Environment

variable {C : Type} {R : C → Type} {S α β : Type}

/-- `p.RunsIn E s tr s' a`: `p` runs with trace `tr` and result `a` while the environment goes
    from `s` to `s'`, each answer being one that `E` allows in the state it is asked in. -/
def Prog.RunsIn (E : S → (c : C) → R c → S → Prop) :
    Prog C R α → S → List (Event C R) → S → α → Prop
  | .ret a, s, tr, s', b => tr = [] ∧ s' = s ∧ b = a
  | .call c k, s, tr, s', b => ∃ answer next rest,
      tr = ⟨c, answer⟩ :: rest ∧ E s c answer next ∧ (k answer).RunsIn E next rest s' b

theorem Prog.RunsIn.runs {E : S → (c : C) → R c → S → Prop} {p : Prog C R α} {s s' : S}
    {tr : List (Event C R)} {a : α} (h : p.RunsIn E s tr s' a) : p.Runs tr a := by
  induction p generalizing s tr with
  | ret a => exact ⟨h.1, h.2.2⟩
  | call c k ih =>
    obtain ⟨answer, next, rest, rfl, -, hk⟩ := h
    exact ⟨answer, rest, rfl, ih answer hk⟩

theorem Prog.runsIn_bind {E : S → (c : C) → R c → S → Prop} {p : Prog C R α}
    {f : α → Prog C R β} {s s' : S} {tr : List (Event C R)} {b : β} :
    (p >>= f).RunsIn E s tr s' b ↔ ∃ tr₁ tr₂ next a,
      tr = tr₁ ++ tr₂ ∧ p.RunsIn E s tr₁ next a ∧ (f a).RunsIn E next tr₂ s' b := by
  change (p.bind f).RunsIn E s tr s' b ↔ _
  induction p generalizing s tr with
  | ret a =>
    constructor
    · intro h
      exact ⟨[], tr, s, a, rfl, ⟨rfl, rfl, rfl⟩, h⟩
    · rintro ⟨tr₁, tr₂, next, a', rfl, ⟨rfl, rfl, rfl⟩, h⟩
      exact h
  | call c k ih =>
    constructor
    · rintro ⟨answer, mid, rest, rfl, hE, h⟩
      obtain ⟨tr₁, tr₂, next, a, rfl, hk, hf⟩ := (ih answer).mp h
      exact ⟨⟨c, answer⟩ :: tr₁, tr₂, next, a, rfl, ⟨answer, mid, tr₁, rfl, hE, hk⟩, hf⟩
    · rintro ⟨tr₁, tr₂, next, a, rfl, ⟨answer, mid, tr₁', rfl, hE, hk⟩, hf⟩
      exact ⟨answer, mid, tr₁' ++ tr₂, rfl, hE, (ih answer).mpr ⟨tr₁', tr₂, next, a, rfl, hk, hf⟩⟩

@[simp] theorem Prog.runsIn_pure {E : S → (c : C) → R c → S → Prop} {s s' : S}
    {tr : List (Event C R)} {a b : α} :
    (pure a : Prog C R α).RunsIn E s tr s' b ↔ tr = [] ∧ s' = s ∧ b = a := Iff.rfl

theorem Prog.runsIn_request {E : S → (c : C) → R c → S → Prop} {c : C} {s s' : S}
    {tr : List (Event C R)} {b : R c} :
    (request c : Prog C R (R c)).RunsIn E s tr s' b ↔ tr = [⟨c, b⟩] ∧ E s c b s' := by
  constructor
  · rintro ⟨answer, next, rest, rfl, hE, rfl, rfl, rfl⟩
    exact ⟨rfl, hE⟩
  · rintro ⟨rfl, hE⟩
    exact ⟨b, s', [], rfl, hE, rfl, rfl, rfl⟩

theorem Prog.runsIn_andThen {ε : Type} {E : S → (c : C) → R c → S → Prop}
    {p : Prog C R (Except ε α)} {f : α → Prog C R (Except ε β)} {s s' : S}
    {tr : List (Event C R)} {r : Except ε β} :
    (p.andThen f).RunsIn E s tr s' r ↔
      (∃ e, r = .error e ∧ p.RunsIn E s tr s' (.error e)) ∨
      ∃ tr₁ tr₂ next a, tr = tr₁ ++ tr₂ ∧ p.RunsIn E s tr₁ next (.ok a) ∧
        (f a).RunsIn E next tr₂ s' r := by
  rw [andThen, runsIn_bind]
  constructor
  · rintro ⟨tr₁, tr₂, next, _ | a, rfl, hp, hf⟩
    · rename_i e
      obtain ⟨rfl, rfl, rfl⟩ := hf
      exact .inl ⟨e, rfl, by rwa [List.append_nil]⟩
    · exact .inr ⟨tr₁, tr₂, next, a, rfl, hp, hf⟩
  · rintro (⟨e, rfl, hp⟩ | ⟨tr₁, tr₂, next, a, rfl, hp, hf⟩)
    · exact ⟨tr, [], s', .error e, (List.append_nil tr).symm, hp, rfl, rfl, rfl⟩
    · exact ⟨tr₁, tr₂, next, .ok a, rfl, hp, hf⟩

/-- The invariant rule: what every answered call preserves, every run preserves. -/
theorem Prog.RunsIn.invariant {E : S → (c : C) → R c → S → Prop} {Inv : S → Prop}
    (hstep : ∀ s c answer s', E s c answer s' → Inv s → Inv s') {p : Prog C R α} {s s' : S}
    {tr : List (Event C R)} {a : α} (h : p.RunsIn E s tr s' a) (hs : Inv s) : Inv s' := by
  induction p generalizing s tr with
  | ret a =>
    obtain ⟨-, rfl, -⟩ := h
    exact hs
  | call c k ih =>
    obtain ⟨answer, next, rest, -, hE, hk⟩ := h
    exact ih answer hk (hstep _ _ _ _ hE hs)

end Environment

/-! ## 4. Traces, call restrictions and implementations -/

section Implementation

variable {C C' : Type} {R : C → Type} {R' : C' → Type} {S σ α β : Type}

/-- The calls and answers of `tr` take the environment from `s` to `s'`. -/
def Along (E : S → (c : C) → R c → S → Prop) : S → List (Event C R) → S → Prop
  | s, [], s' => s' = s
  | s, ev :: rest, s' => ∃ next, E s ev.call ev.answer next ∧ Along E next rest s'

theorem Prog.runsIn_iff {E : S → (c : C) → R c → S → Prop} {p : Prog C R α} {s s' : S}
    {tr : List (Event C R)} {a : α} : p.RunsIn E s tr s' a ↔ p.Runs tr a ∧ Along E s tr s' := by
  induction p generalizing s tr with
  | ret b =>
    constructor
    · rintro ⟨rfl, rfl, rfl⟩
      exact ⟨⟨rfl, rfl⟩, rfl⟩
    · rintro ⟨⟨rfl, rfl⟩, rfl⟩
      exact ⟨rfl, rfl, rfl⟩
  | call c k ih =>
    constructor
    · rintro ⟨answer, next, rest, rfl, hE, hk⟩
      obtain ⟨hruns, halong⟩ := (ih answer).mp hk
      exact ⟨⟨answer, rest, rfl, hruns⟩, next, hE, halong⟩
    · rintro ⟨⟨answer, rest, rfl, hruns⟩, next, hE, halong⟩
      exact ⟨answer, next, rest, rfl, hE, (ih answer).mpr ⟨hruns, halong⟩⟩

theorem along_append {E : S → (c : C) → R c → S → Prop} {s s' : S} {tr₁ tr₂ : List (Event C R)} :
    Along E s (tr₁ ++ tr₂) s' ↔ ∃ next, Along E s tr₁ next ∧ Along E next tr₂ s' := by
  induction tr₁ generalizing s with
  | nil =>
    constructor
    · intro h
      exact ⟨s, rfl, h⟩
    · rintro ⟨_, rfl, h⟩
      exact h
  | cons ev rest ih =>
    constructor
    · rintro ⟨mid, hE, h⟩
      obtain ⟨next, h₁, h₂⟩ := ih.mp h
      exact ⟨next, ⟨mid, hE, h₁⟩, h₂⟩
    · rintro ⟨next, ⟨mid, hE, h₁⟩, h₂⟩
      exact ⟨mid, hE, ih.mpr ⟨next, h₁, h₂⟩⟩

/-- What every step with a call of the trace preserves, the trace preserves. -/
theorem Along.invariant {E : S → (c : C) → R c → S → Prop} {P : C → Prop} {J : S → Prop}
    (hstep : ∀ s c answer s', P c → E s c answer s' → J s → J s') {s s' : S}
    {tr : List (Event C R)} (hcalls : ∀ ev ∈ tr, P ev.call) (h : Along E s tr s') (hs : J s) :
    J s' := by
  induction tr generalizing s with
  | nil =>
    cases h
    exact hs
  | cons ev rest ih =>
    obtain ⟨next, hE, h⟩ := h
    obtain ⟨hev, hrest⟩ := List.forall_mem_cons.mp hcalls
    exact ih hrest h (hstep _ _ _ _ hev hE hs)

/-- Every call that `p` can make satisfies `P`. -/
def Prog.Makes (P : C → Prop) : Prog C R α → Prop
  | .ret _ => True
  | .call c k => P c ∧ ∀ answer, (k answer).Makes P

@[simp] theorem Prog.makes_pure {P : C → Prop} {a : α} :
    (pure a : Prog C R α).Makes P ↔ True := Iff.rfl

@[simp] theorem Prog.makes_request {P : C → Prop} {c : C} :
    (request c : Prog C R (R c)).Makes P ↔ P c := by
  constructor
  · intro h
    exact h.1
  · intro h
    exact ⟨h, fun _ => trivial⟩

theorem Prog.Makes.bind {P : C → Prop} {p : Prog C R α} {f : α → Prog C R β} (hp : p.Makes P)
    (hf : ∀ a, (f a).Makes P) : (p >>= f).Makes P := by
  induction p with
  | ret a => exact hf a
  | call c k ih => exact ⟨hp.1, fun answer => ih answer (hp.2 answer)⟩

theorem Prog.Makes.andThen {ε : Type} {P : C → Prop} {p : Prog C R (Except ε α)}
    {f : α → Prog C R (Except ε β)} (hp : p.Makes P) (hf : ∀ a, (f a).Makes P) :
    (p.andThen f).Makes P := by
  apply hp.bind
  intro o
  cases o with
  | error e => trivial
  | ok a => exact hf a

theorem Prog.makes_true (p : Prog C R α) : p.Makes fun _ => True := by
  induction p with
  | ret a => trivial
  | call c k ih => exact ⟨trivial, ih⟩

theorem Prog.Makes.mono {P Q : C → Prop} {p : Prog C R α} (hp : p.Makes P)
    (hPQ : ∀ c, P c → Q c) : p.Makes Q := by
  induction p with
  | ret a => trivial
  | call c k ih => exact ⟨hPQ c hp.1, fun answer => ih answer (hp.2 answer)⟩

theorem Prog.Makes.calls {P : C → Prop} {p : Prog C R α} {tr : List (Event C R)} {a : α}
    (hp : p.Makes P) (h : p.Runs tr a) : ∀ ev ∈ tr, P ev.call := by
  induction p generalizing tr with
  | ret b =>
    obtain ⟨rfl, -⟩ := h
    simp
  | call c k ih =>
    obtain ⟨answer, rest, rfl, hk⟩ := h
    rw [List.forall_mem_cons]
    exact ⟨hp.1, ih answer (hp.2 answer) hk⟩

/-- The environment that an implementation makes out of the environment `E` it runs in: `handle`
    answers each call by a program over the calls `C'`, with a state of its own. -/
def Implemented (handle : (c : C) → σ → Prog C' R' (R c × σ)) (E : S → (c : C') → R' c → S → Prop)
    (s : σ × S) (c : C) (answer : R c) (s' : σ × S) : Prop :=
  ∃ tr, (handle c s.1).RunsIn E s.2 tr s'.2 (answer, s'.1)

/-- The run of `p` in an environment that is a deterministic machine. -/
def Prog.execIn (machine : S → (c : C) → R c × S) : Prog C R α → S → List (Event C R) × S × α
  | .ret a, s => ([], s, a)
  | .call c k, s =>
    let (answer, next) := machine s c
    let (tr, s', a) := (k answer).execIn machine next
    (⟨c, answer⟩ :: tr, s', a)

theorem Prog.execIn_runsIn (machine : S → (c : C) → R c × S)
    {E : S → (c : C) → R c → S → Prop} (hmachine : ∀ s c, E s c (machine s c).1 (machine s c).2)
    (p : Prog C R α) (s : S) :
    p.RunsIn E s (p.execIn machine s).1 (p.execIn machine s).2.1 (p.execIn machine s).2.2 := by
  induction p generalizing s with
  | ret a => exact ⟨rfl, rfl, rfl⟩
  | call c k ih => exact ⟨_, _, _, rfl, hmachine s c, ih _ _⟩

/-- A run with a finer environment state is a run with the coarser one. -/
theorem Prog.RunsIn.map {T : Type} {E : S → (c : C) → R c → S → Prop}
    {E' : T → (c : C) → R c → T → Prop} (f : S → T)
    (hstep : ∀ s c answer s', E s c answer s' → E' (f s) c answer (f s')) {p : Prog C R α}
    {s s' : S} {tr : List (Event C R)} {a : α} (h : p.RunsIn E s tr s' a) :
    p.RunsIn E' (f s) tr (f s') a := by
  induction p generalizing s tr with
  | ret b =>
    obtain ⟨rfl, rfl, rfl⟩ := h
    exact ⟨rfl, rfl, rfl⟩
  | call c k ih =>
    obtain ⟨answer, next, rest, rfl, hE, hk⟩ := h
    exact ⟨answer, f next, rest, rfl, hstep _ _ _ _ hE, ih answer hk⟩

/-- A flag that no step sets tells at the end of a run that every step met its condition. -/
theorem Prog.RunsIn.checked {E : S → (c : C) → R c → S → Prop}
    {E' : S × Bool → (c : C) → R c → S × Bool → Prop}
    (hstep : ∀ s c answer s', E' s c answer s' → s'.2 = true → s.2 = true ∧ E s.1 c answer s'.1)
    {p : Prog C R α} {s s' : S × Bool} {tr : List (Event C R)} {a : α}
    (h : p.RunsIn E' s tr s' a) (hflag : s'.2 = true) :
    s.2 = true ∧ p.RunsIn E s.1 tr s'.1 a := by
  induction p generalizing s tr with
  | ret b =>
    obtain ⟨rfl, rfl, rfl⟩ := h
    exact ⟨hflag, rfl, rfl, rfl⟩
  | call c k ih =>
    obtain ⟨answer, next, rest, rfl, hE, hk⟩ := h
    obtain ⟨hnext, hrest⟩ := ih answer hk
    obtain ⟨hs, hE⟩ := hstep _ _ _ _ hE hnext
    exact ⟨hs, answer, next.1, rest, rfl, hE, hrest⟩

end Implementation

/-! ## 5. Function bodies: local variables and early exits -/

/-- A function body over the local variables `σ` that may leave early with an `ε`.  The local
    variables survive an early exit. -/
def Proc (C : Type) (R : C → Type) (σ ε α : Type) := σ → Prog C R (Except ε α × σ)

namespace Proc

variable {C : Type} {R : C → Type} {σ ε α β : Type}

def pure (a : α) : Proc C R σ ε α := fun s => .ret (.ok a, s)

def bind (t : Proc C R σ ε α) (f : α → Proc C R σ ε β) : Proc C R σ ε β := fun s =>
  (t s).bind fun
    | (.error e, s') => .ret (.error e, s')
    | (.ok a, s') => f a s'

instance : Monad (Proc C R σ ε) where
  pure := pure
  bind := bind

def exit (e : ε) : Proc C R σ ε α := fun s => .ret (.error e, s)

def get : Proc C R σ ε σ := fun s => .ret (.ok s, s)

def modify (f : σ → σ) : Proc C R σ ε Unit := fun s => .ret (.ok (), f s)

def lift (p : Prog C R α) : Proc C R σ ε α := fun s => p.bind fun a => .ret (.ok a, s)

/-- `t.Runs s tr r s'`: started with the locals `s`, `t` can end with the locals `s'` and the
    result `r`, having made the calls of `tr`. -/
def Runs (t : Proc C R σ ε α) (s : σ) (tr : List (Event C R)) (r : Except ε α) (s' : σ) : Prop :=
  Prog.Runs (t s) tr (r, s')

variable {s s' : σ} {tr : List (Event C R)}

@[simp] theorem runs_pure {a : α} {r : Except ε α} :
    (Pure.pure a : Proc C R σ ε α).Runs s tr r s' ↔ tr = [] ∧ r = .ok a ∧ s' = s := by
  change tr = [] ∧ (r, s') = (.ok a, s) ↔ _
  rw [Prod.mk.injEq]

@[simp] theorem runs_exit {e : ε} {r : Except ε α} :
    (exit e : Proc C R σ ε α).Runs s tr r s' ↔ tr = [] ∧ r = .error e ∧ s' = s := by
  change tr = [] ∧ (r, s') = (.error e, s) ↔ _
  rw [Prod.mk.injEq]

theorem runs_bind {t : Proc C R σ ε α} {f : α → Proc C R σ ε β} {r : Except ε β} :
    (t >>= f).Runs s tr r s' ↔
      (∃ e, r = .error e ∧ t.Runs s tr (.error e) s') ∨
      ∃ tr₁ tr₂ a mid, tr = tr₁ ++ tr₂ ∧ t.Runs s tr₁ (.ok a) mid ∧ (f a).Runs mid tr₂ r s' := by
  have hbind : (t >>= f).Runs s tr r s' ↔
      ∃ tr₁ tr₂ o, tr = tr₁ ++ tr₂ ∧ (t s).Runs tr₁ o ∧
        Prog.Runs (match o with
          | (.error e, s') => .ret (.error e, s')
          | (.ok a, s') => f a s') tr₂ (r, s') := Prog.runs_bind
  rw [hbind]
  constructor
  · rintro ⟨tr₁, tr₂, ⟨_ | a, mid⟩, rfl, ht, hf⟩
    · rename_i e
      obtain ⟨rfl, heq⟩ := hf
      obtain ⟨rfl, rfl⟩ := Prod.mk.inj heq
      exact .inl ⟨e, rfl, by rwa [List.append_nil]⟩
    · exact .inr ⟨tr₁, tr₂, a, mid, rfl, ht, hf⟩
  · rintro (⟨e, rfl, ht⟩ | ⟨tr₁, tr₂, a, mid, rfl, ht, hf⟩)
    · exact ⟨tr, [], (.error e, s'), (List.append_nil tr).symm, ht, rfl, rfl⟩
    · exact ⟨tr₁, tr₂, (.ok a, mid), rfl, ht, hf⟩

@[simp] theorem runs_get_bind {f : σ → Proc C R σ ε β} {r : Except ε β} :
    (get >>= f : Proc C R σ ε β).Runs s tr r s' ↔ (f s).Runs s tr r s' := Iff.rfl

@[simp] theorem runs_modify_bind {g : σ → σ} {f : Unit → Proc C R σ ε β} {r : Except ε β} :
    (modify g >>= f : Proc C R σ ε β).Runs s tr r s' ↔ (f ()).Runs (g s) tr r s' := Iff.rfl

@[simp] theorem runs_modify {g : σ → σ} {r : Except ε Unit} :
    (modify g : Proc C R σ ε Unit).Runs s tr r s' ↔ tr = [] ∧ r = .ok () ∧ s' = g s := by
  change tr = [] ∧ (r, s') = (.ok (), g s) ↔ _
  rw [Prod.mk.injEq]

@[simp] theorem runs_exit_bind {e : ε} {f : α → Proc C R σ ε β} {r : Except ε β} :
    ((exit e : Proc C R σ ε α) >>= f).Runs s tr r s' ↔ tr = [] ∧ r = .error e ∧ s' = s := by
  change tr = [] ∧ (r, s') = (.error e, s) ↔ _
  rw [Prod.mk.injEq]

@[simp] theorem runs_pure_bind {a : α} {f : α → Proc C R σ ε β} {r : Except ε β} :
    ((Pure.pure a : Proc C R σ ε α) >>= f).Runs s tr r s' ↔ (f a).Runs s tr r s' := Iff.rfl

theorem runs_bind_pure {t : Proc C R σ ε α} {r : Except ε α} :
    (t >>= Pure.pure).Runs s tr r s' ↔ t.Runs s tr r s' := by
  rw [runs_bind]
  constructor
  · rintro (⟨e, rfl, ht⟩ | ⟨tr₁, tr₂, a, mid, rfl, ht, hr⟩)
    · exact ht
    · obtain ⟨rfl, rfl, rfl⟩ := runs_pure.mp hr
      rwa [List.append_nil]
  · intro ht
    cases r with
    | error e => exact .inl ⟨e, rfl, ht⟩
    | ok a => exact .inr ⟨tr, [], a, s', (List.append_nil tr).symm, ht, runs_pure.mpr ⟨rfl, rfl, rfl⟩⟩

theorem runs_lift_bind {p : Prog C R α} {f : α → Proc C R σ ε β} {r : Except ε β} :
    ((lift p : Proc C R σ ε α) >>= f).Runs s tr r s' ↔
      ∃ tr₁ tr₂ a, tr = tr₁ ++ tr₂ ∧ p.Runs tr₁ a ∧ (f a).Runs s tr₂ r s' := by
  have hlift (tr₁ : List (Event C R)) (o : Except ε α) (mid : σ) :
      (lift p : Proc C R σ ε α).Runs s tr₁ o mid ↔ ∃ a, p.Runs tr₁ a ∧ o = .ok a ∧ mid = s := by
    refine Prog.runs_bind.trans ⟨?_, ?_⟩
    · rintro ⟨tr₂, tr₃, a, rfl, hp, rfl, heq⟩
      obtain ⟨rfl, rfl⟩ := Prod.mk.inj heq
      exact ⟨a, by rwa [List.append_nil], rfl, rfl⟩
    · rintro ⟨a, hp, rfl, rfl⟩
      exact ⟨tr₁, [], a, (List.append_nil tr₁).symm, hp, rfl, rfl⟩
  rw [runs_bind]
  simp only [hlift]
  constructor
  · rintro (⟨e, -, a, -, habs, -⟩ | ⟨tr₁, tr₂, a, mid, rfl, ⟨a', hp, heq, rfl⟩, hf⟩)
    · cases habs
    · cases heq
      exact ⟨tr₁, tr₂, a, rfl, hp, hf⟩
  · rintro ⟨tr₁, tr₂, a, rfl, hp, hf⟩
    exact .inr ⟨tr₁, tr₂, a, s, rfl, ⟨a, hp, rfl, rfl⟩, hf⟩

/-- A fallible program whose failure is handled by `onError`; as a rule that leaves the body. -/
def attempt {ε' : Type} (p : Prog C R (Except ε' α)) (onError : ε' → Proc C R σ ε α) :
    Proc C R σ ε α := do
  match ← lift p with
  | .error e => onError e
  | .ok a => Pure.pure a

theorem runs_attempt_bind {ε' : Type} {p : Prog C R (Except ε' α)}
    {onError : ε' → Proc C R σ ε α} {f : α → Proc C R σ ε β} {r : Except ε β} :
    (attempt p onError >>= f).Runs s tr r s' ↔
      (∃ tr₁ tr₂ e, tr = tr₁ ++ tr₂ ∧ p.Runs tr₁ (.error e) ∧
        (onError e >>= f).Runs s tr₂ r s') ∨
      ∃ tr₁ tr₂ a, tr = tr₁ ++ tr₂ ∧ p.Runs tr₁ (.ok a) ∧ (f a).Runs s tr₂ r s' := by
  have hassoc : (attempt p onError >>= f).Runs s tr r s' ↔
      ((lift p : Proc C R σ ε _) >>= fun
        | .error e => onError e >>= f
        | .ok a => f a).Runs s tr r s' := by
    have hbind : (attempt p onError >>= f) s = ((lift p : Proc C R σ ε _) >>= fun
        | .error e => onError e >>= f
        | .ok a => f a) s := by
      change ((p.bind _).bind _).bind _ = (p.bind _).bind _
      rw [Prog.bind_assoc, Prog.bind_assoc, Prog.bind_assoc]
      congr 1
      funext o
      cases o with
      | error e => rfl
      | ok a => rfl
    rw [Runs, Runs, hbind]
  rw [hassoc, runs_lift_bind]
  constructor
  · rintro ⟨tr₁, tr₂, e | a, rfl, hp, hf⟩
    · exact .inl ⟨tr₁, tr₂, e, rfl, hp, hf⟩
    · exact .inr ⟨tr₁, tr₂, a, rfl, hp, hf⟩
  · rintro (⟨tr₁, tr₂, e, rfl, hp, hf⟩ | ⟨tr₁, tr₂, a, rfl, hp, hf⟩)
    · exact ⟨tr₁, tr₂, .error e, rfl, hp, hf⟩
    · exact ⟨tr₁, tr₂, .ok a, rfl, hp, hf⟩

end Proc

end LocalFiles.Interaction
