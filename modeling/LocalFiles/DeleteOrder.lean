import LocalFiles.DeleteTree

/-!
# DeleteOrder — what recursive deletion does to a finite tree

Against a backend that serves a finite directory tree without failures the deletion runs through
a script that is a plain recursion over the tree: list and charge the children of a directory,
delete them in listing order, then remove the directory.
-/

namespace LocalFiles.Delete

open Interaction

/-! ## 1. Trees -/

/-- What a directory lists, in listing order, each directory with what it lists itself. -/
inductive Listing (P : Type) where
  | empty
  | nonDirectory (path : P) (rest : Listing P)
  | directory (path : P) (children rest : Listing P)
  deriving DecidableEq, Repr

inductive Removal (P : Type) where
  | nonDirectory (path : P)
  | directory (path : P)
  deriving DecidableEq, Repr

namespace Listing

variable {P : Type}

def paths : Listing P → List P
  | .empty => []
  | .nonDirectory path rest => path :: rest.paths
  | .directory path _ rest => path :: rest.paths

/-- Every entry at or below the listing with its depth. -/
def entries (depth : Nat) : Listing P → List (P × Nat)
  | .empty => []
  | .nonDirectory path rest => (path, depth) :: rest.entries depth
  | .directory path children rest =>
    (path, depth) :: (children.entries (depth + 1) ++ rest.entries depth)

/-- The removals in post-order, siblings in listing order. -/
def postOrder : Listing P → List (Removal P)
  | .empty => []
  | .nonDirectory path rest => .nonDirectory path :: rest.postOrder
  | .directory path children rest => children.postOrder ++ .directory path :: rest.postOrder

def directories : Listing P → List P
  | .empty => []
  | .nonDirectory _ rest => rest.directories
  | .directory path children rest => path :: (children.directories ++ rest.directories)

/-- The number of items that the work stack goes through. -/
def size : Listing P → Nat
  | .empty => 0
  | .nonDirectory _ rest => rest.size + 1
  | .directory _ children rest => children.size + rest.size + 2

variable (len : P → Nat)

def weight : Listing P → Nat
  | .empty => 0
  | .nonDirectory path rest => len path + rest.weight
  | .directory path _ rest => len path + rest.weight

/-- The most path bytes that wait at one time while the listing is deleted. -/
def peak : Listing P → Nat
  | .empty => 0
  | .nonDirectory path rest => max (len path + rest.weight len) rest.peak
  | .directory path children rest => max (len path + rest.weight len + children.peak) rest.peak

theorem weight_le_peak (l : Listing P) : l.weight len ≤ l.peak len := by
  cases l with
  | empty => exact Nat.le_refl 0
  | nonDirectory path rest => exact Nat.le_max_left ..
  | directory path children rest =>
    unfold weight peak
    omega

theorem sum_paths (l : Listing P) : l.weight len = (l.paths.map len).sum := by
  induction l with
  | empty => rfl
  | nonDirectory path rest ih => rw [weight, paths, List.map_cons, List.sum_cons, ih]
  | directory path children rest _ ih => rw [weight, paths, List.map_cons, List.sum_cons, ih]

theorem length_paths_le (l : Listing P) : l.paths.length ≤ l.size := by
  induction l with
  | empty => exact Nat.le_refl 0
  | nonDirectory path rest ih =>
    simp only [paths, size, List.length_cons]
    omega
  | directory path children rest _ ih =>
    simp only [paths, size, List.length_cons]
    omega

end Listing

/-! ## 2. The script -/

/-- What the script is about: removals, opened directories, entries that a reader delivered and
    charges to the budget. -/
inductive Visible (P : Type) where
  | removed (removal : Removal P)
  | opened (path : P)
  | listed (path : P)
  | charged (depth : Nat)
  deriving DecidableEq, Repr

section Script

variable {P M R : Type}

def seen : (c : DeleteCall P M R) → c.Result → Option (Visible P)
  | .removeNonDirectory path _, _ => some (.removed (.nonDirectory path))
  | .removeEmptyDirectory path, _ => some (.removed (.directory path))
  | .openDirectory path, _ => some (.opened path)
  | .nextChild _ _, (.ok (some child), _) => some (.listed child)
  | .discover depth, _ => some (.charged depth)
  | _, _ => none

abbrev DeleteTrace [QubitBudget] (P M R : Type) :=
  List (Event (Locals P × DeleteCall P M R) fun c => c.2.Result)

def visible [QubitBudget] (tr : DeleteTrace P M R) : List (Visible P) :=
  tr.filterMap fun ev => seen ev.call.2 ev.answer

theorem visible_append [QubitBudget] (tr tr' : DeleteTrace P M R) :
    visible (tr ++ tr') = visible tr ++ visible tr' := List.filterMap_append

/-- The reading of a directory's children. -/
def reading (depth : Nat) (children : List P) : List (Visible P) :=
  children.flatMap fun child => [.listed child, .charged (depth + 1)]

def script (depth : Nat) : Listing P → List (Visible P)
  | .empty => []
  | .nonDirectory path rest => .removed (.nonDirectory path) :: script depth rest
  | .directory path children rest =>
    .opened path :: (reading depth children.paths ++ script (depth + 1) children ++
      .removed (.directory path) :: script depth rest)

def removedOf (v : List (Visible P)) : List (Removal P) :=
  v.filterMap fun | .removed removal => some removal | _ => none

def openedOf (v : List (Visible P)) : List P :=
  v.filterMap fun | .opened path => some path | _ => none

def listedOf (v : List (Visible P)) : List P :=
  v.filterMap fun | .listed path => some path | _ => none

def chargedOf (v : List (Visible P)) : List Nat :=
  v.filterMap fun | .charged depth => some depth | _ => none

theorem removedOf_append (v w : List (Visible P)) :
    removedOf (v ++ w) = removedOf v ++ removedOf w := List.filterMap_append

theorem openedOf_append (v w : List (Visible P)) :
    openedOf (v ++ w) = openedOf v ++ openedOf w := List.filterMap_append

theorem listedOf_append (v w : List (Visible P)) :
    listedOf (v ++ w) = listedOf v ++ listedOf w := List.filterMap_append

theorem chargedOf_append (v w : List (Visible P)) :
    chargedOf (v ++ w) = chargedOf v ++ chargedOf w := List.filterMap_append

theorem reading_projections (depth : Nat) (children : List P) :
    removedOf (reading depth children) = [] ∧ openedOf (reading depth children) = [] ∧
    listedOf (reading depth children) = children ∧
    chargedOf (reading depth children) = children.map fun _ => depth + 1 := by
  induction children with
  | nil => exact ⟨rfl, rfl, rfl, rfl⟩
  | cons child children ih =>
    obtain ⟨hremoved, hopened, hlisted, hcharged⟩ := ih
    have hcons : reading depth (child :: children) =
        [.listed child, .charged (depth + 1)] ++ reading depth children := rfl
    rw [hcons, removedOf_append, openedOf_append, listedOf_append, chargedOf_append, hremoved,
      hopened, hlisted, hcharged]
    exact ⟨rfl, rfl, rfl, rfl⟩

theorem removedOf_script (depth : Nat) (l : Listing P) :
    removedOf (script depth l) = l.postOrder := by
  induction l generalizing depth with
  | empty => rfl
  | nonDirectory path rest ih =>
    show _ :: removedOf (script depth rest) = _
    rw [ih]
    rfl
  | directory path children rest ihc ihr =>
    show removedOf (_ ++ _ ++ _ :: script depth rest) = _
    rw [removedOf_append, removedOf_append, (reading_projections depth children.paths).1, ihc]
    show [] ++ _ ++ _ :: removedOf (script depth rest) = _
    rw [ihr]
    rfl

theorem openedOf_script (depth : Nat) (l : Listing P) :
    openedOf (script depth l) = l.directories := by
  induction l generalizing depth with
  | empty => rfl
  | nonDirectory path rest ih => exact ih depth
  | directory path children rest ihc ihr =>
    show path :: openedOf (_ ++ _ ++ _ :: script depth rest) = _
    rw [openedOf_append, openedOf_append, (reading_projections depth children.paths).2.1, ihc]
    show path :: ([] ++ _ ++ openedOf (script depth rest)) = _
    rw [ihr]
    rfl

/-- The entries below the listing in the order in which the script finds them. -/
def found (depth : Nat) : Listing P → List (P × Nat)
  | .empty => []
  | .nonDirectory _ rest => found depth rest
  | .directory _ children rest =>
    children.paths.map (·, depth + 1) ++ found (depth + 1) children ++ found depth rest

theorem listedOf_script (depth : Nat) (l : Listing P) :
    listedOf (script depth l) = (found depth l).map Prod.fst ∧
    chargedOf (script depth l) = (found depth l).map Prod.snd := by
  induction l generalizing depth with
  | empty => exact ⟨rfl, rfl⟩
  | nonDirectory path rest ih => exact ih depth
  | directory path children rest ihc ihr =>
    obtain ⟨-, -, hlisted, hcharged⟩ := reading_projections depth children.paths
    unfold found
    constructor
    · show listedOf (_ ++ _ ++ _ :: script depth rest) = _
      rw [listedOf_append, listedOf_append, hlisted, (ihc (depth + 1)).1, List.map_append,
        List.map_append, List.map_map]
      show _ ++ _ ++ listedOf (script depth rest) = _
      rw [(ihr depth).1]
      congr 2
      exact (List.map_id _).symm
    · show chargedOf (_ ++ _ ++ _ :: script depth rest) = _
      rw [chargedOf_append, chargedOf_append, hcharged, (ihc (depth + 1)).2, List.map_append,
        List.map_append, List.map_map]
      show _ ++ _ ++ chargedOf (script depth rest) = _
      rw [(ihr depth).2]
      rfl

/-- The entries of the listing are its own ones and those found below it. -/
theorem found_perm (depth : Nat) (l : Listing P) :
    (l.paths.map (·, depth) ++ found depth l).Perm (l.entries depth) := by
  induction l generalizing depth with
  | empty => exact List.Perm.refl _
  | nonDirectory path rest ih => exact (ih depth).cons (path, depth)
  | directory path children rest ihc ihr =>
    apply List.Perm.cons (path, depth)
    show (rest.paths.map (·, depth) ++
      (children.paths.map (·, depth + 1) ++ found (depth + 1) children ++ found depth rest)).Perm _
    refine List.Perm.trans ?_ ((ihc (depth + 1)).append (ihr depth))
    rw [← List.append_assoc, ← List.append_assoc (_ ++ _)]
    exact List.perm_append_comm.append_right _

end Script

/-! ## 3. A backend that serves a tree -/

section Serving

variable {P M R : Type}

/-- The answers of a backend whose calls do not fail. -/
structure Contents (P M R : Type) where
  metadata : P → M
  openDirectory : P → R
  nextChild : P → R → Option P × R

/-- The backend answers from the contents, and the deadline is never reached. -/
def Answers (T : Contents P M R) (options : LocalDeleteOptions) :
    (c : DeleteCall P M R) → c.Result → Prop
  | .metadata path, answer => answer = .ok (T.metadata path)
  | .openDirectory path, answer => answer = .ok (T.openDirectory path)
  | .nextChild parent reader, answer =>
    answer = (.ok (T.nextChild parent reader).1, (T.nextChild parent reader).2)
  | .removeNonDirectory _ _, answer => answer = .ok ()
  | .removeEmptyDirectory _, answer => answer = .ok ()
  | .beforeRemove _, answer => answer = .ok ()
  | .elapsed, (now : Nat) => ∀ limit, options.deadline = some limit → now < limit
  | .discover _, _ => True

/-- The reader delivers these children and then ends. -/
def Reads (T : Contents P M R) (parent : P) (reader : R) : List P → Prop
  | [] => (T.nextChild parent reader).1 = none
  | child :: children => (T.nextChild parent reader).1 = some child ∧
      Reads T parent (T.nextChild parent reader).2 children

/-- The contents are those of the finite tree. -/
def Serves (B : DeleteBackend P M) (T : Contents P M R) : Listing P → Prop
  | .empty => True
  | .nonDirectory path rest => B.isDirectory (T.metadata path) = false ∧ Serves B T rest
  | .directory path children rest => B.isDirectory (T.metadata path) = true ∧
      Reads T path (T.openDirectory path) children.paths ∧ Serves B T children ∧ Serves B T rest

/-- No limit of the options is exceeded by the deletion of the tree. -/
structure Within (B : DeleteBackend P M) (options : LocalDeleteOptions) (tree : Listing P) :
    Prop where
  depth : ∀ limit, options.maxDepth = some limit → ∀ e ∈ tree.entries 0, e.2 ≤ limit
  entries : ∀ limit, options.maxEntries = some limit → (tree.entries 0).length ≤ limit
  pending : tree.peak B.len ≤ DeleteBudget.pendingLimit options

theorem weight_paths (B : DeleteBackend P M) (l : Listing P) (depth : Nat) :
    Delete.weight B (l.paths.map fun path => (.inspect path, depth)) = l.weight B.len := by
  unfold Delete.weight
  rw [List.map_map, Listing.sum_paths]
  rfl

end Serving

/-! ## 4. Execution -/

section Execution

variable [QubitBudget] {P M R α β : Type} {B : DeleteBackend P M} {T : Contents P M R}
  {options : LocalDeleteOptions}
  {env : DeleteTrace P M R → (c : Locals P × DeleteCall P M R) → c.2.Result}

/-- The procedure ends normally, having shown the visible events `v`. -/
def Goes (env : DeleteTrace P M R → (c : Locals P × DeleteCall P M R) → c.2.Result)
    (t : DeleteM P M R α) (s : Locals P) (a : α) (s' : Locals P) (v : List (Visible P)) : Prop :=
  ∀ past, ∃ tr, t.exec env s past = (past ++ tr, .ok a, s') ∧ visible tr = v

theorem goes_pure {s : Locals P} {a : α} : Goes env (pure a) s a s [] := by
  intro past
  exact ⟨[], by rw [Proc.exec_pure, List.append_nil], rfl⟩

theorem goes_modify {s : Locals P} {g : Locals P → Locals P} :
    Goes env (Proc.modify g) s () (g s) [] := by
  intro past
  exact ⟨[], by rw [Proc.exec_modify, List.append_nil], rfl⟩

theorem Goes.bind {t : DeleteM P M R α} {f : α → DeleteM P M R β} {s s₁ s₂ : Locals P} {a : α}
    {b : β} {v w : List (Visible P)} (ht : Goes env t s a s₁ v) (hf : Goes env (f a) s₁ b s₂ w) :
    Goes env (t >>= f) s b s₂ (v ++ w) := by
  intro past
  obtain ⟨tr, hexec, hv⟩ := ht past
  obtain ⟨tr', hexec', hw⟩ := hf (past ++ tr)
  refine ⟨tr ++ tr', ?_, by rw [visible_append, hv, hw]⟩
  rw [Proc.exec_bind hexec, hexec', List.append_assoc]

/-- A step that shows nothing. -/
theorem Goes.then {t : DeleteM P M R α} {f : α → DeleteM P M R β} {s s₁ s₂ : Locals P} {a : α}
    {b : β} {w : List (Visible P)} (ht : Goes env t s a s₁ []) (hf : Goes env (f a) s₁ b s₂ w) :
    Goes env (t >>= f) s b s₂ w := ht.bind hf

theorem goes_get {f : Locals P → DeleteM P M R α} {s s' : Locals P} {a : α}
    {v : List (Visible P)} (h : Goes env (f s) s a s' v) : Goes env (Proc.get >>= f) s a s' v := h

theorem goes_call {s : Locals P} (c : DeleteCall P M R) {a : c.Result}
    (h : ∀ past, env past (s, c) = a) : Goes env (call c) s a s (seen c a).toList := by
  intro past
  refine ⟨[⟨(s, c), a⟩], ?_, ?_⟩
  · rw [← h past]
    rfl
  · unfold visible
    rw [List.filterMap_cons]
    cases seen c a with
    | none => rfl
    | some event => rfl

theorem goes_orFail {s : Locals P} {state : LocalFileEffectState} {path : P} {a : α} :
    Goes env (orFail B state path (.ok a) : DeleteM P M R α) s a s [] := goes_pure

section Faithful

variable (hfaithful : ∀ past s c, Answers T options c (env past (s, c)))

include hfaithful

theorem goes_checkDeadline {s : Locals P} (hs : s.budget.options = options) :
    Goes env checkDeadline s (.ok ()) s [] := by
  intro past
  cases hdeadline : s.budget.options.deadline with
  | none =>
    refine ⟨[], ?_, rfl⟩
    unfold checkDeadline
    rw [Proc.exec_get_bind, hdeadline, List.append_nil]
    rfl
  | some limit =>
    have hlt := hfaithful past s .elapsed limit (by rw [← hs, hdeadline])
    refine ⟨[⟨(s, .elapsed), env past (s, .elapsed)⟩], ?_, rfl⟩
    unfold checkDeadline
    rw [Proc.exec_get_bind, hdeadline]
    have hlate : ¬ limit ≤ (show Nat from env past (s, .elapsed)) := Nat.not_le.mpr hlt
    show Proc.exec env (if limit ≤ (show Nat from env past (s, .elapsed)) then
      pure (Except.error DeleteBudget.timedOut) else pure (Except.ok ())) s _ = _
    rw [if_neg hlate]
    rfl

/-- The budget has room for so many more entries. -/
def Affords (budget : DeleteBudget) (n : Nat) : Prop :=
  ∀ entries, budget.entries = some entries → n ≤ entries.remaining

omit hfaithful in
theorem charge_affords {budget : DeleteBudget} {depth n : Nat}
    (hdepth : ∀ limit, budget.options.maxDepth = some limit → depth ≤ limit)
    (h : Affords budget (n + 1)) :
    ∃ entries, budget.charge depth = .ok { budget with entries := entries } ∧
      Affords { budget with entries := entries } n := by
  have hnone : budget.options.maxDepth.filter (· < depth) = none := by
    rw [Option.filter_eq_none_iff]
    intro limit hlimit
    have hle := hdepth limit hlimit
    rw [decide_eq_true_eq]
    omega
  cases hentries : budget.entries with
  | none =>
    refine ⟨none, ?_, by rintro _ ⟨⟩⟩
    simp only [DeleteBudget.charge, hnone, hentries]
    rw [← hentries]
  | some entries =>
    have hroom := h entries hentries
    obtain ⟨entries', hconsume, hconsumed⟩ :=
      ResourceBudget.exists_consumed (by omega : 1 ≤ entries.remaining)
    refine ⟨some entries', ?_, ?_⟩
    · simp only [DeleteBudget.charge, hnone, hentries, hconsume]
      rfl
    · rintro _ ⟨⟩
      rw [hconsumed.remaining]
      omega

omit hfaithful in
/-- The locals after an entry is charged and its path reserved. -/
def registered (s : Locals P) (entries : Option ResourceBudget) (bytes : Nat) : Locals P :=
  { s with budget := ⟨s.budget.options, entries, s.budget.pendingBytes + bytes⟩ }

theorem goes_registerEntry {s : Locals P} (path : P) {depth n : Nat} (hs : s.budget.options = options)
    (hdepth : ∀ limit, options.maxDepth = some limit → depth ≤ limit)
    (hroom : Affords s.budget (n + 1))
    (hpending : s.budget.pendingBytes + B.len path ≤ DeleteBudget.pendingLimit options) :
    ∃ entries, Affords (registered s entries (B.len path)).budget n ∧
      Goes env (registerEntry B path depth) s (.ok ()) (registered s entries (B.len path))
        [.charged depth] := by
  rw [← hs] at hdepth
  obtain ⟨entries, hcharge, hroom'⟩ := charge_affords hdepth hroom
  refine ⟨entries, hroom', ?_⟩
  have hlimit := pendingLimit_le s.budget.options
  rw [← hs] at hpending
  have hreserve : ({ s.budget with entries := entries } : DeleteBudget).reservePath (B.len path) =
      .ok (registered s entries (B.len path)).budget := by
    unfold DeleteBudget.reservePath
    dsimp only
    rw [if_neg (by omega), if_neg (by omega)]
    rfl
  have hdiscover : Goes env (discover depth) s (.ok ())
      { s with budget := { s.budget with entries := entries } } [.charged depth] := by
    refine Goes.bind (v := [.charged depth]) (goes_call (.discover depth) (a := (() : Unit)) fun _ => rfl) ?_
    refine (goes_checkDeadline hfaithful hs).then (goes_get ?_)
    rw [hcharge]
    exact goes_modify.then goes_pure
  refine hdiscover.bind (w := []) (goes_get ?_)
  rw [hreserve]
  exact goes_modify.then goes_pure

theorem goes_answer {s : Locals P} (c : DeleteCall P M R) {a : c.Result}
    (h : ∀ answer, Answers T options c answer → answer = a) :
    Goes env (call c) s a s (seen c a).toList :=
  goes_call c fun past => h _ (hfaithful past s c)

theorem goes_nextChild {s : Locals P} {path : P} {reader : R} {child : Option P}
    (h : (T.nextChild path reader).1 = child) :
    Goes env (nextChild path reader) s (.ok child, (T.nextChild path reader).2) s
      (child.map Visible.listed).toList := by
  have hcall := goes_answer hfaithful (.nextChild path reader) (s := s) fun answer ha => ha
  rw [h] at hcall
  cases child with
  | none => exact hcall
  | some child => exact hcall

/-- The inner loop reads the children onto the stack, the last one on top. -/
theorem goes_readChildren {path : P} {n : Nat} (depth : Nat) (children : List P) (reader : R) (bound : Nat)
    (hbound : children.length < bound) {s : Locals P} (hs : s.budget.options = options)
    (hreads : Reads T path reader children)
    (hdepth : ∀ limit, options.maxDepth = some limit → children ≠ [] → depth + 1 ≤ limit)
    (hroom : Affords s.budget (children.length + n))
    (hpending : s.budget.pendingBytes + (children.map B.len).sum ≤
      DeleteBudget.pendingLimit options) :
    ∃ entries, Affords (registered s entries (children.map B.len).sum).budget n ∧
      Goes env (readChildren B bound path reader depth) s ()
        { registered s entries (children.map B.len).sum with
          work := (children.map fun child => (.inspect child, depth + 1)).reverse ++ s.work }
        (reading depth children) := by
  induction children generalizing reader bound s with
  | nil =>
    obtain ⟨bound, rfl⟩ := Nat.exists_eq_add_one_of_ne_zero (Nat.ne_of_gt hbound)
    refine ⟨s.budget.entries, ?_, ?_⟩
    · rw [List.length_nil, Nat.zero_add] at hroom
      exact hroom
    · refine (goes_checkDeadline hfaithful hs).then (goes_orFail.then ?_)
      exact (goes_nextChild hfaithful hreads).then (goes_orFail.then goes_pure)
  | cons child children ih =>
    rw [List.length_cons] at hbound hroom
    obtain ⟨bound, rfl⟩ : ∃ b, bound = b + 1 := Nat.exists_eq_add_one_of_ne_zero (by omega)
    rw [List.map_cons, List.sum_cons] at hpending
    have hchild : ∀ limit, options.maxDepth = some limit → depth + 1 ≤ limit :=
      fun limit hlimit => hdepth limit hlimit (List.cons_ne_nil _ _)
    -- the first child is charged and pushed, then the rest is read
    obtain ⟨entries, hroom', hregister⟩ := goes_registerEntry (B := B) (T := T) hfaithful child hs
      hchild (show Affords s.budget (children.length + n + 1) by rwa [Nat.add_right_comm] at hroom)
      (show s.budget.pendingBytes + B.len child ≤ _ by omega)
    obtain ⟨entries', hroom'', hrest⟩ := ih (T.nextChild path reader).2 bound (by omega)
      (s := { registered s entries (B.len child) with
        work := (.inspect child, depth + 1) :: s.work }) hs hreads.2
      (fun limit hlimit _ => hchild limit hlimit) hroom' (by
        show s.budget.pendingBytes + B.len child + _ ≤ _
        omega)
    refine ⟨entries', ?_, ?_⟩
    · rw [List.map_cons, List.sum_cons]
      unfold registered at hroom'' ⊢
      rw [← Nat.add_assoc]
      exact hroom''
    · refine (goes_checkDeadline hfaithful hs).then (goes_orFail.then ?_)
      refine (goes_nextChild hfaithful hreads.1).bind (w := .charged (depth + 1) :: _)
        (goes_orFail.then ?_)
      refine hregister.bind (goes_orFail.then (goes_modify.then ?_))
      rw [List.map_cons, List.sum_cons, List.map_cons, List.reverse_cons, List.append_assoc]
      unfold registered at hrest ⊢
      rw [← Nat.add_assoc]
      exact hrest

omit hfaithful in
/-- Between two items: the stack, its weight in the counter, and room for `m` more entries. -/
structure Stands (B : DeleteBackend P M) (options : LocalDeleteOptions)
    (work : List (DeleteWork P × Nat)) (m : Nat) (s : Locals P) : Prop where
  options_eq : s.budget.options = options
  work_eq : s.work = work
  pending : s.budget.pendingBytes = weight B work
  room : Affords s.budget m

/-- One turn of the outer loop: the item is popped and its path released, then it is processed. -/
theorem goes_item (bound : Nat) {item : DeleteWork P} {depth m : Nat} {rest : List (DeleteWork P × Nat)}
    {s : Locals P} (h : Stands B options ((item, depth) :: rest) m s) :
    ∃ s₁, Stands B options rest m s₁ ∧ ∀ s' v n s'' w,
      Goes env (match item with
        | .inspect path => inspect B bound path depth
        | .removeDirectory path => removeDirectory B path : DeleteM P M R Unit) s₁ () s' v →
      Goes env (workLoop B bound n) s' () s'' w →
      Goes env (workLoop B bound (n + 1)) s () s'' (v ++ w) := by
  have hpending : s.budget.pendingBytes = B.len item.path + weight B rest := by
    rw [h.pending, weight_cons]
  let s₁ : Locals P := { s with
    work := rest
    budget := { s.budget with
      pendingBytes := s.budget.pendingBytes - B.len item.path } }
  have h₁ : Stands B options rest m s₁ := by
    refine ⟨h.options_eq, rfl, ?_, h.room⟩
    show s.budget.pendingBytes - B.len item.path = weight B rest
    omega
  refine ⟨s₁, h₁, ?_⟩
  intro s' v n s'' w hitem hrest
  have hpop : Goes env (pop : DeleteM P M R _) s (some (item, depth)) { s with work := rest } [] := by
    apply goes_get
    rw [h.work_eq]
    exact goes_modify.then goes_pure
  have hrelease : Goes env (releasePath B item.path : DeleteM P M R _) { s with work := rest } ()
      s₁ [] := by
    apply goes_get
    unfold DeleteBudget.releasePath
    dsimp only
    rw [if_neg (by omega)]
    exact goes_modify
  refine hpop.then ?_
  have hprocess : Goes env (process B bound item depth : DeleteM P M R Unit)
      { s with work := rest } () s' v :=
    hrelease.then ((goes_checkDeadline hfaithful h₁.options_eq).then (goes_orFail.then hitem))
  exact hprocess.bind hrest

theorem goes_nonDirectory (bound : Nat) {path : P} {depth m : Nat} {rest : List (DeleteWork P × Nat)}
    {s : Locals P} (h : Stands B options ((.inspect path, depth) :: rest) m s) (hdepth : 0 < depth)
    (htype : B.isDirectory (T.metadata path) = false) :
    ∃ s', Stands B options rest m s' ∧ ∀ n s'' w,
      Goes env (workLoop B bound n : DeleteM P M R Unit) s' () s'' w →
      Goes env (workLoop B bound (n + 1)) s () s''
        (.removed (.nonDirectory path) :: w) := by
  obtain ⟨s₁, h₁, hitem⟩ := goes_item hfaithful bound h
  refine ⟨{ s₁ with changed := true }, ⟨h₁.options_eq, h₁.work_eq, h₁.pending, h₁.room⟩, ?_⟩
  intro n s'' w hrest
  apply hitem _ [.removed (.nonDirectory path)] n s'' w _ hrest
  refine (goes_answer hfaithful (.metadata path) fun _ ha => ha).then (goes_orFail.then ?_)
  dsimp only
  rw [htype, if_neg (by simp only [Bool.not_false, Bool.and_true, decide_eq_true_eq]; omega),
    if_neg Bool.false_ne_true]
  refine (goes_checkDeadline hfaithful h₁.options_eq).then (goes_orFail.then ?_)
  refine (goes_answer hfaithful (.beforeRemove path) fun _ ha => ha).then (goes_orFail.then ?_)
  refine (goes_answer hfaithful (.removeNonDirectory path (T.metadata path)) fun _ ha => ha).bind
    (w := []) (goes_orFail.then goes_modify)

theorem goes_removal (bound : Nat) {path : P} {depth m : Nat} {rest : List (DeleteWork P × Nat)}
    {s : Locals P} (h : Stands B options ((.removeDirectory path, depth) :: rest) m s) :
    ∃ s', Stands B options rest m s' ∧ ∀ n s'' w,
      Goes env (workLoop B bound n : DeleteM P M R Unit) s' () s'' w →
      Goes env (workLoop B bound (n + 1)) s () s'' (.removed (.directory path) :: w) := by
  obtain ⟨s₁, h₁, hitem⟩ := goes_item hfaithful bound h
  refine ⟨{ s₁ with changed := true }, ⟨h₁.options_eq, h₁.work_eq, h₁.pending, h₁.room⟩, ?_⟩
  intro n s'' w hrest
  apply hitem _ [.removed (.directory path)] n s'' w _ hrest
  refine (goes_answer hfaithful (.beforeRemove path) fun _ ha => ha).then (goes_orFail.then ?_)
  exact (goes_answer hfaithful (.removeEmptyDirectory path) fun _ ha => ha).bind
    (w := []) (goes_orFail.then goes_modify)

theorem goes_directory (bound : Nat) {path : P} {depth m : Nat} {rest : List (DeleteWork P × Nat)}
    {s : Locals P} {children : List P}
    (h : Stands B options ((.inspect path, depth) :: rest) (children.length + m) s)
    (htype : B.isDirectory (T.metadata path) = true)
    (hreads : Reads T path (T.openDirectory path) children) (hbound : children.length < bound)
    (hdepth : ∀ limit, options.maxDepth = some limit → children ≠ [] → depth + 1 ≤ limit)
    (hpending : weight B rest + B.len path + (children.map B.len).sum ≤
      DeleteBudget.pendingLimit options) :
    ∃ s', Stands B options ((children.map fun child => (.inspect child, depth + 1)) ++
        (.removeDirectory path, depth) :: rest) m s' ∧ ∀ n s'' w,
      Goes env (workLoop B bound n : DeleteM P M R Unit) s' () s'' w →
      Goes env (workLoop B bound (n + 1)) s () s''
        (.opened path :: (reading depth children ++ w)) := by
  obtain ⟨s₁, h₁, hitem⟩ := goes_item hfaithful bound h
  have hlimit := pendingLimit_le options
  have hweight : s₁.budget.pendingBytes = weight B rest := h₁.pending
  -- The directory itself is pushed back, to be removed after its children.
  let s₂ : Locals P := { registered s₁ s₁.budget.entries (B.len path) with
    work := (.removeDirectory path, depth) :: s₁.work }
  have hreserve : Goes env (reservePath B path : DeleteM P M R _) s₁ (.ok ())
      (registered s₁ s₁.budget.entries (B.len path)) [] := by
    apply goes_get
    unfold DeleteBudget.reservePath
    dsimp only
    rw [h₁.options_eq, if_neg (by omega), if_neg (by omega), ← h₁.options_eq]
    exact goes_modify.then goes_pure
  obtain ⟨entries, hroom, hread⟩ := goes_readChildren (B := B) (n := m) hfaithful depth
    children (T.openDirectory path) bound hbound (s := s₂) h₁.options_eq hreads hdepth h₁.room (by
      show s₁.budget.pendingBytes + B.len path + _ ≤ _
      omega)
  let items : List (DeleteWork P × Nat) := children.map fun child => (.inspect child, depth + 1)
  let s₃ : Locals P := { registered s₂ entries (children.map B.len).sum with
    work := items.reverse ++ s₂.work }
  have hreverse : Goes env (reverseFrom s₂.work.length : DeleteM P M R Unit) s₃ ()
      { s₃ with work := items ++ s₂.work } [] := by
    have hwork : (s₃.work.take (s₃.work.length - s₂.work.length)).reverse ++
        s₃.work.drop (s₃.work.length - s₂.work.length) = items ++ s₂.work := by
      show ((items.reverse ++ s₂.work).take ((items.reverse ++ s₂.work).length - _)).reverse ++
        (items.reverse ++ s₂.work).drop ((items.reverse ++ s₂.work).length - _) = _
      rw [List.length_append, Nat.add_sub_cancel, List.take_left, List.drop_left,
        List.reverse_reverse]
    unfold reverseFrom
    rw [← hwork]
    exact goes_modify
  refine ⟨{ s₃ with work := items ++ s₂.work }, ?_, ?_⟩
  · refine ⟨h₁.options_eq, ?_, ?_, hroom⟩
    · show items ++ (_ :: s₁.work) = _
      rw [h₁.work_eq]
    · have hitems : weight B items = (children.map B.len).sum := by
        show (List.map _ (List.map _ children)).sum = _
        rw [List.map_map]
        rfl
      show s₁.budget.pendingBytes + B.len path + (children.map B.len).sum = _
      rw [weight_append, weight_cons, hweight, hitems]
      show _ = _ + (B.len path + _)
      omega
  · intro n s'' w hrest
    have hinspect : Goes env (inspect B bound path depth : DeleteM P M R Unit) s₁ ()
        { s₃ with work := items ++ s₂.work } (.opened path :: reading depth children) := by
      refine (goes_answer hfaithful (.metadata path) fun _ ha => ha).then (goes_orFail.then ?_)
      dsimp only
      rw [htype, if_neg (by simp), if_pos rfl]
      refine (goes_checkDeadline hfaithful h₁.options_eq).then (goes_orFail.then ?_)
      refine (goes_answer hfaithful (.openDirectory path) fun _ ha => ha).bind
        (w := reading depth children) (goes_orFail.then ?_)
      refine hreserve.then (goes_orFail.then (goes_modify.then (goes_get ?_)))
      have hread₃ : Goes env (readChildren B bound path (T.openDirectory path) depth) s₂ () s₃
          (reading depth children) := hread
      have hboth := hread₃.bind (f := fun _ => reverseFrom s₂.work.length) hreverse
      rwa [List.append_nil] at hboth
    exact hitem _ _ n s'' w hinspect hrest

/-- The deletion of a listing runs through its script, whatever is below it on the stack. -/
theorem goes_listing (l : Listing P) {depth m bound : Nat} {rest : List (DeleteWork P × Nat)}
    {s : Locals P} (hpositive : 0 < depth) (hserves : Serves B T l)
    (h : Stands B options (l.paths.map (fun path => (.inspect path, depth)) ++ rest)
      ((found depth l).length + m) s)
    (hdepth : ∀ limit, options.maxDepth = some limit → ∀ e ∈ found depth l, e.2 ≤ limit)
    (hpeak : l.peak B.len + weight B rest ≤ DeleteBudget.pendingLimit options)
    (hbound : l.size < bound) :
    ∃ s', Stands B options rest m s' ∧ ∀ n s'' w,
      Goes env (workLoop B bound n : DeleteM P M R Unit) s' () s'' w →
      Goes env (workLoop B bound (n + l.size)) s () s'' (script depth l ++ w) := by
  induction l generalizing depth m rest s with
  | empty =>
    refine ⟨s, ?_, fun n s'' w hrest => hrest⟩
    rwa [show (found depth (Listing.empty : Listing P)).length + m = m from Nat.zero_add m] at h
  | nonDirectory path siblings ih =>
    have hsiblings := Listing.weight_le_peak B.len siblings
    simp only [Listing.peak, Listing.size] at hpeak hbound
    obtain ⟨s₁, h₁, hstep⟩ := goes_nonDirectory hfaithful bound h hpositive hserves.1
    obtain ⟨s₂, h₂, hrest⟩ := ih hpositive hserves.2 h₁ hdepth (by omega) (by omega)
    refine ⟨s₂, h₂, fun n s'' w hn => ?_⟩
    exact hstep _ s'' _ (hrest n s'' w hn)
  | directory path children siblings ihc ihs =>
    obtain ⟨htype, hreads, hchildren, hsiblings⟩ := hserves
    have hlength := Listing.length_paths_le children
    have hweight := Listing.weight_le_peak B.len children
    have hwaiting : weight B (siblings.paths.map (fun path => (.inspect path, depth)) ++ rest) =
        siblings.weight B.len + weight B rest := by
      rw [weight_append, weight_paths]
    simp only [Listing.peak, Listing.size] at hpeak hbound
    simp only [found, List.length_append, List.length_map] at h
    simp only [found, List.mem_append] at hdepth
    rw [Nat.add_assoc, Nat.add_assoc] at h
    change Stands B options ((.inspect path, depth) ::
      (siblings.paths.map (fun path => (.inspect path, depth)) ++ rest)) _ s at h
    -- The directory is opened and its children are pushed above it,
    obtain ⟨s₁, h₁, hopen⟩ := goes_directory hfaithful bound h htype hreads (by omega)
      (fun limit hlimit hne => by
        obtain ⟨child, hchild⟩ := List.exists_mem_of_ne_nil _ hne
        exact hdepth limit hlimit (child, depth + 1)
          (.inl (.inl (List.mem_map_of_mem hchild))))
      (by rw [hwaiting, ← Listing.sum_paths]; omega)
    -- then they are deleted,
    obtain ⟨s₂, h₂, hbelow⟩ := ihc (Nat.succ_pos depth) hchildren h₁
      (fun limit hlimit e he => hdepth limit hlimit e (.inl (.inr he)))
      (by rw [weight_cons, hwaiting]; show _ + (B.len path + _) ≤ _; omega) (by omega)
    -- then the directory itself, and after it its siblings.
    obtain ⟨s₃, h₃, hremove⟩ := goes_removal hfaithful bound h₂
    obtain ⟨s₄, h₄, hrest⟩ := ihs hpositive hsiblings h₃
      (fun limit hlimit e he => hdepth limit hlimit e (.inr he)) (by omega) (by omega)
    refine ⟨s₄, h₄, fun n s'' w hn => ?_⟩
    have hrun := hopen _ s'' _ (hbelow _ s'' _ (hremove _ s'' _ (hrest n s'' w hn)))
    simp only [script, Listing.size, List.cons_append, List.append_assoc]
    rwa [show n + (children.size + siblings.size + 2) = n + siblings.size + 1 + children.size + 1 by
      omega]

theorem goes_tree {root : P} {children : Listing P} {bound : Nat}
    (hserves : Serves B T (.directory root children .empty))
    (hwithin : Within B options (.directory root children .empty))
    (hbound : (Listing.directory root children .empty).size < bound) :
    ∃ s, Goes env (removeDirectoryTree B bound root) (start options) () s
      (.charged 0 :: script 0 (.directory root children .empty)) := by
  obtain ⟨htype, hreads, hchildren, -⟩ := hserves
  have hpeak := hwithin.pending
  have hweight := Listing.weight_le_peak B.len children
  have hlength := Listing.length_paths_le children
  have hperm := found_perm 1 children
  have hcount := hperm.length_eq
  rw [List.length_append, List.length_map] at hcount
  simp only [Listing.peak, Listing.weight] at hpeak
  simp only [Listing.size] at hbound
  have hdepth (limit : Nat) (hlimit : options.maxDepth = some limit) (e : P × Nat)
      (he : e ∈ children.paths.map (·, 1) ++ found 1 children) : e.2 ≤ limit := by
    apply hwithin.depth limit hlimit e
    exact List.mem_cons_of_mem _ (List.mem_append_left _ (hperm.subset he))
  have hroom : Affords (DeleteBudget.new options)
      (children.paths.length + ((found 1 children).length + 0) + 1) := by
    intro entries hentries
    obtain ⟨limit, hlimit, rfl⟩ := Option.map_eq_some_iff.mp hentries
    have hfits := hwithin.entries limit hlimit
    simp only [Listing.entries, List.length_cons, List.length_append, List.length_nil,
      Nat.zero_add] at hfits
    rw [ResourceBudget.remaining_new]
    omega
  obtain ⟨entries, hroom₁, hregister⟩ := goes_registerEntry (B := B) (s := start options)
    hfaithful root rfl (fun limit _ => Nat.zero_le limit) hroom (by
      show 0 + B.len root ≤ _
      omega)
  have h₁ : Stands B options [(.inspect root, 0)] (children.paths.length +
      ((found 1 children).length + 0)) { registered (start options) entries (B.len root) with
        work := [(.inspect root, 0)] } :=
    ⟨rfl, rfl, by
      show 0 + B.len root = _
      rw [weight_cons, weight_nil]
      exact Nat.add_comm 0 _, hroom₁⟩
  obtain ⟨s₂, h₂, hopen⟩ := goes_directory hfaithful bound h₁ htype hreads (by omega)
    (fun limit hlimit hne => by
      obtain ⟨child, hchild⟩ := List.exists_mem_of_ne_nil _ hne
      exact hdepth limit hlimit (child, 1)
        (List.mem_append_left _ (List.mem_map_of_mem hchild)))
    (by rw [weight_nil, ← Listing.sum_paths]; omega)
  -- the script of the root is opened, then its children are worked off, then it is removed
  obtain ⟨s₃, h₃, hbelow⟩ := goes_listing hfaithful children Nat.one_pos hchildren h₂
    (fun limit hlimit e he => hdepth limit hlimit e (List.mem_append_right _ he))
    (by
      rw [weight_cons, weight_nil]
      show _ + (B.len root + 0) ≤ _
      omega) (show children.size < bound by omega)
  obtain ⟨s₄, h₄, hremove⟩ := goes_removal hfaithful bound h₃
  -- a turn with no work left ends the loop
  have hend (n : Nat) : Goes env (workLoop B bound (n + 1) : DeleteM P M R Unit) s₄ () s₄ [] := by
    have hpop : Goes env (pop : DeleteM P M R _) s₄ none s₄ [] := by
      apply goes_get
      rw [h₄.work_eq]
      exact goes_pure
    exact hpop.then goes_pure
  refine ⟨s₄, ?_⟩
  -- what the bound is beyond the turns of the script is left over
  obtain ⟨n, rfl⟩ : ∃ n, bound = n + 1 + 1 + children.size + 1 :=
    ⟨bound - children.size - 3, by omega⟩
  have hrun := hopen _ s₄ _ (hbelow _ s₄ _ (hremove _ s₄ _ (hend n)))
  refine hregister.bind (goes_orFail.then (goes_modify.then ?_))
  show Goes env _ _ () s₄ (_ :: (reading 0 children.paths ++ script 1 children ++ [_]))
  rw [List.append_assoc]
  exact hrun

end Faithful

end Execution

/-! ## 5. The deletion of a tree and its accounting -/

/-- A finite directory tree served without failures, within the limits, is removed completely: the
    removals are its post-order, every directory and nothing else is opened, and every entry is
    charged once with its depth.  In every run whatsoever the counter is the weight of the stack at
    every call and at the end, and no arithmetic panics. -/
theorem removeDirectoryTree_complete_accounted [QubitBudget] {P M R : Type} (B : DeleteBackend P M)
    (options : LocalDeleteOptions) :
    (∀ (T : Contents P M R) (root : P) (children : Listing P) (bound : Nat)
        (env : DeleteTrace P M R → (c : Locals P × DeleteCall P M R) → c.2.Result),
      Serves B T (.directory root children .empty) →
      Within B options (.directory root children .empty) →
      (∀ past s c, Answers T options c (env past (s, c))) →
      (Listing.directory root children .empty).size < bound →
      ∃ tr s, (removeDirectoryTree B bound root).exec env (start options) [] = (tr, .ok (), s) ∧
        removedOf (visible tr) = (Listing.directory root children .empty).postOrder ∧
        openedOf (visible tr) = (Listing.directory root children .empty).directories ∧
        ∃ found : List (P × Nat),
          found.Perm ((Listing.directory root children .empty).entries 0) ∧
          chargedOf (visible tr) = found.map Prod.snd ∧
          root :: listedOf (visible tr) = found.map Prod.fst) ∧
    ∀ (root : P) (bound : Nat) (tr : DeleteTrace P M R)
        (r : Except (Option (Halt LocalFileError)) Unit) (s : Locals P),
      (removeDirectoryTree B bound root).Runs (start options) tr r s →
      (∀ ev ∈ tr, Accounted B 0 ev.call.1) ∧ Accounted B 0 s ∧
        ∀ message, r ≠ .error (some (.panic message)) := by
  constructor
  · intro T root children bound env hserves hwithin hfaithful hbound
    obtain ⟨s, hgoes⟩ := goes_tree hfaithful hserves hwithin hbound
    obtain ⟨tr, hexec, hvisible⟩ := hgoes []
    rw [List.nil_append] at hexec
    -- the run makes the calls of the script, and each part is read off it
    have hlisted := listedOf_script 0 (.directory root children .empty)
    refine ⟨tr, s, hexec, ?_, ?_, (root, 0) :: found 0 (.directory root children .empty), ?_, ?_, ?_⟩
    · rw [hvisible]
      exact removedOf_script 0 _
    · rw [hvisible]
      exact openedOf_script 0 _
    · exact found_perm 0 (.directory root children .empty)
    · rw [hvisible]
      exact congrArg (0 :: ·) hlisted.2
    · rw [hvisible]
      exact congrArg (root :: ·) hlisted.1
  · intro root bound tr r s hruns
    obtain ⟨hcalls, hok, herror⟩ :=
      keeps_removeDirectoryTree bound root _ tr r s (accounted_start options) hruns
    cases r with
    | ok a => exact ⟨hcalls, hok a rfl, by rintro message ⟨⟩⟩
    | error e =>
      obtain ⟨hexit, hs⟩ := herror e rfl
      refine ⟨hcalls, hs, ?_⟩
      rintro message ⟨⟩
      exact hexit

/-! The directory 0 with a file 1 and a directory 2 that holds a file 3. -/

section Sample

open scoped QubitBudget

def sampleBackend : DeleteBackend Nat Bool where
  path := fun p => [toString p]
  encodedLen := fun _ => 1
  isDirectory := id

def sampleContents : Contents Nat Bool (List Nat) where
  metadata := fun p => p = 0 || p = 2
  openDirectory := fun p => if p = 0 then [1, 2] else [3]
  nextChild := fun _ reader => (reader.head?, reader.tail)

def sampleOptions : LocalDeleteOptions where
  maxDepth := some 2
  maxEntries := some 4
  maxPendingPathBytes := some 3

def sampleAnswer : (c : DeleteCall Nat Bool (List Nat)) → c.Result
  | .metadata path => (.ok (sampleContents.metadata path) : Except DeleteSource Bool)
  | .openDirectory path => (.ok (sampleContents.openDirectory path) : Except DeleteSource (List Nat))
  | .nextChild parent reader =>
    ((.ok (sampleContents.nextChild parent reader).1 : Except DeleteSource (Option Nat)),
      (sampleContents.nextChild parent reader).2)
  | .removeNonDirectory _ _ => (.ok () : Except DeleteSource Unit)
  | .removeEmptyDirectory _ => (.ok () : Except DeleteSource Unit)
  | .beforeRemove _ => (.ok () : Except DeleteSource Unit)
  | .elapsed => (0 : Nat)
  | .discover _ => ()

theorem sampleAnswer_answers (c : DeleteCall Nat Bool (List Nat)) :
    Answers sampleContents sampleOptions c (sampleAnswer c) := by
  cases c with
  | elapsed => rintro limit ⟨⟩
  | discover depth => trivial
  | _ => rfl

theorem removeDirectoryTree_complete_accounted_nested :
    ∃ tr s, (removeDirectoryTree sampleBackend 8 0).exec (fun _ c => sampleAnswer c.2)
        (start sampleOptions) [] = (tr, .ok (), s) ∧
      removedOf (visible tr) =
        [.nonDirectory 1, .nonDirectory 3, .directory 2, .directory 0] := by
  have hserves : Serves sampleBackend sampleContents (.directory 0
      (.nonDirectory 1 (.directory 2 (.nonDirectory 3 .empty) .empty)) .empty) :=
    ⟨rfl, ⟨rfl, rfl, rfl⟩, ⟨rfl, rfl, ⟨rfl, rfl⟩, ⟨rfl, trivial⟩, trivial⟩, trivial⟩
  have hwithin : Within sampleBackend sampleOptions (.directory 0
      (.nonDirectory 1 (.directory 2 (.nonDirectory 3 .empty) .empty)) .empty) := by
    constructor
    · rintro limit ⟨⟩
      decide
    · rintro limit ⟨⟩
      decide
    · decide
  obtain ⟨tr, s, hexec, hremoved, -⟩ :=
    (removeDirectoryTree_complete_accounted sampleBackend sampleOptions).1 sampleContents 0 _ 8
      (fun _ c => sampleAnswer c.2) hserves hwithin
      (fun _ _ c => sampleAnswer_answers c) (by decide)
  exact ⟨tr, s, hexec, hremoved⟩

end Sample

end LocalFiles.Delete
