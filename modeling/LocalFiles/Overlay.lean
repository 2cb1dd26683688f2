import Mathlib.Logic.Function.Basic

/-!
# Overlay — trees of names laid over each other

A tree says what is at each path.  One tree is laid over another node by node: a rule decides what
becomes of a node that meets another, and only a node that holds others is gone into.  A traversal
with a stack of open places does the same piece by piece.
-/

namespace LocalFiles.Overlay

/-- What is at each path, if anything. -/
abbrev Tree (Name N : Type) := List Name → Option N

variable {Name N : Type}

/-! ## 1. Trees -/

namespace Tree

section Below

variable (T : Tree Name N)

def below (path : List Name) : Tree Name N := fun rest => T (path ++ rest)

/-- Nothing is below a path that holds no others. -/
def Closed (inner : N → Bool) : Prop :=
  ∀ path, (∀ node ∈ T path, inner node = false) → ∀ name rest, T (path ++ name :: rest) = none

variable {T}

@[simp] theorem below_apply {path rest : List Name} : T.below path rest = T (path ++ rest) := rfl

@[simp] theorem below_root (path : List Name) : T.below path [] = T path :=
  congrArg T (List.append_nil path)

theorem below_below (first second : List Name) :
    (T.below first).below second = T.below (first ++ second) := by
  funext rest
  exact congrArg T (List.append_assoc first second rest).symm

end Below

variable [DecidableEq Name]

def set (T : Tree Name N) (path : List Name) (node : Option N) : Tree Name N := fun p =>
  if p = path then node else T p

/-- The whole of `S` takes the place of what is at the path and below it. -/
def graft (T : Tree Name N) (path : List Name) (S : Tree Name N) : Tree Name N := fun p =>
  if path <+: p then S (p.drop path.length) else T p

variable {T : Tree Name N} {path rest : List Name} {node : Option N} {S : Tree Name N}

@[simp] theorem set_self : T.set path node path = node := if_pos rfl

theorem set_of_ne {p : List Name} (h : p ≠ path) : T.set path node p = T p := if_neg h

theorem set_outside {p : List Name} (h : ¬ path <+: p) : T.set path node p = T p :=
  set_of_ne fun heq => h (heq ▸ List.prefix_rfl)

theorem set_set (path : List Name) (node node' : Option N) :
    (T.set path node).set path node' = T.set path node' := by
  funext p
  by_cases h : p = path
  · rw [h, set_self, set_self]
  · rw [set_of_ne h, set_of_ne h, set_of_ne h]

/-- Nothing changes where the node is there already. -/
theorem set_same (h : T path = node) : T.set path node = T := by
  funext p
  by_cases hp : p = path
  · rw [hp, set_self, h]
  · rw [set_of_ne hp]

@[simp] theorem graft_append : T.graft path S (path ++ rest) = S rest := by
  unfold graft
  rw [if_pos (List.prefix_append path rest), List.drop_left]

@[simp] theorem graft_self : T.graft path S path = S [] := by
  have h : T.graft path S (path ++ []) = S [] := graft_append
  rwa [List.append_nil] at h

theorem graft_of_not {p : List Name} (h : ¬ path <+: p) : T.graft path S p = T p := if_neg h

/-- A graft is known by what it is at the path and below, and elsewhere. -/
theorem eq_graft {T' : Tree Name N} (hbelow : ∀ rest, T' (path ++ rest) = S rest)
    (helse : ∀ p, ¬ path <+: p → T' p = T p) : T' = T.graft path S := by
  funext p
  by_cases h : path <+: p
  · obtain ⟨rest, rfl⟩ := h
    rw [hbelow, graft_append]
  · rw [helse p h, graft_of_not h]

theorem graft_below (path : List Name) : T.graft path (T.below path) = T :=
  (eq_graft (fun _ => rfl) fun _ _ => rfl).symm

end Tree

/-! ## 2. The overlay -/

/-- `lay` has no value for a conflict, for which `clash` stands, and an empty one where what is
    there stays. -/
structure Rule (N : Type) where
  inner : N → Bool
  lay : N → Option N → Option (Option N)
  clash : Option N

namespace Rule

variable (rule : Rule N)

/-- `S` laid over `D`.  Below a node that is not gone into, what stays keeps what it held, and
    what is replaced loses it. -/
def merge : Tree Name N → Tree Name N → Tree Name N
  | S, D, [] =>
    match S [] with
    | none => D []
    | some node =>
      match rule.lay node (D []) with
      | none => rule.clash
      | some none => D []
      | some (some laid) => some laid
  | S, D, name :: rest =>
    match S [] with
    | none => D (name :: rest)
    | some node =>
      match rule.lay node (D []) with
      | some (some _) =>
        if rule.inner node then merge (S.below [name]) (D.below [name]) rest else none
      | _ => D (name :: rest)

variable {rule} {S D : Tree Name N}

theorem merge_absent (h : S [] = none) : rule.merge S D = D := by
  funext p
  cases p with
  | nil => rw [merge, h]
  | cons name rest => rw [merge, h]

theorem merge_kept {node : N} (h : S [] = some node) (hlay : rule.lay node (D []) = some none) :
    rule.merge S D = D := by
  funext p
  cases p with
  | nil => rw [merge, h]; simp only [hlay]
  | cons name rest => rw [merge, h]; simp only [hlay]

theorem merge_laid {node laid : N} (h : S [] = some node)
    (hlay : rule.lay node (D []) = some (some laid)) : rule.merge S D [] = some laid := by
  rw [merge, h]
  simp only [hlay]

theorem merge_leaf {node laid : N} (h : S [] = some node)
    (hlay : rule.lay node (D []) = some (some laid)) (hinner : rule.inner node = false)
    (name : Name) (rest : List Name) : rule.merge S D (name :: rest) = none := by
  rw [merge, h]
  simp only [hlay, hinner]
  rfl

theorem merge_inner {node laid : N} (h : S [] = some node)
    (hlay : rule.lay node (D []) = some (some laid)) (hinner : rule.inner node = true)
    (name : Name) (rest : List Name) :
    rule.merge S D (name :: rest) = rule.merge (S.below [name]) (D.below [name]) rest := by
  rw [merge, h]
  simp only [hlay, hinner]
  rfl

variable [DecidableEq Name]

/-- The part of the overlay that one entry is responsible for. -/
def visit (rule : Rule N) (S : Tree Name N) (src dst : List Name) (T : Tree Name N) : Tree Name N :=
  T.graft dst (rule.merge (S.below src) (T.below dst))

variable {T : Tree Name N} {src dst : List Name}

theorem visit_kept {node : N} (h : S src = some node) (hlay : rule.lay node (T dst) = some none) :
    rule.visit S src dst T = T := by
  have hmerge : rule.merge (S.below src) (T.below dst) = T.below dst :=
    merge_kept ((Tree.below_root src).trans h) (by rw [Tree.below_root, hlay])
  rw [visit, hmerge, Tree.graft_below]

/-- What is laid over a place is all that is there afterwards. -/
theorem visit_leaf {node laid : N} {T' : Tree Name N} (h : S src = some node)
    (hlay : rule.lay node (T dst) = some (some laid)) (hinner : rule.inner node = false)
    (hself : T' dst = some laid) (hbelow : ∀ name rest, T' (dst ++ name :: rest) = none)
    (helse : ∀ p, ¬ dst <+: p → T' p = T p) : T' = rule.visit S src dst T := by
  have hnode : S.below src [] = some node := by rw [Tree.below_root, h]
  have hlaid : rule.lay node (T.below dst []) = some (some laid) := by rw [Tree.below_root, hlay]
  refine Tree.eq_graft (fun rest => ?_) helse
  cases rest with
  | nil => rw [List.append_nil, hself, merge_laid hnode hlaid]
  | cons name rest => rw [hbelow, merge_leaf hnode hlaid hinner]

/-! ## 3. Conflicts -/

/-- Everything above the path is gone into. -/
def Reached (rule : Rule N) (S D : Tree Name N) (path : List Name) : Prop :=
  ∀ above name rest, path = above ++ name :: rest → ∃ node ∈ S above, rule.inner node = true ∧
    ∃ laid, rule.lay node (D above) = some (some laid)

/-- No conflict is met. -/
def Fits (rule : Rule N) (S D : Tree Name N) : Prop :=
  ∀ path, rule.Reached S D path → ∀ node ∈ S path, rule.lay node (D path) ≠ none

omit [DecidableEq Name] in
theorem merge_clash {path : List Name} {node : N} (hreached : rule.Reached S D path)
    (h : S path = some node) (hlay : rule.lay node (D path) = none) :
    rule.merge S D path = rule.clash := by
  induction path generalizing S D with
  | nil => rw [merge, h]; simp only [hlay]
  | cons name rest ih =>
    obtain ⟨above, habove, hinner, laid, hlaid⟩ := hreached [] name rest rfl
    rw [merge_inner habove hlaid hinner]
    exact ih (fun above name' rest' heq => hreached (name :: above) name' rest'
      (congrArg (name :: ·) heq)) h hlay

/-- Where it makes no difference what stands for a conflict, none is met. -/
theorem fits_of_every {T T' : Tree Name N} {src dst : List Name}
    (h : ∀ clash, T' = { rule with clash := clash }.visit S src dst T) :
    rule.Fits (S.below src) (T.below dst) := by
  intro path hreached node hnode hlay
  have hat (clash : Option N) : T' (dst ++ path) = clash := by
    rw [h clash]
    exact Tree.graft_append.trans (merge_clash hreached hnode hlay)
  cases (hat none).symm.trans (hat (some node))

/-! ## 4. Open places -/

end Rule

/-- A place that is gone into: the names that are left, and what is set when it is closed. -/
structure Open (Name N : Type) where
  src : List Name
  dst : List Name
  names : List Name
  closing : Option N

namespace Rule

theorem not_prefix_of_ne {dst : List Name} {first second : Name} (h : first ≠ second)
    (rest : List Name) : ¬ dst ++ [first] <+: dst ++ second :: rest := by
  rw [List.prefix_append_right_inj, List.cons_prefix_cons]
  exact fun hprefix => h hprefix.1

section Places

variable [DecidableEq Name] (rule : Rule N) (S : Tree Name N)

def visitAll (src dst : List Name) (names : List Name) (T : Tree Name N) : Tree Name N :=
  names.foldl (fun T name => rule.visit S (src ++ [name]) (dst ++ [name]) T) T

def closed (dst : List Name) : Option N → Tree Name N → Tree Name N
  | none, T => T
  | some node, T => T.set dst (some node)

/-- What the tree will be when the open places are done, the one on top first. -/
def complete : List (Open Name N) → Tree Name N → Tree Name N
  | [], T => T
  | place :: places, T =>
    complete places (closed place.dst place.closing
      (rule.visitAll S place.src place.dst place.names T))

variable {rule} {S} {T : Tree Name N} {src dst : List Name}

/-- The children are visited one by one; each visit finds its place as it was. -/
theorem visitAll_child {names : List Name} (hnodup : names.Nodup) (name : Name) (rest : List Name) :
    rule.visitAll S src dst names T (dst ++ name :: rest) =
      if name ∈ names then
        rule.merge (S.below (src ++ [name])) (T.below (dst ++ [name])) rest
      else T (dst ++ name :: rest) := by
  induction names generalizing T with
  | nil => rfl
  | cons first names ih =>
    obtain ⟨hfirst, hnodup⟩ := List.nodup_cons.mp hnodup
    have hstep : rule.visitAll S src dst (first :: names) T =
        rule.visitAll S src dst names (rule.visit S (src ++ [first]) (dst ++ [first]) T) := rfl
    have hsplit : dst ++ name :: rest = (dst ++ [name]) ++ rest := by simp
    rw [hstep, ih hnodup]
    by_cases hname : name = first
    · subst hname
      rw [if_neg hfirst, if_pos List.mem_cons_self, hsplit]
      exact Tree.graft_append
    · have hother : ∀ rest, rule.visit S (src ++ [first]) (dst ++ [first]) T (dst ++ name :: rest) =
          T (dst ++ name :: rest) := fun rest =>
        Tree.graft_of_not (not_prefix_of_ne (fun heq => hname heq.symm) rest)
      have hbelow : (rule.visit S (src ++ [first]) (dst ++ [first]) T).below (dst ++ [name]) =
          T.below (dst ++ [name]) := by
        funext rest
        simpa using hother rest
      by_cases hmem : name ∈ names
      · rw [if_pos hmem, if_pos (List.mem_cons_of_mem _ hmem), hbelow]
      · rw [if_neg hmem, if_neg (by simp [hname, hmem]), hother]

theorem visitAll_else {names : List Name} {p : List Name} (h : p = dst ∨ ¬ dst <+: p) :
    rule.visitAll S src dst names T p = T p := by
  induction names generalizing T with
  | nil => rfl
  | cons first names ih =>
    have hnot : ¬ dst ++ [first] <+: p := by
      intro hprefix
      obtain rfl | h := h
      · have hlength := hprefix.length_le
        rw [List.length_append, List.length_singleton] at hlength
        omega
      · exact h ((List.prefix_append dst [first]).trans hprefix)
    exact ih.trans (Tree.graft_of_not hnot)

/-- To go into a node is to lay it over its place, as far as its children are the names. -/
theorem complete_enter {node laid entered : N} {names : List Name} {closing : Option N}
    {places : List (Open Name N)} (h : S src = some node)
    (hlay : rule.lay node (T dst) = some (some laid)) (hinner : rule.inner node = true)
    (hnodup : names.Nodup) (hnames : ∀ name, name ∈ names ↔ S (src ++ [name]) ≠ none)
    (hclosing : closing = some laid ∨ closing = none ∧ entered = laid) :
    rule.complete S (⟨src, dst, names, closing⟩ :: places) (T.set dst (some entered)) =
      rule.complete S places (rule.visit S src dst T) := by
  have hnode : S.below src [] = some node := by rw [Tree.below_root, h]
  have hlaid : rule.lay node (T.below dst []) = some (some laid) := by rw [Tree.below_root, hlay]
  -- the children are done before the place itself is closed
  have hchildren : rule.visitAll S src dst names (T.set dst (some entered)) =
      (rule.visit S src dst T).set dst (some entered) := by
    funext p
    by_cases hp : p = dst
    · rw [hp, visitAll_else (.inl rfl), Tree.set_self, Tree.set_self]
    by_cases hbelow : dst <+: p
    · obtain ⟨rest, rfl⟩ := hbelow
      cases rest with
      | nil => exact absurd (List.append_nil dst) hp
      | cons name rest =>
        have hset : (T.set dst (some entered)).below (dst ++ [name]) = T.below (dst ++ [name]) := by
          funext rest
          exact Tree.set_of_ne (by simp)
        rw [visitAll_child hnodup, Tree.set_of_ne hp, Tree.set_of_ne hp, hset, visit,
          Tree.graft_append, merge_inner hnode hlaid hinner, Tree.below_below, Tree.below_below]
        split
        · rfl
        next hmem =>
          rw [hnames, not_not] at hmem
          rw [merge_absent (by rw [Tree.below_root, hmem]), Tree.below_apply,
            List.append_assoc, List.singleton_append]
    · rw [visitAll_else (.inr hbelow), Tree.set_of_ne hp, Tree.set_of_ne hp, visit,
        Tree.graft_of_not hbelow]
  have hself : rule.visit S src dst T dst = some laid := by
    rw [visit, Tree.graft_self, merge_laid hnode hlaid]
  show rule.complete S places (closed dst closing (rule.visitAll S src dst names _)) = _
  rw [hchildren]
  obtain rfl | ⟨rfl, rfl⟩ := hclosing
  · show rule.complete S places (((rule.visit S src dst T).set dst _).set dst _) = _
    rw [Tree.set_set, Tree.set_same hself]
  · show rule.complete S places ((rule.visit S src dst T).set dst _) = _
    rw [Tree.set_same hself]

end Places

end Rule

end LocalFiles.Overlay
