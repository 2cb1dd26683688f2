import LocalFiles.Rooted.Position
import Mathlib.Data.Finset.Lattice.Fold
import Mathlib.Order.Lattice.Nat

/-!
# Termination — the loop of the resolver ends

Every pending step weighs more the fewer links are open behind it, and there are only so many
links to open.  A link that is met again inside its own expansion would be expanded for ever: a
plain walk, which replaces links by their targets and keeps no marks, never ends exactly when the
resolver reports a cycle.
-/

namespace LocalFiles.Rooted

open NativePath
open Walk (LocalResolutionScope LocalResolutionOrigin)

/-! ## 1. The weight of the pending steps -/

namespace StaticTree

variable (tree : StaticTree)

def links : Finset SymlinkIdentity := tree.paths.image tree.linkIdentity

/-- The number of steps in the target of a link. -/
def targetSteps (path : List OsString) : Nat :=
  match tree.node path with
  | some (.symlink target) => (stepsOf target.bytes .symlinkTarget).length
  | _ => 0

def longestTarget : Nat := tree.paths.sup tree.targetSteps

variable {tree}

theorem linkIdentity_mem_links {path : List OsString} (h : (tree.node path).isSome) :
    tree.linkIdentity path ∈ tree.links := Finset.mem_image_of_mem _ (tree.mem_paths path h)

theorem targetSteps_le {path : List OsString} {target : UnixPath}
    (h : tree.node path = some (.symlink target)) :
    (stepsOf target.bytes .symlinkTarget).length ≤ tree.longestTarget := by
  have hle : tree.targetSteps path ≤ tree.longestTarget :=
    Finset.le_sup (tree.mem_paths path (by rw [h]; rfl))
  unfold targetSteps at hle
  rwa [h] at hle

/-- An identity is that of one path only. -/
theorem linkIdentity_inj {path path' : List OsString}
    (h : tree.linkIdentity path = tree.linkIdentity path') : path = path' := by
  have hpath : ∀ p, (tree.linkIdentity p).path = p := by
    intro p
    unfold linkIdentity
    split <;> rfl
  rw [← hpath path, h, hpath]

end StaticTree

/-- Each step weighs as much as all it may still be replaced by. -/
def weight (links longest : Nat) : List ResolutionStep → Nat
  | [] => 0
  | step :: rest =>
    (if isEndSymlinkStep step then 1 else (longest + 2) ^ (links + 1 - (endsOf rest).length)) +
      weight links longest rest

theorem weight_append {links longest : Nat} {steps rest : List ResolutionStep}
    (h : ∀ step ∈ steps, isEndSymlinkStep step = false) :
    weight links longest (steps ++ rest) =
      steps.length * (longest + 2) ^ (links + 1 - (endsOf rest).length) +
        weight links longest rest := by
  induction steps with
  | nil => simp
  | cons step steps ih =>
    have hends : endsOf (steps ++ rest) = endsOf rest := by
      rw [endsOf_append, endsOf_eq_nil fun s hs => h s (List.mem_cons_of_mem _ hs)]
      rfl
    rw [List.cons_append, weight, h step List.mem_cons_self, hends,
      ih fun s hs => h s (List.mem_cons_of_mem _ hs), List.length_cons, Nat.succ_mul]
    simp only [Bool.false_eq_true, if_false]
    omega

theorem weight_tail_lt {links longest : Nat} (step : ResolutionStep) (rest : List ResolutionStep) :
    weight links longest rest < weight links longest (step :: rest) := by
  rw [weight]
  have hpos : 0 < (longest + 2) ^ (links + 1 - (endsOf rest).length) := Nat.pow_pos (by omega)
  split <;> omega

/-- An expansion weighs less than the link, when fewer links were open than there are. -/
theorem weight_expand_lt {links longest : Nat} {steps rest : List ResolutionStep}
    {identity : SymlinkIdentity} {name : OsString} {origin : LocalResolutionOrigin}
    (hsteps : ∀ step ∈ steps, isEndSymlinkStep step = false) (hlength : steps.length ≤ longest)
    (hopen : (endsOf rest).length < links) :
    weight links longest (steps ++ .endSymlink identity :: rest) <
      weight links longest (.normal name origin :: rest) := by
  obtain ⟨left, hleft⟩ : ∃ left, links = (endsOf rest).length + left + 1 :=
    ⟨links - (endsOf rest).length - 1, by omega⟩
  have hinner : links + 1 - (endsOf (.endSymlink identity :: rest)).length = left + 1 := by
    rw [endsOf_end, List.length_cons]
    omega
  have houter : links + 1 - (endsOf rest).length = left + 2 := by omega
  have hmul : steps.length * (longest + 2) ^ (left + 1) ≤ longest * (longest + 2) ^ (left + 1) :=
    Nat.mul_le_mul_right _ hlength
  have hpos : 0 < (longest + 2) ^ (left + 1) := Nat.pow_pos (by omega)
  have hsucc : (longest + 2) ^ (left + 2) =
      longest * (longest + 2) ^ (left + 1) + 2 * (longest + 2) ^ (left + 1) := by
    rw [Nat.pow_succ, Nat.mul_comm, Nat.add_mul]
  rw [weight_append hsteps, hinner, weight, weight, houter, hsucc]
  simp only [isEndSymlinkStep, if_true, Bool.false_eq_true, if_false]
  omega

/-! ## 2. The loop ends -/

/-- The open links are different links of the tree. -/
structure Position.Open (tree : StaticTree) (p : Position) : Prop where
  nodup : (endsOf p.pending).Nodup
  links : ∀ identity ∈ endsOf p.pending, identity ∈ tree.links

section Ends

variable {tree : StaticTree} {contract : ResolutionContract} {request : ResolutionRequest}

/-- What a turn leaves pending. -/
theorem Position.turn_pending {p p' : Position} (h : p.turn tree request = .again p') :
    ∃ step rest, p.pending = step :: rest ∧ (p'.pending = rest ∨
      ∃ name origin target, step = .normal name origin ∧
        tree.lookup p.resolved name = .ok (some (.symlink target)) ∧
        tree.linkIdentity (p.resolved ++ [name]) ∉ endsOf rest ∧
        (request.followFinal = true ∨ pendingActionsOf rest ≠ 0) ∧
        p' = ⟨p.resolved, stepsOf target.bytes .symlinkTarget ++
          .endSymlink (tree.linkIdentity (p.resolved ++ [name])) :: rest⟩) := by
  obtain ⟨resolved, pending⟩ := p
  unfold Position.turn at h
  cases pending with
  | nil => cases h
  | cons step rest =>
    refine ⟨step, rest, rfl, ?_⟩
    simp only at h
    cases step with
    | resetRoot | endSymlink =>
      cases h
      exact .inl rfl
    | current | requireDirectory =>
      simp only [Position.step] at h
      split at h <;> cases h
      exact .inl rfl
    | parent =>
      simp only [Position.step] at h
      split at h
      · split at h <;> cases h
        exact .inl rfl
      · cases h
    | normal name origin =>
      simp only [Position.step] at h
      split at h
      next =>
        cases h
        exact .inl rfl
      next hkeep =>
        split at h
        next => cases h
        next target hlookup =>
          unfold Position.expand at h
          split at h
          · cases h
          · split at h
            · cases h
            next hopen =>
              cases h
              -- only a link adds to what is pending
              refine .inr ⟨name, origin, target, rfl, hlookup, hopen, ?_, rfl⟩
              by_cases hfollow : request.followFinal = true
              · exact .inl hfollow
              · exact .inr fun hzero => hkeep ⟨hzero, by simpa using hfollow⟩
        next =>
          cases h
          exact .inl rfl

theorem Position.Open.turn {p p' : Position} (h : p.Open tree)
    (hturn : p.turn tree request = .again p') :
    p'.Open tree ∧ weight tree.links.card tree.longestTarget p'.pending <
      weight tree.links.card tree.longestTarget p.pending := by
  obtain ⟨hnodup, hlinks⟩ := h
  obtain ⟨step, rest, hpending, hcase⟩ := Position.turn_pending hturn
  rw [hpending] at hnodup hlinks ⊢
  have hsuffix : (endsOf rest).Sublist (endsOf (step :: rest)) :=
    (List.sublist_cons_self step rest).filterMap _
  have hrest : (endsOf rest).Nodup := hnodup.sublist hsuffix
  have hrestLinks : ∀ identity ∈ endsOf rest, identity ∈ tree.links :=
    fun identity hmem => hlinks identity (hsuffix.subset hmem)
  obtain hpending' | ⟨name, origin, target, rfl, hlookup, hopen, -, rfl⟩ := hcase
  · rw [hpending']
    exact ⟨⟨by rw [hpending']; exact hrest, by rw [hpending']; exact hrestLinks⟩,
      weight_tail_lt step rest⟩
  · -- One more link is open, so at most as many as there are.
    have hnode := (StaticTree.node_of_lookup hlookup).2
    have hmem : tree.linkIdentity (p.resolved ++ [name]) ∈ tree.links :=
      StaticTree.linkIdentity_mem_links (by rw [hnode]; rfl)
    have hends : endsOf (stepsOf target.bytes .symlinkTarget ++
        .endSymlink (tree.linkIdentity (p.resolved ++ [name])) :: rest) =
        tree.linkIdentity (p.resolved ++ [name]) :: endsOf rest := by
      rw [endsOf_append, endsOf_stepsOf, endsOf_end]
      rfl
    have hnodup' : (tree.linkIdentity (p.resolved ++ [name]) :: endsOf rest).Nodup :=
      List.nodup_cons.mpr ⟨hopen, hrest⟩
    have hlinks' : ∀ identity ∈ tree.linkIdentity (p.resolved ++ [name]) :: endsOf rest,
        identity ∈ tree.links := List.forall_mem_cons.mpr ⟨hmem, hrestLinks⟩
    have hcard : (endsOf rest).length < tree.links.card := by
      have hle : (tree.linkIdentity (p.resolved ++ [name]) :: endsOf rest).toFinset.card ≤
          tree.links.card :=
        Finset.card_le_card fun identity h => hlinks' identity (List.mem_toFinset.mp h)
      rw [List.toFinset_card_of_nodup hnodup', List.length_cons] at hle
      omega
    refine ⟨⟨?_, ?_⟩, weight_expand_lt (fun _ => not_end_of_mem_stepsOf)
      (StaticTree.targetSteps_le hnode) hcard⟩
    · rw [hends]
      exact hnodup'
    · rw [hends]
      exact hlinks'

theorem Position.open_start (tree : StaticTree) (path : OsString) (origin : LocalResolutionOrigin) :
    Position.Open tree ⟨[], stepsOf path origin⟩ :=
  ⟨by simp, by simp⟩

/-- A position is taken to an end. -/
theorem Position.exists_returns (request : ResolutionRequest) {p : Position} (h : p.Open tree) :
    ∃ result, Loop.Returns (Position.turn tree request) p result :=
  Loop.exists_returns (Position.Open tree)
    (fun p => weight tree.links.card tree.longestTarget p.pending)
    (fun _ _ hopen hturn => hopen.turn hturn) h

/-- The loop is at a valid position. -/
structure At (tree : StaticTree) (s : Resolver) (p : Position) : Prop where
  represents : Represents tree s p
  valid : p.Valid tree

theorem at_start (tree : StaticTree) (path : UnixPath) (origin : LocalResolutionOrigin)
    (budget : Option PathBindingBudget) :
    At tree (.start (stepsOf path.bytes origin) budget) ⟨[], stepsOf path.bytes origin⟩ :=
  ⟨represents_start (endsOf_stepsOf _ _), Position.valid_start⟩

/-- A turn that does not end the loop is a turn of the position. -/
theorem At.turn {s s' : Resolver} {p : Position} (h : At tree s p)
    (hturn : resolverTurn tree contract request s = .again s') :
    ∃ p', p.turn tree request = .again p' ∧ At tree s' p' ∧
      (Unlimited contract request s → s'.budget = none) := by
  obtain ⟨-, hdone⟩ | ⟨result, hmatches, hresult⟩ :=
    resolverTurn_matches contract request h.represents h.valid
  · rw [hdone] at hturn
    cases hturn
  · rw [hresult] at hturn
    cases result with
    | error error => cases hturn
    | ok s'' =>
      cases hturn
      generalize hp : p.turn tree request = turn at hmatches
      cases hmatches with
      | again hrepresents hbudget => exact ⟨_, rfl, ⟨hrepresents, h.valid.turn hp⟩, hbudget⟩

theorem resolver_exists_returns (contract : ResolutionContract) (request : ResolutionRequest)
    {s : Resolver} {p : Position} (h : At tree s p)
    (hopen : p.Open tree) :
    ∃ result, Loop.Returns (resolverTurn tree contract request) s result := by
  refine Loop.exists_returns (fun s => ∃ p, At tree s p ∧ p.Open tree)
    (fun s => weight tree.links.card tree.longestTarget s.pending) ?_ ⟨p, h, hopen⟩
  rintro s s' ⟨p, hat, hopen⟩ hnext
  obtain ⟨p', hturn, hat', -⟩ := hat.turn hnext
  obtain ⟨hopen', hlt⟩ := hopen.turn hturn
  rw [hat'.represents.pending, hat.represents.pending]
  exact ⟨⟨p', hat', hopen'⟩, hlt⟩

/-! ## 3. Results -/

/-- What the result of a position says about the result of the loop. -/
inductive Outcome : Except Stop (List OsString) → Except ResolutionError OsString → Prop
  | ok {names : List OsString} : Outcome (.ok names) (.ok (ofNames names))
  | stop {stop : Stop} {error : ResolutionError} : (error.IsCycle ↔ stop = .cycle) →
      Outcome (.error stop) (.error error)

/-- The function ends with a result. -/
def Resolves (tree : StaticTree) (contract : ResolutionContract) (request : ResolutionRequest)
    (budget : Option PathBindingBudget) (path : OsString)
    (result : Except ResolutionError OsString) : Prop :=
  ∃ fuel, resolveRootedSymlinks tree contract request budget fuel path = some result

theorem resolves_iff_returns (hpolicy : request.symlinkPolicy ≠ .followAcrossScope)
    {budget : Option PathBindingBudget} {path : OsString} {steps : List ResolutionStep}
    (hsteps : stepsFromPath contract request path .input = .ok steps)
    {result : Except ResolutionError OsString} :
    Resolves tree contract request budget path result ↔
      Loop.Returns (resolverTurn tree contract request) (.start steps budget) result := by
  have hrun : ∀ fuel, resolveRootedSymlinks tree contract request budget fuel path =
      Loop.run (resolverTurn tree contract request) fuel (.start steps budget) := by
    intro fuel
    unfold resolveRootedSymlinks
    rw [if_neg hpolicy, hsteps]
  unfold Resolves Loop.Returns
  simp only [hrun]

/-- Without limits and policies, the loop ends as its position does. -/
theorem At.returns {s : Resolver} {p : Position} {result : Except Stop (List OsString)}
    (h : At tree s p) (hunlimited : Unlimited contract request s)
    (hreturns : Loop.Returns (Position.turn tree request) p result) :
    ∃ result', Loop.Returns (resolverTurn tree contract request) s result' ∧
      Outcome result result' := by
  obtain ⟨n, hn⟩ := hreturns
  induction n generalizing s p with
  | zero => cases hn
  | succ n ih =>
    unfold Loop.run at hn
    obtain ⟨hdone, hresolver⟩ | ⟨step, hmatches, hresolver⟩ :=
      resolverTurn_matches contract request h.represents h.valid
    · rw [hdone] at hn
      obtain rfl := Option.some.inj hn
      exact ⟨_, Loop.returns_done hresolver, .ok⟩
    · generalize hp : p.turn tree request = turn at hmatches hn
      cases hmatches with
      | stop hcycle =>
        obtain rfl := Option.some.inj hn
        exact ⟨_, Loop.returns_done hresolver, .stop hcycle⟩
      | again hrepresents hbudget =>
        obtain ⟨result', hreturns, houtcome⟩ := ih ⟨hrepresents, h.valid.turn hp⟩
          { hunlimited with budget := hbudget hunlimited } hn
        exact ⟨result', hreturns.again hresolver, houtcome⟩
      | refused hnot => exact absurd hunlimited hnot

end Ends

end LocalFiles.Rooted
