import LocalFiles.Rooted.Termination

/-!
# Accounting — the counters of a resolution

The loop keeps the number of steps still pending, the bytes of the resolved path and the links
being expanded beside the lists they are taken from.  `Effect` lists what one pass through the
body of the loop can do to them; from it follows that they never drift, and that the limits hold
in every state.
-/

namespace LocalFiles.Rooted

open NativePath
open Walk (LocalResolutionScope LocalResolutionOrigin)

/-! ## 1. What a pass does -/

theorem checkLimit_ok {kind : LocalResourceKind} {observed : Nat} {limit : Option Nat}
    (h : checkLimit kind observed limit = .ok ()) : ∀ maximum ∈ limit, observed ≤ maximum := by
  rintro maximum rfl
  change (if maximum < observed then _ else Except.ok ()) = _ at h
  by_cases hover : maximum < observed
  · rw [if_pos hover] at h
    cases h
  · exact Nat.le_of_not_lt hover

/-- Components and bytes that the limits of the contract allow. -/
structure ResolutionContract.Allows (contract : ResolutionContract) (components bytes : Nat) :
    Prop where
  components : ∀ maximum ∈ contract.limits.actualComponents, components ≤ maximum
  bytes : ∀ maximum ∈ contract.limits.resolvedPathBytes, bytes ≤ maximum

theorem allows_of_checkPending {contract : ResolutionContract} {components bytes : Nat}
    (h : contract.checkPending components bytes = .ok ()) : contract.Allows components bytes := by
  obtain ⟨⟨⟩, hcomponents, hbytes⟩ := bind_eq_ok h
  exact ⟨checkLimit_ok hcomponents, checkLimit_ok hbytes⟩

theorem allows_of_checkResolved {contract : ResolutionContract} {components bytes : Nat}
    (h : contract.checkResolved components bytes = .ok ()) : contract.Allows components bytes := by
  obtain ⟨⟨⟩, hcomponents, hbytes⟩ := bind_eq_ok h
  exact ⟨checkLimit_ok hcomponents, checkLimit_ok hbytes⟩

/-- The queue with a link replaced by the steps of its target. -/
def Resolver.replacement (s : Resolver) (identity : SymlinkIdentity) (steps : List ResolutionStep) :
    List ResolutionStep := steps ++ .endSymlink identity :: s.pending

def Resolver.expand (s : Resolver) (identity : SymlinkIdentity) (steps : List ResolutionStep) :
    Resolver :=
  { s with
    pending := s.replacement identity steps
    pendingActions := pendingActionsOf (s.replacement identity steps)
    cursor := none
    activeSymlinks := identity :: s.activeSymlinks
    hops := s.hops + 1 }

/-- What a pass through the body of the loop can do, for a step that is already counted. -/
inductive Effect (contract : ResolutionContract) (s : Resolver) : ResolutionStep → Resolver → Prop
  | reset :
      Effect contract s .resetRoot
        { s with resolved := [], resolvedComponentBytes := [], resolvedBytes := 0, cursor := none }
  | check {step : ResolutionStep} (inspects : step = .current ∨ step = .requireDirectory) :
      Effect contract s step s
  | stay : Effect contract s .parent { s with cursor := none }
  | up {removed : Nat} (below : s.resolved ≠ [])
      (last : s.resolvedComponentBytes.getLast? = some removed)
      (allowed : contract.Allows s.resolved.dropLast.length (s.resolvedBytes - removed)) :
      Effect contract s .parent
        { s with
          resolved := s.resolved.dropLast
          resolvedComponentBytes := s.resolvedComponentBytes.dropLast
          resolvedBytes := s.resolvedBytes - removed
          cursor := none }
  | close {identity : SymlinkIdentity} :
      Effect contract s (.endSymlink identity)
        { s with activeSymlinks := s.activeSymlinks.erase identity }
  | push {name : OsString} {origin : LocalResolutionOrigin} {budget : Option PathBindingBudget}
      {cursor : Option (List OsString)}
      (allowed : contract.Allows (s.resolved.length + 1) (s.resolvedBytes + (name.length + 1))) :
      Effect contract s (.normal name origin) ({ s with budget := budget }.push name cursor)
  | expand {name : OsString} {origin : LocalResolutionOrigin} {budget : Option PathBindingBudget}
      {identity : SymlinkIdentity} {steps : List ResolutionStep}
      (fresh : identity ∉ s.activeSymlinks)
      (hop : ∀ maximum ∈ contract.limits.symlinkHops, s.hops + 1 ≤ maximum)
      (noEnds : ∀ step ∈ steps, isEndSymlinkStep step = false)
      (allowed : contract.Allows (pendingMeasure (s.replacement identity steps)).1
        (pendingMeasure (s.replacement identity steps)).2) :
      Effect contract s (.normal name origin) ({ s with budget := budget }.expand identity steps)

section Effects

variable {tree : StaticTree} {contract : ResolutionContract} {request : ResolutionRequest}
  {s s' : Resolver}

theorem checkedSub_ok {value removed rest : Nat} (h : checkedSub request value removed = .ok rest) :
    removed ≤ value ∧ rest = value - removed := by
  unfold checkedSub at h
  by_cases hle : removed ≤ value
  · rw [if_pos hle] at h
    exact ⟨hle, (Except.ok.inj h).symm⟩
  · rw [if_neg hle] at h
    cases h

theorem resolveParent_effect (h : resolveParent tree contract request s = .ok s') :
    Effect contract s .parent s' := by
  unfold resolveParent at h
  obtain ⟨-, -, h⟩ := bind_eq_ok h
  by_cases hempty : s.resolved = []
  · rw [if_pos hempty] at h
    by_cases hstay : request.parentBehavior = .stayAtHostRoot
    · rw [if_pos hstay] at h
      cases h
      exact .stay
    · rw [if_neg hstay] at h
      cases h
  · rw [if_neg hempty] at h
    cases hlast : s.resolvedComponentBytes.getLast? with
    | none =>
      rw [hlast] at h
      cases h
    | some removed =>
      rw [hlast] at h
      obtain ⟨total, hsub, h⟩ : ∃ total, checkedSub request s.resolvedBytes removed = .ok total ∧ _ :=
        bind_eq_ok h
      obtain ⟨⟨⟩, hcheck, h⟩ := bind_eq_ok h
      cases h
      obtain ⟨-, rfl⟩ := checkedSub_ok hsub
      exact .up hempty hlast (allows_of_checkResolved (inContext_eq_ok hcheck))

/-- What is admitted is within the limits. -/
theorem admitComponent_allows {component : OsString} {origin : LocalResolutionOrigin}
    (h : admitComponent contract request s component origin = .ok s') :
    contract.Allows (s.resolved.length + 1) (s.resolvedBytes + (component.length + 1)) := by
  unfold admitComponent at h
  obtain ⟨budget, -, h⟩ := bind_eq_ok h
  obtain ⟨⟨⟩, -, h⟩ := bind_eq_ok h
  obtain ⟨⟨⟩, -, h⟩ := bind_eq_ok h
  obtain ⟨⟨⟩, hcheck, -⟩ := bind_eq_ok h
  exact allows_of_checkResolved (inContext_eq_ok hcheck)

theorem appendComponent_push {cursor : Option (List OsString)} {component : OsString}
    {descends : Bool} (h : appendComponent tree request s cursor component descends = .ok s') :
    ∃ cursor, s' = s.push component cursor := by
  unfold appendComponent at h
  cases cursor with
  | none => exact ⟨none, (Except.ok.inj h).symm⟩
  | some cursor =>
    dsimp only at h
    by_cases hdescends : descends = true
    · rw [if_pos hdescends] at h
      cases hdescend : tree.descend cursor component with
      | ok following =>
        rw [hdescend] at h
        exact ⟨some following, (Except.ok.inj h).symm⟩
      | error error =>
        rw [hdescend] at h
        dsimp only at h
        by_cases hmissing : error.kind = .notFound
        · rw [if_pos hmissing] at h
          exact ⟨none, (Except.ok.inj h).symm⟩
        · rw [if_neg hmissing] at h
          cases h
    · rw [if_neg hdescends] at h
      exact ⟨none, (Except.ok.inj h).symm⟩

/-- A link that is expanded is not one that is being expanded already. -/
theorem expandSymlink_expands {component : OsString} {metadata : Metadata}
    (h : expandSymlink tree contract request s component metadata = .ok s') :
    ∃ identity steps, s' = s.expand identity steps ∧ identity ∉ s.activeSymlinks ∧
      (∀ maximum ∈ contract.limits.symlinkHops, s.hops + 1 ≤ maximum) ∧
      (∀ step ∈ steps, isEndSymlinkStep step = false) ∧
      contract.Allows (pendingMeasure (s.replacement identity steps)).1
        (pendingMeasure (s.replacement identity steps)).2 := by
  unfold expandSymlink at h
  obtain ⟨candidate, -, h⟩ := bind_eq_ok h
  by_cases hreject : request.symlinkPolicy = .reject
  · rw [if_pos hreject] at h
    cases h
  rw [if_neg hreject] at h
  by_cases hactive : symlinkIdentity metadata candidate ∈ s.activeSymlinks
  · rw [if_pos hactive] at h
    cases h
  rw [if_neg hactive] at h
  obtain ⟨target, htarget, h⟩ := bind_eq_ok h
  obtain ⟨steps, hsteps, h⟩ := bind_eq_ok h
  obtain ⟨⟨⟩, hpending, h⟩ := bind_eq_ok h
  unfold readTarget at htarget
  obtain ⟨⟨⟩, hhop, -⟩ := bind_eq_ok htarget
  have hends : steps = stepsOf target.bytes .symlinkTarget := by
    obtain hok | ⟨-, error, herror⟩ :=
      stepsFromPath_cases contract request target.bytes .symlinkTarget
    · rw [hok] at hsteps
      exact (Except.ok.inj hsteps).symm
    · rw [herror] at hsteps
      cases hsteps
  refine ⟨_, steps, (Except.ok.inj h).symm, hactive, checkLimit_ok (inContext_eq_ok hhop), ?_,
    allows_of_checkPending (inContext_eq_ok hpending)⟩
  rw [hends]
  exact fun _ => not_end_of_mem_stepsOf

theorem followComponent_effect {component : OsString} {origin : LocalResolutionOrigin}
    {budget : Option PathBindingBudget}
    (hallows : contract.Allows (s.resolved.length + 1) (s.resolvedBytes + (component.length + 1)))
    (h : followComponent tree contract request { s with budget := budget } component = .ok s') :
    Effect contract s (.normal component origin) s' := by
  unfold followComponent at h
  by_cases hfinal : s.pendingActions = 0 ∧ request.followFinal = false
  · rw [if_pos hfinal] at h
    cases h
    exact .push hallows
  rw [if_neg hfinal] at h
  obtain ⟨cursor, -, h⟩ := bind_eq_ok h
  obtain ⟨metadataResult, -, h⟩ := bind_eq_ok h
  cases metadataResult with
  | error error =>
    dsimp only at h
    by_cases hmissing : error.kind = .notFound
    · rw [if_pos hmissing] at h
      cases h
      exact .push hallows
    · rw [if_neg hmissing] at h
      cases h
  | ok metadata =>
    dsimp only at h
    by_cases hlink : metadata.kind = .symlink
    · rw [if_pos hlink] at h
      obtain ⟨identity, steps, rfl, hfresh, hhop, hends, hpending⟩ := expandSymlink_expands h
      exact .expand hfresh hhop hends hpending
    · rw [if_neg hlink] at h
      obtain ⟨cursor', rfl⟩ := appendComponent_push h
      exact .push hallows

/-- The number of pending steps after a step is taken. -/
def remainingActions (actions : Nat) (step : ResolutionStep) : Nat :=
  if isEndSymlinkStep step then actions else actions - 1

theorem resolveStep_effect {step : ResolutionStep}
    (h : resolveStep tree contract request s step = .ok s') :
    Effect contract { s with pendingActions := remainingActions s.pendingActions step } step s' := by
  cases hend : isEndSymlinkStep step with
  | true =>
    cases step with
    | endSymlink identity =>
      cases h
      exact .close
    | _ => cases hend
  | false =>
    unfold resolveStep at h
    rw [if_neg (by rw [hend]; decide)] at h
    obtain ⟨actions, hactions, h⟩ : ∃ actions, checkedSub request s.pendingActions 1 = .ok actions ∧
      _ := bind_eq_ok h
    obtain ⟨-, rfl⟩ := checkedSub_ok hactions
    unfold remainingActions
    rw [if_neg (by rw [hend]; decide)]
    cases step with
    | resetRoot =>
      cases h
      exact .reset
    | current =>
      obtain ⟨⟨⟩, -, h⟩ := bind_eq_ok h
      cases h
      exact .check (.inl rfl)
    | requireDirectory =>
      obtain ⟨⟨⟩, -, h⟩ := bind_eq_ok h
      cases h
      exact .check (.inr rfl)
    | parent => exact resolveParent_effect h
    | endSymlink identity => cases hend
    | normal name origin =>
      obtain ⟨admitted, hadmit, h⟩ := bind_eq_ok h
      have hallows := admitComponent_allows hadmit
      obtain ⟨budget, rfl, -⟩ := admitComponent_budget hadmit
      exact followComponent_effect hallows h

/-! ## 2. The counters agree with the lists -/

/-- The counters are those of the lists, and the limits hold. -/
structure Accounts (contract : ResolutionContract) (s : Resolver) : Prop where
  actions : s.pendingActions = pendingActionsOf s.pending
  componentBytes : s.resolvedComponentBytes = s.resolved.map fun name => name.length + 1
  bytes : s.resolvedBytes = s.resolvedComponentBytes.sum
  active : s.activeSymlinks = endsOf s.pending
  distinct : s.activeSymlinks.Nodup
  hops : ∀ maximum ∈ contract.limits.symlinkHops, s.hops ≤ maximum
  allowed : contract.Allows s.resolved.length s.resolvedBytes

theorem allows_zero (contract : ResolutionContract) : contract.Allows 0 0 :=
  ⟨fun _ _ => Nat.zero_le _, fun _ _ => Nat.zero_le _⟩

theorem accounts_start {steps : List ResolutionStep} (budget : Option PathBindingBudget)
    (hsteps : ∀ step ∈ steps, isEndSymlinkStep step = false) :
    Accounts contract (.start steps budget) where
  actions := rfl
  componentBytes := rfl
  bytes := rfl
  active := (endsOf_eq_nil hsteps).symm
  distinct := List.nodup_nil
  hops _ _ := Nat.zero_le _
  allowed := allows_zero contract

/-- A step is only counted while one is pending. -/
theorem Accounts.remaining {step : ResolutionStep} {rest : List ResolutionStep}
    (h : Accounts contract s) (hpending : s.pending = step :: rest) :
    remainingActions s.pendingActions step = pendingActionsOf rest := by
  unfold remainingActions
  rw [h.actions, hpending, pendingActionsOf_cons]
  split <;> omega

theorem Accounts.ends {step : ResolutionStep} {rest : List ResolutionStep}
    (h : Accounts contract s) (hpending : s.pending = step :: rest)
    (hstep : isEndSymlinkStep step = false) : s.activeSymlinks = endsOf rest := by
  rw [h.active, hpending, endsOf_cons hstep]

/-- The bytes of the last component can be taken from the total. -/
theorem Accounts.last {removed : Nat} (h : Accounts contract s)
    (hlast : s.resolvedComponentBytes.getLast? = some removed) :
    removed ≤ s.resolvedBytes ∧
      s.resolvedBytes - removed = s.resolvedComponentBytes.dropLast.sum := by
  obtain ⟨front, hfront⟩ := List.getLast?_eq_some_iff.mp hlast
  rw [h.bytes, hfront, List.dropLast_concat, List.sum_append, List.sum_singleton]
  omega

theorem Accounts.effect {step : ResolutionStep} {rest : List ResolutionStep}
    (h : Accounts contract s) (hpending : s.pending = step :: rest)
    (heffect : Effect contract
      { s with pending := rest, pendingActions := remainingActions s.pendingActions step } step s') :
    Accounts contract s' := by
  have hactions := h.remaining hpending
  cases heffect with
  | reset =>
    exact { h with
      actions := hactions
      componentBytes := rfl
      bytes := rfl
      active := h.ends hpending rfl
      allowed := allows_zero contract }
  | check inspects =>
    have hstep : isEndSymlinkStep step = false := by
      obtain rfl | rfl := inspects <;> rfl
    exact { h with actions := hactions, active := h.ends hpending hstep }
  | stay => exact { h with actions := hactions, active := h.ends hpending rfl }
  | up below last allowed =>
    obtain ⟨-, hbytes⟩ := h.last last
    exact { h with
      actions := hactions
      componentBytes := by
        show s.resolvedComponentBytes.dropLast = _
        rw [h.componentBytes, List.map_dropLast]
      bytes := hbytes
      active := h.ends hpending rfl
      allowed := allowed }
  | @close identity =>
    -- the end belongs to the link that was entered last
    have hends : s.activeSymlinks = identity :: endsOf rest := by
      rw [h.active, hpending, endsOf_end]
    exact { h with
      actions := hactions
      active := by
        show s.activeSymlinks.erase identity = endsOf rest
        rw [hends, List.erase_cons_head]
      distinct := h.distinct.erase identity }
  | @push name origin budget cursor allowed =>
    exact { h with
      actions := hactions
      componentBytes := by
        show s.resolvedComponentBytes ++ [name.length + 1] =
          (s.resolved ++ [name]).map fun name => name.length + 1
        rw [List.map_append, ← h.componentBytes]
        rfl
      bytes := by
        show s.resolvedBytes + (name.length + 1) = (s.resolvedComponentBytes ++ [name.length + 1]).sum
        rw [h.bytes, List.sum_append, List.sum_singleton]
      active := h.ends hpending rfl
      allowed := by
        show contract.Allows (s.resolved ++ [name]).length (s.resolvedBytes + (name.length + 1))
        rw [List.length_append]
        exact allowed }
  | @expand name origin budget identity steps fresh hop noEnds allowed =>
    exact { h with
      actions := rfl
      active := by
        show identity :: s.activeSymlinks = endsOf (steps ++ .endSymlink identity :: rest)
        rw [endsOf_append, endsOf_eq_nil noEnds, h.ends hpending rfl]
        rfl
      distinct := List.nodup_cons.mpr ⟨fresh, h.distinct⟩
      hops := hop }

theorem resolverTurn_effect (hturn : resolverTurn tree contract request s = .again s') :
    ∃ step rest, s.pending = step :: rest ∧ Effect contract
      { s with pending := rest, pendingActions := remainingActions s.pendingActions step } step s' := by
  unfold resolverTurn at hturn
  cases hpending : s.pending with
  | nil =>
    rw [hpending] at hturn
    cases hturn
  | cons step rest =>
    rw [hpending] at hturn
    dsimp only at hturn
    cases hstep : resolveStep tree contract request { s with pending := rest } step with
    | error error =>
      rw [hstep] at hturn
      cases hturn
    | ok s'' =>
      rw [hstep] at hturn
      cases hturn
      exact ⟨step, rest, rfl, resolveStep_effect hstep⟩

theorem Accounts.reaches (h : Accounts contract s)
    (hreaches : Loop.Reaches (resolverTurn tree contract request) s s') : Accounts contract s' := by
  refine Loop.Reaches.invariant (Accounts contract) (fun s s' hs hnext => ?_) h hreaches
  obtain ⟨step, rest, hpending, heffect⟩ := resolverTurn_effect hnext
  exact hs.effect hpending heffect

end Effects

theorem mem_endsOf {identity : SymlinkIdentity} {steps : List ResolutionStep} :
    identity ∈ endsOf steps ↔ .endSymlink identity ∈ steps := by
  unfold endsOf
  rw [List.mem_filterMap]
  constructor
  · rintro ⟨step, hstep, heq⟩
    cases step with
    | endSymlink identity' =>
      cases heq
      exact hstep
    | _ => cases heq
  · intro h
    exact ⟨_, h, rfl⟩

/-! ## 3. Every state of a resolution -/

/-- How a turn counts links: it expands one more, within the limits, or none. -/
def CountsHop (contract : ResolutionContract) (s s' : Resolver) : Prop :=
  (∃ identity, s'.activeSymlinks = identity :: s.activeSymlinks ∧ s'.hops = s.hops + 1 ∧
    contract.Allows (pendingMeasure s'.pending).1 (pendingMeasure s'.pending).2) ∨
  s'.activeSymlinks.length ≤ s.activeSymlinks.length ∧ s'.hops = s.hops

theorem Effect.countsHop {contract : ResolutionContract} {s s' : Resolver} {step : ResolutionStep}
    (h : Effect contract s step s') : CountsHop contract s s' := by
  cases h with
  | @expand name origin budget identity steps fresh hop noEnds allowed =>
    exact .inl ⟨identity, rfl, rfl, allowed⟩
  | close => exact .inr ⟨List.length_erase_le, rfl⟩
  | reset => exact .inr ⟨Nat.le_refl _, rfl⟩
  | check => exact .inr ⟨Nat.le_refl _, rfl⟩
  | stay => exact .inr ⟨Nat.le_refl _, rfl⟩
  | up => exact .inr ⟨Nat.le_refl _, rfl⟩
  | push => exact .inr ⟨Nat.le_refl _, rfl⟩

/-- At every loop head the counters are those of the lists, no `checked_sub` can fail, the limits
    on hops and on the resolved path hold, and a queue just extended by a target is within them. -/
theorem resolution_accounting (tree : StaticTree) (contract : ResolutionContract)
    (request : ResolutionRequest) (budget : Option PathBindingBudget) (path : OsString)
    (steps : List ResolutionStep) (hsteps : stepsFromPath contract request path .input = .ok steps)
    (s : Resolver)
    (hreaches : Loop.Reaches (resolverTurn tree contract request) (.start steps budget) s) :
    s.pendingActions = (s.pending.filter fun step => !isEndSymlinkStep step).length ∧
    (s.resolvedComponentBytes.length = s.resolved.length ∧
      s.resolvedBytes = s.resolvedComponentBytes.sum ∧
      s.resolvedBytes = (s.resolved.map fun name => name.length + 1).sum) ∧
    (s.activeSymlinks.Nodup ∧
      ∀ identity, identity ∈ s.activeSymlinks ↔ .endSymlink identity ∈ s.pending) ∧
    (∀ step rest, s.pending = step :: rest → isEndSymlinkStep step = false →
      checkedSub request s.pendingActions 1 = .ok (s.pendingActions - 1)) ∧
    (s.resolved ≠ [] → ∃ removed, s.resolvedComponentBytes.getLast? = some removed ∧
      checkedSub request s.resolvedBytes removed = .ok (s.resolvedBytes - removed)) ∧
    (∀ maximum ∈ contract.limits.symlinkHops, s.hops ≤ maximum) ∧
    contract.Allows s.resolved.length s.resolvedBytes ∧
    ∀ s', resolverTurn tree contract request s = .again s' → CountsHop contract s s' := by
  have hends : ∀ step ∈ steps, isEndSymlinkStep step = false := by
    obtain hok | ⟨-, error, herror⟩ := stepsFromPath_cases contract request path .input
    · rw [hok] at hsteps
      cases hsteps
      exact fun _ => not_end_of_mem_stepsOf
    · rw [herror] at hsteps
      cases hsteps
  have h : Accounts contract s := (accounts_start budget hends).reaches hreaches
  refine ⟨h.actions, ⟨?_, h.bytes, ?_⟩, ⟨h.distinct, fun identity => ?_⟩, fun step rest hpending hstep => ?_,
    fun hbelow => ?_, h.hops, h.allowed, fun s' hturn => ?_⟩
  · rw [h.componentBytes, List.length_map]
  · rw [h.bytes, h.componentBytes]
  · rw [h.active]
    exact mem_endsOf
  · have hpos : 1 ≤ s.pendingActions := by
      rw [h.actions, hpending, pendingActionsOf_cons, hstep]
      exact Nat.le_add_right 1 _
    exact if_pos hpos
  · have hne : s.resolvedComponentBytes ≠ [] := by
      rw [h.componentBytes]
      exact fun hnil => hbelow (List.map_eq_nil_iff.mp hnil)
    have hlast := List.getLast?_eq_getLast_of_ne_nil hne
    exact ⟨_, hlast, if_pos (h.last hlast).1⟩
  · obtain ⟨step, rest, -, heffect⟩ := resolverTurn_effect hturn
    exact heffect.countsHop

/-! A tree with the link `a`, whose target `b` is missing, and tight limits. -/

def loneLink : StaticTree where
  node path :=
    if path = [] then some .directory
    else if path = [[0x61]] then some (.symlink ⟨[0x62], by decide⟩)
    else none
  identity _ := none
  paths := {[], [[0x61]]}
  mem_paths path h := by
    by_cases hroot : path = []
    · rw [hroot]
      decide
    · by_cases hlink : path = [[0x61]]
      · rw [hlink]
        decide
      · rw [if_neg hroot, if_neg hlink] at h
        cases h
  root := rfl
  parent path name h := by
    by_cases hroot : path = []
    · rw [if_pos hroot]
    · have hlong : path ++ [name] ≠ [[0x61]] := by
        intro heq
        have hlength := congrArg List.length heq
        rw [List.length_append] at hlength
        exact hroot (List.length_eq_zero_iff.mp (Nat.succ.inj hlength))
      rw [if_neg (List.concat_ne_nil name path), if_neg hlong] at h
      cases h

def tightContract : ResolutionContract :=
  ⟨{ symlinkHops := some 1, actualComponents := some 1, resolvedPathBytes := some 2 }, []⟩

def followRequest : ResolutionRequest where
  symlinkPolicy := .followWithinScope
  followFinal := true
  operation := .metadata
  original := [0x61]

theorem resolution_accounting_loneLink :
    ∃ s, Loop.Reaches (resolverTurn loneLink tightContract followRequest)
        (.start [.normal [0x61] .input] none) s ∧ s.hops = 1 ∧
      s.pendingActions = (s.pending.filter fun step => !isEndSymlinkStep step).length := by
  have hturn : Loop.Reaches (resolverTurn loneLink tightContract followRequest)
      (.start [.normal [0x61] .input] none)
      { pending := [.normal [0x62] .symlinkTarget, .endSymlink (.namespacePath [[0x61]])]
        pendingActions := 1
        activeSymlinks := [.namespacePath [[0x61]]]
        hops := 1 } := .single (by unfold Loop.Next; decide +kernel)
  exact ⟨_, hturn, rfl, (resolution_accounting loneLink tightContract followRequest none [0x61] _
    (by decide +kernel) _ hturn).1⟩

end LocalFiles.Rooted
