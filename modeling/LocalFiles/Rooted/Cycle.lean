import LocalFiles.Rooted.Termination

/-!
# Cycle — what the resolver reports as a cycle

A plain walk replaces links by their targets and keeps no marks.  It follows the turns of a
position, less the marks.  While the end of a link is pending, the walk has come from that link,
whatever was pending behind it; met again, the link leads to itself for ever.
-/

namespace LocalFiles.Rooted

open NativePath
open Walk (LocalResolutionScope LocalResolutionOrigin)

/-! ## 1. A plain walk -/

/-- A request that follows the links within the root and knows no limit or policy. -/
def ResolutionRequest.following (followFinal : Bool) (operation : LocalFileOperation)
    (original : OsString) (scope : LocalResolutionScope) (parentBehavior : RootParentBehavior) :
    ResolutionRequest where
  symlinkPolicy := .followWithinScope
  followFinal := followFinal
  operation := operation
  original := original
  scope := scope
  parentBehavior := parentBehavior

section Follow

variable (tree : StaticTree) (request : ResolutionRequest)

/-- One step of following a path from directory to directory.  A link is replaced by its target,
    however often it was before. -/
def followTurn (p : Position) : Turn Unit Position :=
  match p.pending with
  | [] => .done ()
  | .resetRoot :: rest => .again ⟨[], rest⟩
  | .current :: rest | .requireDirectory :: rest =>
    if tree.IsDirectory p.resolved then .again ⟨p.resolved, rest⟩ else .done ()
  | .parent :: rest =>
    if tree.IsDirectory p.resolved then
      if p.resolved = [] ∧ request.parentBehavior = .rejectEscape then .done ()
      else .again ⟨p.resolved.dropLast, rest⟩
    else .done ()
  | .endSymlink _ :: rest => .again ⟨p.resolved, rest⟩
  | .normal name _ :: rest =>
    if rest = [] ∧ request.followFinal = false then .again ⟨p.resolved ++ [name], rest⟩
    else match tree.lookup p.resolved name with
      | .error _ => .done ()
      | .ok (some (.symlink target)) => .again ⟨p.resolved, stepsOf target.bytes .symlinkTarget ++ rest⟩
      | .ok _ => .again ⟨p.resolved ++ [name], rest⟩

/-- Following the links of a path would never come to an end. -/
def ExpandsForever (path : OsString) : Prop :=
  Loop.Diverges (followTurn tree request) ⟨[], stepsOf path .input⟩

end Follow

/-- The steps without the marks. -/
def erase (steps : List ResolutionStep) : List ResolutionStep :=
  steps.filter fun step => !isEndSymlinkStep step

def Position.erase (p : Position) : Position := ⟨p.resolved, Rooted.erase p.pending⟩

theorem erase_cons {step : ResolutionStep} (h : isEndSymlinkStep step = false)
    (rest : List ResolutionStep) : erase (step :: rest) = step :: erase rest := by
  unfold erase
  rw [List.filter_cons_of_pos (by rw [h]; rfl)]

@[simp] theorem erase_end (identity : SymlinkIdentity) (rest : List ResolutionStep) :
    erase (.endSymlink identity :: rest) = erase rest := rfl

theorem erase_append (front back : List ResolutionStep) :
    erase (front ++ back) = erase front ++ erase back := List.filter_append ..

theorem erase_eq_self {steps : List ResolutionStep}
    (h : ∀ step ∈ steps, isEndSymlinkStep step = false) : erase steps = steps := by
  unfold erase
  rw [List.filter_eq_self]
  intro step hstep
  rw [h step hstep]
  rfl

theorem erase_eq_nil_iff {steps : List ResolutionStep} :
    erase steps = [] ↔ pendingActionsOf steps = 0 := List.length_eq_zero_iff.symm

section Walks

variable {tree : StaticTree} {request : ResolutionRequest}

/-- A final component that is not to be followed is final in front of both. -/
def EndsAlike (request : ResolutionRequest) (rest back : List ResolutionStep) : Prop :=
  pendingActionsOf rest = 0 ∧ request.followFinal = false ↔ back = [] ∧ request.followFinal = false

theorem endsAlike_erase (rest : List ResolutionStep) : EndsAlike request rest (erase rest) := by
  unfold EndsAlike
  rw [erase_eq_nil_iff]

/-- What a turn does: it drops a mark, moves as the plain walk does, or replaces a link. -/
inductive Position.Moves (tree : StaticTree) (request : ResolutionRequest)
    (resolved : List OsString) (rest : List ResolutionStep) : ResolutionStep → Position → Prop
  | mark (identity : SymlinkIdentity) :
      Moves tree request resolved rest (.endSymlink identity) ⟨resolved, rest⟩
  | walk {step : ResolutionStep} {resolved' : List OsString} (hstep : isEndSymlinkStep step = false)
      (hwalk : ∀ back, EndsAlike request rest back →
        followTurn tree request ⟨resolved, step :: back⟩ = .again ⟨resolved', back⟩) :
      Moves tree request resolved rest step ⟨resolved', rest⟩
  | link {name : OsString} {origin : LocalResolutionOrigin} {target : UnixPath}
      (hlookup : tree.lookup resolved name = .ok (some (.symlink target)))
      (hfollowed : ¬(pendingActionsOf rest = 0 ∧ request.followFinal = false)) :
      Moves tree request resolved rest (.normal name origin)
        ⟨resolved, stepsOf target.bytes .symlinkTarget ++
          .endSymlink (tree.linkIdentity (resolved ++ [name])) :: rest⟩

theorem Position.moves_of_step {resolved : List OsString} {rest : List ResolutionStep}
    {step : ResolutionStep} {p' : Position}
    (h : Position.step tree request resolved rest step = .again p') :
    Position.Moves tree request resolved rest step p' := by
  cases step with
  | resetRoot =>
    cases h
    exact .walk rfl fun _ _ => rfl
  | endSymlink identity =>
    cases h
    exact .mark identity
  | current | requireDirectory =>
    simp only [Position.step] at h
    split at h
    next hdirectory =>
      cases h
      exact .walk rfl fun _ _ => if_pos hdirectory
    next => cases h
  | parent =>
    simp only [Position.step] at h
    split at h
    next hdirectory =>
      split at h
      next => cases h
      next hinside =>
        cases h
        refine .walk rfl fun _ _ => ?_
        simp only [followTurn]
        rw [if_pos hdirectory, if_neg hinside]
    next => cases h
  | normal name origin =>
    simp only [Position.step] at h
    split at h
    next hkeep =>
      cases h
      refine .walk rfl fun back hback => ?_
      simp only [followTurn]
      rw [if_pos (hback.mp hkeep)]
    next hkeep =>
      split at h
      next => cases h
      next target hlookup =>
        unfold Position.expand at h
        split at h
        next => cases h
        next =>
          split at h
          next => cases h
          next =>
            cases h
            exact .link hlookup hkeep
      next found hfound hlookup =>
        cases h
        refine .walk rfl fun back hback => ?_
        simp only [followTurn]
        rw [if_neg fun hand => hkeep (hback.mpr hand), hlookup]
        split
        next heq => cases heq
        next target heq => exact absurd (Except.ok.inj heq) (hfound target)
        next => rfl

theorem Position.moves {p p' : Position} (h : p.turn tree request = .again p') :
    ∃ step rest, p.pending = step :: rest ∧
      Position.Moves tree request p.resolved rest step p' := by
  obtain ⟨resolved, pending⟩ := p
  unfold Position.turn at h
  cases pending with
  | nil => cases h
  | cons step rest => exact ⟨step, rest, rfl, Position.moves_of_step h⟩

/-- The plain walk replaces a link by its target. -/
theorem followTurn_link {resolved : List OsString} {name : OsString}
    {origin : LocalResolutionOrigin} {target : UnixPath} {back : List ResolutionStep}
    (hlookup : tree.lookup resolved name = .ok (some (.symlink target)))
    (hback : ¬(back = [] ∧ request.followFinal = false)) :
    followTurn tree request ⟨resolved, .normal name origin :: back⟩ =
      .again ⟨resolved, stepsOf target.bytes .symlinkTarget ++ back⟩ := by
  simp only [followTurn]
  rw [if_neg hback, hlookup]

theorem erase_expansion (target : OsString) (identity : SymlinkIdentity)
    (rest : List ResolutionStep) :
    erase (stepsOf target .symlinkTarget ++ .endSymlink identity :: rest) =
      stepsOf target .symlinkTarget ++ erase rest := by
  rw [erase_append, erase_end, erase_eq_self fun _ => not_end_of_mem_stepsOf]

/-- A turn of a position is a step of the plain walk, or drops a mark. -/
theorem reaches_erase {p p' : Position} (h : p.turn tree request = .again p') :
    Loop.Reaches (followTurn tree request) p.erase p'.erase := by
  obtain ⟨resolved, pending⟩ := p
  obtain ⟨step, rest, rfl, hmoves⟩ := Position.moves h
  cases hmoves with
  | mark identity => exact .refl
  | walk hstep hwalk =>
    refine .single ?_
    unfold Position.erase
    rw [erase_cons hstep]
    exact hwalk _ (endsAlike_erase rest)
  | link hlookup hfollowed =>
    refine .single ?_
    unfold Position.erase
    rw [erase_cons rfl, erase_expansion]
    exact followTurn_link hlookup fun hand => hfollowed ((endsAlike_erase rest).mpr hand)

theorem reaches_erase_of_reaches {p p' : Position}
    (h : Loop.Reaches (Position.turn tree request) p p') :
    Loop.Reaches (followTurn tree request) p.erase p'.erase := by
  induction h with
  | refl => exact .refl
  | tail _ hnext ih => exact ih.trans (reaches_erase hnext)

/-- Where a position ends without a cycle, so does the plain walk. -/
theorem followTurn_done {p : Position} {result : Except Stop (List OsString)}
    (hpolicy : request.symlinkPolicy ≠ .reject) (h : p.turn tree request = .done result)
    (hcycle : result ≠ .error .cycle) : followTurn tree request p.erase = .done () := by
  obtain ⟨resolved, pending⟩ := p
  unfold Position.erase
  unfold Position.turn at h
  cases pending with
  | nil => rfl
  | cons step rest =>
    simp only at h
    cases step with
    | resetRoot | endSymlink => cases h
    | current | requireDirectory =>
      simp only [Position.step] at h
      split at h
      next => cases h
      next hdirectory => exact if_neg hdirectory
    | parent =>
      simp only [Position.step] at h
      simp only [erase_cons (show isEndSymlinkStep .parent = false from rfl), followTurn]
      split at h
      next hdirectory =>
        split at h
        next hescape => rw [if_pos hdirectory, if_pos hescape]
        next => cases h
      next hdirectory => rw [if_neg hdirectory]
    | normal name origin =>
      simp only [Position.step] at h
      simp only [erase_cons (show isEndSymlinkStep (.normal name origin) = false from rfl), followTurn]
      split at h
      next => cases h
      next hkeep =>
        -- the ends of links do not decide whether the last component is kept
        rw [if_neg fun hand => hkeep ((endsAlike_erase rest).mpr hand)]
        cases hlookup : tree.lookup resolved name with
        | error error => rfl
        | ok found =>
          rw [hlookup] at h
          cases found with
          | none => cases h
          | some node =>
            cases node with
            | directory | file | other => cases h
            | symlink target =>
              simp only [Position.expand] at h
              rw [if_neg hpolicy] at h
              split at h
              · exact absurd (Turn.done.inj h).symm hcycle
              · cases h

/-! ## 2. Links that lead to themselves -/

/-- The walk has come from every link whose end is pending, whatever was pending behind it. -/
def Position.Traced (tree : StaticTree) (request : ResolutionRequest) (p : Position) : Prop :=
  ∀ before identity after, p.pending = before ++ .endSymlink identity :: after →
    ¬(pendingActionsOf after = 0 ∧ request.followFinal = false) ∧
    ∃ directory name, identity = tree.linkIdentity (directory ++ [name]) ∧
      ∀ origin back, ¬(back = [] ∧ request.followFinal = false) →
        Loop.Advances (followTurn tree request) ⟨directory, .normal name origin :: back⟩
          ⟨p.resolved, Rooted.erase before ++ back⟩

theorem Position.traced_start {path : OsString} {origin : LocalResolutionOrigin} :
    Position.Traced tree request ⟨[], stepsOf path origin⟩ := by
  intro before identity after hpending
  have hmem : ResolutionStep.endSymlink identity ∈ stepsOf path origin := by
    rw [show stepsOf path origin = _ from hpending]
    simp
  cases not_end_of_mem_stepsOf hmem

/-- Something is pending behind a mark that has a followed link behind it. -/
theorem not_final_of_append {before after : List ResolutionStep}
    (h : ¬(pendingActionsOf after = 0 ∧ request.followFinal = false)) :
    ¬(pendingActionsOf (before ++ after) = 0 ∧ request.followFinal = false) := by
  rw [pendingActionsOf_append]
  exact fun hand => h ⟨by omega, hand.2⟩

theorem not_final_append {front back : List ResolutionStep}
    (h : ¬(back = [] ∧ request.followFinal = false)) :
    ¬(front ++ back = [] ∧ request.followFinal = false) :=
  fun hand => h ⟨(List.append_eq_nil_iff.mp hand.1).2, hand.2⟩

/-- Where the mark stands after a link was replaced: it is the new one, or an older one. -/
theorem split_expansion {steps before rest after : List ResolutionStep}
    {identity identity' : SymlinkIdentity}
    (hsteps : ∀ step ∈ steps, isEndSymlinkStep step = false)
    (h : steps ++ .endSymlink identity :: rest = before ++ .endSymlink identity' :: after) :
    (before = steps ∧ identity' = identity ∧ after = rest) ∨
      ∃ middle, before = steps ++ .endSymlink identity :: middle ∧
        rest = middle ++ .endSymlink identity' :: after := by
  induction steps generalizing before with
  | nil =>
    cases before with
    | nil =>
      cases h
      exact .inl ⟨rfl, rfl, rfl⟩
    | cons step before =>
      cases h
      exact .inr ⟨before, rfl, rfl⟩
  | cons step steps ih =>
    cases before with
    | nil =>
      cases h
      cases hsteps _ List.mem_cons_self
    | cons step' before =>
      rw [List.cons_append, List.cons_append, List.cons.injEq] at h
      obtain ⟨rfl, hrest⟩ := h
      obtain ⟨rfl, rfl, rfl⟩ | ⟨middle, rfl, rfl⟩ :=
        ih (fun s hs => hsteps s (List.mem_cons_of_mem _ hs)) hrest
      · exact .inl ⟨rfl, rfl, rfl⟩
      · exact .inr ⟨middle, rfl, rfl⟩

theorem Position.Traced.turn {p p' : Position} (h : p.Traced tree request)
    (hturn : p.turn tree request = .again p') : p'.Traced tree request := by
  obtain ⟨resolved, pending⟩ := p
  obtain ⟨step, rest, rfl, hmoves⟩ := Position.moves hturn
  intro before identity after hpending
  cases hmoves with
  | mark mark =>
    obtain ⟨hafter, directory, name, hidentity, hadvances⟩ :=
      h (.endSymlink mark :: before) identity after (congrArg _ hpending)
    exact ⟨hafter, directory, name, hidentity, hadvances⟩
  | walk hstep hwalk =>
    have hrest : rest = before ++ .endSymlink identity :: after := hpending
    obtain ⟨hafter, directory, name, hidentity, hadvances⟩ :=
      h (step :: before) identity after (congrArg _ hpending)
    refine ⟨hafter, directory, name, hidentity, fun origin back hback => ?_⟩
    have hlast := hadvances origin back hback
    rw [erase_cons hstep] at hlast
    refine hlast.tail (hwalk _ ?_)
    -- Neither list is empty behind the step, unless final links are followed.
    have hleft : ¬(pendingActionsOf rest = 0 ∧ request.followFinal = false) := by
      rw [hrest, List.append_cons]
      exact not_final_of_append hafter
    exact ⟨fun hand => absurd hand hleft, fun hand => absurd hand (not_final_append hback)⟩
  | @link name origin target hlookup hfollowed =>
    obtain ⟨rfl, rfl, rfl⟩ | ⟨middle, rfl, hrest⟩ :=
      split_expansion (fun _ => not_end_of_mem_stepsOf) hpending
    · refine ⟨hfollowed, resolved, name, rfl, fun origin' back hback => .single ?_⟩
      rw [erase_eq_self fun _ => not_end_of_mem_stepsOf]
      exact followTurn_link hlookup hback
    · obtain ⟨hafter, directory, name', hidentity, hadvances⟩ :=
        h (.normal name origin :: middle) identity after (by rw [hrest]; rfl)
      refine ⟨hafter, directory, name', hidentity, fun origin' back hback => ?_⟩
      have hlast := hadvances origin' back hback
      rw [erase_cons rfl] at hlast
      rw [erase_expansion, List.append_assoc]
      exact hlast.tail (followTurn_link hlookup (not_final_append hback))

/-- A cycle is reported at a link whose end is pending. -/
theorem Position.turn_cycle {p : Position} (h : p.turn tree request = .done (.error .cycle)) :
    ∃ name origin rest, p.pending = .normal name origin :: rest ∧
      ¬(pendingActionsOf rest = 0 ∧ request.followFinal = false) ∧
      .endSymlink (tree.linkIdentity (p.resolved ++ [name])) ∈ rest := by
  obtain ⟨resolved, pending⟩ := p
  unfold Position.turn at h
  cases pending with
  | nil => cases h
  | cons step rest =>
    simp only at h
    cases step with
    | resetRoot | endSymlink => cases h
    | current | requireDirectory =>
      simp only [Position.step] at h
      split at h <;> cases h
    | parent =>
      simp only [Position.step] at h
      split at h
      · split at h <;> cases h
      · cases h
    | normal name origin =>
      simp only [Position.step] at h
      split at h
      next => cases h
      next hkeep =>
        split at h
        next => cases h
        next target hlookup =>
          unfold Position.expand at h
          split at h
          next => cases h
          next =>
            split at h
            next hmem =>
              refine ⟨name, origin, rest, rfl, hkeep, ?_⟩
              obtain ⟨step, hstep, heq⟩ := List.mem_filterMap.mp hmem
              cases step <;> simp at heq
              exact heq ▸ hstep
            next => cases h
        next => cases h

/-- From a link whose own end is pending the walk never comes to an end. -/
theorem diverges_of_cycle {p : Position} (htraced : p.Traced tree request)
    (h : p.turn tree request = .done (.error .cycle)) :
    Loop.Diverges (followTurn tree request) p.erase := by
  obtain ⟨resolved, pending⟩ := p
  obtain ⟨name, origin, rest, rfl, hkeep, hmem⟩ := Position.turn_cycle h
  dsimp only at hmem
  obtain ⟨before, after, rfl⟩ := List.append_of_mem hmem
  obtain ⟨-, directory, name', hidentity, hadvances⟩ :=
    htraced (.normal name origin :: before) _ after rfl
  have hpath := StaticTree.linkIdentity_inj hidentity
  obtain ⟨rfl, hname⟩ := List.append_inj' hpath rfl
  obtain rfl : name = name' := List.head_eq_of_cons_eq hname
  refine Loop.diverges_of_advances
    (fun q => ∃ origin' back, ¬(back = [] ∧ request.followFinal = false) ∧
      q = ⟨resolved, .normal name origin' :: back⟩) ?_
    ⟨origin, erase (before ++ .endSymlink (tree.linkIdentity (resolved ++ [name])) :: after), ?_, ?_⟩
  · rintro q ⟨origin', back, hback, rfl⟩
    refine ⟨_, ⟨origin, erase before ++ back, not_final_append hback, rfl⟩, ?_⟩
    have hagain := hadvances origin' back hback
    rw [erase_cons rfl] at hagain
    exact hagain
  · rw [erase_eq_nil_iff]
    exact hkeep
  · unfold Position.erase
    rw [erase_cons rfl]

/-- Following a path would go on for ever exactly when its position ends in a cycle. -/
theorem returns_cycle_iff (hpolicy : request.symlinkPolicy ≠ .reject) (path : OsString) :
    Loop.Returns (Position.turn tree request) ⟨[], stepsOf path .input⟩ (.error .cycle) ↔
      ExpandsForever tree request path := by
  have herase : Position.erase ⟨[], stepsOf path .input⟩ = ⟨[], stepsOf path .input⟩ := by
    unfold Position.erase
    rw [erase_eq_self fun _ => not_end_of_mem_stepsOf]
  constructor
  · intro h
    obtain ⟨p, hreaches, hdone⟩ := h.stops
    have htraced : p.Traced tree request :=
      hreaches.invariant (Position.Traced tree request)
        (fun _ _ htraced hnext => htraced.turn hnext) Position.traced_start
    have hwalk := reaches_erase_of_reaches hreaches
    rw [herase] at hwalk
    exact hwalk.diverges (diverges_of_cycle htraced hdone)
  · intro h
    obtain ⟨result, hreturns⟩ := Position.exists_returns request
      (Position.open_start tree path .input)
    by_cases hcycle : result = .error .cycle
    · exact hcycle ▸ hreturns
    · obtain ⟨p, hreaches, hdone⟩ := hreturns.stops
      have hwalk := reaches_erase_of_reaches hreaches
      rw [herase] at hwalk
      have hend := hwalk.returns_iff.mpr (Loop.returns_done (followTurn_done hpolicy hdone hcycle))
      exact absurd h hend.not_diverges

/-! ## 3. The loop -/

variable {contract : ResolutionContract}

/-- The positions of the loop, turn by turn. -/
theorem At.reaches {s s' : Resolver} {p : Position} (h : At tree s p)
    (hreaches : Loop.Reaches (resolverTurn tree contract request) s s') :
    ∃ p', Loop.Reaches (Position.turn tree request) p p' ∧ At tree s' p' := by
  induction hreaches with
  | refl => exact ⟨p, .refl, h⟩
  | tail _ hnext ih =>
    obtain ⟨p', hreaches, hat⟩ := ih
    obtain ⟨p'', hturn, hat', -⟩ := hat.turn hnext
    exact ⟨p'', hreaches.tail hturn, hat'⟩

/-- Every open link stood in front of what is pending behind its end, and was expanded there. -/
def Resolver.Nested (tree : StaticTree) (contract : ResolutionContract)
    (request : ResolutionRequest) (start s : Resolver) : Prop :=
  ∀ before identity after, s.pending = before ++ .endSymlink identity :: after →
    ∃ earlier name origin, Loop.Reaches (resolverTurn tree contract request) start earlier ∧
      Loop.Advances (resolverTurn tree contract request) earlier s ∧
      earlier.pending = .normal name origin :: after ∧
      identity = tree.linkIdentity (earlier.resolved ++ [name])

theorem Resolver.Nested.turn {start s s' : Resolver} {p : Position}
    (h : Resolver.Nested tree contract request start s)
    (hreaches : Loop.Reaches (resolverTurn tree contract request) start s) (hat : At tree s p)
    (hturn : resolverTurn tree contract request s = .again s') :
    Resolver.Nested tree contract request start s' := by
  have hold : ∀ before identity after, s.pending = before ++ .endSymlink identity :: after →
      ∃ earlier name origin, Loop.Reaches (resolverTurn tree contract request) start earlier ∧
        Loop.Advances (resolverTurn tree contract request) earlier s' ∧
        earlier.pending = .normal name origin :: after ∧
        identity = tree.linkIdentity (earlier.resolved ++ [name]) := by
    intro before identity after hpending
    obtain ⟨earlier, name, origin, hearlier, hadvances, hrest⟩ := h before identity after hpending
    exact ⟨earlier, name, origin, hearlier, hadvances.tail hturn, hrest⟩
  obtain ⟨p', hp, hat', -⟩ := hat.turn hturn
  obtain ⟨step, rest, hstep, hmoves⟩ := Position.moves hp
  rw [← hat.represents.pending] at hstep
  intro before identity after hpending
  rw [hat'.represents.pending] at hpending
  cases hmoves with
  | mark mark => exact hold (.endSymlink mark :: before) identity after (hstep.trans (congrArg _ hpending))
  | walk => exact hold (step :: before) identity after (hstep.trans (congrArg _ hpending))
  | @link name origin target =>
    obtain ⟨rfl, rfl, rfl⟩ | ⟨middle, rfl, hrest⟩ :=
      split_expansion (fun _ => not_end_of_mem_stepsOf) hpending
    · exact ⟨s, name, origin, hreaches, .single hturn, hstep, by rw [hat.represents.resolved]⟩
    · exact hold (.normal name origin :: middle) identity after (by rw [hstep, hrest]; rfl)

theorem nested_of_reaches {path : UnixPath} {budget : Option PathBindingBudget} {s : Resolver}
    (h : Loop.Reaches (resolverTurn tree contract request)
      (.start (stepsOf path.bytes .input) budget) s) :
    Resolver.Nested tree contract request (.start (stepsOf path.bytes .input) budget) s := by
  induction h with
  | refl =>
    intro before identity after hpending
    have hmem : ResolutionStep.endSymlink identity ∈ stepsOf path.bytes .input := by
      rw [show stepsOf path.bytes .input = _ from hpending]
      simp
    cases not_end_of_mem_stepsOf hmem
  | tail hreaches hnext ih =>
    obtain ⟨p, -, hat⟩ := (at_start tree path .input _).reaches hreaches
    exact ih.turn hreaches hat hnext

/-- A turn of an unlimited loop that reports a cycle. -/
theorem At.turn_cycle {s : Resolver} {p : Position} {error : ResolutionError} (h : At tree s p)
    (hunlimited : Unlimited contract request s)
    (hturn : resolverTurn tree contract request s = .done (.error error)) (hcycle : error.IsCycle) :
    p.turn tree request = .done (.error .cycle) := by
  obtain ⟨-, hdone⟩ | ⟨result, hmatches, hresult⟩ :=
    resolverTurn_matches contract request h.represents h.valid
  · rw [hdone] at hturn
    cases hturn
  · rw [hresult] at hturn
    cases result with
    | ok s' => cases hturn
    | error error' =>
      cases hturn
      generalize p.turn tree request = turn at hmatches ⊢
      cases hmatches with
      | stop hiff => rw [hiff.mp hcycle]
      | refused hnot => exact absurd hunlimited hnot

theorem Unlimited.reaches {s s' : Resolver} {p : Position} (h : Unlimited contract request s)
    (hat : At tree s p) (hreaches : Loop.Reaches (resolverTurn tree contract request) s s') :
    Unlimited contract request s' := by
  have hboth : (∃ p', At tree s' p') ∧ s'.budget = none := by
    refine hreaches.invariant (fun s' => (∃ p', At tree s' p') ∧ s'.budget = none) ?_
      ⟨⟨p, hat⟩, h.budget⟩
    intro s₁ s₂ hs hnext
    obtain ⟨⟨p₁, hat₁⟩, hbudget⟩ := hs
    obtain ⟨p₂, -, hat₂, hnone⟩ := hat₁.turn hnext
    exact ⟨⟨p₂, hat₂⟩, hnone ⟨h.contract, h.componentPolicy, hbudget⟩⟩
  exact ⟨h.contract, h.componentPolicy, hboth.2⟩

theorem exists_resolves (path : UnixPath) (budget : Option PathBindingBudget) :
    ∃ result, Resolves tree contract request budget path.bytes result := by
  by_cases hpolicy : request.symlinkPolicy = .followAcrossScope
  · unfold Resolves resolveRootedSymlinks
    simp only [if_pos hpolicy]
    exact ⟨_, 0, rfl⟩
  · obtain hsteps | ⟨-, error, hsteps⟩ :=
      stepsFromPath_cases contract request path.bytes .input
    · obtain ⟨result, hreturns⟩ := resolver_exists_returns contract request
        (at_start tree path .input budget) (Position.open_start tree path.bytes .input)
      exact ⟨result, (resolves_iff_returns hpolicy hsteps).mpr hreturns⟩
    · refine ⟨.error error, 0, ?_⟩
      unfold resolveRootedSymlinks
      rw [if_neg hpolicy, hsteps]

end Walks

section Results

variable (tree : StaticTree) (path : UnixPath) (followFinal : Bool) (operation : LocalFileOperation)
  (original : OsString) (scope : LocalResolutionScope) (parentBehavior : RootParentBehavior)

theorem unlimited_start (steps : List ResolutionStep) :
    Unlimited .unrestricted (.following followFinal operation original scope parentBehavior)
      (.start steps none) := ⟨rfl, rfl, rfl⟩

/-- The resolver and its position, from the first turn to the result. -/
theorem resolves_of_returns {result : Except Stop (List OsString)}
    (h : Loop.Returns (Position.turn tree
      (.following followFinal operation original scope parentBehavior))
      ⟨[], stepsOf path.bytes .input⟩ result) :
    ∃ result', Resolves tree .unrestricted
      (.following followFinal operation original scope parentBehavior) none path.bytes result' ∧
      Outcome result result' := by
  obtain ⟨result', hreturns, houtcome⟩ := (at_start tree path .input none).returns
    (unlimited_start followFinal operation original scope parentBehavior _) h
  exact ⟨result', (resolves_iff_returns (by nofun) rfl).mpr hreturns, houtcome⟩

theorem Resolves.unique {contract : ResolutionContract} {request : ResolutionRequest}
    {budget : Option PathBindingBudget} {path : OsString}
    {result result' : Except ResolutionError OsString} {tree : StaticTree}
    (h : Resolves tree contract request budget path result)
    (h' : Resolves tree contract request budget path result') : result = result' := by
  obtain ⟨n, hn⟩ := h
  obtain ⟨n', hn'⟩ := h'
  unfold resolveRootedSymlinks at hn hn'
  split at hn
  next hpolicy =>
    rw [if_pos hpolicy] at hn'
    exact Option.some.inj (hn.symm.trans hn')
  next hpolicy =>
    rw [if_neg hpolicy] at hn'
    cases hsteps : stepsFromPath contract request path .input with
    | error error =>
      rw [hsteps] at hn hn'
      exact Option.some.inj (hn.symm.trans hn')
    | ok steps =>
      rw [hsteps] at hn hn'
      exact Loop.Returns.unique ⟨n, hn⟩ ⟨n', hn'⟩

/-- The loop always ends.  It reports a cycle exactly when following the links would go on for
    ever, and then at a link that is met again before its own expansion has ended. -/
theorem symlink_resolution_ends :
    (∀ contract request budget, ∃ result,
      Resolves tree contract request budget path.bytes result) ∧
    ((∃ error, Resolves tree .unrestricted
        (.following followFinal operation original scope parentBehavior) none path.bytes
        (.error error) ∧ error.IsCycle) ↔
      ExpandsForever tree (.following followFinal operation original scope parentBehavior)
        path.bytes) ∧
    ∀ s error,
      Loop.Reaches (resolverTurn tree .unrestricted
        (.following followFinal operation original scope parentBehavior))
        (.start (stepsOf path.bytes .input) none) s →
      resolverTurn tree .unrestricted
        (.following followFinal operation original scope parentBehavior) s = .done (.error error) →
      error.IsCycle →
      ∃ earlier name origin origin' before after,
        Loop.Reaches (resolverTurn tree .unrestricted
          (.following followFinal operation original scope parentBehavior))
          (.start (stepsOf path.bytes .input) none) earlier ∧
        Loop.Advances (resolverTurn tree .unrestricted
          (.following followFinal operation original scope parentBehavior)) earlier s ∧
        earlier.resolved = s.resolved ∧ earlier.pending = .normal name origin :: after ∧
        s.pending = .normal name origin' :: before ++
          .endSymlink (tree.linkIdentity (s.resolved ++ [name])) :: after := by
  refine ⟨fun contract request budget => exists_resolves path budget, ?_, ?_⟩
  · -- without limits the loop ends in a cycle exactly where its position does
    rw [← returns_cycle_iff (by nofun)]
    constructor
    · intro ⟨error, hresolves, hcycle⟩
      obtain ⟨result, hreturns⟩ := Position.exists_returns
        (.following followFinal operation original scope parentBehavior)
        (Position.open_start tree path.bytes .input)
      obtain ⟨result', hresolves', houtcome⟩ := resolves_of_returns tree path followFinal operation
        original scope parentBehavior hreturns
      cases hresolves.unique hresolves'
      cases houtcome with
      | stop hiff => exact hiff.mp hcycle ▸ hreturns
    · intro hreturns
      obtain ⟨result', hresolves, houtcome⟩ := resolves_of_returns tree path followFinal operation
        original scope parentBehavior hreturns
      cases houtcome with
      | stop hiff => exact ⟨_, hresolves, hiff.mpr rfl⟩
  · intro s error hreaches hturn hcycle
    obtain ⟨p, -, hat⟩ := (at_start tree path .input _).reaches hreaches
    have hunlimited := (unlimited_start followFinal operation original scope parentBehavior
      (stepsOf path.bytes .input)).reaches (at_start tree path .input none) hreaches
    obtain ⟨name, origin', rest, hpending, -, hmem⟩ :=
      Position.turn_cycle (hat.turn_cycle hunlimited hturn hcycle)
    rw [← hat.represents.pending] at hpending
    rw [← hat.represents.resolved] at hmem
    obtain ⟨before, after, rfl⟩ := List.append_of_mem hmem
    obtain ⟨earlier, name', origin, hearlier, hadvances, hfirst, hidentity⟩ :=
      nested_of_reaches hreaches (.normal name origin' :: before) _ after hpending
    obtain ⟨hresolved, hname⟩ := List.append_inj' (StaticTree.linkIdentity_inj hidentity) rfl
    obtain rfl : name = name' := List.head_eq_of_cons_eq hname
    exact ⟨earlier, name, origin, origin', before, after, hearlier, hadvances, hresolved.symm,
      hfirst, hpending⟩

end Results

end LocalFiles.Rooted
