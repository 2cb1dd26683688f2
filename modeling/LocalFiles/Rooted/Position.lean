import LocalFiles.Rooted.Symlinks

/-!
# Position — the resolver without its bookkeeping

A position is the path resolved so far and the steps still pending.  The loop of the resolver
keeps counters, a cursor and a set of active links beside them; all of these can be read off the
position, so that every turn of the loop is a turn of the position.
-/

namespace LocalFiles.Rooted

open NativePath
open Walk (LocalResolutionScope LocalResolutionOrigin)

structure Position where
  resolved : List OsString
  pending : List ResolutionStep
  deriving DecidableEq, Repr

/-- Why a position cannot be taken further. -/
inductive Stop where
  | cycle | failed
  deriving DecidableEq, Repr

/-- The links whose ends are pending, innermost first. -/
def endsOf (steps : List ResolutionStep) : List SymlinkIdentity :=
  steps.filterMap fun
    | .endSymlink identity => some identity
    | _ => none

/-- The steps of a path. -/
def stepsOf (path : OsString) (origin : LocalResolutionOrigin) : List ResolutionStep :=
  (if isAbsolute path then [.resetRoot] else []) ++ (tokensAfterCheck path origin).map stepOfToken

def SymlinkIdentity.path : SymlinkIdentity → List OsString
  | native _ _ path => path
  | namespacePath path => path

def StaticTree.linkIdentity (tree : StaticTree) (path : List OsString) : SymlinkIdentity :=
  match tree.identity path with
  | some identity => .native identity.volume identity.file path
  | none => .namespacePath path

section Turn

variable (tree : StaticTree) (request : ResolutionRequest)

/-- A link at the end of `resolved`, with what follows it. -/
def Position.expand (resolved : List OsString) (name : OsString) (target : UnixPath)
    (rest : List ResolutionStep) : Turn (Except Stop (List OsString)) Position :=
  if request.symlinkPolicy = .reject then .done (.error .failed)
  else if tree.linkIdentity (resolved ++ [name]) ∈ endsOf rest then .done (.error .cycle)
  else .again ⟨resolved, stepsOf target.bytes .symlinkTarget ++
    .endSymlink (tree.linkIdentity (resolved ++ [name])) :: rest⟩

def Position.step (resolved : List OsString) (rest : List ResolutionStep) :
    ResolutionStep → Turn (Except Stop (List OsString)) Position
  | .resetRoot => .again ⟨[], rest⟩
  | .current | .requireDirectory =>
    if tree.IsDirectory resolved then .again ⟨resolved, rest⟩ else .done (.error .failed)
  | .parent =>
    if tree.IsDirectory resolved then
      if resolved = [] ∧ request.parentBehavior = .rejectEscape then .done (.error .failed)
      else .again ⟨resolved.dropLast, rest⟩
    else .done (.error .failed)
  | .endSymlink _ => .again ⟨resolved, rest⟩
  | .normal name _ =>
    if pendingActionsOf rest = 0 ∧ request.followFinal = false then
      .again ⟨resolved ++ [name], rest⟩
    else match tree.lookup resolved name with
      | .error _ => .done (.error .failed)
      | .ok (some (.symlink target)) => Position.expand tree request resolved name target rest
      | .ok _ => .again ⟨resolved ++ [name], rest⟩

def Position.turn (p : Position) : Turn (Except Stop (List OsString)) Position :=
  match p.pending with
  | [] => .done (.ok p.resolved)
  | step :: rest => Position.step tree request p.resolved rest step

end Turn

/-! ## 1. Steps of a path -/

@[simp] theorem pendingActionsOf_nil : pendingActionsOf [] = 0 := rfl

theorem pendingActionsOf_cons (step : ResolutionStep) (rest : List ResolutionStep) :
    pendingActionsOf (step :: rest) =
      (if isEndSymlinkStep step then 0 else 1) + pendingActionsOf rest := by
  unfold pendingActionsOf
  rw [List.filter_cons]
  cases isEndSymlinkStep step <;> simp [Nat.add_comm]

theorem pendingActionsOf_append (front back : List ResolutionStep) :
    pendingActionsOf (front ++ back) = pendingActionsOf front + pendingActionsOf back := by
  unfold pendingActionsOf
  rw [List.filter_append, List.length_append]

@[simp] theorem endsOf_nil : endsOf [] = [] := rfl

@[simp] theorem endsOf_end (identity : SymlinkIdentity) (rest : List ResolutionStep) :
    endsOf (.endSymlink identity :: rest) = identity :: endsOf rest := rfl

theorem endsOf_cons {step : ResolutionStep} (h : isEndSymlinkStep step = false)
    (rest : List ResolutionStep) : endsOf (step :: rest) = endsOf rest := by
  cases step <;> first | rfl | cases h

theorem endsOf_append (front back : List ResolutionStep) :
    endsOf (front ++ back) = endsOf front ++ endsOf back := List.filterMap_append

theorem isEndSymlinkStep_stepOfToken (token : NativeToken) :
    isEndSymlinkStep (stepOfToken token) = false := by
  cases token <;> rfl

theorem not_end_of_mem_stepsOf {path : OsString} {origin : LocalResolutionOrigin}
    {step : ResolutionStep} (h : step ∈ stepsOf path origin) : isEndSymlinkStep step = false := by
  unfold stepsOf at h
  rw [List.mem_append] at h
  obtain h | h := h
  · split at h
    · rw [List.mem_singleton] at h
      rw [h]
      rfl
    · cases h
  · obtain ⟨token, -, rfl⟩ := List.mem_map.mp h
    exact isEndSymlinkStep_stepOfToken token

theorem endsOf_eq_nil {steps : List ResolutionStep}
    (h : ∀ step ∈ steps, isEndSymlinkStep step = false) : endsOf steps = [] := by
  induction steps with
  | nil => rfl
  | cons step steps ih =>
    rw [endsOf_cons (h step List.mem_cons_self)]
    exact ih fun s hs => h s (List.mem_cons_of_mem _ hs)

@[simp] theorem endsOf_stepsOf (path : OsString) (origin : LocalResolutionOrigin) :
    endsOf (stepsOf path origin) = [] := endsOf_eq_nil fun _ => not_end_of_mem_stepsOf

/-- The names among the steps of a Unix path. -/
theorem isName_of_mem_stepsOf {path : UnixPath} {origin origin' : LocalResolutionOrigin}
    {name : OsString} (h : .normal name origin' ∈ stepsOf path.bytes origin) : IsName name := by
  unfold stepsOf at h
  rw [List.mem_append] at h
  obtain h | h := h
  · split at h
    · cases List.mem_singleton.mp h
    · cases h
  · obtain ⟨token, htoken, hstep⟩ := List.mem_map.mp h
    unfold tokensAfterCheck at htoken
    rw [List.mem_append] at htoken
    obtain htoken | htoken := htoken
    · obtain ⟨part, hpart, rfl⟩ := List.mem_map.mp htoken
      unfold tokenOfPart at hstep
      split at hstep
      · cases hstep
      · split at hstep
        · cases hstep
        · next hdot hdotDot =>
          cases hstep
          exact isName_of_mem_parts path.noNul hpart hdot hdotDot
    · split at htoken
      · rw [List.mem_singleton.mp htoken] at hstep
        cases hstep
      · cases htoken

/-! ## 2. The loop follows its position -/

/-- The names of a position are names, and as long as something is pending its path leads along
    directories. -/
structure Position.Valid (tree : StaticTree) (p : Position) : Prop where
  resolved : ∀ name ∈ p.resolved, IsName name
  pending : ∀ name origin, .normal name origin ∈ p.pending → IsName name
  clean : pendingActionsOf p.pending ≠ 0 → tree.Clean p.resolved

/-- The local variables of the loop at a position. -/
structure Represents (tree : StaticTree) (s : Resolver) (p : Position) : Prop where
  pending : s.pending = p.pending
  resolved : s.resolved = p.resolved
  actions : s.pendingActions = pendingActionsOf p.pending
  active : s.activeSymlinks = endsOf p.pending
  componentBytes : s.resolvedComponentBytes = p.resolved.map fun name => name.length + 1
  bytes : s.resolvedBytes = (p.resolved.map fun name => name.length + 1).sum
  cursor : ∀ directory, s.cursor = some directory →
    directory = p.resolved ∧ tree.IsDirectory directory

/-- Nothing but the tree decides how the resolution ends. -/
structure Unlimited (contract : ResolutionContract) (request : ResolutionRequest) (s : Resolver) :
    Prop where
  contract : contract = .unrestricted
  componentPolicy : request.componentPolicy = none
  budget : s.budget = none

def ResolutionError.IsCycle (error : ResolutionError) : Prop :=
  error.reason = some "symbolic-link expansion cycle detected"

/-- What a turn of the position says about a pass through the body of the loop.  A limit or a
    policy may end the loop before. -/
inductive StepMatches (tree : StaticTree) (unlimited : Prop) :
    Turn (Except Stop (List OsString)) Position → Except ResolutionError Resolver → Prop
  | stop {stop : Stop} {error : ResolutionError} : (error.IsCycle ↔ stop = .cycle) →
      StepMatches tree unlimited (.done (.error stop)) (.error error)
  | again {p : Position} {s : Resolver} : Represents tree s p → (unlimited → s.budget = none) →
      StepMatches tree unlimited (.again p) (.ok s)
  | refused {turn : Turn (Except Stop (List OsString)) Position} {error : ResolutionError} :
      ¬unlimited → StepMatches tree unlimited turn (.error error)

section Steps

variable {tree : StaticTree} {contract : ResolutionContract} {request : ResolutionRequest}
  {s : Resolver} {resolved : List OsString} {rest : List ResolutionStep}

theorem StepMatches.failed {unlimited : Prop} {error : ResolutionError}
    (h : error.reason = none ∨ error.reason = some "symbolic-link traversal is rejected by policy" ∨
      error.reason = some "symbolic-link target escaped the Rooted virtual root") :
    StepMatches tree unlimited (.done (.error .failed)) (.error error) := by
  refine .stop ⟨fun hcycle => ?_, nofun⟩
  unfold ResolutionError.IsCycle at hcycle
  rw [hcycle] at h
  exact absurd h (by decide)

theorem relativeFromComponents_eq (request : ResolutionRequest) {names : List OsString}
    (hnames : ∀ name ∈ names, IsName name) (hne : names ≠ []) :
    ∃ relative, relativeFromComponents request names = .ok relative ∧ relative.names = names := by
  obtain ⟨relative, hnew, heq⟩ := LocalRelativePath.new_ofNames hnames hne
  refine ⟨relative, ?_, heq⟩
  unfold relativeFromComponents
  rw [hnew]
  rfl

theorem ensureResolvedPrefixIsDirectory_eq (request : ResolutionRequest)
    (hnames : ∀ name ∈ resolved, IsName name) (hclean : tree.Clean resolved) :
    (tree.IsDirectory resolved ∧ ensureResolvedPrefixIsDirectory tree request resolved = .ok ()) ∨
      ¬tree.IsDirectory resolved ∧ ∃ error,
        ensureResolvedPrefixIsDirectory tree request resolved = .error error ∧
          error.reason = none := by
  unfold ensureResolvedPrefixIsDirectory
  by_cases hempty : resolved = []
  · rw [if_pos hempty, hempty]
    exact .inl ⟨tree.root, rfl⟩
  · obtain ⟨relative, hrelative, heq⟩ := relativeFromComponents_eq request hnames hempty
    rw [if_neg hempty, hrelative]
    dsimp only [bind, Except.bind]
    rw [StaticTree.symlinkMetadata_path hclean heq hempty]
    cases hnode : tree.node resolved with
    | none =>
      refine .inr ⟨fun hdirectory => ?_, _, rfl, rfl⟩
      rw [StaticTree.IsDirectory, hnode] at hdirectory
      cases hdirectory
    | some node =>
      cases node with
      | directory => exact .inl ⟨hnode, rfl⟩
      | file =>
        exact .inr ⟨fun h => absurd (hnode.symm.trans h) (by decide), _, rfl, rfl⟩
      | other =>
        exact .inr ⟨fun h => absurd (hnode.symm.trans h) (by decide), _, rfl, rfl⟩
      | symlink target =>
        exact .inr ⟨fun h => (by cases hnode.symm.trans h), _, rfl, rfl⟩

/-- The cursor opened for a resolved path, unless the path is no directory. -/
theorem openResolvedCursor_eq (request : ResolutionRequest) {cursor : List OsString} (rest : List OsString)
    (hcursor : tree.IsDirectory cursor) :
    openResolvedCursor tree request cursor rest =
      .ok (if tree.IsDirectory (cursor ++ rest) then some (cursor ++ rest) else none) := by
  induction rest generalizing cursor with
  | nil =>
    rw [List.append_nil, if_pos hcursor]
    rfl
  | cons name rest ih =>
    unfold openResolvedCursor StaticTree.metadata StaticTree.descend
    rw [List.append_cons cursor name rest]
    cases hnode : tree.node (cursor ++ [name]) with
    | none =>
      have hnot : ¬tree.IsDirectory (cursor ++ [name] ++ rest) := by
        unfold StaticTree.IsDirectory
        rw [StaticTree.node_append_none hnode]
        nofun
      rw [if_neg hnot]
      rfl
    | some node =>
      by_cases hdirectory : node = .directory
      · subst hdirectory
        exact ih hnode
      · have hnot : ¬tree.IsDirectory (cursor ++ [name] ++ rest) := by
          intro h
          have hname := StaticTree.isDirectory_append_left h
          unfold StaticTree.IsDirectory at hname
          rw [hnode] at hname
          exact hdirectory (Option.some.inj hname)
        rw [if_neg hnot]
        cases node with
        | directory => exact absurd rfl hdirectory
        | file => rfl
        | other => rfl
        | symlink => rfl

theorem Represents.push (h : Represents tree s ⟨resolved, rest⟩) (name : OsString)
    {cursor : Option (List OsString)}
    (hcursor : ∀ directory, cursor = some directory →
      directory = resolved ++ [name] ∧ tree.IsDirectory directory) :
    Represents tree (s.push name cursor) ⟨resolved ++ [name], rest⟩ where
  pending := h.pending
  resolved := congrArg (· ++ [name]) h.resolved
  actions := h.actions
  active := h.active
  componentBytes := by
    rw [List.map_append, ← h.componentBytes]
    rfl
  bytes := by
    rw [List.map_append, List.sum_append, ← h.bytes]
    rfl
  cursor := hcursor

theorem admitComponent_budget {component : OsString} {origin : LocalResolutionOrigin}
    {s' : Resolver} (h : admitComponent contract request s component origin = .ok s') :
    ∃ budget, s' = { s with budget := budget } ∧ (s.budget = none → budget = none) := by
  unfold admitComponent at h
  obtain ⟨budget, hbudget, h⟩ := bind_eq_ok h
  obtain ⟨-, -, h⟩ := bind_eq_ok h
  obtain ⟨-, -, h⟩ := bind_eq_ok h
  obtain ⟨-, -, h⟩ := bind_eq_ok h
  refine ⟨budget, (Except.ok.inj h).symm, fun hs => ?_⟩
  rw [hs] at hbudget
  exact (Except.ok.inj hbudget).symm

theorem admitComponent_unlimited (h : Unlimited contract request s) (component : OsString)
    (origin : LocalResolutionOrigin) :
    admitComponent contract request s component origin = .ok s := by
  obtain ⟨rfl, hpolicy, hbudget⟩ := h
  unfold admitComponent validateByComponentPolicy
  rw [hpolicy, hbudget]
  show Except.ok { s with budget := none } = Except.ok s
  rw [← hbudget]

/-- The counters after the last component is dropped. -/
theorem Represents.drop (h : Represents tree s ⟨resolved, rest⟩) (request : ResolutionRequest)
    (hne : resolved ≠ []) :
    ∃ bytes total, s.resolvedComponentBytes.getLast? = some bytes ∧
      checkedSub request s.resolvedBytes bytes = .ok total ∧
      Represents tree
        { s with
          resolved := resolved.dropLast
          resolvedComponentBytes := s.resolvedComponentBytes.dropLast
          resolvedBytes := total
          cursor := none } ⟨resolved.dropLast, rest⟩ := by
  obtain ⟨front, last, rfl⟩ : ∃ front last, resolved = front ++ [last] :=
    ⟨_, _, (List.dropLast_append_getLast hne).symm⟩
  have hbytes := h.componentBytes
  have htotal := h.bytes
  simp only [List.map_append, List.map_cons, List.map_nil, List.sum_append, List.sum_cons,
    List.sum_nil] at hbytes htotal
  refine ⟨last.length + 1, (front.map fun name => name.length + 1).sum, ?_, ?_, ?_⟩
  · rw [hbytes, List.getLast?_concat]
  · unfold checkedSub
    rw [if_pos (by omega)]
    exact congrArg Except.ok (by omega)
  · rw [List.dropLast_concat]
    exact
      { pending := h.pending
        resolved := rfl
        actions := h.actions
        active := h.active
        componentBytes := by rw [hbytes, List.dropLast_concat]
        bytes := rfl
        cursor := fun _ heq => by cases heq }

theorem resolveParent_matches (h : Represents tree s ⟨resolved, rest⟩)
    (hnames : ∀ name ∈ resolved, IsName name) (hclean : tree.Clean resolved) :
    StepMatches tree (Unlimited contract request s)
      (Position.step tree request resolved rest .parent) (resolveParent tree contract request s) := by
  have hresolved : s.resolved = resolved := h.resolved
  unfold resolveParent
  simp only [Position.step]
  rw [hresolved]
  obtain ⟨hdirectory, hensure⟩ | ⟨hdirectory, error, hensure, hreason⟩ :=
    ensureResolvedPrefixIsDirectory_eq request hnames hclean
  · rw [hensure, if_pos hdirectory]
    by_cases hempty : resolved = []
    · subst hempty
      cases hbehavior : request.parentBehavior with
      | rejectEscape => exact .failed (.inr (.inr rfl))
      | stayAtHostRoot => exact .again { h with resolved := rfl, cursor := nofun } Unlimited.budget
    · obtain ⟨bytes, total, hlast, hsub, hdrop⟩ := h.drop request hempty
      rw [if_neg fun hand => hempty hand.1]
      dsimp only [bind, Except.bind]
      rw [if_neg hempty, hlast]
      dsimp only [pure, Except.pure]
      rw [hsub]
      dsimp only
      cases hcheck : contract.checkResolved resolved.dropLast.length total with
      | ok => exact .again hdrop Unlimited.budget
      | error error =>
        refine .refused fun hunlimited => ?_
        rw [hunlimited.contract] at hcheck
        cases hcheck
  · rw [hensure, if_neg hdirectory]
    exact .failed (.inl hreason)

/-- Without a limit, reading a link gives its target. -/
theorem readRootedLink_link {candidate : LocalRelativePath} {name : OsString} {target : UnixPath}
    (hnames : candidate.names = resolved ++ [name]) (hdirectory : tree.IsDirectory resolved)
    (hnode : tree.node (resolved ++ [name]) = some (.symlink target)) (maximumBytes : Option Nat) :
    tree.readRootedLink candidate maximumBytes =
      match maximumBytes with
      | some maximum =>
        if maximum < target.bytes.length then .ok (none, maximum + 1)
        else .ok (some target, target.bytes.length)
      | none => .ok (some target, target.bytes.length) := by
  have hopen : tree.openRootedParent [] resolved = .ok resolved :=
    StaticTree.openRootedParent_directory hdirectory
  unfold StaticTree.readRootedLink
  rw [hnames, List.dropLast_concat, hopen, show (resolved ++ [name]).getLastD [] = name by simp]
  dsimp only [bind, Except.bind]
  rw [hnode]
  rfl

/-- The target of a link is read, unless a limit or a policy forbids it. -/
theorem readTarget_cases (contract : ResolutionContract) (request : ResolutionRequest)
    {candidate : LocalRelativePath} {name : OsString} {target : UnixPath}
    (hnames : candidate.names = resolved ++ [name]) (hdirectory : tree.IsDirectory resolved)
    (hnode : tree.node (resolved ++ [name]) = some (.symlink target)) (hops : Nat) :
    readTarget tree contract request hops candidate = .ok target ∨
      contract ≠ .unrestricted ∧ ∃ error,
        readTarget tree contract request hops candidate = .error error := by
  have hread := readRootedLink_link hnames hdirectory hnode contract.limits.symlinkTargetBytes
  by_cases hcontract : contract = .unrestricted
  · subst hcontract
    left
    unfold readTarget readLinkLimited
    rw [hread]
    simp [openingRootTargetMatchesAnchor, bind, Except.bind, ResolutionContract.unrestricted]
    rfl
  · cases hresult : readTarget tree contract request hops candidate with
    | error error => exact .inr ⟨hcontract, error, rfl⟩
    | ok read =>
      left
      unfold readTarget at hresult
      obtain ⟨-, -, hresult⟩ := bind_eq_ok hresult
      obtain ⟨read', hlimited, hresult⟩ := bind_eq_ok hresult
      have hlimited := inContext_eq_ok hlimited
      unfold readLinkLimited at hlimited
      obtain ⟨⟨found, observed⟩, hfound, hlimited⟩ := bind_eq_ok hlimited
      rw [hread] at hfound
      have htarget : found = none ∨ found = some target := by
        split at hfound
        · split at hfound
          · cases hfound
            exact .inl rfl
          · cases hfound
            exact .inr rfl
        · cases hfound
          exact .inr rfl
      obtain rfl | rfl := htarget
      · cases hlimited
      · obtain ⟨-, -, hlimited⟩ := bind_eq_ok hlimited
        cases hlimited
        dsimp only at hresult
        split at hresult
        · cases hresult
        · exact hresult ▸ rfl

theorem stepsFromPath_cases (contract : ResolutionContract) (request : ResolutionRequest)
    (path : OsString) (origin : LocalResolutionOrigin) :
    stepsFromPath contract request path origin = .ok (stepsOf path origin) ∨
      contract ≠ .unrestricted ∧ ∃ error,
        stepsFromPath contract request path origin = .error error := by
  unfold stepsFromPath tokenize
  cases hcheck : contract.checkPending (measurePath path).1 (measurePath path).2 with
  | ok => exact .inl rfl
  | error error =>
    refine .inr ⟨fun hcontract => ?_, _, rfl⟩
    rw [hcontract] at hcheck
    cases hcheck

theorem expandSymlink_matches {name : OsString} {target : UnixPath}
    (h : Represents tree s ⟨resolved, rest⟩) (hnames : ∀ n ∈ resolved ++ [name], IsName n)
    (hdirectory : tree.IsDirectory resolved)
    (hnode : tree.node (resolved ++ [name]) = some (.symlink target)) :
    StepMatches tree (Unlimited contract request s)
      (Position.expand tree request resolved name target rest)
      (expandSymlink tree contract request s name
        (tree.metadataOf (resolved ++ [name]) (.symlink target))) := by
  have hresolved : s.resolved = resolved := h.resolved
  have hactive : s.activeSymlinks = endsOf rest := h.active
  obtain ⟨candidate, hcandidate, hcandidateNames⟩ :=
    relativeFromComponents_eq request hnames (by simp)
  have hidentity : symlinkIdentity (tree.metadataOf (resolved ++ [name]) (.symlink target)) candidate =
      tree.linkIdentity (resolved ++ [name]) := by
    unfold symlinkIdentity StaticTree.metadataOf StaticTree.linkIdentity
    cases tree.identity (resolved ++ [name]) with
    | none => exact congrArg SymlinkIdentity.namespacePath hcandidateNames
    | some identity => exact congrArg (SymlinkIdentity.native _ _) hcandidateNames
  unfold expandSymlink Position.expand
  rw [hresolved, hcandidate, hactive]
  dsimp only [bind, Except.bind]
  rw [hidentity]
  -- the checks come in the order of the source: policy, cycle, target, limits
  by_cases hreject : request.symlinkPolicy = .reject
  · rw [if_pos hreject, if_pos hreject]
    exact .failed (.inr (.inl rfl))
  · rw [if_neg hreject, if_neg hreject]
    dsimp only [pure, Except.pure]
    by_cases hcycle : tree.linkIdentity (resolved ++ [name]) ∈ endsOf rest
    · rw [if_pos hcycle, if_pos hcycle]
      exact .stop ⟨fun _ => rfl, fun _ => rfl⟩
    · rw [if_neg hcycle, if_neg hcycle]
      obtain htarget | ⟨hlimited, error, htarget⟩ :=
        readTarget_cases contract request hcandidateNames hdirectory
          hnode (s.hops + 1)
      · rw [htarget]
        dsimp only
        obtain hsteps | ⟨hlimited, error, hsteps⟩ := stepsFromPath_cases contract
          request target.bytes .symlinkTarget
        · rw [hsteps]
          dsimp only
          -- the target goes before the rest, with the end of the link between them
          generalize hreplacement : stepsOf target.bytes .symlinkTarget ++
            .endSymlink (tree.linkIdentity (resolved ++ [name])) :: s.pending = replacement
          have hpending : replacement = stepsOf target.bytes .symlinkTarget ++
              .endSymlink (tree.linkIdentity (resolved ++ [name])) :: rest := by
            rw [← hreplacement, show s.pending = rest from h.pending]
          cases hcheck : contract.checkPending (pendingMeasure replacement).1
            (pendingMeasure replacement).2 with
          | ok =>
            rw [← hpending]
            refine .again { h with
              pending := rfl
              resolved := rfl
              actions := rfl
              active := ?_
              cursor := nofun } Unlimited.budget
            show _ :: endsOf rest = endsOf replacement
            rw [hpending, endsOf_append, endsOf_stepsOf]
            rfl
          | error error =>
            refine .refused fun hunlimited => ?_
            rw [hunlimited.contract] at hcheck
            cases hcheck
        · rw [hsteps]
          exact .refused fun hunlimited => hlimited hunlimited.contract
      · rw [htarget]
        exact .refused fun hunlimited => hlimited hunlimited.contract

theorem currentCursor_eq (h : Represents tree s ⟨resolved, rest⟩) :
    currentCursor tree request s = .ok (if tree.IsDirectory resolved then some resolved else none) := by
  unfold currentCursor
  cases hcursor : s.cursor with
  | none =>
    have hopen := openResolvedCursor_eq request resolved tree.root
    rw [List.nil_append] at hopen
    rw [show s.resolved = resolved from h.resolved]
    exact hopen
  | some directory =>
    obtain ⟨rfl, hdirectory⟩ := h.cursor directory hcursor
    dsimp only
    rw [if_pos hdirectory]

/-- The native call for a component answers what the component denotes. -/
theorem componentMetadata_eq {name : OsString} (h : Represents tree s ⟨resolved, rest⟩)
    (hnames : ∀ n ∈ resolved ++ [name], IsName n) (hclean : tree.Clean resolved) :
    componentMetadata tree request s (if tree.IsDirectory resolved then some resolved else none)
        name = .ok ((tree.lookup resolved name).bind fun found =>
      match found with
      | some node => .ok (tree.metadataOf (resolved ++ [name]) node)
      | none => .error StaticTree.noEntry) := by
  unfold componentMetadata
  by_cases hdirectory : tree.IsDirectory resolved
  · rw [if_pos hdirectory, StaticTree.lookup_directory hdirectory]
    show Except.ok (tree.metadata resolved name) = _
    unfold StaticTree.metadata
    cases tree.node (resolved ++ [name]) <;> rfl
  · obtain ⟨candidate, hcandidate, hcandidateNames⟩ :=
      relativeFromComponents_eq request hnames (by simp)
    rw [if_neg hdirectory, show s.resolved = resolved from h.resolved, hcandidate]
    exact congrArg Except.ok (StaticTree.symlinkMetadata_eq hclean hcandidateNames)

theorem StepMatches.mono {unlimited unlimited' : Prop}
    {turn : Turn (Except Stop (List OsString)) Position} {result : Except ResolutionError Resolver}
    (h : StepMatches tree unlimited' turn result) (hmono : unlimited → unlimited') :
    StepMatches tree unlimited turn result := by
  cases h with
  | stop hcycle => exact .stop hcycle
  | again hrepresents hbudget => exact .again hrepresents fun hu => hbudget (hmono hu)
  | refused hnot => exact .refused fun hu => hnot (hmono hu)

theorem appendComponent_matches (request : ResolutionRequest) {name : OsString} {node : Node}
    (h : Represents tree s ⟨resolved, rest⟩)
    (hnode : tree.node (resolved ++ [name]) = some node) (descends : Bool)
    (hdescends : descends = true → node = .directory) :
    ∃ s', appendComponent tree request s (some resolved) name descends = .ok s' ∧
      s'.budget = s.budget ∧ Represents tree s' ⟨resolved ++ [name], rest⟩ := by
  unfold appendComponent StaticTree.descend
  cases descends with
  | false => exact ⟨_, rfl, rfl, h.push name nofun⟩
  | true =>
    obtain rfl := hdescends rfl
    dsimp only
    rw [hnode]
    refine ⟨_, rfl, rfl, h.push name ?_⟩
    rintro directory ⟨⟩
    exact ⟨rfl, hnode⟩

/-- A name that is no link, or is not looked up, becomes the last of the resolved path. -/
theorem followComponent_appends (contract : ResolutionContract) {name : OsString}
    (h : Represents tree s ⟨resolved, rest⟩) (hnames : ∀ n ∈ resolved ++ [name], IsName n)
    (hclean : tree.Clean resolved)
    (hplain : (pendingActionsOf rest = 0 ∧ request.followFinal = false) ∨
      ∃ found, tree.lookup resolved name = .ok found ∧ ∀ target, found ≠ some (.symlink target)) :
    ∃ s', followComponent tree contract request s name = .ok s' ∧ s'.budget = s.budget ∧
      Represents tree s' ⟨resolved ++ [name], rest⟩ := by
  unfold followComponent
  rw [show s.pendingActions = pendingActionsOf rest from h.actions]
  by_cases hkeep : pendingActionsOf rest = 0 ∧ request.followFinal = false
  · rw [if_pos hkeep]
    exact ⟨_, rfl, rfl, h.push name fun _ => nofun⟩
  · obtain hkept | ⟨found, hlookup, hfound⟩ := hplain
    · exact absurd hkept hkeep
    · rw [if_neg hkeep, currentCursor_eq h]
      dsimp only [bind, Except.bind, pure, Except.pure]
      rw [componentMetadata_eq h hnames hclean, hlookup]
      cases found with
      | none => exact ⟨_, rfl, rfl, h.push name fun _ => nofun⟩
      | some node =>
        obtain ⟨hdirectory, hnode⟩ := StaticTree.node_of_lookup hlookup
        have happend := appendComponent_matches request h hnode
        rw [if_pos hdirectory]
        cases node with
        | symlink target => exact absurd rfl (hfound target)
        | directory => exact happend _ fun _ => rfl
        | file => exact happend _ fun hdescends => by simp [StaticTree.metadataOf, Node.kind] at hdescends
        | other => exact happend _ fun hdescends => by simp [StaticTree.metadataOf, Node.kind] at hdescends

theorem followComponent_matches {name : OsString} {origin : LocalResolutionOrigin}
    (h : Represents tree s ⟨resolved, rest⟩) (hnames : ∀ n ∈ resolved ++ [name], IsName n)
    (hclean : tree.Clean resolved) :
    StepMatches tree (Unlimited contract request s)
      (Position.step tree request resolved rest (.normal name origin))
      (followComponent tree contract request s name) := by
  have happend : ((pendingActionsOf rest = 0 ∧ request.followFinal = false) ∨
      ∃ found, tree.lookup resolved name = .ok found ∧ ∀ target, found ≠ some (.symlink target)) →
      StepMatches tree (Unlimited contract request s) (.again ⟨resolved ++ [name], rest⟩)
        (followComponent tree contract request s name) := by
    intro hplain
    obtain ⟨s', heq, hbudget, hrepresents⟩ :=
      followComponent_appends contract h hnames hclean hplain
    rw [heq]
    exact .again hrepresents fun hu => hbudget.trans hu.budget
  simp only [Position.step]
  by_cases hkeep : pendingActionsOf rest = 0 ∧ request.followFinal = false
  · rw [if_pos hkeep]
    exact happend (.inl hkeep)
  · rw [if_neg hkeep]
    cases hlookup : tree.lookup resolved name with
    | error error =>
      have hkind : error = StaticTree.wrongDirectory := by
        unfold StaticTree.lookup at hlookup
        split at hlookup <;> cases hlookup
        rfl
      unfold followComponent
      rw [show s.pendingActions = pendingActionsOf rest from h.actions, if_neg hkeep,
        currentCursor_eq h]
      dsimp only [bind, Except.bind, pure, Except.pure]
      rw [componentMetadata_eq h hnames hclean, hlookup, hkind]
      exact .failed (.inl rfl)
    | ok found =>
      cases found with
      | none => exact happend (.inr ⟨none, hlookup, nofun⟩)
      | some node =>
        cases node with
        | symlink target =>
          obtain ⟨hdirectory, hnode⟩ := StaticTree.node_of_lookup hlookup
          unfold followComponent
          rw [show s.pendingActions = pendingActionsOf rest from h.actions, if_neg hkeep,
            currentCursor_eq h]
          dsimp only [bind, Except.bind, pure, Except.pure]
          rw [componentMetadata_eq h hnames hclean, hlookup]
          exact expandSymlink_matches h hnames hdirectory hnode
        | directory | file | other => exact happend (.inr ⟨_, hlookup, nofun⟩)

theorem resolveNormal_matches {name : OsString} {origin : LocalResolutionOrigin}
    (h : Represents tree s ⟨resolved, rest⟩) (hnames : ∀ n ∈ resolved ++ [name], IsName n)
    (hclean : tree.Clean resolved) :
    StepMatches tree (Unlimited contract request s)
      (Position.step tree request resolved rest (.normal name origin))
      (resolveNormal tree contract request s name origin) := by
  unfold resolveNormal
  cases hadmit : admitComponent contract request s name origin with
  | error error =>
    refine .refused fun hunlimited => ?_
    rw [admitComponent_unlimited hunlimited] at hadmit
    cases hadmit
  | ok admitted =>
    obtain ⟨budget, rfl, hbudget⟩ := admitComponent_budget hadmit
    have hadmitted : Represents tree { s with budget := budget } ⟨resolved, rest⟩ := { h with }
    exact (followComponent_matches hadmitted hnames hclean).mono fun hunlimited =>
      { hunlimited with budget := hbudget hunlimited.budget }

/-! ## 3. Turns -/

theorem Position.valid_start {path : UnixPath} {origin : LocalResolutionOrigin} :
    Position.Valid tree ⟨[], stepsOf path.bytes origin⟩ where
  resolved _ hname := absurd hname List.not_mem_nil
  pending _ _ := isName_of_mem_stepsOf
  clean _ := StaticTree.clean_nil

theorem represents_start {steps : List ResolutionStep} {budget : Option PathBindingBudget}
    (hends : endsOf steps = []) : Represents tree (.start steps budget) ⟨[], steps⟩ where
  pending := rfl
  resolved := rfl
  actions := rfl
  active := hends.symm
  componentBytes := rfl
  bytes := rfl
  cursor := nofun

theorem pendingActionsOf_cons_ne_zero {step : ResolutionStep} (h : isEndSymlinkStep step = false)
    (rest : List ResolutionStep) : pendingActionsOf (step :: rest) ≠ 0 := by
  rw [pendingActionsOf_cons, h]
  simp

theorem lookup_leads {path : List OsString} {name : OsString} {found : Option Node}
    (h : tree.lookup path name = .ok found) : tree.IsDirectory path ∨ tree.node path = none := by
  unfold StaticTree.lookup at h
  split at h
  next hdirectory => exact .inl hdirectory
  next => cases h
  next hmissing => exact .inr hmissing

/-- A name that was looked up becomes the last of a valid position. -/
theorem Position.Valid.append {name : OsString} {origin : LocalResolutionOrigin} {found : Option Node}
    (h : Position.Valid tree ⟨resolved, .normal name origin :: rest⟩)
    (hlookup : tree.lookup resolved name = .ok found) :
    Position.Valid tree ⟨resolved ++ [name], rest⟩ where
  resolved n hn := by
    rw [List.mem_append, List.mem_singleton] at hn
    obtain hn | rfl := hn
    · exact h.resolved n hn
    · exact h.pending n origin List.mem_cons_self
  pending n origin' hn := h.pending n origin' (List.mem_cons_of_mem _ hn)
  clean _ := (h.clean (pendingActionsOf_cons_ne_zero rfl rest)).append (lookup_leads hlookup) name

theorem Position.Valid.turn {p p' : Position} (h : p.Valid tree)
    (hturn : p.turn tree request = .again p') : p'.Valid tree := by
  obtain ⟨resolved, pending⟩ := p
  unfold Position.turn at hturn
  cases pending with
  | nil => cases hturn
  | cons step rest =>
    have hrest : ∀ name origin, .normal name origin ∈ rest → IsName name :=
      fun name origin hname => h.pending name origin (List.mem_cons_of_mem _ hname)
    simp only at hturn
    -- what is resolved stays clean as long as actions are pending
    cases step with
    | resetRoot =>
      cases hturn
      exact ⟨fun _ hname => absurd hname List.not_mem_nil, hrest, fun _ => StaticTree.clean_nil⟩
    | current | requireDirectory =>
      simp only [Position.step] at hturn
      split at hturn
      · cases hturn
        exact ⟨h.resolved, hrest, fun _ => h.clean (pendingActionsOf_cons_ne_zero rfl rest)⟩
      · cases hturn
    | parent =>
      simp only [Position.step] at hturn
      split at hturn
      · split at hturn
        · cases hturn
        · cases hturn
          exact ⟨fun name hname => h.resolved name (List.dropLast_subset _ hname), hrest,
            fun _ => (h.clean (pendingActionsOf_cons_ne_zero rfl rest)).dropLast⟩
      · cases hturn
    | endSymlink identity =>
      cases hturn
      refine ⟨h.resolved, hrest, fun hactions => h.clean ?_⟩
      rw [pendingActionsOf_cons]
      simpa [isEndSymlinkStep] using hactions
    | normal name origin =>
      simp only [Position.step] at hturn
      split at hturn
      next hkeep =>
        cases hturn
        refine ⟨fun n hn => ?_, hrest, fun hactions => absurd hkeep.1 hactions⟩
        rw [List.mem_append, List.mem_singleton] at hn
        obtain hn | rfl := hn
        · exact h.resolved n hn
        · exact h.pending n origin List.mem_cons_self
      next =>
        split at hturn
        next => cases hturn
        next target hlookup =>
          unfold Position.expand at hturn
          split at hturn
          · cases hturn
          · split at hturn
            · cases hturn
            · cases hturn
              refine ⟨h.resolved, fun n origin' hn => ?_, fun _ =>
                h.clean (pendingActionsOf_cons_ne_zero rfl rest)⟩
              -- a new name comes from the target or was pending before
              rw [List.mem_append, List.mem_cons] at hn
              obtain hn | hn | hn := hn
              · exact isName_of_mem_stepsOf hn
              · cases hn
              · exact hrest n origin' hn
        next hlookup =>
          cases hturn
          exact h.append hlookup

/-- A step that counts as an action, taken from the queue. -/
theorem Represents.pop {step : ResolutionStep} (h : Represents tree s ⟨resolved, step :: rest⟩)
    (request : ResolutionRequest) (hend : isEndSymlinkStep step = false) :
    checkedSub request s.pendingActions 1 = .ok (pendingActionsOf rest) ∧
      Represents tree { s with pending := rest, pendingActions := pendingActionsOf rest }
        ⟨resolved, rest⟩ := by
  constructor
  · have hactions := h.actions
    rw [pendingActionsOf_cons, hend, if_neg (by decide)] at hactions
    unfold checkedSub
    rw [if_pos (by omega)]
    exact congrArg Except.ok (by omega)
  · exact { h with
      pending := rfl
      actions := rfl
      active := h.active.trans (endsOf_cons hend rest) }

/-- Every turn of the loop is a turn of its position, unless a limit or a policy ends the loop. -/
theorem resolverTurn_matches (contract : ResolutionContract) (request : ResolutionRequest)
    {p : Position} (h : Represents tree s p) (hvalid : p.Valid tree) :
    (p.turn tree request = .done (.ok p.resolved) ∧
        resolverTurn tree contract request s = .done (.ok (ofNames p.resolved))) ∨
      ∃ result, StepMatches tree (Unlimited contract request s) (p.turn tree request) result ∧
        resolverTurn tree contract request s =
          match result with
          | .ok s' => .again s'
          | .error error => .done (.error error) := by
  obtain ⟨resolved, pending⟩ := p
  unfold resolverTurn Position.turn
  rw [show s.pending = pending from h.pending]
  cases pending with
  | nil =>
    have hresolved : s.resolved = resolved := h.resolved
    exact .inl ⟨rfl, by rw [hresolved]⟩
  | cons step rest =>
    refine .inr ⟨_, ?_, rfl⟩
    by_cases hend : isEndSymlinkStep step
    · cases step with
      | endSymlink identity =>
        show StepMatches tree _ (.again ⟨resolved, rest⟩)
          (.ok { s with pending := rest, activeSymlinks := s.activeSymlinks.erase identity })
        have hactive : s.activeSymlinks.erase identity = endsOf rest := by
          rw [show s.activeSymlinks = identity :: endsOf rest from h.active, List.erase_cons_head]
        have hactions : s.pendingActions = pendingActionsOf rest := by
          have hactions := h.actions
          rw [pendingActionsOf_cons] at hactions
          simpa [isEndSymlinkStep] using hactions
        exact .again { h with pending := rfl, active := hactive, actions := hactions }
          Unlimited.budget
      | resetRoot | current | parent | requireDirectory | normal => cases hend
    · -- The step counts as an action; without it the loop is at the rest of the position.
      have hend : isEndSymlinkStep step = false := by simpa using hend
      have hclean : tree.Clean resolved := hvalid.clean (pendingActionsOf_cons_ne_zero hend rest)
      obtain ⟨hsub, hpopped⟩ := h.pop request hend
      unfold resolveStep
      rw [hend]
      simp only [Bool.false_eq_true, if_false]
      rw [hsub]
      dsimp only [bind, Except.bind]
      cases step with
      | endSymlink => cases hend
      | resetRoot =>
        exact .again { hpopped with resolved := rfl, componentBytes := rfl, bytes := rfl, cursor := nofun }
          Unlimited.budget
      | current | requireDirectory =>
        simp only [Position.step]
        have hresolved : s.resolved = resolved := h.resolved
        have hensure := ensureResolvedPrefixIsDirectory_eq request hvalid.resolved hclean
        simp only at hensure
        rw [← hresolved] at hensure
        obtain ⟨hdirectory, hensure⟩ | ⟨hdirectory, error, hensure, hreason⟩ := hensure
        · rw [hensure, if_pos (hresolved ▸ hdirectory)]
          exact .again hpopped Unlimited.budget
        · rw [hensure, if_neg (hresolved ▸ hdirectory)]
          exact .failed (.inl hreason)
      | parent =>
        exact (resolveParent_matches hpopped hvalid.resolved hclean).mono fun hu => { hu with }
      | normal name origin =>
        refine (resolveNormal_matches hpopped ?_ hclean).mono fun hu => { hu with }
        intro n hn
        rw [List.mem_append, List.mem_singleton] at hn
        obtain hn | rfl := hn
        · exact hvalid.resolved n hn
        · exact hvalid.pending n origin List.mem_cons_self

end Steps

end LocalFiles.Rooted
