import LocalFiles.Rooted.Chroot

/-!
# FastPath — a path without links, and the loop on the same path

A path of normal components is first walked along directories without a queue.  Every check on the
way is one that the loop makes, in the same order, so both fail alike.  The loop also requires a
directory where the path ends in a separator, and the shorter walk does not look.
-/

namespace LocalFiles.Rooted

open NativePath
open Walk (LocalResolutionScope LocalResolutionOrigin)

/-- The request of `resolve_rooted_path_allow_root_with_scope_and_deadline`. -/
def ResolutionRequest.withinRoot (symlinkPolicy : LocalSymlinkPolicy) (followFinal : Bool)
    (operation : LocalFileOperation) (original : OsString) (scope : LocalResolutionScope) :
    ResolutionRequest where
  symlinkPolicy := symlinkPolicy
  followFinal := followFinal
  operation := operation
  original := original
  scope := scope

/-- The path is tried without links, as `relative`. -/
structure TriedFirst (request : ResolutionRequest) (path : OsString)
    (relative : LocalRelativePath) : Prop where
  policy : request.symlinkPolicy ≠ .followAcrossScope
  nonempty : path ≠ []
  normal : hasOnlyNormalComponents path = true
  relative : rootedPath request path = .ok relative

def bytesOf (names : List OsString) : Nat := (names.map fun name => name.length + 1).sum

/-! ## 1. What is checked about the components -/

section Checks

variable (contract : ResolutionContract) (request : ResolutionRequest)

/-- The checks on a component behind `resolved` ones. -/
def checkComponent (resolved : List OsString) (name : OsString) : Except ResolutionError Unit := do
  inContext request.operation request.original
    (contract.validateComponent name request.scope .input)
  inContext request.operation request.original
    (contract.checkResolved (resolved.length + 1) (bytesOf resolved + (name.length + 1)))

/-- No policy and no limit stands against the components. -/
def Admitted : List OsString → List OsString → Prop
  | _, [] => True
  | resolved, name :: rest =>
    checkComponent contract request resolved name = .ok () ∧ Admitted (resolved ++ [name]) rest

/-- The path leads along directories to its last component, which is no link where it counts. -/
structure TakesFastPath (tree : StaticTree) (path : LocalRelativePath) : Prop where
  pending : contract.checkPending (measurePath path.path).1 (measurePath path.path).2 = .ok ()
  admitted : Admitted contract request [] path.names
  directories : tree.IsDirectory path.names.dropLast
  final : request.followFinal = true →
    ∃ node, tree.node path.names = some node ∧ node.kind ≠ .symlink

/-- What the shorter walk reports, the loop reports on the same path. -/
structure Agrees (tree : StaticTree) (path : LocalRelativePath) : Prop where
  resolved : ∀ p, tryResolveWithoutSymlinks tree contract request path = .ok (some p) →
    ∃ q, Resolves tree contract request none path.path (.ok q) ∧ components q = components p
  refused : ∀ error, tryResolveWithoutSymlinks tree contract request path = .error error →
    ∃ error', Resolves tree contract request none path.path (.error error') ∧
      error'.kind = error.kind ∧ error'.resource = error.resource

end Checks

section Components

variable {tree : StaticTree} {contract : ResolutionContract} {request : ResolutionRequest}

theorem bytesOf_append (resolved : List OsString) (name : OsString) :
    bytesOf (resolved ++ [name]) = bytesOf resolved + (name.length + 1) := by
  unfold bytesOf
  rw [List.map_append, List.sum_append]
  rfl

theorem measurePath_name {name : OsString} (h : IsName name) :
    (measurePath name).2 = name.length + 1 := by
  unfold measurePath
  rw [h.parts_eq]
  rfl

/-- The shorter walk, one component on. -/
theorem resolveComponents_cons (path : LocalRelativePath) {cursor rest : List OsString}
    {name : OsString} (hname : IsName name) :
    resolveComponents tree contract request path cursor cursor.length (bytesOf cursor)
        (name :: rest) =
      match checkComponent contract request cursor name with
      | .error error => .error error
      | .ok () =>
        if rest = [] ∧ request.followFinal = false then .ok (some path.path)
        else match tree.node (cursor ++ [name]) with
          | none => .ok none
          | some (.symlink _) => .ok none
          | some .directory =>
            if rest = [] then .ok (some path.path)
            else resolveComponents tree contract request path (cursor ++ [name])
              (cursor ++ [name]).length (bytesOf (cursor ++ [name])) rest
          | some _ => if rest = [] then .ok (some path.path) else .ok none := by
  have hlength : (cursor ++ [name]).length = cursor.length + 1 := List.length_append
  unfold resolveComponents checkComponent
  rw [measurePath_name hname, bytesOf_append, hlength]
  cases inContext request.operation request.original
    (contract.validateComponent name request.scope .input) with
  | error => rfl
  | ok =>
    dsimp only [bind, Except.bind]
    cases inContext request.operation request.original (contract.checkResolved (cursor.length + 1)
      (bytesOf cursor + (name.length + 1))) with
    | error => rfl
    | ok =>
      dsimp only
      by_cases hkeep : rest = [] ∧ request.followFinal = false
      · rw [if_pos hkeep, if_pos hkeep]
        rfl
      · rw [if_neg hkeep, if_neg hkeep]
        unfold StaticTree.metadata StaticTree.descend
        cases tree.node (cursor ++ [name]) with
        | none => rfl
        | some node =>
          cases rest with
          | nil => cases node <;> rfl
          | cons first rest => cases node <;> rfl

/-! ## 2. When the shorter walk finds its path -/

section Steps

variable {path : LocalRelativePath} {cursor rest : List OsString} {name p : OsString}

/-- The last component may stay unfollowed, and then it need not exist. -/
theorem resolveComponents_last_iff (hname : IsName name) :
    resolveComponents tree contract request path cursor cursor.length (bytesOf cursor) [name] =
        .ok (some p) ↔
      checkComponent contract request cursor name = .ok () ∧ p = path.path ∧
        (request.followFinal = true →
          ∃ node, tree.node (cursor ++ [name]) = some node ∧ node.kind ≠ .symlink) := by
  rw [resolveComponents_cons path hname]
  cases hcheck : checkComponent contract request cursor name with
  | error error => exact ⟨nofun, fun h => nomatch h.1⟩
  | ok =>
    dsimp only
    by_cases hfollow : request.followFinal = false
    · rw [if_pos ⟨rfl, hfollow⟩]
      constructor
      · intro h
        refine ⟨rfl, (Option.some.inj (Except.ok.inj h)).symm, ?_⟩
        rw [hfollow]
        nofun
      · intro h
        rw [h.2.1]
    · rw [if_neg fun hand => hfollow hand.2]
      have hfollow : request.followFinal = true := by simpa using hfollow
      constructor
      · intro h
        cases hnode : tree.node (cursor ++ [name]) with
        | none =>
          rw [hnode] at h
          cases h
        | some node =>
          rw [hnode] at h
          cases node with
          | symlink target => cases h
          | directory | file | other =>
            exact ⟨rfl, (Option.some.inj (Except.ok.inj h)).symm, fun _ => ⟨_, rfl, by decide⟩⟩
      · intro ⟨_, hp, hfinal⟩
        obtain ⟨node, hnode, hkind⟩ := hfinal hfollow
        rw [hnode, hp]
        cases node with
        | symlink target => exact absurd rfl hkind
        | directory | file | other => rfl

/-- Any other component has to be a directory, below which the walk goes on. -/
theorem resolveComponents_step_iff (hname : IsName name) (hrest : rest ≠ []) :
    resolveComponents tree contract request path cursor cursor.length (bytesOf cursor)
        (name :: rest) = .ok (some p) ↔
      checkComponent contract request cursor name = .ok () ∧ tree.IsDirectory (cursor ++ [name]) ∧
        resolveComponents tree contract request path (cursor ++ [name]) (cursor ++ [name]).length
          (bytesOf (cursor ++ [name])) rest = .ok (some p) := by
  rw [resolveComponents_cons path hname]
  cases hcheck : checkComponent contract request cursor name with
  | error error => exact ⟨nofun, fun h => nomatch h.1⟩
  | ok =>
    dsimp only
    rw [if_neg fun hand => hrest hand.1]
    constructor
    · intro h
      cases hnode : tree.node (cursor ++ [name]) with
      | none =>
        rw [hnode] at h
        cases h
      | some node =>
        rw [hnode] at h
        cases node with
        | symlink target => cases h
        | file | other =>
          simp only [if_neg hrest] at h
          cases h
        | directory =>
          simp only [if_neg hrest] at h
          exact ⟨rfl, hnode, h⟩
    · intro ⟨_, hnode, h⟩
      rw [show tree.node (cursor ++ [name]) = some .directory from hnode]
      simp only [if_neg hrest]
      exact h

end Steps

theorem resolveComponents_ok_iff {path : LocalRelativePath} {cursor names : List OsString}
    (hnames : ∀ name ∈ names, IsName name) (hcursor : tree.IsDirectory cursor) {p : OsString} :
    resolveComponents tree contract request path cursor cursor.length (bytesOf cursor) names =
        .ok (some p) ↔
      p = path.path ∧ Admitted contract request cursor names ∧
        tree.IsDirectory (cursor ++ names).dropLast ∧
        (request.followFinal = true →
          ∃ node, tree.node (cursor ++ names) = some node ∧ node.kind ≠ .symlink) := by
  induction names generalizing cursor with
  | nil =>
    rw [List.append_nil]
    have hparent : tree.IsDirectory cursor.dropLast := by
      by_cases hempty : cursor = []
      · rw [hempty]
        exact tree.root
      · rw [← List.dropLast_append_getLast hempty] at hcursor
        exact StaticTree.isDirectory_append_left hcursor
    constructor
    · intro h
      exact ⟨(Option.some.inj (Except.ok.inj h)).symm, trivial, hparent,
        fun _ => ⟨.directory, hcursor, by decide⟩⟩
    · intro h
      rw [h.1]
      rfl
  | cons name rest ih =>
    have hname : IsName name := hnames name List.mem_cons_self
    have hnames : ∀ n ∈ rest, IsName n := fun n hn => hnames n (List.mem_cons_of_mem _ hn)
    by_cases hrest : rest = []
    · subst hrest
      rw [resolveComponents_last_iff hname, List.dropLast_concat]
      constructor
      · intro ⟨hcheck, hp, hfinal⟩
        exact ⟨hp, ⟨hcheck, trivial⟩, hcursor, hfinal⟩
      · intro ⟨hp, hadmitted, _, hfinal⟩
        exact ⟨hadmitted.1, hp, hfinal⟩
    · rw [resolveComponents_step_iff hname hrest, List.append_cons cursor name rest]
      constructor
      · intro ⟨hcheck, hnode, h⟩
        obtain ⟨hp, hadmitted, hdirectories, hfinal⟩ := (ih hnames hnode).mp h
        exact ⟨hp, ⟨hcheck, hadmitted⟩, hdirectories, hfinal⟩
      · intro ⟨hp, hadmitted, hdirectories, hfinal⟩
        have hnode : tree.IsDirectory (cursor ++ [name]) := by
          rw [List.dropLast_append_of_ne_nil hrest] at hdirectories
          exact StaticTree.isDirectory_append_left hdirectories
        exact ⟨hadmitted.1, hnode, (ih hnames hnode).mpr ⟨hp, hadmitted.2, hdirectories, hfinal⟩⟩

theorem takesFastPath_iff {path : LocalRelativePath} {p : OsString} :
    tryResolveWithoutSymlinks tree contract request path = .ok (some p) ↔
      p = path.path ∧ TakesFastPath contract request tree path := by
  unfold tryResolveWithoutSymlinks
  cases hpending : contract.checkPending (measurePath path.path).1 (measurePath path.path).2 with
  | error error =>
    constructor
    · intro h
      cases h
    · intro h
      cases hpending.symm.trans h.2.pending
  | ok =>
    show resolveComponents tree contract request path [] 0 0 path.names = _ ↔ _
    rw [show (0 : Nat) = bytesOf [] from rfl, show bytesOf [] = ([] : List OsString).length from rfl]
    exact (resolveComponents_ok_iff path.isName_names tree.root).trans ⟨fun ⟨hp, hadmitted, hdirectories, hfinal⟩ =>
      ⟨hp, hpending, hadmitted, hdirectories, hfinal⟩,
      fun ⟨hp, h⟩ => ⟨hp, h.admitted, h.directories, h.final⟩⟩

/-! ## 3. Side by side -/

theorem admitComponent_eq {s : Resolver} {cursor : List OsString} {rest : List ResolutionStep}
    (h : Represents tree s ⟨cursor, rest⟩) (hpolicy : request.componentPolicy = none)
    (hbudget : s.budget = none) (name : OsString) :
    admitComponent contract request s name .input =
      (checkComponent contract request cursor name).map fun _ => s := by
  have hresolved : s.resolved = cursor := h.resolved
  have hbytes : s.resolvedBytes = bytesOf cursor := h.bytes
  unfold admitComponent validateByComponentPolicy checkComponent
  rw [hpolicy, hbudget, ← hbytes, ← hresolved]
  dsimp only [debitBudget, bind, Except.bind]
  cases inContext request.operation request.original
    (contract.validateComponent name request.scope .input) with
  | error => rfl
  | ok =>
    dsimp only
    cases inContext request.operation request.original
      (contract.checkResolved (s.resolved.length + 1) (s.resolvedBytes + (name.length + 1))) with
    | error => rfl
    | ok =>
      show Except.ok { s with budget := none } = Except.ok s
      rw [← hbudget]

/-- The turn of the loop for a component of the path. -/
theorem At.turn_component {s : Resolver} {cursor : List OsString} {name : OsString}
    {rest : List ResolutionStep} (h : At tree s ⟨cursor, .normal name .input :: rest⟩)
    (contract : ResolutionContract) (hpolicy : request.componentPolicy = none)
    (hbudget : s.budget = none) :
    (∀ error, checkComponent contract request cursor name = .error error →
      resolverTurn tree contract request s = .done (.error error)) ∧
    (checkComponent contract request cursor name = .ok () →
      ((pendingActionsOf rest = 0 ∧ request.followFinal = false) ∨ ∃ found,
        tree.lookup cursor name = .ok found ∧ ∀ target, found ≠ some (.symlink target)) →
      ∃ s', resolverTurn tree contract request s = .again s' ∧ s'.budget = none ∧
        At tree s' ⟨cursor ++ [name], rest⟩) := by
  obtain ⟨hsub, hpopped⟩ := h.represents.pop request rfl
  have hturn (r : Except ResolutionError Resolver) (hr : resolveNormal tree contract request
      { s with pending := rest, pendingActions := pendingActionsOf rest } name .input = r) :
      (∀ error, r = .error error → resolverTurn tree contract request s = .done (.error error)) ∧
        ∀ s', r = .ok s' → resolverTurn tree contract request s = .again s' := by
    unfold resolverTurn
    rw [show s.pending = .normal name .input :: rest from h.represents.pending]
    unfold resolveStep
    simp only [isEndSymlinkStep, Bool.false_eq_true, if_false]
    rw [hsub]
    dsimp only [bind, Except.bind]
    rw [hr]
    constructor
    · rintro error rfl
      rfl
    · rintro s' rfl
      rfl
  unfold resolveNormal at hturn
  rw [admitComponent_eq hpopped hpolicy hbudget name] at hturn
  constructor
  · intro error hcheck
    rw [hcheck] at hturn
    exact (hturn _ rfl).1 error rfl
  · intro hcheck hplain
    have hnames : ∀ n ∈ cursor ++ [name], IsName n := by
      intro n hn
      rw [List.mem_append, List.mem_singleton] at hn
      obtain hn | rfl := hn
      · exact h.valid.resolved n hn
      · exact h.valid.pending n .input List.mem_cons_self
    obtain ⟨s', hfollow, hkept, hrepresents⟩ := followComponent_appends contract hpopped hnames
      (h.valid.clean (pendingActionsOf_cons_ne_zero rfl rest)) hplain
    rw [hcheck] at hturn
    dsimp only [Except.map, bind, Except.bind] at hturn
    have hagain := (hturn _ hfollow).2 s' rfl
    -- The position of the next state is known from its fields.
    obtain ⟨p', -, hat, -⟩ := h.turn hagain
    have hposition : p' = ⟨cursor ++ [name], rest⟩ := by
      cases p' with
      | mk resolved pending =>
        rw [show resolved = cursor ++ [name] from hat.represents.resolved.symm.trans hrepresents.resolved,
          show pending = rest from hat.represents.pending.symm.trans hrepresents.pending]
    exact ⟨s', hagain, hkept.trans hbudget, hposition ▸ hat⟩

/-- A required directory that is there. -/
theorem At.turn_requireDirectory {s : Resolver} {resolved : List OsString}
    {rest : List ResolutionStep} (h : At tree s ⟨resolved, .requireDirectory :: rest⟩)
    (contract : ResolutionContract) (request : ResolutionRequest)
    (hdirectory : tree.IsDirectory resolved) :
    ∃ s', resolverTurn tree contract request s = .again s' ∧ At tree s' ⟨resolved, rest⟩ := by
  obtain ⟨hsub, hpopped⟩ := h.represents.pop request rfl
  have hturn : resolverTurn tree contract request s =
      .again { s with pending := rest, pendingActions := pendingActionsOf rest } := by
    unfold resolverTurn
    rw [show s.pending = .requireDirectory :: rest from h.represents.pending]
    unfold resolveStep
    simp only [isEndSymlinkStep, Bool.false_eq_true, if_false]
    rw [hsub]
    dsimp only [bind, Except.bind]
    obtain ⟨-, hensure⟩ | ⟨hnot, -⟩ := ensureResolvedPrefixIsDirectory_eq request h.valid.resolved
      (h.valid.clean (pendingActionsOf_cons_ne_zero rfl rest))
    · rw [show s.resolved = resolved from h.represents.resolved]
      dsimp only at hensure
      rw [hensure]
      rfl
    · exact absurd hdirectory hnot
  have hposition : Position.turn tree request ⟨resolved, .requireDirectory :: rest⟩ =
      .again ⟨resolved, rest⟩ := if_pos hdirectory
  exact ⟨_, hturn, hpopped, h.valid.turn hposition⟩

/-- What the loop makes of the components, after what the shorter walk made of them. -/
def LoopFollows (tree : StaticTree) (contract : ResolutionContract) (request : ResolutionRequest)
    (s : Resolver) (resolved : List OsString) (trailing : List ResolutionStep) :
    Except ResolutionError (Option OsString) → Prop
  | .error error => Loop.Returns (resolverTurn tree contract request) s (.error error)
  | .ok none => True
  | .ok (some _) => (trailing ≠ [] → tree.IsDirectory resolved) →
    ∃ s', Loop.Reaches (resolverTurn tree contract request) s s' ∧ At tree s' ⟨resolved, trailing⟩

theorem LoopFollows.again {s s' : Resolver} {resolved : List OsString}
    {trailing : List ResolutionStep} {result : Except ResolutionError (Option OsString)}
    (hturn : resolverTurn tree contract request s = .again s')
    (h : LoopFollows tree contract request s' resolved trailing result) :
    LoopFollows tree contract request s resolved trailing result := by
  cases result with
  | error error => exact Loop.Returns.again hturn h
  | ok found =>
    cases found with
    | none => trivial
    | some p =>
      intro htrailing
      obtain ⟨last, hreaches, hat⟩ := h htrailing
      exact ⟨last, .head hturn hreaches, hat⟩

/-- The loop keeps up with the shorter walk. -/
theorem At.follows {s : Resolver} {cursor names : List OsString} {trailing : List ResolutionStep}
    (h : At tree s ⟨cursor, names.map (stepOfPart .input) ++ trailing⟩)
    (contract : ResolutionContract) (path : LocalRelativePath)
    (hnames : ∀ name ∈ names, IsName name) (hcursor : tree.IsDirectory cursor)
    (hpolicy : request.componentPolicy = none) (hbudget : s.budget = none) :
    LoopFollows tree contract request s (cursor ++ names) trailing
      (resolveComponents tree contract request path cursor cursor.length (bytesOf cursor) names) := by
  induction names generalizing s cursor with
  | nil =>
    intro _
    rw [List.append_nil]
    exact ⟨s, .refl, h⟩
  | cons name rest ih =>
    have hname := hnames name List.mem_cons_self
    have hrestNames : ∀ n ∈ rest, IsName n := fun n hn => hnames n (List.mem_cons_of_mem _ hn)
    rw [List.map_cons, stepOfPart_name hname.notDot hname.notDotDot, List.cons_append] at h
    obtain ⟨hrefused, hagain⟩ := h.turn_component contract hpolicy hbudget
    rw [resolveComponents_cons path hname]
    cases hcheck : checkComponent contract request cursor name with
    | error error => exact Loop.returns_done (hrefused error hcheck)
    | ok =>
      dsimp only
      have hlookup := StaticTree.lookup_directory hcursor name
      -- The last turn, when the shorter walk ends here.
      have hlast : rest = [] →
          ((pendingActionsOf trailing = 0 ∧ request.followFinal = false) ∨ ∃ found,
            tree.lookup cursor name = .ok found ∧ ∀ target, found ≠ some (.symlink target)) →
          ∃ s', Loop.Reaches (resolverTurn tree contract request) s s' ∧
            At tree s' ⟨cursor ++ name :: rest, trailing⟩ := by
        intro hrest hplain
        subst hrest
        obtain ⟨s', hturn, -, hat⟩ := hagain hcheck hplain
        exact ⟨s', .single hturn, hat⟩
      by_cases hkeep : rest = [] ∧ request.followFinal = false
      · rw [if_pos hkeep]
        intro htrailing
        by_cases hempty : trailing = []
        · exact hlast hkeep.1 (.inl ⟨by rw [hempty]; rfl, hkeep.2⟩)
        · have hdirectory := htrailing hempty
          rw [hkeep.1] at hdirectory
          refine hlast hkeep.1 (.inr ⟨some .directory, ?_, nofun⟩)
          rw [hlookup]
          exact congrArg Except.ok hdirectory
      · rw [if_neg hkeep]
        cases hnode : tree.node (cursor ++ [name]) with
        | none => trivial
        | some node =>
          rw [hnode] at hlookup
          cases node with
          | symlink target => trivial
          | file | other =>
            dsimp only
            by_cases hrest : rest = []
            · rw [if_pos hrest]
              exact fun _ => hlast hrest (.inr ⟨_, hlookup, nofun⟩)
            · rw [if_neg hrest]
              trivial
          | directory =>
            dsimp only
            by_cases hrest : rest = []
            · rw [if_pos hrest]
              exact fun _ => hlast hrest (.inr ⟨_, hlookup, nofun⟩)
            · rw [if_neg hrest, List.append_cons]
              obtain ⟨s', hturn, hbudget', hat⟩ := hagain hcheck (.inr ⟨_, hlookup, nofun⟩)
              exact (ih hat hrestNames hnode hbudget').again hturn

/-! ## 4. Where a directory is required last -/

/-- A directory is still to be required last, or was. -/
def RequiresLast (tree : StaticTree) (p : Position) : Prop :=
  (p.pending = [] ∧ tree.IsDirectory p.resolved) ∨ ∃ front, p.pending = front ++ [.requireDirectory]

theorem RequiresLast.turn {p p' : Position} (h : RequiresLast tree p)
    (hturn : p.turn tree request = .again p') : RequiresLast tree p' := by
  obtain ⟨step, rest, hpending, hcase⟩ := Position.turn_pending hturn
  obtain ⟨hnil, -⟩ | ⟨front, hfront⟩ := h
  · rw [hnil] at hpending
    cases hpending
  · rw [hpending] at hfront
    cases front with
    | nil =>
      -- The requirement itself is next.
      cases hfront
      left
      obtain ⟨resolved, pending⟩ := p
      obtain rfl : pending = [.requireDirectory] := hpending
      simp only [Position.turn, Position.step] at hturn
      split at hturn
      next hdirectory =>
        cases hturn
        exact ⟨rfl, hdirectory⟩
      next => cases hturn
    | cons first front =>
      obtain ⟨rfl, hrest⟩ := List.cons_eq_cons.mp hfront
      right
      obtain hpending' | ⟨name, origin, target, -, -, -, -, rfl⟩ := hcase
      · exact ⟨front, hpending'.trans hrest⟩
      · refine ⟨stepsOf target.bytes .symlinkTarget ++
          .endSymlink (tree.linkIdentity (p.resolved ++ [name])) :: front, ?_⟩
        show _ ++ .endSymlink _ :: rest = _
        rw [show rest = front ++ [.requireDirectory] from hrest, List.append_assoc, List.cons_append]

theorem At.isDirectory_of_returns {s : Resolver} {p : Position} {q : OsString} (h : At tree s p)
    (hrequired : RequiresLast tree p)
    (hreturns : Loop.Returns (resolverTurn tree contract request) s (.ok q)) :
    ∃ names, q = ofNames names ∧ (∀ name ∈ names, IsName name) ∧ tree.IsDirectory names := by
  obtain ⟨last, hreaches, hdone⟩ := hreturns.stops
  obtain ⟨p', hreaches', hat⟩ := h.reaches hreaches
  have hlast : RequiresLast tree p' :=
    hreaches'.invariant (RequiresLast tree) (fun _ _ hinv hnext => hinv.turn hnext) hrequired
  obtain ⟨hturn, hresolver⟩ | ⟨result, -, hresult⟩ :=
    resolverTurn_matches contract request hat.represents hat.valid
  · rw [hdone] at hresolver
    refine ⟨p'.resolved, Except.ok.inj (Turn.done.inj hresolver), hat.valid.resolved, ?_⟩
    obtain ⟨-, hdirectory⟩ | ⟨front, hfront⟩ := hlast
    · exact hdirectory
    · -- With something pending the loop would not be done.
      rw [Position.pending_of_done hturn] at hfront
      exact absurd hfront.symm (List.append_ne_nil_of_right_ne_nil _ (List.cons_ne_nil _ _))
  · rw [hdone] at hresult
    cases result with
    | ok s' => cases hresult
    | error error => cases hresult

/-! ## 5. Agreement -/

theorem stepsOf_relative (path : LocalRelativePath) :
    stepsOf path.path .input = path.names.map (stepOfPart .input) ++ trailingSteps path.path := by
  rw [stepsOf_eq, if_neg (by rw [path.not_absolute]; decide), List.nil_append]
  rfl

theorem At.start_relative (tree : StaticTree) (path : LocalRelativePath)
    (budget : Option PathBindingBudget) :
    At tree (.start (stepsOf path.path .input) budget)
      ⟨[], path.names.map (stepOfPart .input) ++ trailingSteps path.path⟩ := by
  rw [← stepsOf_relative]
  exact at_start tree path.toUnixPath .input budget

/-- An error of the shorter walk is the error of the loop. -/
theorem resolves_of_tried_error (hpolicy : request.symlinkPolicy ≠ .followAcrossScope)
    (hcomponent : request.componentPolicy = none) {path : LocalRelativePath}
    {error : ResolutionError}
    (h : tryResolveWithoutSymlinks tree contract request path = .error error) :
    Resolves tree contract request none path.path (.error error) := by
  unfold tryResolveWithoutSymlinks at h
  cases hpending : contract.checkPending (measurePath path.path).1 (measurePath path.path).2 with
  | error pendingError =>
    rw [hpending] at h
    refine ⟨0, ?_⟩
    unfold resolveRootedSymlinks stepsFromPath tokenize
    rw [if_neg hpolicy, hpending]
    rw [← Except.error.inj h]
    rfl
  | ok =>
    rw [hpending] at h
    have hsteps : stepsFromPath contract request path.path .input =
        .ok (stepsOf path.path .input) := by
      unfold stepsFromPath tokenize
      rw [hpending]
      rfl
    have hfollows := (At.start_relative tree path none).follows contract path path.isName_names
      tree.root hcomponent rfl
    rw [show resolveComponents tree contract request path [] ([] : List OsString).length
      (bytesOf []) path.names = .error error from h] at hfollows
    exact (resolves_iff_returns hpolicy hsteps).mpr hfollows

/-- A path the shorter walk takes is resolved by the loop to the same components, when it is a
    directory or none is required. -/
theorem resolves_of_takesFastPath (hpolicy : request.symlinkPolicy ≠ .followAcrossScope)
    (hcomponent : request.componentPolicy = none) {path : LocalRelativePath}
    (h : TakesFastPath contract request tree path)
    (hdirectory : hasTrailingSeparator path.path = true → tree.IsDirectory path.names) :
    Resolves tree contract request none path.path (.ok (ofNames path.names)) := by
  have hsteps : stepsFromPath contract request path.path .input =
      .ok (stepsOf path.path .input) := by
    unfold stepsFromPath tokenize
    rw [h.pending]
    rfl
  have htaken : resolveComponents tree contract request path [] ([] : List OsString).length
      (bytesOf []) path.names = .ok (some path.path) :=
    (resolveComponents_ok_iff path.isName_names tree.root).mpr
      ⟨rfl, h.admitted, h.directories, h.final⟩
  have hfollows := (At.start_relative tree path none).follows contract path path.isName_names
    tree.root hcomponent rfl
  rw [htaken, List.nil_append] at hfollows
  rw [resolves_iff_returns hpolicy hsteps]
  have hrequired : trailingSteps path.path ≠ [] → tree.IsDirectory path.names := by
    intro hne
    apply hdirectory
    by_contra hnone
    exact hne (if_neg hnone)
  obtain ⟨s, hreaches, hat⟩ := hfollows hrequired
  rw [hreaches.returns_iff]
  have hend : ∀ s', At tree s' ⟨path.names, []⟩ →
      Loop.Returns (resolverTurn tree contract request) s' (.ok (ofNames path.names)) := by
    intro s' hat'
    apply Loop.returns_done
    unfold resolverTurn
    rw [show s'.pending = [] from hat'.represents.pending,
      show s'.resolved = path.names from hat'.represents.resolved]
  by_cases htrailing : hasTrailingSeparator path.path = true
  · rw [show trailingSteps path.path = [.requireDirectory] from if_pos htrailing] at hat
    obtain ⟨s', hturn, hat'⟩ := hat.turn_requireDirectory contract request (hdirectory htrailing)
    exact (hend s' hat').again hturn
  · rw [show trailingSteps path.path = [] from if_neg htrailing] at hat
    exact hend s hat

/-- With a separator at its end, a path is resolved to a directory only. -/
theorem isDirectory_of_resolves (hpolicy : request.symlinkPolicy ≠ .followAcrossScope)
    {path : LocalRelativePath} (htrailing : hasTrailingSeparator path.path = true) {q : OsString}
    (h : Resolves tree contract request none path.path (.ok q)) :
    ∃ names, q = ofNames names ∧ (∀ name ∈ names, IsName name) ∧ tree.IsDirectory names := by
  obtain hsteps | ⟨-, error, hsteps⟩ := stepsFromPath_cases contract request path.path .input
  · rw [resolves_iff_returns hpolicy hsteps] at h
    refine (At.start_relative tree path none).isDirectory_of_returns (.inr ?_) h
    exact ⟨_, congrArg _ (if_pos htrailing)⟩
  · obtain ⟨fuel, hfuel⟩ := h
    unfold resolveRootedSymlinks at hfuel
    rw [if_neg hpolicy, hsteps] at hfuel
    cases hfuel

end Components

section Results

variable (tree : StaticTree) (contract : ResolutionContract) (symlinkPolicy : LocalSymlinkPolicy)
  (followFinal : Bool) (operation : LocalFileOperation) (original : OsString)
  (scope : LocalResolutionScope)

theorem rootedPath_eq {request : ResolutionRequest} {path : OsString} {relative : LocalRelativePath}
    (h : rootedPath request path = .ok relative) : relative.path = path := by
  unfold rootedPath LocalRelativePath.new at h
  split at h
  next =>
    cases h
    rfl
  next => cases h

/-- The shorter walk agrees with the loop unless it takes a path that ends in a separator and leads
    to no directory. -/
theorem fast_path_agrees_iff {path : OsString} {relative : LocalRelativePath}
    (h : TriedFirst (.withinRoot symlinkPolicy followFinal operation original scope) path relative) :
    Agrees contract (.withinRoot symlinkPolicy followFinal operation original scope) tree relative ↔
      (hasTrailingSeparator path = true →
        TakesFastPath contract (.withinRoot symlinkPolicy followFinal operation original scope) tree
          relative → tree.IsDirectory relative.names) := by
  have hpath := rootedPath_eq h.relative
  rw [← hpath]
  constructor
  · intro hagrees htrailing htakes
    obtain ⟨q, hresolves, hcomponents⟩ :=
      hagrees.resolved relative.path (takesFastPath_iff.mpr ⟨rfl, htakes⟩)
    obtain ⟨names, hq, hnames, hdirectory⟩ := isDirectory_of_resolves h.policy htrailing hresolves
    rw [hq, components_ofNames hnames, relative.components_eq] at hcomponents
    rw [← List.map_injective_iff.mpr (fun _ _ => Component.normal.inj) hcomponents]
    exact hdirectory
  · intro hdirectory
    refine ⟨fun p htried => ?_, fun error htried => ?_⟩
    · obtain ⟨hp, htakes⟩ := takesFastPath_iff.mp htried
      refine ⟨_, resolves_of_takesFastPath h.policy rfl htakes fun htrailing =>
        hdirectory htrailing htakes, ?_⟩
      rw [hp, components_ofNames relative.isName_names, relative.components_eq]
    · exact ⟨error, resolves_of_tried_error h.policy rfl htried, rfl, rfl⟩

end Results

/-! ## 6. A file behind a separator -/

/-- A root with one file, `f`. -/
def oneFile : StaticTree where
  node path := if path = [] then some .directory else if path = [[0x66]] then some .file else none
  identity _ := none
  paths := {[], [[0x66]]}
  mem_paths path h := by
    by_cases hroot : path = []
    · simp [hroot]
    · by_cases hfile : path = [[0x66]]
      · simp [hfile]
      · simp [hroot, hfile] at h
  root := rfl
  parent path name h := by
    by_cases hroot : path = []
    · simp [hroot]
    · have hlength : path ++ [name] ≠ [[0x66]] := by
        intro heq
        have hlength := congrArg List.length heq
        rw [List.length_append, List.length_singleton, List.length_singleton] at hlength
        exact hroot (List.eq_nil_of_length_eq_zero (by omega))
      simp [hlength] at h

/-- `f` -/
def fileName : LocalRelativePath := ⟨[0x66], by decide, by decide, by decide, by decide⟩

/-- `f/` -/
def fileSlash : LocalRelativePath := ⟨[0x66, 0x2F], by decide, by decide, by decide, by decide⟩

theorem fast_path_agrees_at_file :
    TriedFirst (.withinRoot .followWithinScope true .metadata fileName.path .descendant)
        fileName.path fileName ∧
      (Agrees .unrestricted
        (.withinRoot .followWithinScope true .metadata fileName.path .descendant) oneFile fileName ↔
        (hasTrailingSeparator fileName.path = true →
          TakesFastPath .unrestricted
            (.withinRoot .followWithinScope true .metadata fileName.path .descendant) oneFile
            fileName → oneFile.IsDirectory fileName.names)) := by
  have htried : TriedFirst
      (.withinRoot .followWithinScope true .metadata fileName.path .descendant)
      fileName.path fileName := ⟨by nofun, by nofun, by decide, rfl⟩
  exact ⟨htried, fast_path_agrees_iff oneFile .unrestricted _ _ _ _ _ htried⟩

/-- The shorter walk takes `f/` for resolved, where the loop asks for a directory. -/
theorem file_slash_disagrees :
    TriedFirst (.withinRoot .followWithinScope true .metadata fileSlash.path .descendant)
        fileSlash.path fileSlash ∧
      ¬Agrees .unrestricted
        (.withinRoot .followWithinScope true .metadata fileSlash.path .descendant) oneFile
        fileSlash := by
  refine ⟨⟨by nofun, by nofun, by decide, rfl⟩, fun hagrees => ?_⟩
  obtain ⟨q, hresolves, -⟩ := hagrees.resolved fileSlash.path rfl
  have herror : Resolves oneFile .unrestricted
      (.withinRoot .followWithinScope true .metadata fileSlash.path .descendant) none
      fileSlash.path
      (.error ((ResolutionError.new .notDirectory .metadata).withPath fileSlash.path)) := ⟨3, rfl⟩
  cases hresolves.unique herror

end LocalFiles.Rooted
