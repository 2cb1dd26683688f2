import LocalFiles.Loop
import LocalFiles.Rooted.Session
import LocalFiles.Rooted.StaticTree

/-!
# Symlinks — how a root resolves a path

`resolve_rooted_symlinks` keeps a queue of pending steps.  A link is replaced by the steps of its
target and a step that marks their end; while that mark is pending, expanding the same link again
is a cycle.  A path of normal components is first tried along directories alone.  The calls are
answered by a static tree and there is no deadline.
-/

namespace LocalFiles.Rooted

open NativePath
open Walk (LocalResolutionScope LocalResolutionOrigin)

/-! ## 1. Steps -/

inductive RootParentBehavior where
  | rejectEscape | stayAtHostRoot
  deriving DecidableEq, Repr

/-- The paths are compared by their components. -/
inductive SymlinkIdentity where
  | native (device file : UInt64) (path : List OsString)
  | namespacePath (path : List OsString)
  deriving DecidableEq, Repr

inductive ResolutionStep where
  | resetRoot
  | current
  | parent
  | requireDirectory
  | normal (name : OsString) (origin : LocalResolutionOrigin)
  | endSymlink (identity : SymlinkIdentity)
  deriving DecidableEq, Repr

def isEndSymlinkStep : ResolutionStep → Bool
  | .endSymlink _ => true
  | _ => false

def stepOfToken : NativeToken → ResolutionStep
  | .current _ => .current
  | .parent _ => .parent
  | .normal name origin => .normal name origin
  | .requireDirectory => .requireDirectory

/-- The steps that are not just the end of a link. -/
def pendingActionsOf (steps : List ResolutionStep) : Nat :=
  (steps.filter fun step => !isEndSymlinkStep step).length

def stepMeasure : ResolutionStep → Nat × Nat
  | .resetRoot | .requireDirectory | .endSymlink _ => (0, 0)
  | .current => (1, 2)
  | .parent => (1, 3)
  | .normal name _ => (1, name.length + 1)

def pendingMeasure (steps : List ResolutionStep) : Nat × Nat :=
  ((steps.map fun step => (stepMeasure step).1).sum, (steps.map fun step => (stepMeasure step).2).sum)

/-! ## 2. The loop -/

/-- What the caller asks for. -/
structure ResolutionRequest where
  symlinkPolicy : LocalSymlinkPolicy
  followFinal : Bool
  operation : LocalFileOperation
  original : OsString
  scope : LocalResolutionScope := .descendant
  componentPolicy : Option LocalComponentPolicy := none
  parentBehavior : RootParentBehavior := .rejectEscape
  deriving DecidableEq, Repr

/-- The local variables of the loop. -/
structure Resolver where
  pending : List ResolutionStep
  pendingActions : Nat
  resolved : List OsString := []
  resolvedComponentBytes : List Nat := []
  resolvedBytes : Nat := 0
  cursor : Option (List OsString) := none
  activeSymlinks : List SymlinkIdentity := []
  hops : Nat := 0
  budget : Option PathBindingBudget := none
  deriving DecidableEq, Repr

/-- `checked_sub`, whose failure is reported as an exhausted resource. -/
def checkedSub (request : ResolutionRequest) (value removed : Nat) : Except ResolutionError Nat :=
  if removed ≤ value then .ok (value - removed)
  else .error ((ResolutionError.new .resourceLimit request.operation).withPath request.original)

section Resolve

variable (tree : StaticTree) (contract : ResolutionContract) (request : ResolutionRequest)

def stepsFromPath (path : OsString) (origin : LocalResolutionOrigin) :
    Except ResolutionError (List ResolutionStep) := do
  let tokens ← inContext request.operation request.original (tokenize contract path origin)
  return (if isAbsolute path then [.resetRoot] else []) ++ tokens.map stepOfToken

def relativeFromComponents (components : List OsString) :
    Except ResolutionError LocalRelativePath :=
  (LocalRelativePath.new (ofNames components)).mapError fun error =>
    (rootedIoError request.operation request.original error).withKind .invalidPath

def ensureResolvedPrefixIsDirectory (resolved : List OsString) : Except ResolutionError Unit :=
  if resolved = [] then .ok ()
  else do
    let relative ← relativeFromComponents request resolved
    let metadata ← (tree.symlinkMetadata relative).mapError
      (rootedIoError request.operation request.original)
    if metadata.kind ≠ .directory then
      throw ((ResolutionError.new .notDirectory request.operation).withPath request.original)

/-- `open_resolved_cursor`, with the cursor in the directory `cursor`. -/
def openResolvedCursor (cursor : List OsString) :
    List OsString → Except ResolutionError (Option (List OsString))
  | [] => .ok (some cursor)
  | component :: rest =>
    match tree.metadata cursor component with
    | .error error =>
      if error.kind = .notFound then .ok none
      else .error (rootedIoError request.operation request.original error)
    | .ok metadata =>
      if metadata.kind ≠ .directory then .ok none
      else match tree.descend cursor component with
        | .ok following => openResolvedCursor following rest
        | .error error =>
          if error.kind = .notFound then .ok none
          else .error (rootedIoError request.operation request.original error)

/-- `Root::read_link_limited`. -/
def readLinkLimited (path : LocalRelativePath) (maximumBytes : Option Nat)
    (validateRawTarget : OsString → Except ResolutionError Unit) :
    Except ResolutionError UnixPath := do
  let (target, observed) ← (tree.readRootedLink path maximumBytes).mapError
    (.fromIo .metadata (some path.path))
  match target with
  | none =>
    throw (.fromResourceLimit .metadata (some path.path)
      { LocalResourceLimitError.new .symlinkTargetBytes (maximumBytes.getD usizeMax) 0 1 with
        observed := some observed })
  | some target =>
    validateRawTarget target.bytes
    return target

/-- On Unix there is one native root. -/
def openingRootTargetMatchesAnchor (_target : OsString) : Bool := true

def debitBudget (budget : Option PathBindingBudget) (bytes : Nat) :
    Except ResolutionError (Option PathBindingBudget) :=
  match budget with
  | some budget => (budget.debit bytes request.operation request.original).map some
  | none => .ok none

def validateByComponentPolicy (component : OsString) : Except ResolutionError Unit :=
  match request.componentPolicy with
  | some componentPolicy =>
    inContext request.operation request.original (componentPolicy.validateComponent component)
  | none => .ok ()

/-- Charges a component and checks it against the policies and limits. -/
def admitComponent (s : Resolver) (component : OsString) (origin : LocalResolutionOrigin) :
    Except ResolutionError Resolver := do
  let componentBytes := component.length + 1
  let budget ← debitBudget request s.budget componentBytes
  validateByComponentPolicy request component
  inContext request.operation request.original
    (contract.validateComponent component request.scope origin)
  inContext request.operation request.original
    (contract.checkResolved (s.resolved.length + 1) (s.resolvedBytes + componentBytes))
  return { s with budget := budget }

/-- The component becomes the last of the resolved path. -/
def Resolver.push (s : Resolver) (component : OsString) (cursor : Option (List OsString)) :
    Resolver :=
  { s with
    resolved := s.resolved ++ [component]
    resolvedComponentBytes := s.resolvedComponentBytes ++ [component.length + 1]
    resolvedBytes := s.resolvedBytes + (component.length + 1)
    cursor := cursor }

def symlinkIdentity (metadata : Metadata) (candidate : LocalRelativePath) : SymlinkIdentity :=
  match metadata.identity with
  | some identity => .native identity.volume identity.file candidate.names
  | none => .namespacePath candidate.names

/-- Charges a hop and reads the target of a link. -/
def readTarget (hops : Nat) (candidate : LocalRelativePath) : Except ResolutionError UnixPath := do
  inContext request.operation request.original (contract.beforeFollowLink hops)
  let target ← inContext request.operation request.original
    (readLinkLimited tree candidate contract.limits.symlinkTargetBytes fun target =>
      inContext request.operation request.original
        (contract.validateTargetWithin target request.scope))
  if request.scope = .openingRoot ∧ openingRootTargetMatchesAnchor target.bytes = false then
    throw (((ResolutionError.new .invalidPath request.operation).withReason
      "absolute symbolic-link target uses a different native root").withPath request.original)
  return target

/-- Replaces a link by the steps of its target. -/
def expandSymlink (s : Resolver) (component : OsString) (metadata : Metadata) :
    Except ResolutionError Resolver := do
  let candidate ← relativeFromComponents request (s.resolved ++ [component])
  if request.symlinkPolicy = .reject then
    throw (((ResolutionError.new .unsupported request.operation).withReason
      "symbolic-link traversal is rejected by policy").withPath request.original)
  let identity := symlinkIdentity metadata candidate
  if identity ∈ s.activeSymlinks then
    throw (((ResolutionError.new .invalidPath request.operation).withReason
      "symbolic-link expansion cycle detected").withPath request.original)
  let target ← readTarget tree contract request (s.hops + 1) candidate
  let steps ← stepsFromPath contract request target.bytes .symlinkTarget
  let replacement := steps ++ .endSymlink identity :: s.pending
  inContext request.operation request.original
    (contract.checkPending (pendingMeasure replacement).1 (pendingMeasure replacement).2)
  return { s with
    pending := replacement
    pendingActions := pendingActionsOf replacement
    cursor := none
    activeSymlinks := identity :: s.activeSymlinks
    hops := s.hops + 1 }

/-- The cursor of the loop, opened again when there is none. -/
def currentCursor (s : Resolver) : Except ResolutionError (Option (List OsString)) :=
  match s.cursor with
  | some cursor => .ok (some cursor)
  | none => openResolvedCursor tree request [] s.resolved

/-- What the native call for a component answers. -/
def componentMetadata (s : Resolver) (cursor : Option (List OsString)) (component : OsString) :
    Except ResolutionError (IoResult Metadata) :=
  match cursor with
  | some cursor => .ok (tree.metadata cursor component)
  | none => (relativeFromComponents request (s.resolved ++ [component])).map tree.symlinkMetadata

/-- A component that is no link becomes the last of the resolved path. -/
def appendComponent (s : Resolver) (cursor : Option (List OsString)) (component : OsString)
    (descends : Bool) : Except ResolutionError Resolver :=
  match cursor with
  | none => .ok (s.push component none)
  | some cursor =>
    if descends then
      match tree.descend cursor component with
      | .ok following => .ok (s.push component (some following))
      | .error error =>
        if error.kind = .notFound then .ok (s.push component none)
        else .error (rootedIoError request.operation request.original error)
    else .ok (s.push component none)

/-- Looks at a component that was admitted, unless it is final and not to be followed. -/
def followComponent (s : Resolver) (component : OsString) : Except ResolutionError Resolver := do
  if s.pendingActions = 0 ∧ request.followFinal = false then
    return s.push component none
  let cursor ← currentCursor tree request s
  let metadataResult ← componentMetadata tree request s cursor component
  match metadataResult with
  | .error error =>
    if error.kind = .notFound then return s.push component none
    else throw (rootedIoError request.operation request.original error)
  | .ok metadata =>
    if metadata.kind = .symlink then
      expandSymlink tree contract request s component metadata
    else
      appendComponent tree request s cursor component
        (s.pendingActions ≠ 0 && metadata.kind == .directory)

/-- The branch for one normal component. -/
def resolveNormal (s : Resolver) (component : OsString) (origin : LocalResolutionOrigin) :
    Except ResolutionError Resolver := do
  let s ← admitComponent contract request s component origin
  followComponent tree contract request s component

/-- The branch for the parent of the current directory. -/
def resolveParent (s : Resolver) : Except ResolutionError Resolver := do
  ensureResolvedPrefixIsDirectory tree request s.resolved
  if s.resolved = [] then
    if request.parentBehavior = .stayAtHostRoot then
      return { s with cursor := none }
    else throw (((ResolutionError.new .invalidPath request.operation).withReason
      "symbolic-link target escaped the Rooted virtual root").withPath request.original)
  else
    let resolved := s.resolved.dropLast
    let removedBytes ← match s.resolvedComponentBytes.getLast? with
      | some bytes => pure bytes
      | none =>
        throw ((ResolutionError.new .resourceLimit request.operation).withPath request.original)
    let resolvedBytes ← checkedSub request s.resolvedBytes removedBytes
    inContext request.operation request.original
      (contract.checkResolved resolved.length resolvedBytes)
    return { s with
      resolved := resolved
      resolvedComponentBytes := s.resolvedComponentBytes.dropLast
      resolvedBytes := resolvedBytes
      cursor := none }

/-- The body of the loop, for a step taken from the front of the queue. -/
def resolveStep (s : Resolver) (step : ResolutionStep) : Except ResolutionError Resolver := do
  let pendingActions ←
    if isEndSymlinkStep step then pure s.pendingActions else checkedSub request s.pendingActions 1
  let s := { s with pendingActions := pendingActions }
  match step with
  | .resetRoot =>
    return { s with
      resolved := []
      resolvedComponentBytes := []
      resolvedBytes := 0
      cursor := none }
  | .current | .requireDirectory =>
    ensureResolvedPrefixIsDirectory tree request s.resolved
    return s
  | .parent => resolveParent tree contract request s
  | .endSymlink identity => return { s with activeSymlinks := s.activeSymlinks.erase identity }
  | .normal component origin => resolveNormal tree contract request s component origin

def resolverTurn (s : Resolver) : Turn (Except ResolutionError OsString) Resolver :=
  match s.pending with
  | [] => .done (.ok (ofNames s.resolved))
  | step :: pending =>
    match resolveStep tree contract request { s with pending := pending } step with
    | .ok s' => .again s'
    | .error error => .done (.error error)

/-- The loop before its first turn. -/
def Resolver.start (steps : List ResolutionStep) (budget : Option PathBindingBudget) : Resolver where
  pending := steps
  pendingActions := pendingActionsOf steps
  budget := budget

/-- `resolve_rooted_symlinks`, for `fuel` turns of its loop. -/
def resolveRootedSymlinks (budget : Option PathBindingBudget) (fuel : Nat) (path : OsString) :
    Option (Except ResolutionError OsString) :=
  if request.symlinkPolicy = .followAcrossScope then
    some (.error (((ResolutionError.new .invalidOptions request.operation).withReason
      "FollowAcrossScope is incompatible with a Rooted filesystem").withPath request.original))
  else match stepsFromPath contract request path .input with
    | .error error => some (.error error)
    | .ok steps => Loop.run (resolverTurn tree contract request) fuel (.start steps budget)

/-! ## 3. Paths along directories alone -/

/-- The loop of `try_resolve_without_symlinks`, with the cursor in the directory `cursor`. -/
def resolveComponents (path : LocalRelativePath) :
    List OsString → Nat → Nat → List OsString → Except ResolutionError (Option OsString)
  | _, _, _, [] => .ok (some path.path)
  | cursor, resolvedComponents, resolvedBytes, name :: rest => do
    inContext request.operation request.original
      (contract.validateComponent name request.scope .input)
    let resolvedComponents := resolvedComponents + 1
    let resolvedBytes := resolvedBytes + (measurePath name).2
    inContext request.operation request.original
      (contract.checkResolved resolvedComponents resolvedBytes)
    if rest = [] ∧ request.followFinal = false then
      return some path.path
    match tree.metadata cursor name with
    | .error error =>
      if error.kind = .notFound then return none
      else throw (rootedIoError request.operation request.original error)
    | .ok metadata =>
      if metadata.kind = .symlink then
        return none
      if rest ≠ [] then
        if metadata.kind ≠ .directory then
          return none
        let cursor ← (tree.descend cursor name).mapError
          (rootedIoError request.operation request.original)
        resolveComponents path cursor resolvedComponents resolvedBytes rest
      else return some path.path

/-- `try_resolve_without_symlinks`: `none` leaves the path to the loop above. -/
def tryResolveWithoutSymlinks (path : LocalRelativePath) :
    Except ResolutionError (Option OsString) := do
  inContext request.operation request.original
    (contract.checkPending (measurePath path.path).1 (measurePath path.path).2)
  resolveComponents tree contract request path [] 0 0 path.names

def hasOnlyNormalComponents (path : OsString) : Bool :=
  (components path).all fun component => component == .rootDir || component.isNormal

/-- `rooted_path`. -/
def rootedPath (path : OsString) : Except ResolutionError LocalRelativePath :=
  (LocalRelativePath.new path).mapError (.fromIo request.operation (some path))

end Resolve

end LocalFiles.Rooted
