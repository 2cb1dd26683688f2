import LocalFiles.NativePath
import LocalFiles.Walk.Resolution

/-!
# Session — limits, policies and errors of a rooted resolution

The limits and policies a root hands down to every resolution below it, and the tokens a native
path is split into.  The counters are natural numbers: they measure paths in memory and links
already followed, which no `usize` is too small for.
-/

namespace LocalFiles.Rooted

open NativePath
open Walk (LocalResolutionScope LocalResolutionOrigin)

/-! ## 1. Errors -/

/-- A `LocalFileError` of a resolution, whose path is the caller's in its native bytes. -/
structure ResolutionError where
  kind : LocalFileErrorKind
  operation : LocalFileOperation
  path : Option OsString := none
  reason : Option String := none
  source : Option LocalFileErrorSource := none
  deriving DecidableEq, Repr

namespace ResolutionError

def new (kind : LocalFileErrorKind) (operation : LocalFileOperation) : ResolutionError where
  kind := kind
  operation := operation

def fromIo (operation : LocalFileOperation) (path : Option OsString) (source : IoError) :
    ResolutionError where
  kind := classifyIoError source
  operation := operation
  path := path
  source := some (.io source)

def fromResourceLimit (operation : LocalFileOperation) (path : Option OsString)
    (source : LocalResourceLimitError) : ResolutionError where
  kind := .resourceLimit
  operation := operation
  path := path
  source := some (.resourceLimit source)

def withOperation (error : ResolutionError) (operation : LocalFileOperation) : ResolutionError :=
  { error with operation := operation }

def withPath (error : ResolutionError) (path : OsString) : ResolutionError :=
  { error with path := some path }

def withReason (error : ResolutionError) (reason : String) : ResolutionError :=
  { error with reason := some reason }

def withKind (error : ResolutionError) (kind : LocalFileErrorKind) : ResolutionError :=
  { error with kind := kind }

/-- The resource whose limit the error reports. -/
def resource (error : ResolutionError) : Option LocalResourceKind :=
  match error.source with
  | some (.resourceLimit source) => some source.resource
  | _ => none

end ResolutionError

/-- `rooted_io_error`. -/
def rootedIoError (operation : LocalFileOperation) (path : OsString) (error : IoError) :
    ResolutionError := .fromIo operation (some path) error

/-- Puts the caller's operation and path into an error. -/
def inContext {α : Type} (operation : LocalFileOperation) (path : OsString)
    (result : Except ResolutionError α) : Except ResolutionError α :=
  result.mapError fun error => (error.withOperation operation).withPath path

@[simp] theorem inContext_ok {α : Type} (operation : LocalFileOperation) (path : OsString) (a : α) :
    inContext operation path (.ok a) = .ok a := rfl

@[simp] theorem inContext_error {α : Type} (operation : LocalFileOperation) (path : OsString)
    (error : ResolutionError) :
    inContext operation path (.error error : Except ResolutionError α) =
      .error ((error.withOperation operation).withPath path) := rfl

theorem inContext_eq_ok {α : Type} {operation : LocalFileOperation} {path : OsString}
    {result : Except ResolutionError α} {a : α} (h : inContext operation path result = .ok a) :
    result = .ok a := by
  cases result with
  | error => cases h
  | ok => exact h

/-- A chain of fallible steps that succeeds has succeeded at its first step. -/
theorem bind_eq_ok {ε α β : Type} {x : Except ε α} {f : α → Except ε β} {b : β}
    (h : (x >>= f) = .ok b) : ∃ a, x = .ok a ∧ f a = .ok b := by
  cases x with
  | error => cases h
  | ok a => exact ⟨a, rfl, h⟩

/-! ## 2. Contracts -/

structure LocalResolutionLimits where
  symlinkHops : Option Nat := none
  symlinkTargetBytes : Option Nat := none
  actualComponents : Option Nat := none
  resolvedPathBytes : Option Nat := none
  deriving DecidableEq, Repr

structure LocalResolutionPolicy where
  validateComponent :
    OsString → LocalResolutionScope → LocalResolutionOrigin → Except ResolutionError Unit
  validateSymlinkTarget : OsString → LocalResolutionScope → Except ResolutionError Unit

structure ResolutionContract where
  limits : LocalResolutionLimits
  policies : List LocalResolutionPolicy

namespace ResolutionContract

def unrestricted : ResolutionContract := ⟨{}, []⟩

variable (contract : ResolutionContract)

def validateComponent (component : OsString) (scope : LocalResolutionScope)
    (origin : LocalResolutionOrigin) : Except ResolutionError Unit :=
  forM contract.policies fun policy => policy.validateComponent component scope origin

def validateTarget (target : OsString) (scope : LocalResolutionScope) :
    Except ResolutionError Unit :=
  forM contract.policies fun policy => policy.validateSymlinkTarget target scope

end ResolutionContract

/-! ## 3. A session -/

def limitErrorWithLimit (kind : LocalResourceKind) (limit observed : Nat) : ResolutionError :=
  .fromResourceLimit .metadata none
    { LocalResourceLimitError.new kind limit (limit - min observed limit) 1 with
      observed := some observed }

def checkLimit (kind : LocalResourceKind) (observed : Nat) (limit : Option Nat) :
    Except ResolutionError Unit :=
  match limit with
  | some limit => if limit < observed then .error (limitErrorWithLimit kind limit observed) else .ok ()
  | none => .ok ()

namespace ResolutionContract

variable (contract : ResolutionContract)

/-- `before_follow_link`, for the hop that makes `hops` links followed. -/
def beforeFollowLink (hops : Nat) : Except ResolutionError Unit :=
  checkLimit .symlinkHops hops contract.limits.symlinkHops

def checkPending (components bytes : Nat) : Except ResolutionError Unit := do
  checkLimit .pendingResolutionComponents components contract.limits.actualComponents
  checkLimit .pendingResolutionBytes bytes contract.limits.resolvedPathBytes

def checkResolved (components bytes : Nat) : Except ResolutionError Unit := do
  checkLimit .resolvedComponents components contract.limits.actualComponents
  checkLimit .resolvedPathBytes bytes contract.limits.resolvedPathBytes

/-- `ResolutionSession::validate_target`: the length of the target, then the policies. -/
def validateTargetWithin (target : OsString) (scope : LocalResolutionScope) :
    Except ResolutionError Unit := do
  checkLimit .symlinkTargetBytes target.length contract.limits.symlinkTargetBytes
  contract.validateTarget target scope

@[simp] theorem unrestricted_validateComponent (component : OsString)
    (scope : LocalResolutionScope) (origin : LocalResolutionOrigin) :
    unrestricted.validateComponent component scope origin = .ok () := rfl

@[simp] theorem unrestricted_beforeFollowLink (hops : Nat) :
    unrestricted.beforeFollowLink hops = .ok () := rfl

@[simp] theorem unrestricted_checkPending (components bytes : Nat) :
    unrestricted.checkPending components bytes = .ok () := rfl

@[simp] theorem unrestricted_checkResolved (components bytes : Nat) :
    unrestricted.checkResolved components bytes = .ok () := rfl

@[simp] theorem unrestricted_validateTargetWithin (target : OsString)
    (scope : LocalResolutionScope) :
    unrestricted.validateTargetWithin target scope = .ok () := rfl

end ResolutionContract

/-- `LocalComponentPolicy`: names that are refused. -/
structure LocalComponentPolicy where
  denied : List OsString
  deriving DecidableEq, Repr

def LocalComponentPolicy.validateComponent (policy : LocalComponentPolicy) (component : OsString) :
    Except ResolutionError Unit :=
  if policy.denied.any (· == component) then
    .error ((ResolutionError.new .invalidPath .bindPath).withReason
      "path component is rejected by the configured component policy")
  else .ok ()

structure PathBindingBudget where
  limit : Option Nat
  used : Nat := 0
  deriving DecidableEq, Repr

def PathBindingBudget.debit (budget : PathBindingBudget) (bytes : Nat)
    (operation : LocalFileOperation) (path : OsString) : Except ResolutionError PathBindingBudget :=
  let used := budget.used + bytes
  if budget.limit.any (· < used) then
    .error ((ResolutionError.new .resourceLimit operation).withPath path)
  else .ok { budget with used := used }

/-! ## 4. Tokens -/

inductive NativeToken where
  | normal (name : OsString) (origin : LocalResolutionOrigin)
  | current (origin : LocalResolutionOrigin)
  | parent (origin : LocalResolutionOrigin)
  | requireDirectory
  deriving DecidableEq, Repr

/-- Components, and their bytes with one separator each. -/
def measurePath (path : OsString) : Nat × Nat :=
  ((parts path).length, ((parts path).map fun part => part.length + 1).sum)

def tokenOfPart (origin : LocalResolutionOrigin) (part : OsString) : NativeToken :=
  if part = dot then .current origin
  else if part = dotDot then .parent origin
  else .normal part origin

def tokensAfterCheck (path : OsString) (origin : LocalResolutionOrigin) : List NativeToken :=
  (parts path).map (tokenOfPart origin) ++
    if hasTrailingSeparator path then [.requireDirectory] else []

def tokenize (contract : ResolutionContract) (path : OsString) (origin : LocalResolutionOrigin) :
    Except ResolutionError (List NativeToken) := do
  contract.checkPending (measurePath path).1 (measurePath path).2
  return tokensAfterCheck path origin

end LocalFiles.Rooted
