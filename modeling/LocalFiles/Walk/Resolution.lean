import LocalFiles.Walk.Rooted

/-!
# Resolution — how an opened root resolves the paths a walk yields

A Rooted walker resolves the path of every entry before it yields it.  The limits and policies
of the root's resolution contract are checked against the whole path first and against each
component then; a link, or an entry that is missing, leads to the resolver for links.
-/

namespace LocalFiles.Walk

structure LocalResolutionLimits where
  actualComponents : Option Nat := none
  resolvedPathBytes : Option Nat := none
  deriving DecidableEq, Repr

inductive LocalResolutionScope where
  | openingRoot | descendant
  deriving DecidableEq, Repr

inductive LocalResolutionOrigin where
  | input | symlinkTarget
  deriving DecidableEq, Repr

abbrev LocalResolutionPolicy :=
  String → LocalResolutionScope → LocalResolutionOrigin → Except LocalFileError Unit

structure ResolutionContract where
  limits : LocalResolutionLimits
  policies : List LocalResolutionPolicy

def ResolutionContract.unrestricted : ResolutionContract := ⟨{}, []⟩

/-- Components, and their bytes with one separator each. -/
def measurePath (measure : NameMeasure) (path : Path) : Nat × Nat :=
  (path.length, (path.map fun part => measure.nameBytes part + measure.separatorBytes).sum)

theorem measurePath_cons (measure : NameMeasure) (name : String) (path : Path) :
    (measurePath measure (name :: path)).2 =
      (measurePath measure [name]).2 + (measurePath measure path).2 := by
  simp [measurePath]

/-! ## 1. A session -/

def limitErrorWithLimit (kind : LocalResourceKind) (limit observed : Nat) : LocalFileError :=
  .fromResourceLimit .metadata none
    { LocalResourceLimitError.new kind limit (limit - min observed limit) 1 with
      observed := some observed }

def checkLimit (kind : LocalResourceKind) (observed : Nat) (limit : Option Nat) :
    Except LocalFileError Unit :=
  match limit with
  | some limit => if limit < observed then .error (limitErrorWithLimit kind limit observed) else .ok ()
  | none => .ok ()

namespace ResolutionContract

variable (contract : ResolutionContract)

def validateComponent (component : String) (scope : LocalResolutionScope)
    (origin : LocalResolutionOrigin) : Except LocalFileError Unit :=
  forM contract.policies fun policy => policy component scope origin

def checkPending (components bytes : Nat) : Except LocalFileError Unit := do
  checkLimit .pendingResolutionComponents components contract.limits.actualComponents
  checkLimit .pendingResolutionBytes bytes contract.limits.resolvedPathBytes

def checkResolved (components bytes : Nat) : Except LocalFileError Unit := do
  checkLimit .resolvedComponents components contract.limits.actualComponents
  checkLimit .resolvedPathBytes bytes contract.limits.resolvedPathBytes

end ResolutionContract

/-! ## 2. Resolving a path -/

/-- The cursor over the directories of the root, and the resolver that follows links. -/
structure ResolutionNative where
  componentMetadata : Path → String → IoResult Metadata
  descend : Path → String → IoResult Unit
  resolveSymlinks : Path → LocalSymlinkPolicy → Bool → Except LocalFileError Path
  measure : NameMeasure

def isNormalComponent (name : String) : Bool := name != "" && name != "." && name != ".."

section Resolve

variable (native : ResolutionNative) (contract : ResolutionContract)

def atPath {α : Type} (path : Path) (result : Except LocalFileError α) :
    Except LocalFileError α :=
  result.mapError fun error => (error.withOperation .list).withPath path

/-- The loop of `try_resolve_without_symlinks`, with the cursor in the directory `cursor`. -/
def resolveComponents (original : Path) (followFinal : Bool) :
    Path → Nat → Nat → List String → Except LocalFileError (Option Path)
  | _, _, _, [] => .ok (some original)
  | cursor, components, bytes, name :: rest => do
    atPath original (contract.validateComponent name .descendant .input)
    let resolvedComponents := components + 1
    let resolvedBytes := bytes + (measurePath native.measure [name]).2
    atPath original (contract.checkResolved resolvedComponents resolvedBytes)
    if rest = [] ∧ followFinal = false then
      return some original
    match native.componentMetadata cursor name with
    | .error error =>
      if error.kind = .notFound then return none
      else throw (.fromIo .list (some original) none error)
    | .ok metadata =>
      if metadata.kind = .symlink then
        return none
      if rest ≠ [] then
        if metadata.kind ≠ .directory then
          return none
        (native.descend cursor name).mapError (.fromIo .list (some original) none)
      resolveComponents original followFinal (cursor ++ [name]) resolvedComponents resolvedBytes
        rest

/-- `try_resolve_without_symlinks`: `none` leaves the path to the resolver for links. -/
def tryResolveWithoutSymlinks (path : Path) (followFinal : Bool) :
    Except LocalFileError (Option Path) := do
  let (pendingComponents, pendingBytes) := measurePath native.measure path
  atPath path (contract.checkPending pendingComponents pendingBytes)
  resolveComponents native contract path followFinal [] 0 0 path

/-- `resolve_rooted_path_allow_root_with_deadline` for a listing.  It checks the deadline of the
    walk between its steps, which here is the time of the turn and was checked at its start. -/
def resolveRootedPath (symlinkPolicy : LocalSymlinkPolicy) (path : Path) (followFinal : Bool) :
    Except LocalFileError Path :=
  if symlinkPolicy = .followAcrossScope then
    .error (((LocalFileError.new .invalidOptions .list).withReason
      "FollowAcrossScope is incompatible with a Rooted filesystem").withPath path)
  else if path = [] then .ok []
  else if path.all isNormalComponent then
    match tryResolveWithoutSymlinks native contract path followFinal with
    | .error error => .error error
    | .ok (some resolved) => .ok resolved
    | .ok none => native.resolveSymlinks path symlinkPolicy followFinal
  else native.resolveSymlinks path symlinkPolicy followFinal

end Resolve

/-! ## 3. Paths a contract accepts -/

/-- The contract lets a path through that leads over directories. -/
structure ResolutionContract.Accepts (contract : ResolutionContract) (measure : NameMeasure)
    (path : Path) : Prop where
  policies : ∀ name ∈ path, ∀ policy ∈ contract.policies, policy name .descendant .input = .ok ()
  components : ∀ limit ∈ contract.limits.actualComponents, path.length ≤ limit
  bytes : ∀ limit ∈ contract.limits.resolvedPathBytes, (measurePath measure path).2 ≤ limit

theorem ResolutionContract.unrestricted_accepts (measure : NameMeasure) (path : Path) :
    unrestricted.Accepts measure path where
  policies _ _ _ hpolicy := absurd hpolicy List.not_mem_nil
  components _ hlimit := nomatch hlimit
  bytes _ hlimit := nomatch hlimit

theorem checkLimit_ok {kind : LocalResourceKind} {observed : Nat} {limit : Option Nat}
    (h : ∀ value ∈ limit, observed ≤ value) : checkLimit kind observed limit = .ok () := by
  cases limit with
  | none => rfl
  | some value =>
    have hle := h value rfl
    show (if value < observed then _ else _) = _
    rw [if_neg (by omega)]

theorem le_of_checkLimit {kind : LocalResourceKind} {observed value : Nat} {limit : Option Nat}
    (h : checkLimit kind observed limit = .ok ()) (hvalue : value ∈ limit) : observed ≤ value := by
  obtain rfl := Option.mem_def.mp hvalue
  by_contra hlt
  rw [show checkLimit kind observed (some value) = _ from if_pos (by omega)] at h
  cases h

theorem ResolutionContract.validateComponent_ok {contract : ResolutionContract} {name : String}
    (h : ∀ policy ∈ contract.policies, policy name .descendant .input = .ok ()) :
    contract.validateComponent name .descendant .input = .ok () := by
  unfold validateComponent
  generalize contract.policies = policies at h
  induction policies with
  | nil => rfl
  | cons policy policies ih =>
    rw [List.forM_cons, h policy List.mem_cons_self]
    exact ih fun other hother => h other (List.mem_cons_of_mem _ hother)

theorem ResolutionContract.policies_of_validate {contract : ResolutionContract} {name : String}
    (h : contract.validateComponent name .descendant .input = .ok ()) :
    ∀ policy ∈ contract.policies, policy name .descendant .input = .ok () := by
  unfold validateComponent at h
  generalize contract.policies = policies at h
  induction policies with
  | nil => nofun
  | cons policy policies ih =>
    rw [List.forM_cons] at h
    cases hfirst : policy name .descendant .input with
    | error error => rw [hfirst] at h; cases h
    | ok _ =>
      rw [hfirst] at h
      rw [List.forall_mem_cons]
      exact ⟨hfirst, ih h⟩

/-- A path over directories without links is resolved by the loop. -/
theorem resolveComponents_ok {native : ResolutionNative} {contract : ResolutionContract}
    (original path cursor : Path) (components bytes : Nat)
    (hpolicies : ∀ name ∈ path, ∀ policy ∈ contract.policies,
      policy name .descendant .input = .ok ())
    (hcomponents : ∀ limit ∈ contract.limits.actualComponents, components + path.length ≤ limit)
    (hbytes : ∀ limit ∈ contract.limits.resolvedPathBytes,
      bytes + (measurePath native.measure path).2 ≤ limit)
    (hdirectories : ∀ before name after, path = before ++ name :: after → after ≠ [] →
      ∃ metadata, native.componentMetadata (cursor ++ before) name = .ok metadata ∧
        metadata.kind = .directory ∧ native.descend (cursor ++ before) name = .ok ()) :
    resolveComponents native contract original false cursor components bytes path =
      .ok (some original) := by
  induction path generalizing cursor components bytes with
  | nil => rfl
  | cons name rest ih =>
    have hname := contract.validateComponent_ok (hpolicies name List.mem_cons_self)
    have hlength : (name :: rest).length = rest.length + 1 := rfl
    have hmeasure : (measurePath native.measure (name :: rest)).2 =
        (measurePath native.measure [name]).2 + (measurePath native.measure rest).2 :=
      measurePath_cons _ name rest
    have hresolved : contract.checkResolved (components + 1)
        (bytes + (measurePath native.measure [name]).2) = .ok () := by
      unfold ResolutionContract.checkResolved
      rw [checkLimit_ok fun limit hlimit => ?_, checkLimit_ok fun limit hlimit => ?_]
      · rfl
      · have hle := hbytes limit hlimit
        omega
      · have hle := hcomponents limit hlimit
        omega
    unfold resolveComponents
    dsimp only
    rw [hname, hresolved]
    by_cases hfinal : rest = []
    · subst hfinal
      rfl
    · obtain ⟨metadata, hmetadata, hkind, hdescend⟩ := hdirectories [] name rest rfl hfinal
      rw [List.append_nil] at hmetadata hdescend
      have hrest := ih (cursor ++ [name]) (components + 1) (bytes + (measurePath native.measure [name]).2)
        (fun n hn => hpolicies n (List.mem_cons_of_mem _ hn))
        (fun limit hlimit => by have hle := hcomponents limit hlimit; omega)
        (fun limit hlimit => by have hle := hbytes limit hlimit; omega)
        (fun before n after heq hafter => by
          have hpath := hdirectories (name :: before) n after (by rw [heq]; rfl) hafter
          rw [List.append_assoc]
          exact hpath)
      simp [bind, Except.bind, atPath, Except.mapError, hfinal, hmetadata, hkind, hdescend, hrest]

/-- The loop gets through a path over directories only if the policies let each name through. -/
theorem policies_of_resolveComponents {native : ResolutionNative} {contract : ResolutionContract}
    {result : Option Path} (original path cursor : Path) (components bytes : Nat)
    (hdirectories : ∀ before name after, path = before ++ name :: after → after ≠ [] →
      ∃ metadata, native.componentMetadata (cursor ++ before) name = .ok metadata ∧
        metadata.kind = .directory ∧ native.descend (cursor ++ before) name = .ok ())
    (h : resolveComponents native contract original false cursor components bytes path =
      .ok result) :
    ∀ name ∈ path, ∀ policy ∈ contract.policies, policy name .descendant .input = .ok () := by
  induction path generalizing cursor components bytes with
  | nil => nofun
  | cons name rest ih =>
    unfold resolveComponents at h
    dsimp only at h
    cases hname : contract.validateComponent name .descendant .input with
    | error error => rw [hname] at h; cases h
    | ok _ =>
      rw [List.forall_mem_cons]
      refine ⟨contract.policies_of_validate hname, ?_⟩
      by_cases hfinal : rest = []
      · rw [hfinal]
        nofun
      · cases hresolved : contract.checkResolved (components + 1)
          (bytes + (measurePath native.measure [name]).2) with
        | error error => rw [hname, hresolved] at h; cases h
        | ok _ =>
          obtain ⟨metadata, hmetadata, hkind, hdescend⟩ := hdirectories [] name rest rfl hfinal
          rw [List.append_nil] at hmetadata hdescend
          simp [bind, Except.bind, atPath, Except.mapError, hname, hresolved, hfinal, hmetadata,
            hkind, hdescend] at h
          refine ih (cursor ++ [name]) _ _ ?_ h
          intro before n after heq hafter
          have hpath := hdirectories (name :: before) n after (by rw [heq]; rfl) hafter
          rw [List.append_assoc]
          exact hpath

/-- Resolving an accepted path without links gives the path. -/
theorem resolveRootedPath_ok {native : ResolutionNative} {contract : ResolutionContract}
    {symlinkPolicy : LocalSymlinkPolicy} {path : Path} (hpolicy : symlinkPolicy ≠ .followAcrossScope)
    (hnormal : path.all isNormalComponent) (haccepts : contract.Accepts native.measure path)
    (hdirectories : ∀ before name after, path = before ++ name :: after → after ≠ [] →
      ∃ metadata, native.componentMetadata before name = .ok metadata ∧
        metadata.kind = .directory ∧ native.descend before name = .ok ()) :
    resolveRootedPath native contract symlinkPolicy path false = .ok path := by
  unfold resolveRootedPath
  rw [if_neg hpolicy]
  by_cases hempty : path = []
  · rw [if_pos hempty, hempty]
  · have hpending : contract.checkPending (measurePath native.measure path).1
        (measurePath native.measure path).2 = .ok () := by
      unfold ResolutionContract.checkPending
      rw [show (measurePath native.measure path).1 = path.length from rfl, checkLimit_ok haccepts.components,
        checkLimit_ok haccepts.bytes]
      rfl
    have hcomponents := resolveComponents_ok path path [] 0 0 haccepts.policies
      (fun limit hlimit => by rw [Nat.zero_add]; exact haccepts.components limit hlimit)
      (fun limit hlimit => by rw [Nat.zero_add]; exact haccepts.bytes limit hlimit)
      hdirectories
    have htry : tryResolveWithoutSymlinks native contract path false = .ok (some path) := by
      unfold tryResolveWithoutSymlinks
      dsimp only
      rw [hpending, hcomponents]
      rfl
    rw [if_neg hempty, if_pos hnormal, htry]

/-- A path over directories is resolved only if the contract accepts it. -/
theorem accepts_of_resolveRootedPath {native : ResolutionNative} {contract : ResolutionContract}
    {symlinkPolicy : LocalSymlinkPolicy} {path resolved : Path}
    (hpolicy : symlinkPolicy ≠ .followAcrossScope) (hnormal : path.all isNormalComponent)
    (hempty : path ≠ [])
    (hdirectories : ∀ before name after, path = before ++ name :: after → after ≠ [] →
      ∃ metadata, native.componentMetadata before name = .ok metadata ∧
        metadata.kind = .directory ∧ native.descend before name = .ok ())
    (h : resolveRootedPath native contract symlinkPolicy path false = .ok resolved) :
    contract.Accepts native.measure path := by
  unfold resolveRootedPath at h
  rw [if_neg hpolicy, if_neg hempty, if_pos hnormal] at h
  cases hpending : contract.checkPending (measurePath native.measure path).1
      (measurePath native.measure path).2 with
  | error error =>
    have htry : tryResolveWithoutSymlinks native contract path false =
        .error ((error.withOperation .list).withPath path) := by
      unfold tryResolveWithoutSymlinks
      dsimp only
      rw [hpending]
      rfl
    rw [htry] at h
    cases h
  | ok _ =>
    have htry : tryResolveWithoutSymlinks native contract path false =
        resolveComponents native contract path false [] 0 0 path := by
      unfold tryResolveWithoutSymlinks
      dsimp only
      rw [hpending]
      rfl
    rw [htry] at h
    cases hcomponents : resolveComponents native contract path false [] 0 0 path with
    | error error => rw [hcomponents] at h; cases h
    | ok result =>
      have hlimits : checkLimit .pendingResolutionComponents path.length
          contract.limits.actualComponents = .ok () ∧
          checkLimit .pendingResolutionBytes (measurePath native.measure path).2
            contract.limits.resolvedPathBytes = .ok () := by
        unfold ResolutionContract.checkPending at hpending
        cases hfirst : checkLimit .pendingResolutionComponents (measurePath native.measure path).1
            contract.limits.actualComponents with
        | error error => rw [hfirst] at hpending; cases hpending
        | ok _ => rw [hfirst] at hpending; exact ⟨hfirst, hpending⟩
      exact ⟨policies_of_resolveComponents path path [] 0 0 hdirectories hcomponents,
        fun limit hlimit => le_of_checkLimit hlimits.1 hlimit,
        fun limit hlimit => le_of_checkLimit hlimits.2 hlimit⟩

end LocalFiles.Walk
