import LocalFiles.NativePath

/-!
# Resolver — operation paths bound to a current directory

`LocalPathResolver` binds a path of an operation.  In the Rooted scope the components of the path
are folded over those of the current directory; the Host scope only puts the path behind it.  The
Unix grammar knows no native prefixes.
-/

namespace LocalFiles

open NativePath

/-! ## 1. The resolver -/

/-- `LocalNamespacePath` over the bytes of native paths. -/
structure NativeNamespacePath where
  namespaceAbsolute : OsString
  authorityRelative : OsString
  directoryRequired : Bool
  deriving DecidableEq, Repr

/-- An error together with the native path it names. -/
structure BindError where
  error : LocalFileError
  path : OsString
  deriving DecidableEq, Repr

structure LocalPathResolver where
  scope : LocalFileSystemScope
  currentDirectory : Option OsString
  currentComponents : List OsString
  deriving DecidableEq, Repr

namespace LocalPathResolver

def invalidPath (path : OsString) (reason : String) : BindError where
  error := (LocalFileError.new .invalidPath .bindPath).withReason reason
  path := path

def missingSnapshot (path : OsString) : BindError where
  error := (LocalFileError.new .invalidState .bindPath).withReason
    "a relative Host path requires a process current directory snapshot"
  path := path

def nativeNul (path : OsString) : BindError where
  error := .fromPathCodec .bindPath none .nativeNul
  path := path

def escaped (path : OsString) : BindError :=
  invalidPath path "path traversal escaped the filesystem namespace root"

def rejectNativeNul (path : OsString) : Except BindError Unit :=
  if containsNul path then .error (nativeNul path) else .ok ()

def parseComponents (currentDirectory : OsString) (components : List OsString) :
    List Component → Except BindError (List OsString)
  | [] => .ok components
  | .rootDir :: rest => parseComponents currentDirectory components rest
  | .normal name :: rest => parseComponents currentDirectory (components ++ [name]) rest
  | .curDir :: _ | .parentDir :: _ =>
    .error (invalidPath currentDirectory "filesystem current directory is not normalized")

/-- Both scopes ask for a leading separator on Unix. -/
def parseCurrentDirectory (currentDirectory : OsString) : Except BindError (List OsString) :=
  if isAbsolute currentDirectory then
    parseComponents currentDirectory [] (components currentDirectory)
  else
    .error (invalidPath currentDirectory
      "filesystem current directory must be namespace-absolute")

def new (scope : LocalFileSystemScope) (currentDirectory : OsString) :
    Except BindError LocalPathResolver := do
  rejectNativeNul currentDirectory
  let currentComponents ← parseCurrentDirectory currentDirectory
  return { scope, currentDirectory := some currentDirectory, currentComponents }

def hasTrailingSeparatorOrDot (path : OsString) : Bool :=
  hasTrailingSeparator path ||
    ((path.splitOn separator).getLast? == some dot || (path.splitOn separator).getLast? == some dotDot)

def directoryRequired (path : OsString) : Bool := path == [] || hasTrailingSeparatorOrDot path

def bindHostOperand (path : OsString) (pwd : Option OsString) : Except BindError OsString :=
  if isAbsolute path then .ok path
  else
    match pwd with
    | none => .error (missingSnapshot path)
    | some pwd => .ok (if path = [] then pwd else pwd ++ separator :: path)

/-- The loop of `resolve` over the components of the Rooted path. -/
def foldComponents (path : OsString) (components : List OsString) :
    List Component → Except BindError (List OsString)
  | [] => .ok components
  | .rootDir :: rest | .curDir :: rest => foldComponents path components rest
  | .normal name :: rest => foldComponents path (components ++ [name]) rest
  | .parentDir :: rest =>
    if components = [] then .error (escaped path)
    else foldComponents path components.dropLast rest

/-- `namespace_absolute`: on Unix there is no prefix in either scope. -/
def namespaceAbsolute (components : List OsString) : OsString :=
  components.foldl push (push [] [separator])

variable (resolver : LocalPathResolver)

/-- The components that those of the path are folded over. -/
def start (path : OsString) : List OsString :=
  if isAbsolute path then [] else resolver.currentComponents

def resolve (path : OsString) : Except BindError NativeNamespacePath := do
  rejectNativeNul path
  if resolver.currentDirectory = none ∧ ¬ isAbsolute path then
    throw (missingSnapshot path)
  let directoryRequired := directoryRequired path
  if resolver.scope = .host then
    let bound ← bindHostOperand path resolver.currentDirectory
    return ⟨bound, bound, directoryRequired⟩
  let folded ← foldComponents path (resolver.start path) (components path)
  return ⟨namespaceAbsolute folded, ofNames folded, directoryRequired⟩

/-! ## 2. Folding components -/

/-- Where a component leads; nothing lies above the root. -/
def enter (names : List OsString) : Component → List OsString
  | .normal name => names ++ [name]
  | .parentDir => names.dropLast
  | .rootDir | .curDir => names

def below (names : List OsString) (components : List Component) : List OsString :=
  components.foldl enter names

/-- Some `..` is met at the root. -/
def Escapes (names : List OsString) (components : List Component) : Prop :=
  ∃ front rest, components = front ++ .parentDir :: rest ∧ below names front = []

theorem not_escapes_nil (names : List OsString) : ¬ Escapes names [] := by
  rintro ⟨front, rest, heq, -⟩
  cases front <;> cases heq

theorem escapes_cons {names : List OsString} {component : Component} {rest : List Component} :
    Escapes names (component :: rest) ↔
      component = .parentDir ∧ names = [] ∨ Escapes (enter names component) rest := by
  constructor
  · rintro ⟨front, more, heq, hroot⟩
    cases front with
    | nil =>
      cases heq
      exact .inl ⟨rfl, hroot⟩
    | cons first front =>
      cases heq
      exact .inr ⟨front, more, rfl, hroot⟩
  · rintro (⟨rfl, rfl⟩ | ⟨front, more, rfl, hroot⟩)
    · exact ⟨[], rest, rfl, rfl⟩
    · exact ⟨component :: front, more, rfl, hroot⟩

theorem escapes_append {names : List OsString} {components more : List Component} :
    Escapes names (components ++ more) ↔
      Escapes names components ∨ Escapes (below names components) more := by
  induction components generalizing names with
  | nil => exact (or_iff_right (not_escapes_nil names)).symm
  | cons component components ih =>
    rw [List.cons_append, escapes_cons, escapes_cons, ih, or_assoc]
    rfl

theorem below_append (names : List OsString) (components more : List Component) :
    below names (components ++ more) = below (below names components) more :=
  List.foldl_append

theorem foldComponents_escapes {path : OsString} {names : List OsString}
    {components : List Component} (h : Escapes names components) :
    foldComponents path names components = .error (escaped path) := by
  induction components generalizing names with
  | nil => exact absurd h (not_escapes_nil names)
  | cons component components ih =>
    rw [escapes_cons] at h
    cases component with
    | parentDir =>
      unfold foldComponents
      by_cases hroot : names = []
      · rw [if_pos hroot]
      · rw [if_neg hroot]
        exact ih (h.resolve_left fun h => hroot h.2)
    | normal name => exact ih (h.resolve_left nofun)
    | rootDir => exact ih (h.resolve_left nofun)
    | curDir => exact ih (h.resolve_left nofun)

theorem foldComponents_below {path : OsString} {names : List OsString}
    {components : List Component} (h : ¬ Escapes names components) :
    foldComponents path names components = .ok (below names components) := by
  induction components generalizing names with
  | nil => rfl
  | cons component components ih =>
    rw [escapes_cons, not_or] at h
    cases component with
    | parentDir =>
      unfold foldComponents
      rw [if_neg fun hroot => h.1 ⟨rfl, hroot⟩]
      exact ih h.2
    | normal name => exact ih h.2
    | rootDir => exact ih h.2
    | curDir => exact ih h.2

theorem foldComponents_names (path : OsString) (names more : List OsString) :
    foldComponents path names (.rootDir :: more.map .normal) = .ok (names ++ more) := by
  show foldComponents path names (more.map .normal) = _
  induction more generalizing names with
  | nil => exact congrArg Except.ok (List.append_nil _).symm
  | cons name more ih =>
    show foldComponents path (names ++ [name]) (more.map .normal) = _
    rw [ih, List.append_assoc]
    rfl

/-- The components that lead somewhere. -/
def moves (path : OsString) : List Component := (parts path).filterMap componentOfPart

/-- What stands in front of the moves leads nowhere. -/
theorem components_eq_moves (path : OsString) :
    ∃ front, components path = front ++ moves path ∧
      ∀ names, below names front = names ∧ ¬ Escapes names front := by
  have hnone (component : Component) (hcomponent : component = .rootDir ∨ component = .curDir)
      (names : List OsString) : below names [component] = names ∧ ¬ Escapes names [component] := by
    obtain rfl | rfl := hcomponent
    all_goals
      refine ⟨rfl, fun h => ?_⟩
      rw [escapes_cons] at h
      exact h.elim nofun (not_escapes_nil _)
  unfold components
  by_cases habsolute : isAbsolute path
  · rw [if_pos habsolute]
    exact ⟨_, rfl, hnone _ (.inl rfl)⟩
  rw [if_neg habsolute]
  by_cases hdot : (parts path).head? = some dot
  · rw [if_pos hdot]
    exact ⟨_, rfl, hnone _ (.inr rfl)⟩
  · rw [if_neg hdot]
    exact ⟨_, rfl, fun names => ⟨rfl, not_escapes_nil names⟩⟩

theorem below_components (names : List OsString) (path : OsString) :
    below names (components path) = below names (moves path) := by
  obtain ⟨front, heq, hfront⟩ := components_eq_moves path
  rw [heq, below_append, (hfront names).1]

theorem escapes_components (names : List OsString) (path : OsString) :
    Escapes names (components path) ↔ Escapes names (moves path) := by
  obtain ⟨front, heq, hfront⟩ := components_eq_moves path
  rw [heq, escapes_append, (hfront names).1]
  exact or_iff_right (hfront names).2

theorem moves_push (path : OsString) {relative : OsString} (h : isAbsolute relative = false) :
    moves (push path relative) = moves path ++ moves relative := by
  unfold moves
  rw [parts_push_relative path h, List.filterMap_append]

theorem isName_below {names : List OsString} {components : List Component}
    (hnames : ∀ name ∈ names, IsName name)
    (hcomponents : ∀ name, .normal name ∈ components → IsName name) :
    ∀ name ∈ below names components, IsName name := by
  induction components generalizing names with
  | nil => exact hnames
  | cons component components ih =>
    refine ih ?_ fun name h => hcomponents name (List.mem_cons_of_mem _ h)
    intro name hname
    cases component with
    | normal last =>
      obtain hname | hname := List.mem_append.mp hname
      · exact hnames name hname
      · obtain rfl := List.mem_singleton.mp hname
        exact hcomponents _ List.mem_cons_self
    | parentDir => exact hnames name ((List.dropLast_sublist names).mem hname)
    | rootDir => exact hnames name hname
    | curDir => exact hnames name hname

theorem mem_moves {path : OsString} {component : Component} (h : component ∈ moves path) :
    component = .parentDir ∨ ∃ part ∈ parts path, part ≠ dot ∧ part ≠ dotDot ∧
      component = .normal part := by
  obtain ⟨part, hpart, heq⟩ := List.mem_filterMap.mp h
  unfold componentOfPart at heq
  by_cases hdot : part = dot
  · rw [if_pos hdot] at heq
    cases heq
  rw [if_neg hdot] at heq
  by_cases hdotDot : part = dotDot
  · rw [if_pos hdotDot] at heq
    exact .inl (Option.some.inj heq).symm
  · rw [if_neg hdotDot] at heq
    exact .inr ⟨part, hpart, hdot, hdotDot, (Option.some.inj heq).symm⟩

theorem isName_moves {path name : OsString} (hnul : 0 ∉ path) (h : .normal name ∈ moves path) :
    IsName name := by
  obtain h | ⟨part, hpart, hdot, hdotDot, heq⟩ := mem_moves h
  · cases h
  · cases heq
    exact isName_of_mem_parts hnul hpart hdot hdotDot

/-! ## 3. Binding in the Rooted scope -/

theorem parseComponents_ok {currentDirectory : OsString} {names result : List OsString}
    {components : List Component} (h : parseComponents currentDirectory names components = .ok result)
    (hroot : .rootDir ∉ components) : ∃ more, components = more.map .normal ∧ result = names ++ more := by
  induction components generalizing names with
  | nil =>
    cases h
    exact ⟨[], rfl, (List.append_nil _).symm⟩
  | cons component components ih =>
    rw [List.mem_cons, not_or] at hroot
    cases component with
    | rootDir => exact absurd rfl hroot.1
    | normal name =>
      obtain ⟨more, rfl, rfl⟩ := ih h hroot.2
      exact ⟨name :: more, rfl, List.append_assoc ..⟩
    | curDir => cases h
    | parentDir => cases h

theorem parseComponents_names (currentDirectory : OsString) (names more : List OsString) :
    parseComponents currentDirectory names (more.map .normal) = .ok (names ++ more) := by
  induction more generalizing names with
  | nil => exact congrArg Except.ok (List.append_nil _).symm
  | cons name more ih =>
    show parseComponents currentDirectory (names ++ [name]) (more.map .normal) = _
    rw [ih, List.append_assoc]
    rfl

theorem new_eq (scope : LocalFileSystemScope) {currentDirectory : OsString}
    (hnul : containsNul currentDirectory = false) :
    new scope currentDirectory = (parseCurrentDirectory currentDirectory).map
      fun names => ⟨scope, some currentDirectory, names⟩ := by
  unfold new rejectNativeNul
  rw [hnul]
  show Except.bind (.ok ()) _ = _
  cases parseCurrentDirectory currentDirectory <;> rfl

/-- What a resolver knows about its current directory. -/
structure Bound (resolver : LocalPathResolver) (currentDirectory : OsString) : Prop where
  rooted : resolver.scope = .rooted
  snapshot : resolver.currentDirectory = some currentDirectory
  parsed : components currentDirectory = .rootDir :: resolver.currentComponents.map .normal
  isName : ∀ name ∈ resolver.currentComponents, IsName name

theorem bound_of_new {currentDirectory : OsString} {resolver : LocalPathResolver}
    (h : new .rooted currentDirectory = .ok resolver) : resolver.Bound currentDirectory := by
  cases hnul : containsNul currentDirectory with
  | true =>
    unfold new rejectNativeNul at h
    rw [hnul] at h
    cases h
  | false =>
    rw [new_eq .rooted hnul] at h
    unfold parseCurrentDirectory at h
    by_cases habsolute : isAbsolute currentDirectory
    · rw [if_pos habsolute] at h
      have hcomponents : components currentDirectory = .rootDir :: moves currentDirectory := by
        unfold components
        rw [if_pos habsolute]
        rfl
      rw [hcomponents] at h
      cases hparse : parseComponents currentDirectory [] (.rootDir :: moves currentDirectory) with
      | error e =>
        rw [hparse] at h
        cases h
      | ok names =>
        rw [hparse] at h
        cases h
        have hroot : Component.rootDir ∉ moves currentDirectory := by
          intro hmem
          obtain heq | ⟨part, -, -, -, heq⟩ := mem_moves hmem <;> cases heq
        change parseComponents currentDirectory [] (moves currentDirectory) = _ at hparse
        obtain ⟨more, hmoves, rfl⟩ := parseComponents_ok hparse hroot
        refine ⟨rfl, rfl, ?_, fun name hname => ?_⟩
        · rw [hcomponents, hmoves]
        · have hmem : .normal name ∈ moves currentDirectory := by
            rw [hmoves]
            exact List.mem_map_of_mem hname
          exact isName_moves (by simpa [containsNul] using hnul) hmem
    · rw [if_neg habsolute] at h
      cases h

theorem new_absolute {names : List OsString} (h : ∀ name ∈ names, IsName name) :
    new .rooted (absolute names) = .ok ⟨.rooted, some (absolute names), names⟩ := by
  have hnul : containsNul (absolute names) = false := by
    simpa [containsNul] using noNul_absolute h
  rw [new_eq .rooted hnul]
  unfold parseCurrentDirectory
  rw [if_pos (isAbsolute_absolute h), components_absolute h]
  show (parseComponents (absolute names) [] (names.map .normal)).map _ = _
  rw [parseComponents_names]
  rfl

variable {resolver : LocalPathResolver} {currentDirectory path : OsString}

theorem resolve_nul (h : containsNul path = true) :
    resolver.resolve path = .error (nativeNul path) := by
  unfold resolve rejectNativeNul
  rw [if_pos h]
  rfl

theorem Bound.resolve_eq (hbound : resolver.Bound currentDirectory) (h : containsNul path = false) :
    resolver.resolve path = (foldComponents path (resolver.start path) (components path)).map
      fun names => ⟨absolute names, ofNames names, directoryRequired path⟩ := by
  unfold resolve rejectNativeNul
  rw [h, hbound.snapshot, hbound.rooted]
  cases hfold : foldComponents path (resolver.start path) (components path) with
  | error e => simp [Except.map, bind, Except.bind]
  | ok names =>
    simp [Except.map, bind, Except.bind, pure, Except.pure]
    rfl

/-! ## 4. The binding is a confined fold -/

/-- The names that a path leads to. -/
def destination (resolver : LocalPathResolver) (path : OsString) : List OsString :=
  below (resolver.start path) (moves path)

theorem Bound.isName_destination (hbound : resolver.Bound currentDirectory) (hnul : 0 ∉ path) :
    ∀ name ∈ resolver.destination path, IsName name := by
  refine isName_below ?_ fun name => isName_moves hnul
  unfold start
  split
  · exact fun name hname => absurd hname List.not_mem_nil
  · exact hbound.isName

theorem containsNul_eq_false : containsNul path = false ↔ 0 ∉ path := by
  unfold containsNul
  simp

theorem Bound.resolve_escapes (hbound : resolver.Bound currentDirectory) (hnul : 0 ∉ path)
    (h : Escapes (resolver.start path) (moves path)) :
    resolver.resolve path = .error (escaped path) := by
  rw [hbound.resolve_eq (containsNul_eq_false.mpr hnul),
    foldComponents_escapes ((escapes_components _ _).mpr h)]
  rfl

theorem Bound.resolve_stays (hbound : resolver.Bound currentDirectory) (hnul : 0 ∉ path)
    (h : ¬ Escapes (resolver.start path) (moves path)) :
    resolver.resolve path = .ok ⟨absolute (resolver.destination path),
      ofNames (resolver.destination path), directoryRequired path⟩ := by
  rw [hbound.resolve_eq (containsNul_eq_false.mpr hnul),
    foldComponents_below (mt (escapes_components _ _).mp h), below_components]
  rfl

/-- A path that is bound has no NUL and stays below the root. -/
theorem Bound.stays_of_resolve {bound : NativeNamespacePath}
    (hbound : resolver.Bound currentDirectory) (h : resolver.resolve path = .ok bound) :
    0 ∉ path ∧ ¬ Escapes (resolver.start path) (moves path) := by
  cases hnul : containsNul path with
  | true =>
    rw [resolve_nul hnul] at h
    cases h
  | false =>
    rw [containsNul_eq_false] at hnul
    refine ⟨hnul, fun hescapes => ?_⟩
    rw [hbound.resolve_escapes hnul hescapes] at h
    cases h

theorem getLast_splitOn_behind (front back : OsString) :
    ((front ++ separator :: back).splitOn separator).getLast? = (back.splitOn separator).getLast? := by
  rw [List.splitOn_append_cons_self,
    List.getLast?_append_of_ne_nil _ (List.splitOn_ne_nil separator back)]

theorem directoryRequired_push {relative : OsString} (h : isAbsolute relative = false) :
    directoryRequired (push path relative) = directoryRequired relative := by
  obtain ⟨-, heq⟩ | ⟨front, -, heq⟩ := push_cases path h
  · rw [heq]
  rw [heq]
  unfold directoryRequired hasTrailingSeparatorOrDot
  rw [getLast_splitOn_behind]
  cases relative with
  | nil =>
    have htrailing : hasTrailingSeparator (front ++ [separator]) = true := by
      unfold hasTrailingSeparator
      rw [List.getLast?_concat]
      rfl
    rw [htrailing]
    simp
  | cons byte rest =>
    have htrailing : hasTrailingSeparator (front ++ separator :: byte :: rest) =
        hasTrailingSeparator (byte :: rest) := by
      unfold hasTrailingSeparator
      rw [List.getLast?_append_of_ne_nil _ (List.cons_ne_nil _ _), List.getLast?_cons_cons]
    rw [htrailing]
    simp

theorem start_push {relative : OsString} (h : isAbsolute relative = false) :
    resolver.start (push path relative) = resolver.start path := by
  unfold start
  rw [isAbsolute_push_relative path h]

/-- A resolver whose current directory is where a path leads binds a relative path as the first
    one binds both together; an error only names the path it was given. -/
theorem Bound.resolve_push {bound : NativeNamespacePath} {relative : OsString}
    (hbound : resolver.Bound currentDirectory) (h : resolver.resolve path = .ok bound)
    (hrelative : isAbsolute relative = false) :
    ∃ inner, new .rooted bound.namespaceAbsolute = .ok inner ∧
      (inner.resolve relative).mapError BindError.error =
        (resolver.resolve (push path relative)).mapError BindError.error := by
  obtain ⟨hnul, hstays⟩ := hbound.stays_of_resolve h
  rw [hbound.resolve_stays hnul hstays] at h
  cases h
  have hnames := hbound.isName_destination hnul
  obtain ⟨inner, hinner, hstart⟩ : ∃ inner, new .rooted (absolute (resolver.destination path)) =
      .ok inner ∧ inner.start relative = resolver.destination path := by
    refine ⟨_, new_absolute hnames, ?_⟩
    unfold start
    rw [if_neg (by rw [hrelative]; decide)]
  refine ⟨inner, hinner, ?_⟩
  have hinner := bound_of_new hinner
  have hmem : 0 ∈ push path relative ↔ 0 ∈ path ∨ 0 ∈ relative :=
    mem_push_relative hrelative (by decide)
  by_cases hnul' : 0 ∈ relative
  · have hinnerNul : containsNul relative = true := by simpa [containsNul] using hnul'
    have houterNul : containsNul (push path relative) = true := by
      simpa [containsNul] using hmem.mpr (.inr hnul')
    rw [resolve_nul hinnerNul, resolve_nul houterNul]
    rfl
  have hpush : 0 ∉ push path relative := fun h0 => (hmem.mp h0).elim hnul hnul'
  have hmoves : Escapes (resolver.start (push path relative)) (moves (push path relative)) ↔
      Escapes (resolver.destination path) (moves relative) := by
    rw [start_push hrelative, moves_push path hrelative, escapes_append]
    exact or_iff_right hstays
  have hdestination : resolver.destination (push path relative) = inner.destination relative := by
    unfold destination
    rw [start_push hrelative, moves_push path hrelative, below_append, hstart]
    rfl
  by_cases hescapes : Escapes (resolver.destination path) (moves relative)
  · rw [hinner.resolve_escapes hnul' (by rwa [hstart]),
      hbound.resolve_escapes hpush (hmoves.mpr hescapes)]
    rfl
  · rw [hinner.resolve_stays hnul' (by rwa [hstart]),
      hbound.resolve_stays hpush (mt hmoves.mp hescapes), hdestination,
      directoryRequired_push hrelative]

/-- What is bound is bound to itself. -/
theorem Bound.resolve_again {bound : NativeNamespacePath}
    (hbound : resolver.Bound currentDirectory) (h : resolver.resolve path = .ok bound) :
    ∃ again, resolver.resolve bound.namespaceAbsolute = .ok again ∧
      again.namespaceAbsolute = bound.namespaceAbsolute ∧
      again.authorityRelative = bound.authorityRelative := by
  obtain ⟨hnul, hstays⟩ := hbound.stays_of_resolve h
  rw [hbound.resolve_stays hnul hstays] at h
  cases h
  have hnames := hbound.isName_destination hnul
  generalize resolver.destination path = names at hnames
  have hstart : resolver.start (absolute names) = [] := if_pos (isAbsolute_absolute hnames)
  have hfold : foldComponents (absolute names) [] (components (absolute names)) = .ok names := by
    rw [components_absolute hnames]
    exact foldComponents_names (absolute names) [] names
  dsimp only
  rw [hbound.resolve_eq (containsNul_eq_false.mpr (noNul_absolute hnames)), hstart, hfold]
  exact ⟨_, rfl, rfl, rfl⟩

/-- A Rooted resolver folds the components of a path over those of the current directory, or over
    none, and refuses exactly the paths that meet a `..` at the root.  Binding goes on from where
    a path leads as if both paths had been bound together, and changes nothing a second time. -/
theorem resolve_confined (currentDirectory : OsString) (resolver : LocalPathResolver)
    (hnew : new .rooted currentDirectory = .ok resolver) :
    components currentDirectory = .rootDir :: resolver.currentComponents.map .normal ∧
    (∀ path, 0 ∉ path → Escapes (resolver.start path) (components path) →
      resolver.resolve path = .error (escaped path)) ∧
    (∀ path, 0 ∉ path → ¬ Escapes (resolver.start path) (components path) →
      ∃ names, names = below (resolver.start path) (components path) ∧
        (∀ name ∈ names, IsName name) ∧
        resolver.resolve path =
          .ok ⟨separator :: ofNames names, ofNames names, directoryRequired path⟩ ∧
        components (ofNames names) = names.map .normal) ∧
    ∀ path bound, resolver.resolve path = .ok bound →
      (∃ inner, new .rooted bound.namespaceAbsolute = .ok inner ∧
        ∀ relative, isAbsolute relative = false →
          (inner.resolve relative).mapError BindError.error =
            (resolver.resolve (push path relative)).mapError BindError.error) ∧
      ∃ again, resolver.resolve bound.namespaceAbsolute = .ok again ∧
        again.namespaceAbsolute = bound.namespaceAbsolute ∧
        again.authorityRelative = bound.authorityRelative := by
  have hbound := bound_of_new hnew
  refine ⟨hbound.parsed, fun path hnul h => ?_, fun path hnul h => ?_, fun path bound h => ⟨?_, ?_⟩⟩
  · exact hbound.resolve_escapes hnul ((escapes_components _ _).mp h)
  · have hnames := hbound.isName_destination hnul
    refine ⟨resolver.destination path, (below_components _ _).symm, hnames, ?_,
      components_ofNames hnames⟩
    rw [hbound.resolve_stays hnul (mt (escapes_components _ _).mpr h), absolute_eq hnames]
  · obtain ⟨inner, hinner, -⟩ := hbound.resolve_push h (show isAbsolute [] = false from rfl)
    refine ⟨inner, hinner, fun relative hrelative => ?_⟩
    obtain ⟨inner', hinner', hsame⟩ := hbound.resolve_push h hrelative
    rw [hinner] at hinner'
    cases hinner'
    exact hsame
  · exact hbound.resolve_again h

/-! The current directory is `/a`; the path `../..` leaves the namespace, `./b` does not. -/

def sampleResolver : LocalPathResolver := ⟨.rooted, some [0x2F, 0x61], [[0x61]]⟩

theorem sampleResolver_new : new .rooted [0x2F, 0x61] = .ok sampleResolver := by decide

theorem resolve_confined_sample :
    sampleResolver.resolve [0x2E, 0x2E, 0x2F, 0x2E, 0x2E] =
        .error (escaped [0x2E, 0x2E, 0x2F, 0x2E, 0x2E]) ∧
      ∃ again, sampleResolver.resolve [0x2F, 0x61, 0x2F, 0x62] = .ok again ∧
        again.namespaceAbsolute = [0x2F, 0x61, 0x2F, 0x62] ∧
        again.authorityRelative = [0x61, 0x2F, 0x62] :=
  ⟨(resolve_confined _ _ sampleResolver_new).2.1 _ (by decide) ⟨[.parentDir], [], by decide, rfl⟩,
    ((resolve_confined _ _ sampleResolver_new).2.2.2 [0x2E, 0x2F, 0x62]
      ⟨[0x2F, 0x61, 0x2F, 0x62], [0x61, 0x2F, 0x62], false⟩ (by decide)).2⟩

end LocalPathResolver

end LocalFiles
