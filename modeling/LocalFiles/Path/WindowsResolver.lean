import LocalFiles.Path.WindowsComponents
import LocalFiles.Types

/-!
# WindowsResolver — operation paths bound to a current directory on Windows

The resolver takes paths apart into components, folds those of a Rooted path over those of the
current directory and pushes the names that are left together again.  A native prefix is refused
where it stands as one; a name inside a path may still look like a drive, and then pushing it
leaves the namespace.
-/

namespace LocalFiles.Windows

/-! ## 1. The resolver -/

/-- `LocalNamespacePath` over UTF-16 units. -/
structure WideNamespacePath where
  namespaceAbsolute : WideString
  authorityRelative : WideString
  directoryRequired : Bool
  deriving DecidableEq, Repr

/-- An error together with the native path it names. -/
structure WideBindError where
  error : LocalFileError
  path : WideString
  deriving DecidableEq, Repr

structure WindowsPathResolver where
  scope : LocalFileSystemScope
  currentDirectory : Option WideString
  currentComponents : List WideString
  currentPrefix : Option WideString
  deriving DecidableEq, Repr

namespace WindowsPathResolver

def invalidPath (path : WideString) (reason : String) : WideBindError where
  error := (LocalFileError.new .invalidPath .bindPath).withReason reason
  path := path

def missingSnapshot (path : WideString) : WideBindError where
  error := (LocalFileError.new .invalidState .bindPath).withReason
    "a relative Host path requires a process current directory snapshot"
  path := path

def nativeNul (path : WideString) : WideBindError where
  error := .fromPathCodec .bindPath none .nativeNul
  path := path

def rejectNativeNul (path : WideString) : Except WideBindError Unit :=
  if 0 ∈ path then .error (nativeNul path) else .ok ()

def hasPrefix (path : WideString) : Bool := (components path).any WideComponent.isPrefix

def hasNamespaceRoot (scope : LocalFileSystemScope) (path : WideString) : Bool :=
  match scope with
  | .host => isAbsolute path
  | .rooted => hasRoot path && !hasPrefix path

/-- The loop of `parse_current_directory`. -/
def parseComponents (scope : LocalFileSystemScope) (currentDirectory : WideString) :
    Option WideString → List WideString → List WideComponent →
      Except WideBindError (Option WideString × List WideString)
  | native, names, [] => .ok (native, names)
  | _, names, .nativePrefix spelling :: rest =>
    if scope = .host then parseComponents scope currentDirectory (some spelling) names rest
    else .error (invalidPath currentDirectory "filesystem current directory is not normalized")
  | native, names, .rootDir :: rest => parseComponents scope currentDirectory native names rest
  | native, names, .normal name :: rest =>
    parseComponents scope currentDirectory native (names ++ [name]) rest
  | _, _, .curDir :: _ | _, _, .parentDir :: _ =>
    .error (invalidPath currentDirectory "filesystem current directory is not normalized")

def parseCurrentDirectory (scope : LocalFileSystemScope) (currentDirectory : WideString) :
    Except WideBindError (Option WideString × List WideString) :=
  if hasNamespaceRoot scope currentDirectory then
    parseComponents scope currentDirectory none [] (components currentDirectory)
  else
    .error (invalidPath currentDirectory
      "filesystem current directory must be namespace-absolute")

def new (scope : LocalFileSystemScope) (currentDirectory : WideString) :
    Except WideBindError WindowsPathResolver := do
  rejectNativeNul currentDirectory
  let (currentPrefix, currentComponents) ← parseCurrentDirectory scope currentDirectory
  return { scope, currentDirectory := some currentDirectory, currentComponents, currentPrefix }

def hasTrailingSeparatorOrDot (path : WideString) : Bool :=
  hasTrailingSeparator path ||
    ((path.splitOnP isSeparator).getLast? == some dot ||
      (path.splitOnP isSeparator).getLast? == some dotDot)

def directoryRequired (path : WideString) : Bool := path == [] || hasTrailingSeparatorOrDot path

def bindHostOperand (path : WideString) (pwd : Option WideString) :
    Except WideBindError WideString :=
  if isAbsolute path then .ok path
  else if hasPrefix path then
    .error (invalidPath path "drive-relative Host paths are ambiguous")
  else match pwd with
  | none => .error (missingSnapshot path)
  | some pwd =>
    if hasRoot path then
      match (components pwd).head? with
      | some (.nativePrefix spelling) => .ok (spelling ++ path)
      | _ => .error (invalidPath path "root-relative Host paths require a drive anchor")
    else .ok (if path = [] then pwd else pwd ++ mainSeparator :: path)

/-- The loop of `resolve` over the components of the Rooted path. -/
def foldComponents (path : WideString) (names : List WideString) :
    List WideComponent → Except WideBindError (List WideString)
  | [] => .ok names
  | .nativePrefix _ :: rest | .rootDir :: rest | .curDir :: rest => foldComponents path names rest
  | .normal name :: rest => foldComponents path (names ++ [name]) rest
  | .parentDir :: rest =>
    if names = [] then
      .error (invalidPath path "path traversal escaped the filesystem namespace root")
    else foldComponents path names.dropLast rest

def namespaceAbsolute (scope : LocalFileSystemScope) (native : Option WideString)
    (names : List WideString) : WideString :=
  let result := match scope, native with
    | .host, some spelling => push [] spelling
    | _, _ => []
  names.foldl push (push result [mainSeparator])

variable (resolver : WindowsPathResolver)

/-- The names that those of the path are folded over. -/
def start (path : WideString) : List WideString :=
  if hasRoot path then [] else resolver.currentComponents

def resolve (path : WideString) : Except WideBindError WideNamespacePath := do
  rejectNativeNul path
  if resolver.currentDirectory = none ∧ isAbsolute path = false then
    throw (missingSnapshot path)
  let directoryRequired := directoryRequired path
  if resolver.scope = .host then
    let bound ← bindHostOperand path resolver.currentDirectory
    return ⟨bound, bound, directoryRequired⟩
  if hasPrefix path then
    throw (invalidPath path "native prefixes are not valid in a Rooted namespace")
  let names ← foldComponents path (resolver.start path) (components path)
  return ⟨namespaceAbsolute resolver.scope resolver.currentPrefix names, names.foldl push [],
    directoryRequired⟩

/-! ## 2. The names of a path -/

/-- Where a component leads; nothing lies above the root. -/
def enter (names : List WideString) : WideComponent → List WideString
  | .normal name => names ++ [name]
  | .parentDir => names.dropLast
  | .nativePrefix _ | .rootDir | .curDir => names

/-- What is left of the path and the current directory when the dots are worked off. -/
def folded (path : WideString) : List WideString :=
  (components path).foldl enter (resolver.start path)

variable {resolver} {path currentDirectory : WideString} {names : List WideString}

theorem parsePath_of_hasPrefix (h : hasPrefix path = false) : parsePath path = none := by
  cases hparse : parsePath path with
  | none => rfl
  | some kind =>
    unfold hasPrefix components at h
    rw [hparse, Option.map_some, Option.toList_some, List.append_assoc, List.singleton_append,
      List.any_cons] at h
    cases h

/-- A path without a prefix consists of names. -/
theorem isWideName_of_mem (h : hasPrefix path = false) {name : WideString}
    (hmem : .normal name ∈ components path) : IsWideName name := by
  have hparse := parsePath_of_hasPrefix h
  unfold components at hmem
  rw [hparse] at hmem
  change _ ∈ [] ++ rootComponent path ++ _ at hmem
  rw [List.nil_append, List.mem_append] at hmem
  rcases hmem with hroot | hbody
  · unfold rootComponent at hroot
    rw [hparse] at hroot
    split at hroot
    · cases List.mem_singleton.mp hroot
    · dsimp only at hroot
      split at hroot
      · cases List.mem_singleton.mp hroot
      · cases hroot
  · obtain ⟨piece, hpiece, heq⟩ := List.mem_filterMap.mp hbody
    unfold writtenComponents separatesComponents at hpiece
    rw [hparse] at hpiece
    change piece ∈ pieces isSeparator _ at hpiece
    change componentOfPiece false piece = _ at heq
    unfold componentOfPiece at heq
    by_cases hdot : piece = dot
    · rw [if_pos hdot] at heq
      cases heq
    rw [if_neg hdot] at heq
    by_cases hdotDot : piece = dotDot
    · rw [if_pos hdotDot] at heq
      cases heq
    rw [if_neg hdotDot] at heq
    cases heq
    exact ⟨ne_nil_of_mem_pieces hpiece, mem_pieces hpiece, hdot, hdotDot⟩

theorem isWideName_foldl_enter {components : List WideComponent}
    (hnames : ∀ name ∈ names, IsWideName name)
    (hcomponents : ∀ name, .normal name ∈ components → IsWideName name) :
    ∀ name ∈ components.foldl enter names, IsWideName name := by
  induction components generalizing names with
  | nil => exact hnames
  | cons component components ih =>
    refine ih ?_ fun name h => hcomponents name (List.mem_cons_of_mem _ h)
    intro name hname
    cases component with
    | normal last =>
      obtain hname | hname := List.mem_append.mp hname
      · exact hnames name hname
      · obtain rfl := List.mem_singleton.mp hname
        exact hcomponents _ List.mem_cons_self
    | parentDir => exact hnames name ((List.dropLast_sublist names).mem hname)
    | nativePrefix => exact hnames name hname
    | rootDir => exact hnames name hname
    | curDir => exact hnames name hname

theorem foldComponents_ok {components : List WideComponent} {result : List WideString}
    (h : foldComponents path names components = .ok result) :
    result = components.foldl enter names := by
  induction components generalizing names with
  | nil => exact (Except.ok.inj h).symm
  | cons component components ih =>
    cases component with
    | parentDir =>
      unfold foldComponents at h
      split at h
      · cases h
      · exact ih h
    | normal name => exact ih h
    | nativePrefix => exact ih h
    | rootDir => exact ih h
    | curDir => exact ih h

theorem parseComponents_ok {native result : Option WideString} {more : List WideString}
    {components : List WideComponent}
    (h : parseComponents .rooted currentDirectory native names components = .ok (result, more)) :
    more = components.foldl enter names := by
  induction components generalizing names native with
  | nil =>
    cases h
    rfl
  | cons component components ih =>
    cases component with
    | normal name => exact ih h
    | rootDir => exact ih h
    | nativePrefix => cases h
    | curDir => cases h
    | parentDir => cases h

/-- A Rooted resolver holds names. -/
structure Holds (resolver : WindowsPathResolver) : Prop where
  rooted : resolver.scope = .rooted
  isName : ∀ name ∈ resolver.currentComponents, IsWideName name

theorem holds_of_new (h : new .rooted currentDirectory = .ok resolver) : resolver.Holds := by
  unfold new rejectNativeNul at h
  split at h
  · cases h
  · change (parseCurrentDirectory .rooted currentDirectory >>= _) = _ at h
    unfold parseCurrentDirectory at h
    split at h
    · rename_i hroot
      have hdisk : hasPrefix currentDirectory = false := by
        have hnot := (Bool.and_eq_true_iff.mp hroot).2
        simpa using hnot
      cases hparse : parseComponents .rooted currentDirectory none []
          (components currentDirectory) with
      | error error => rw [hparse] at h; cases h
      | ok parsed =>
        rw [hparse] at h
        obtain ⟨native, more⟩ := parsed
        cases h
        refine ⟨rfl, ?_⟩
        show ∀ name ∈ more, IsWideName name
        rw [parseComponents_ok hparse]
        exact isWideName_foldl_enter nofun fun name => isWideName_of_mem hdisk
    · cases h

theorem Holds.resolve_ok (hholds : resolver.Holds) {bound : WideNamespacePath}
    (h : resolver.resolve path = .ok bound) :
    (∀ name ∈ resolver.folded path, IsWideName name) ∧
      bound = ⟨(resolver.folded path).foldl push [mainSeparator],
        (resolver.folded path).foldl push [], directoryRequired path⟩ := by
  unfold resolve rejectNativeNul at h
  rw [hholds.rooted] at h
  by_cases hnul : 0 ∈ path
  · rw [if_pos hnul] at h
    cases h
  rw [if_neg hnul] at h
  by_cases hmissing : resolver.currentDirectory = none ∧ isAbsolute path = false
  · rw [if_pos hmissing] at h
    cases h
  rw [if_neg hmissing, if_neg nofun] at h
  cases hdisk : hasPrefix path with
  | true =>
    rw [hdisk] at h
    cases h
  | false =>
    rw [hdisk] at h
    cases hfold : foldComponents path (resolver.start path) (components path) with
    | error error => rw [hfold] at h; cases h
    | ok names =>
      rw [hfold] at h
      cases h
      have hnames : names = resolver.folded path := foldComponents_ok hfold
      subst hnames
      refine ⟨?_, rfl⟩
      refine isWideName_foldl_enter ?_ fun name => isWideName_of_mem hdisk
      unfold start
      split
      · exact nofun
      · exact hholds.isName

/-! ## 3. Who stays in the namespace -/

/-- The bound path is rooted and relative as it should be, and both spell the folded names. -/
structure StaysRooted (names : List WideString) (bound : WideNamespacePath) : Prop where
  root : hasRoot bound.namespaceAbsolute = true
  noPrefix : parsePath bound.namespaceAbsolute = none
  relativeNoRoot : hasRoot bound.authorityRelative = false
  relativeNoPrefix : parsePath bound.authorityRelative = none
  components : components bound.namespaceAbsolute = .rootDir :: names.map .normal
  relativeComponents : Windows.components bound.authorityRelative = names.map .normal

/-- A bound path stays rooted exactly when no name that is left of it looks like a drive. -/
theorem resolve_rooted_iff (currentDirectory path : WideString) (resolver : WindowsPathResolver)
    (bound : WideNamespacePath) (hnew : new .rooted currentDirectory = .ok resolver)
    (h : resolver.resolve path = .ok bound) :
    StaysRooted (resolver.folded path) bound ↔
      ∀ name ∈ resolver.folded path, parseDrive name = none := by
  obtain ⟨hnames, rfl⟩ := (holds_of_new hnew).resolve_ok h
  generalize resolver.folded path = names at hnames
  constructor
  · intro hstays name hname
    by_contra hdrive
    obtain ⟨drive, hpushed⟩ :=
      drive_foldl_push [mainSeparator] hnames ⟨name, hname, hdrive⟩
    have hparse := hstays.noPrefix
    rw [parsePath_of_drive hpushed] at hparse
    cases hparse
  · intro hdrives
    obtain ⟨absolute, habsolute, hwritten⟩ := written_foldl_push true hnames hdrives
    obtain ⟨relative, hrelative, hwritten'⟩ := written_foldl_push false hnames hdrives
    have hparse := hwritten.parsePath_eq true
    have hparse' := hwritten'.parsePath_eq false
    have hcomponents := hwritten.components_eq true hnames
    have hcomponents' := hwritten'.components_eq false hnames
    rw [← habsolute] at hparse hcomponents
    rw [← hrelative] at hparse' hcomponents'
    refine ⟨?_, hparse, ?_, hparse', hcomponents, hcomponents'⟩
    · show hasRoot (names.foldl push (rootOf true)) = true
      rw [hasRoot_of_none hparse, habsolute]
      rfl
    · show hasRoot (names.foldl push (rootOf false)) = false
      rw [hasRoot_of_none hparse', hrelative]
      exact any_head_of_noRoot hwritten'.noRoot

/-- The resolver at the root of the namespace. -/
def atRoot : WindowsPathResolver where
  scope := .rooted
  currentDirectory := some [mainSeparator]
  currentComponents := []
  currentPrefix := none

theorem new_atRoot : new .rooted [mainSeparator] = .ok atRoot := by decide

/-- `a\b` -/
def plainPath : WideString := ['a', '\\', 'b'].map unit

theorem resolve_rooted_iff_plain : ∃ bound, atRoot.resolve plainPath = .ok bound ∧
    (StaysRooted (atRoot.folded plainPath) bound ↔
      ∀ name ∈ atRoot.folded plainPath, parseDrive name = none) :=
  ⟨_, rfl, resolve_rooted_iff [mainSeparator] plainPath atRoot _ new_atRoot rfl⟩

/-- `\C:\x`, which has no prefix. -/
def innerDrivePath : WideString := ['\\', 'C', ':', '\\', 'x'].map unit

/-- The resolver accepts the path and leads it to `C:x`, which is on a drive and has no root. -/
theorem resolve_leaves_namespace : ∃ resolver bound,
    new .rooted [mainSeparator] = .ok resolver ∧ resolver.resolve innerDrivePath = .ok bound ∧
      bound.namespaceAbsolute = ['C', ':', 'x'].map unit ∧
      hasRoot bound.namespaceAbsolute = false ∧
      (parsePath bound.namespaceAbsolute).isSome = true := by
  refine ⟨atRoot, _, new_atRoot, rfl, ?_, ?_, ?_⟩
  all_goals decide

end WindowsPathResolver

end LocalFiles.Windows
