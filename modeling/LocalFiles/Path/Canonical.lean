import LocalFiles.NativePath
import LocalFiles.PathCodec
import Mathlib.Data.List.Forall2

/-!
# Canonical — native paths as lists of canonical texts

`LocalPaths` takes an absolute native path apart into texts, one for each normal component, and
puts a list of texts together to such a path.  On Unix the Host scope does the same as the Rooted
one, and checks its result by an assertion.
-/

namespace LocalFiles

open NativePath LocalPathCodec

/-- Only what the conversion reads. -/
structure LocalPaths where
  scope : LocalFileSystemScope
  deriving DecidableEq, Repr

namespace LocalPaths

/-! ## 1. The conversion -/

def hasRawDotComponent (path : OsString) : Bool :=
  (path.splitOn separator).any fun component => component == dot || component == dotDot

def hasDisallowedComponent (path : OsString) : Bool :=
  (components path).any (fun component => component == .curDir || component == .parentDir) ||
    hasRawDotComponent path

def invalidPathError : LocalFileError := .new .invalidPath .composePath

def hasNativeSeparator (component : OsString) : Bool := component.contains separator

def isNormalNativeComponent (component : OsString) : Bool :=
  !hasNativeSeparator component && (components component).head?.any Component.isNormal &&
    (components component).length == 1

def decodeNormalComponent (component : String) : Except (Halt LocalFileError) OsString := do
  let native ← decodeComponent component
  if isNormalNativeComponent native then return native else throw (.error invalidPathError)

/-- The loop that puts a path together. -/
def pushComponents (path : OsString) : List String → Except (Halt LocalFileError) OsString
  | [] => .ok path
  | component :: rest => do
    let native ← decodeNormalComponent component
    pushComponents (push path native) rest

def fromCanonicalHostComponents (texts : List String) : Except (Halt LocalFileError) OsString :=
  pushComponents [separator] texts

/-- The loop that takes a path apart, behind its root. -/
def encodeComponents (encoded : List String) :
    List Component → Except (Halt LocalFileError) (List String)
  | [] => .ok encoded
  | .normal name :: rest => do
    let text ← encodeComponent name
    encodeComponents (encoded ++ [text]) rest
  | _ :: _ => .error (.error invalidPathError)

def encodeAbsolute (path : OsString) : Except (Halt LocalFileError) (List String) :=
  if !isAbsolute path || hasDisallowedComponent path then .error (.error invalidPathError)
  else
    match components path with
    | .rootDir :: rest => encodeComponents [] rest
    | _ => .error (.error invalidPathError)

/-- Paths are compared by their components. -/
def decodesTo (texts : List String) (path : OsString) : Bool :=
  match fromCanonicalHostComponents texts with
  | .ok decoded => components decoded == components path
  | .error _ => false

def toCanonicalHostComponents (path : OsString) : Except (Halt LocalFileError) (List String) := do
  let encoded ← encodeAbsolute path
  if decodesTo encoded path then return encoded
  else throw (.panic "assertion failed: the decoded components are the path")

/-- There are no native prefixes to reject. -/
def toCanonicalRootedComponents (path : OsString) : Except (Halt LocalFileError) (List String) :=
  encodeAbsolute path

def fromCanonicalComponents (paths : LocalPaths) (texts : List String) :
    Except (Halt LocalFileError) OsString :=
  match paths.scope with
  | .host => fromCanonicalHostComponents texts
  | .rooted => pushComponents [separator] texts

def toCanonicalComponents (paths : LocalPaths) (path : OsString) :
    Except (Halt LocalFileError) (List String) :=
  match paths.scope with
  | .host => toCanonicalHostComponents path
  | .rooted => toCanonicalRootedComponents path

/-! ## 2. Spellings -/

/-- The text stands for the name. -/
def Spelled (name : OsString) (text : String) : Prop := IsName name ∧ encodeComponent name = .ok text

theorem isNormalNativeComponent_iff {component : OsString} (hnul : 0 ∉ component) :
    isNormalNativeComponent component ↔ IsName component := by
  unfold isNormalNativeComponent hasNativeSeparator
  by_cases hseparator : separator ∈ component
  · rw [List.contains_iff_mem.mpr hseparator]
    exact iff_of_false nofun fun h => h.noSeparator hseparator
  by_cases hempty : component = []
  · subst hempty
    exact iff_of_false nofun fun h => h.nonempty rfl
  have hrelative : isAbsolute component = false := by
    unfold isAbsolute
    rw [beq_eq_false_iff_ne]
    exact fun hhead => hseparator (List.mem_of_mem_head? hhead)
  have hparts : parts component = [component] := by
    unfold parts
    rw [List.splitOn_eq_singleton hseparator]
    simp [hempty]
  have hcontains : component.contains separator = false := by simpa using hseparator
  unfold components
  rw [hcontains, hparts, hrelative]
  by_cases hdot : component = dot
  · subst hdot
    exact iff_of_false (by decide) fun h => h.notDot rfl
  by_cases hdotDot : component = dotDot
  · subst hdotDot
    exact iff_of_false (by decide) fun h => h.notDotDot rfl
  · refine iff_of_true ?_ ⟨hempty, hseparator, hnul, hdot, hdotDot⟩
    simp [hdot, componentOfPart, hdotDot, Component.isNormal]

theorem decodeNormalComponent_ok {text : String} {name : OsString} :
    decodeNormalComponent text = .ok name ↔ Spelled name text := by
  unfold decodeNormalComponent
  constructor
  · intro h
    cases hdecode : decodeComponent text with
    | error e =>
      rw [hdecode] at h
      cases h
    | ok native =>
      rw [hdecode] at h
      have hencode := decode_encode hdecode
      change (if isNormalNativeComponent native then Except.ok native else _) = _ at h
      by_cases hnormal : isNormalNativeComponent native
      · rw [if_pos hnormal] at h
        cases h
        exact ⟨(isNormalNativeComponent_iff (encodeComponent_nul hencode)).mp hnormal, hencode⟩
      · rw [if_neg hnormal] at h
        cases h
  · rintro ⟨hname, hencode⟩
    rw [decode_of_encode hencode]
    exact if_pos ((isNormalNativeComponent_iff hname.noNul).mpr hname)

theorem pushComponents_ok {path result : OsString} {texts : List String} :
    pushComponents path texts = .ok result ↔
      ∃ names, List.Forall₂ Spelled names texts ∧ result = names.foldl push path := by
  induction texts generalizing path with
  | nil =>
    constructor
    · rintro ⟨⟩
      exact ⟨[], .nil, rfl⟩
    · rintro ⟨_, ⟨⟩, rfl⟩
      rfl
  | cons text texts ih =>
    unfold pushComponents
    constructor
    · intro h
      cases hdecode : decodeNormalComponent text with
      | error e =>
        rw [hdecode] at h
        cases h
      | ok name =>
        rw [hdecode] at h
        obtain ⟨names, hspelled, rfl⟩ := ih.mp h
        exact ⟨name :: names, .cons (decodeNormalComponent_ok.mp hdecode) hspelled, rfl⟩
    · rintro ⟨_, hspelled, rfl⟩
      cases hspelled with
      | cons hname hspelled =>
        rw [decodeNormalComponent_ok.mpr hname]
        exact ih.mpr ⟨_, hspelled, rfl⟩

theorem isName_of_spelled {names : List OsString} {texts : List String}
    (h : List.Forall₂ Spelled names texts) : ∀ name ∈ names, IsName name := by
  induction h with
  | nil => exact fun name hname => absurd hname List.not_mem_nil
  | cons hname _ ih => exact List.forall_mem_cons.mpr ⟨hname.1, ih⟩

theorem encodeComponents_ok {encoded texts : List String} {names : List OsString} :
    encodeComponents encoded (names.map .normal) = .ok texts ↔
      ∃ more, texts = encoded ++ more ∧
        List.Forall₂ (fun name text => encodeComponent name = .ok text) names more := by
  induction names generalizing encoded with
  | nil =>
    constructor
    · rintro ⟨⟩
      exact ⟨[], (List.append_nil _).symm, .nil⟩
    · rintro ⟨_, rfl, ⟨⟩⟩
      exact congrArg Except.ok (List.append_nil _).symm
  | cons name names ih =>
    rw [List.map_cons]
    unfold encodeComponents
    constructor
    · intro h
      cases hencode : encodeComponent name with
      | error e =>
        rw [hencode] at h
        cases h
      | ok text =>
        rw [hencode] at h
        obtain ⟨more, rfl, hmore⟩ := ih.mp h
        exact ⟨text :: more, List.append_assoc .., .cons hencode hmore⟩
    · rintro ⟨_, rfl, hall⟩
      cases hall with
      | cons hencode hmore =>
        rw [hencode]
        exact ih.mpr ⟨_, (List.append_assoc encoded [_] _).symm, hmore⟩

/-- Names without NUL are all that the encoder accepts. -/
theorem spelled_of_encode {names : List OsString} {texts : List String}
    (h : List.Forall₂ (fun name text => encodeComponent name = .ok text) names texts)
    (hnames : ∀ name ∈ names, 0 ∉ name → IsName name) : List.Forall₂ Spelled names texts := by
  induction h with
  | nil => exact .nil
  | cons hencode _ ih =>
    rw [List.forall_mem_cons] at hnames
    exact .cons ⟨hnames.1 (encodeComponent_nul hencode), hencode⟩ (ih hnames.2)

theorem exists_spelled {names : List OsString} (h : ∀ name ∈ names, IsName name) :
    ∃ texts, List.Forall₂ Spelled names texts := by
  induction names with
  | nil => exact ⟨[], .nil⟩
  | cons name names ih =>
    rw [List.forall_mem_cons] at h
    obtain ⟨text, hencode, -⟩ := encode_decode h.1.noNul
    obtain ⟨texts, hspelled⟩ := ih h.2
    exact ⟨text :: texts, .cons ⟨h.1, hencode⟩ hspelled⟩

/-! ## 3. What is accepted -/

/-- What is empty between two separators is no dot. -/
theorem hasRawDotComponent_eq (path : OsString) : hasRawDotComponent path =
    (parts path).any fun part => part == dot || part == dotDot := by
  unfold hasRawDotComponent
  rw [Bool.eq_iff_iff, List.any_eq_true, List.any_eq_true]
  constructor
  · rintro ⟨part, hpart, hdots⟩
    have hne : part ≠ [] := by
      rintro rfl
      cases hdots
    exact ⟨part, mem_parts.mpr ⟨hpart, hne⟩, hdots⟩
  · rintro ⟨part, hpart, hdots⟩
    exact ⟨part, (mem_parts.mp hpart).1, hdots⟩

theorem hasRawDotComponent_eq_false {path : OsString} :
    hasRawDotComponent path = false ↔ ∀ part ∈ parts path, part ≠ dot ∧ part ≠ dotDot := by
  rw [hasRawDotComponent_eq, List.any_eq_false]
  simp

/-- An absolute path without dots consists of the root and its parts. -/
theorem components_of_noDots {path : OsString} (habsolute : isAbsolute path)
    (hdots : hasRawDotComponent path = false) :
    components path = .rootDir :: (parts path).map .normal := by
  unfold components
  rw [if_pos habsolute, filterMap_componentOfPart (hasRawDotComponent_eq_false.mp hdots)]
  rfl

theorem hasDisallowedComponent_eq {path : OsString} (habsolute : isAbsolute path) :
    hasDisallowedComponent path = hasRawDotComponent path := by
  unfold hasDisallowedComponent
  cases hdots : hasRawDotComponent path with
  | true => exact Bool.or_true _
  | false =>
    rw [components_of_noDots habsolute hdots]
    simp

theorem encodeAbsolute_ok {path : OsString} {texts : List String} :
    encodeAbsolute path = .ok texts ↔
      isAbsolute path ∧ List.Forall₂ Spelled (parts path) texts := by
  unfold encodeAbsolute
  cases habsolute : isAbsolute path with
  | false => exact iff_of_false nofun nofun
  | true =>
    rw [hasDisallowedComponent_eq habsolute]
    cases hdots : hasRawDotComponent path with
    | true =>
      refine iff_of_false nofun ?_
      rintro ⟨-, hspelled⟩
      have hfalse := hasRawDotComponent_eq_false.mpr fun part hpart =>
        (isName_of_spelled hspelled part hpart).notDots
      rw [hdots] at hfalse
      cases hfalse
    | false =>
      rw [components_of_noDots habsolute hdots]
      show encodeComponents [] _ = _ ↔ _
      rw [encodeComponents_ok]
      constructor
      · rintro ⟨_, rfl, hmore⟩
        refine ⟨rfl, spelled_of_encode hmore fun part hpart hnul => ?_⟩
        obtain ⟨hmem, hne⟩ := mem_parts.mp hpart
        obtain ⟨hdot, hdotDot⟩ := hasRawDotComponent_eq_false.mp hdots part hpart
        exact ⟨hne, (not_mem_of_mem_splitOn separator path hmem).1, hnul, hdot, hdotDot⟩
      · rintro ⟨-, hspelled⟩
        exact ⟨texts, rfl, hspelled.imp fun _ _ h => h.2⟩

theorem fromCanonicalComponents_ok {paths : LocalPaths} {texts : List String} {path : OsString} :
    paths.fromCanonicalComponents texts = .ok path ↔
      ∃ names, List.Forall₂ Spelled names texts ∧ path = absolute names := by
  unfold fromCanonicalComponents fromCanonicalHostComponents
  cases paths.scope <;> exact pushComponents_ok

/-- The assertion never fails: the texts of an absolute path stand for its parts. -/
theorem decodesTo_of_spelled {path : OsString} {texts : List String} (habsolute : isAbsolute path)
    (h : List.Forall₂ Spelled (parts path) texts) : decodesTo texts path = true := by
  have hnames := isName_of_spelled h
  have hback : fromCanonicalHostComponents texts = .ok (absolute (parts path)) :=
    pushComponents_ok.mpr ⟨_, h, rfl⟩
  have hdots := hasRawDotComponent_eq_false.mpr fun part hpart => (hnames part hpart).notDots
  unfold decodesTo
  rw [hback]
  show (components (absolute (parts path)) == components path) = true
  rw [components_absolute hnames, components_of_noDots habsolute hdots]
  exact beq_self_eq_true _

theorem toCanonicalComponents_eq (paths : LocalPaths) (path : OsString) :
    paths.toCanonicalComponents path = encodeAbsolute path := by
  unfold toCanonicalComponents toCanonicalRootedComponents toCanonicalHostComponents
  cases paths.scope with
  | rooted => rfl
  | host =>
    cases hencode : encodeAbsolute path with
    | error e => rfl
    | ok texts =>
      obtain ⟨habsolute, hspelled⟩ := encodeAbsolute_ok.mp hencode
      exact if_pos (decodesTo_of_spelled habsolute hspelled)

/-- Only what stands between the separators counts. -/
theorem encodeAbsolute_congr {path path' : OsString} (habsolute : isAbsolute path = isAbsolute path')
    (hparts : parts path = parts path') : encodeAbsolute path = encodeAbsolute path' := by
  have hcomponents : components path = components path' := by
    unfold components
    rw [habsolute, hparts]
  have hdots : hasRawDotComponent path = hasRawDotComponent path' := by
    rw [hasRawDotComponent_eq, hasRawDotComponent_eq, hparts]
  unfold encodeAbsolute hasDisallowedComponent
  rw [habsolute, hcomponents, hdots]

/-! ## 4. Round trips -/

/-- In both scopes the two conversions are inverse to each other up to repeated and trailing
    separators, the paths that come out are the root and normal components, and a raw `.` or `..`
    is rejected wherever it stands. -/
theorem canonical_round_trip (paths : LocalPaths) :
    (∀ path texts, paths.toCanonicalComponents path = .ok texts →
      ∃ path', paths.fromCanonicalComponents texts = .ok path' ∧ components path' = components path) ∧
    (∀ texts path, paths.fromCanonicalComponents texts = .ok path →
      paths.toCanonicalComponents path = .ok texts ∧
        ∃ names : List OsString, components path = .rootDir :: names.map .normal) ∧
    (∀ path, isAbsolute path → 0 ∉ path → dot ∉ path.splitOn separator →
      dotDot ∉ path.splitOn separator → ∃ texts, paths.toCanonicalComponents path = .ok texts) ∧
    (∀ path, dot ∈ path.splitOn separator ∨ dotDot ∈ path.splitOn separator →
      paths.toCanonicalComponents path = .error (.error invalidPathError)) ∧
    (∀ front back, paths.toCanonicalComponents (front ++ separator :: separator :: back) =
      paths.toCanonicalComponents (front ++ separator :: back)) ∧
    ∀ path, path ≠ [] → paths.toCanonicalComponents (path ++ [separator]) =
      paths.toCanonicalComponents path := by
  simp only [toCanonicalComponents_eq]
  refine ⟨fun path texts h => ?_, fun texts path h => ?_, fun path habsolute hnul hdot hdotDot => ?_,
    fun path h => ?_, fun front back => ?_, fun path hne => ?_⟩
  · obtain ⟨habsolute, hspelled⟩ := encodeAbsolute_ok.mp h
    have hnames := isName_of_spelled hspelled
    refine ⟨absolute (parts path), fromCanonicalComponents_ok.mpr ⟨_, hspelled, rfl⟩, ?_⟩
    rw [components_absolute hnames, components_of_noDots habsolute
      (hasRawDotComponent_eq_false.mpr fun part hpart => (hnames part hpart).notDots)]
  · obtain ⟨names, hspelled, rfl⟩ := fromCanonicalComponents_ok.mp h
    have hnames := isName_of_spelled hspelled
    refine ⟨encodeAbsolute_ok.mpr ⟨isAbsolute_absolute hnames, ?_⟩, names,
      components_absolute hnames⟩
    rwa [parts_absolute hnames]
  · have hdots : hasRawDotComponent path = false := by
      unfold hasRawDotComponent
      rw [List.any_eq_false]
      intro part hpart hdots
      rw [Bool.or_eq_true, beq_iff_eq, beq_iff_eq] at hdots
      obtain rfl | rfl := hdots
      · exact hdot hpart
      · exact hdotDot hpart
    -- without NUL and without dots every part can be spelled
    have hnames : ∀ part ∈ parts path, IsName part := fun part hpart =>
      have hpart' := hasRawDotComponent_eq_false.mp hdots part hpart
      isName_of_mem_parts hnul hpart hpart'.1 hpart'.2
    obtain ⟨texts, hspelled⟩ := exists_spelled hnames
    exact ⟨texts, encodeAbsolute_ok.mpr ⟨habsolute, hspelled⟩⟩
  · have hdots : hasRawDotComponent path = true := by
      unfold hasRawDotComponent
      rw [List.any_eq_true]
      obtain h | h := h
      · exact ⟨dot, h, rfl⟩
      · exact ⟨dotDot, h, rfl⟩
    unfold encodeAbsolute hasDisallowedComponent
    rw [hdots, Bool.or_true, Bool.or_true]
    rfl
  · refine encodeAbsolute_congr ?_ ?_
    · cases front <;> rfl
    · rw [parts_append_separator, parts_append_separator]
      exact congrArg _ (parts_append_separator [] back)
  · refine encodeAbsolute_congr ?_ (parts_append_trailing path)
    cases path with
    | nil => exact absurd rfl hne
    | cons byte path => rfl

/-- The path `//a%/`. -/
theorem canonical_round_trip_sample :
    ∃ texts path, (LocalPaths.mk .host).toCanonicalComponents [0x2F, 0x2F, 0x61, 0x25, 0x2F] = .ok texts ∧
      (LocalPaths.mk .host).fromCanonicalComponents texts = .ok path ∧
      components path = [.rootDir, .normal [0x61, 0x25]] := by
  have hround := canonical_round_trip ⟨.host⟩
  obtain ⟨texts, htexts⟩ := hround.2.2.1 [0x2F, 0x2F, 0x61, 0x25, 0x2F] (by decide) (by decide)
    (by decide) (by decide)
  obtain ⟨path, hpath, hcomponents⟩ := hround.1 _ texts htexts
  exact ⟨texts, path, htexts, hpath, hcomponents.trans (by decide)⟩

end LocalPaths

end LocalFiles
