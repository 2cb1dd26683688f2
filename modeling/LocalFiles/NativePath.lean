import LocalFiles.Types
import Mathlib.Data.List.Induction
import Mathlib.Tactic.ByContra

/-!
# NativePath — Unix paths as bytes

`Path::components` and `PathBuf::push` of the standard library over byte strings, and the relative
paths that `LocalRelativePath` accepts.  A path is taken apart into the parts between its
separators; for names that stand for one normal component each, pushing them one after another is
inverse to that.
-/

namespace LocalFiles

/-- The bytes of a native name or path. -/
abbrev OsString := List UInt8

namespace NativePath

/-! ## 1. Parts and components -/

def separator : UInt8 := 0x2F

def dot : OsString := [0x2E]

def dotDot : OsString := [0x2E, 0x2E]

/-- The parts between separators that are not empty. -/
def parts (path : OsString) : List OsString := (path.splitOn separator).filter (· ≠ [])

def isAbsolute (path : OsString) : Bool := path.head? == some separator

def hasTrailingSeparator (path : OsString) : Bool := path.getLast? == some separator

inductive Component where
  | rootDir | curDir | parentDir
  | normal (name : OsString)
  deriving DecidableEq, Repr

def Component.isNormal : Component → Bool
  | .normal _ => true
  | _ => false

def componentOfPart (part : OsString) : Option Component :=
  if part = dot then none else if part = dotDot then some .parentDir else some (.normal part)

/-- `Path::components`: a dot counts only at the front of a relative path. -/
def components (path : OsString) : List Component :=
  (if isAbsolute path then [.rootDir]
    else if (parts path).head? = some dot then [.curDir] else []) ++
  (parts path).filterMap componentOfPart

/-- A name that is one normal component. -/
structure IsName (name : OsString) : Prop where
  nonempty : name ≠ []
  noSeparator : separator ∉ name
  noNul : 0 ∉ name
  notDot : name ≠ dot
  notDotDot : name ≠ dotDot

/-- `PathBuf::push`. -/
def push (path component : OsString) : OsString :=
  if isAbsolute component then component
  else if path = [] ∨ hasTrailingSeparator path then path ++ component
  else path ++ separator :: component

/-- A path built by pushing names one after another. -/
def ofNames (names : List OsString) : OsString := names.foldl push []

theorem mem_parts {path part : OsString} :
    part ∈ parts path ↔ part ∈ path.splitOn separator ∧ part ≠ [] := by
  unfold parts
  rw [List.mem_filter, decide_eq_true_iff]

theorem not_mem_of_mem_splitOn (byte : UInt8) (path : OsString) {part : OsString}
    (h : part ∈ path.splitOn byte) : byte ∉ part ∧ ∀ b ∈ part, b ∈ path := by
  induction path generalizing part with
  | nil =>
    rw [List.splitOn_nil, List.mem_singleton] at h
    subst h
    exact ⟨List.not_mem_nil, fun _ hb => absurd hb List.not_mem_nil⟩
  | cons first path ih =>
    rw [List.splitOn_cons_eq_if_modifyHead] at h
    split at h
    next =>
      cases h with
      | head => exact ⟨List.not_mem_nil, fun _ hb => absurd hb List.not_mem_nil⟩
      | tail _ h => exact ⟨(ih h).1, fun b hb => List.mem_cons_of_mem _ ((ih h).2 b hb)⟩
    next hne =>
      obtain ⟨front, rest, heq⟩ := List.exists_cons_of_ne_nil (List.splitOn_ne_nil byte path)
      rw [heq, List.modifyHead_cons] at h
      rw [heq] at ih
      cases h with
      | head =>
        have hfront := ih List.mem_cons_self
        refine ⟨?_, ?_⟩
        · intro hmem
          cases hmem with
          | head => exact hne (beq_self_eq_true _)
          | tail _ hmem => exact hfront.1 hmem
        · intro b hb
          cases hb with
          | head => exact List.mem_cons_self
          | tail _ hb => exact List.mem_cons_of_mem _ (hfront.2 b hb)
      | tail _ h =>
        have hpart := ih (List.mem_cons_of_mem _ h)
        exact ⟨hpart.1, fun b hb => List.mem_cons_of_mem _ (hpart.2 b hb)⟩

/-- A part that is neither a dot nor two dots is a name. -/
theorem isName_of_mem_parts {path part : OsString} (hnul : 0 ∉ path) (h : part ∈ parts path)
    (hdot : part ≠ dot) (hdotDot : part ≠ dotDot) : IsName part := by
  obtain ⟨hmem, hne⟩ := mem_parts.mp h
  have hbytes := not_mem_of_mem_splitOn separator path hmem
  exact ⟨hne, hbytes.1, fun h0 => hnul (hbytes.2 0 h0), hdot, hdotDot⟩

/-! ## 2. Pushing names -/

theorem parts_append_separator (front back : OsString) :
    parts (front ++ separator :: back) = parts front ++ parts back := by
  unfold parts
  rw [List.splitOn_append_cons_self, List.filter_append]

theorem IsName.parts_eq {name : OsString} (h : IsName name) : parts name = [name] := by
  unfold parts
  rw [List.splitOn_eq_singleton h.noSeparator]
  simp [h.nonempty]

theorem IsName.not_absolute {name : OsString} (h : IsName name) : isAbsolute name = false := by
  unfold isAbsolute
  rw [beq_eq_false_iff_ne]
  exact fun heq => h.noSeparator (List.mem_of_mem_head? heq)

theorem push_relative (path : OsString) {relative : OsString} (h : isAbsolute relative = false) :
    push path relative = if path = [] ∨ hasTrailingSeparator path then path ++ relative
      else path ++ separator :: relative := by
  unfold push
  rw [if_neg (by rw [h]; decide)]

/-- A path pushed onto another one either is the whole, or stands behind a separator. -/
theorem push_cases (path : OsString) {relative : OsString} (h : isAbsolute relative = false) :
    path = [] ∧ push path relative = relative ∨
      ∃ front, (path = front ∨ path = front ++ [separator]) ∧
        push path relative = front ++ separator :: relative := by
  rw [push_relative path h]
  by_cases hempty : path = []
  · rw [if_pos (.inl hempty), hempty]
    exact .inl ⟨rfl, rfl⟩
  right
  by_cases htrailing : hasTrailingSeparator path
  · -- A separator at the end is not pushed again.
    have hlast : path.getLast? = some separator := eq_of_beq htrailing
    obtain ⟨front, rfl⟩ := List.getLast?_eq_some_iff.mp hlast
    rw [if_pos (.inr htrailing), List.append_assoc]
    exact ⟨front, .inr rfl, rfl⟩
  · rw [if_neg (by simp [hempty, htrailing])]
    exact ⟨path, .inl rfl, rfl⟩

theorem parts_append_trailing (path : OsString) : parts (path ++ [separator]) = parts path := by
  rw [parts_append_separator]
  simp [parts]

theorem parts_push_relative (path : OsString) {relative : OsString}
    (h : isAbsolute relative = false) : parts (push path relative) = parts path ++ parts relative := by
  obtain ⟨rfl, heq⟩ | ⟨front, hfront, heq⟩ := push_cases path h
  · rw [heq]
    rfl
  · rw [heq, parts_append_separator]
    obtain rfl | rfl := hfront
    · rfl
    · rw [parts_append_trailing]

theorem parts_push (path : OsString) {name : OsString} (h : IsName name) :
    parts (push path name) = parts path ++ [name] := by
  rw [parts_push_relative path h.not_absolute, h.parts_eq]

theorem isAbsolute_push_relative (path : OsString) {relative : OsString}
    (h : isAbsolute relative = false) : isAbsolute (push path relative) = isAbsolute path := by
  rw [push_relative path h]
  cases path with
  | nil => exact h
  | cons byte path => split <;> rfl

theorem mem_push_relative {path relative : OsString} {byte : UInt8} (h : isAbsolute relative = false)
    (hbyte : byte ≠ separator) : byte ∈ push path relative ↔ byte ∈ path ∨ byte ∈ relative := by
  rw [push_relative path h]
  split
  · rw [List.mem_append]
  · rw [List.mem_append, List.mem_cons, or_iff_right hbyte]

section Names

variable {names : List OsString}

/-- Pushing names one after another appends them to the parts. -/
theorem parts_foldl_push (base : OsString) (h : ∀ name ∈ names, IsName name) :
    parts (names.foldl push base) = parts base ++ names := by
  induction names generalizing base with
  | nil => exact (List.append_nil _).symm
  | cons name names ih =>
    rw [List.forall_mem_cons] at h
    rw [List.foldl_cons, ih _ h.2, parts_push base h.1, List.append_assoc]
    rfl

theorem isAbsolute_foldl_push (base : OsString) (h : ∀ name ∈ names, IsName name) :
    isAbsolute (names.foldl push base) = isAbsolute base := by
  induction names generalizing base with
  | nil => rfl
  | cons name names ih =>
    rw [List.forall_mem_cons] at h
    rw [List.foldl_cons, ih _ h.2, isAbsolute_push_relative base h.1.not_absolute]

theorem noNul_foldl_push {base : OsString} (hbase : 0 ∉ base) (h : ∀ name ∈ names, IsName name) :
    0 ∉ names.foldl push base := by
  induction names generalizing base with
  | nil => exact hbase
  | cons name names ih =>
    rw [List.forall_mem_cons] at h
    refine ih (fun hmem => ?_) h.2
    rw [mem_push_relative h.1.not_absolute (by decide)] at hmem
    exact hmem.elim hbase h.1.noNul

/-- The parts of a path built from names are these names. -/
theorem parts_ofNames (h : ∀ name ∈ names, IsName name) : parts (ofNames names) = names :=
  parts_foldl_push [] h

theorem isAbsolute_ofNames (h : ∀ name ∈ names, IsName name) : isAbsolute (ofNames names) = false :=
  isAbsolute_foldl_push [] h

theorem noNul_ofNames (h : ∀ name ∈ names, IsName name) : 0 ∉ ofNames names :=
  noNul_foldl_push List.not_mem_nil h

end Names

theorem filterMap_componentOfPart {names : List OsString}
    (h : ∀ name ∈ names, name ≠ dot ∧ name ≠ dotDot) :
    names.filterMap componentOfPart = names.map .normal := by
  induction names with
  | nil => rfl
  | cons name names ih =>
    rw [List.forall_mem_cons] at h
    have hpart : componentOfPart name = some (.normal name) := by
      unfold componentOfPart
      rw [if_neg h.1.1, if_neg h.1.2]
    rw [List.filterMap_cons_some hpart, List.map_cons, ih h.2]

theorem IsName.notDots {name : OsString} (h : IsName name) : name ≠ dot ∧ name ≠ dotDot :=
  ⟨h.notDot, h.notDotDot⟩

/-- A relative path whose parts are names has these as its components. -/
theorem components_eq {path : OsString} (hrelative : isAbsolute path = false)
    (hnames : ∀ name ∈ parts path, IsName name) :
    components path = (parts path).map .normal := by
  unfold components
  rw [filterMap_componentOfPart fun name hname => (hnames name hname).notDots, if_neg (by rw [hrelative]; decide), if_neg]
  · rfl
  · intro hdot
    exact (hnames dot (List.mem_of_mem_head? hdot)).notDot rfl

theorem components_ofNames {names : List OsString} (h : ∀ name ∈ names, IsName name) :
    components (ofNames names) = names.map .normal := by
  have hparts := parts_ofNames h
  rw [components_eq (isAbsolute_ofNames h) (by rw [hparts]; exact h), hparts]

/-! ## 3. Absolute paths -/

/-- The absolute path of these names. -/
def absolute (names : List OsString) : OsString := names.foldl push [separator]

section Absolute

variable {names : List OsString}

theorem parts_absolute (h : ∀ name ∈ names, IsName name) : parts (absolute names) = names :=
  parts_foldl_push [separator] h

theorem isAbsolute_absolute (h : ∀ name ∈ names, IsName name) : isAbsolute (absolute names) :=
  isAbsolute_foldl_push [separator] h

theorem noNul_absolute (h : ∀ name ∈ names, IsName name) : 0 ∉ absolute names :=
  noNul_foldl_push (by decide) h

theorem components_absolute (h : ∀ name ∈ names, IsName name) :
    components (absolute names) = .rootDir :: names.map .normal := by
  unfold components
  rw [if_pos (isAbsolute_absolute h), parts_absolute h,
    filterMap_componentOfPart fun name hname => (h name hname).notDots]
  rfl

theorem IsName.not_trailing {name : OsString} (h : IsName name) (front : OsString) :
    hasTrailingSeparator (front ++ name) = false := by
  unfold hasTrailingSeparator
  rw [beq_eq_false_iff_ne, List.getLast?_append_of_ne_nil front h.nonempty]
  exact fun hlast => h.noSeparator (List.mem_of_getLast? hlast)

/-- Behind a first name every other one follows a separator. -/
theorem foldl_push_eq {name : OsString} (front : OsString) (hname : IsName name)
    (h : ∀ name ∈ names, IsName name) :
    names.foldl push (front ++ name) = front ++ name ++ names.flatMap (separator :: ·) := by
  induction names generalizing front name with
  | nil => exact (List.append_nil _).symm
  | cons second names ih =>
    rw [List.forall_mem_cons] at h
    have hpush : push (front ++ name) second = (front ++ name ++ [separator]) ++ second := by
      rw [push_relative _ h.1.not_absolute, if_neg (by simp [hname.nonempty, hname.not_trailing])]
      exact (List.append_assoc (front ++ name) [separator] second).symm
    rw [List.foldl_cons, hpush, ih _ h.1 h.2]
    simp

/-- The absolute path of names is the root followed by their relative path. -/
theorem absolute_eq (h : ∀ name ∈ names, IsName name) :
    absolute names = separator :: ofNames names := by
  cases names with
  | nil => rfl
  | cons name names =>
    rw [List.forall_mem_cons] at h
    have habsolute : absolute (name :: names) = names.foldl push ([separator] ++ name) := by
      show names.foldl push (push [separator] name) = _
      rw [push_relative _ h.1.not_absolute]
      rfl
    have hrelative : ofNames (name :: names) = names.foldl push ([] ++ name) := by
      show names.foldl push (push [] name) = _
      rw [push_relative _ h.1.not_absolute]
      rfl
    rw [habsolute, hrelative, foldl_push_eq _ h.1 h.2, foldl_push_eq _ h.1 h.2]
    rfl

end Absolute

end NativePath

/-- A Unix path: bytes without NUL. -/
structure UnixPath where
  bytes : OsString
  noNul : 0 ∉ bytes
  deriving DecidableEq

/-! ## 4. Relative paths -/

open NativePath

def containsNul (path : OsString) : Bool := path.contains 0

def containsExplicitDotComponent (path : OsString) : Bool :=
  (path.splitOn separator).any (· == dot)

/-- A path that is not empty and has normal components only. -/
structure LocalRelativePath where
  path : OsString
  nonempty : path ≠ []
  noNul : containsNul path = false
  noDot : containsExplicitDotComponent path = false
  normal : (components path).all Component.isNormal
  deriving DecidableEq

namespace LocalRelativePath

def invalidRelativePathError : IoError where
  kind := .invalidInput
  message := "rooted path must be non-empty and contain only normal relative components without NUL"

def new (path : OsString) : Except IoError LocalRelativePath :=
  if h : path ≠ [] ∧ containsNul path = false ∧ containsExplicitDotComponent path = false ∧
      (components path).all Component.isNormal then
    .ok ⟨path, h.1, h.2.1, h.2.2.1, h.2.2.2⟩
  else .error invalidRelativePathError

/-- The names of its components. -/
def names (path : LocalRelativePath) : List OsString := parts path.path

variable (relative : LocalRelativePath)

theorem not_absolute : isAbsolute relative.path = false := by
  by_contra habsolute
  have hall := relative.normal
  unfold components at hall
  rw [if_pos (by simpa using habsolute)] at hall
  simp [Component.isNormal] at hall

theorem isName_names : ∀ name ∈ relative.names, IsName name := by
  intro name hname
  have hdot : name ≠ dot := by
    rintro rfl
    have hany := relative.noDot
    unfold containsExplicitDotComponent at hany
    rw [List.any_eq_false] at hany
    exact hany dot (mem_parts.mp hname).1 (beq_self_eq_true dot)
  refine isName_of_mem_parts ?_ hname hdot ?_
  · have hnul := relative.noNul
    unfold containsNul at hnul
    simpa using hnul
  · rintro rfl
    have hall := relative.normal
    rw [List.all_eq_true] at hall
    have hparent : Component.parentDir ∈ components relative.path := by
      unfold components
      exact List.mem_append_right _ (List.mem_filterMap.mpr ⟨dotDot, hname, by decide⟩)
    exact absurd (hall _ hparent) (by decide)

theorem components_eq : components relative.path = relative.names.map .normal :=
  NativePath.components_eq relative.not_absolute relative.isName_names

def toUnixPath : UnixPath := ⟨relative.path, by simpa [containsNul] using relative.noNul⟩

/-- Names put together are a relative path, unless there are none. -/
theorem new_ofNames {names : List OsString} (h : ∀ name ∈ names, IsName name) (hne : names ≠ []) :
    ∃ relative, new (ofNames names) = .ok relative ∧ relative.names = names := by
  have hparts := parts_ofNames h
  have hpath : ofNames names ≠ [] := by
    intro hempty
    rw [hempty] at hparts
    exact hne hparts.symm
  have hnul : containsNul (ofNames names) = false := by
    unfold containsNul
    simpa using noNul_ofNames h
  have hdot : containsExplicitDotComponent (ofNames names) = false := by
    unfold containsExplicitDotComponent
    rw [List.any_eq_false]
    intro part hmem hpart
    have hpart : part = dot := eq_of_beq hpart
    subst hpart
    have hname : dot ∈ parts (ofNames names) := mem_parts.mpr ⟨hmem, by decide⟩
    rw [hparts] at hname
    exact (h dot hname).notDot rfl
  have hall : (components (ofNames names)).all Component.isNormal := by
    rw [components_ofNames h, List.all_eq_true]
    intro component hcomponent
    obtain ⟨name, -, rfl⟩ := List.mem_map.mp hcomponent
    rfl
  refine ⟨⟨ofNames names, hpath, hnul, hdot, hall⟩, ?_, hparts⟩
  unfold new
  rw [dif_pos ⟨hpath, hnul, hdot, hall⟩]

end LocalRelativePath

end LocalFiles
