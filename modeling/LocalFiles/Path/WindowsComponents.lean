import LocalFiles.Path.Windows
import Mathlib.Data.List.Induction

/-!
# WindowsComponents — taking Windows paths apart and pushing them together

`Path::components` and `PathBuf::push` of the standard library.  What is pushed is parsed again: a
name that looks like a drive replaces the whole buffer, any other name comes to stand as one
component behind those that are there.
-/

namespace LocalFiles.Windows

def mainSeparator : UInt16 := unit '\\'

def dot : WideString := [unit '.']

def dotDot : WideString := [unit '.', unit '.']

/-! ## 1. Components -/

inductive WideComponent where
  | nativePrefix (spelling : WideString)
  | rootDir | curDir | parentDir
  | normal (name : WideString)
  deriving DecidableEq, Repr

/-- `parse_single_component`: dots are kept in verbatim paths only. -/
def componentOfPiece (verbatim : Bool) (piece : WideString) : Option WideComponent :=
  if piece = dot then if verbatim then some .curDir else none
  else if piece = dotDot then some .parentDir
  else some (.normal piece)

/-- `include_cur_dir` -/
def includeCurDir (path : WideString) : Bool :=
  path.head? == some (unit '.') && (path.drop 1).head?.all isSeparator

/-- What stands between the prefix and the names. -/
def rootComponent (path : WideString) : List WideComponent :=
  if hasPhysicalRoot path then [.rootDir]
  else match parsePath path with
  | some kind => if kind.hasImplicitRoot && !kind.isVerbatim then [.rootDir] else []
  | none => if includeCurDir path then [.curDir] else []

/-- `Path::components` -/
def components (path : WideString) : List WideComponent :=
  ((parsePath path).map fun kind => .nativePrefix (path.take kind.len)).toList ++
    rootComponent path ++
    (writtenComponents path).filterMap
      (componentOfPiece ((parsePath path).any PathPrefix.isVerbatim))

def WideComponent.isPrefix : WideComponent → Bool
  | .nativePrefix _ => true
  | _ => false

/-! ## 2. Pushing -/

/-- `as_os_str` -/
def WideComponent.spelling : WideComponent → WideString
  | .nativePrefix spelling => spelling
  | .rootDir => [mainSeparator]
  | .curDir => dot
  | .parentDir => dotDot
  | .normal name => name

/-- A verbatim path takes a component as it is meant. -/
def pushVerbatim (buffer : List WideComponent) : WideComponent → List WideComponent
  | .rootDir => buffer.take 1 ++ [.rootDir]
  | .curDir => buffer
  | .parentDir =>
    match buffer.getLast? with
    | some (.normal _) => buffer.dropLast
    | _ => buffer
  | component => buffer ++ [component]

/-- The components of a verbatim path written out; `separate` tells that the last one asks for a
    separator. -/
def writeVerbatim : Bool → List WideComponent → WideString
  | _, [] => []
  | separate, component :: rest =>
    (if separate && component ≠ .rootDir then [mainSeparator] else []) ++ component.spelling ++
      writeVerbatim (match component with
        | .rootDir => false
        | .nativePrefix spelling => !(parsePath spelling).any PathPrefix.isDrive && spelling ≠ []
        | _ => true) rest

/-- A drive alone is followed by no separator. -/
def needsSeparator (buffer : WideString) : Bool :=
  buffer.getLast?.any (fun u => !isSeparator u) &&
    !((parsePath buffer).any PathPrefix.isDrive && prefixLength buffer == buffer.length)

/-- `PathBuf::push` -/
def push (buffer path : WideString) : WideString :=
  if isAbsolute path || (parsePath path).isSome then path
  else if (parsePath buffer).any PathPrefix.isVerbatim && path ≠ [] then
    writeVerbatim false ((components path).foldl pushVerbatim (components buffer))
  else if hasRoot path then buffer.take (prefixLength buffer) ++ path
  else if needsSeparator buffer then buffer ++ mainSeparator :: path
  else buffer ++ path

/-! ## 3. Names -/

/-- A name that is one component. -/
structure IsWideName (name : WideString) : Prop where
  nonempty : name ≠ []
  noSeparator : ∀ u ∈ name, isSeparator u = false
  notDot : name ≠ dot
  notDotDot : name ≠ dotDot

theorem isSeparator_of_isAsciiAlphabetic {u : UInt16} (h : isAsciiAlphabetic u = true) :
    isSeparator u = false := by
  cases hseparator : isSeparator u with
  | false => rfl
  | true =>
    unfold isSeparator at hseparator
    rw [Bool.or_eq_true, beq_iff_eq, beq_iff_eq] at hseparator
    obtain rfl | rfl := hseparator
    all_goals exact absurd h (by decide)

/-- No separator comes first. -/
def NoRoot (path : WideString) : Prop := ∀ u ∈ path.head?, isSeparator u = false

theorem IsWideName.noRoot {name : WideString} (h : IsWideName name) : NoRoot name :=
  fun u hu => h.noSeparator u (List.mem_of_mem_head? hu)

/-- Without a root the only prefix is a drive. -/
theorem parsePath_of_noRoot {path : WideString} (h : NoRoot path) :
    parsePath path = (parseDrive path).map .disk := by
  unfold parsePath
  split
  · rename_i first second rest
    have hfirst : isSeparator first = false := h first rfl
    rw [hfirst, Bool.false_and, if_neg Bool.false_ne_true]
  · rename_i hshort
    cases path with
    | nil => rfl
    | cons first path =>
      cases path with
      | nil => rfl
      | cons second rest => exact absurd rfl (hshort first second rest)

/-- A single leading separator is no prefix. -/
theorem parsePath_of_root {path : WideString} (h : NoRoot path) :
    parsePath (mainSeparator :: path) = none := by
  cases path with
  | nil => rfl
  | cons first rest =>
    have hfirst : isSeparator first = false := h first rfl
    show (if isSeparator mainSeparator && isSeparator first then _ else _) = _
    rw [hfirst, Bool.and_false, if_neg Bool.false_ne_true]
    rfl

theorem hasPhysicalRoot_of_none {path : WideString} (h : parsePath path = none) :
    hasPhysicalRoot path = path.head?.any isSeparator := by
  unfold hasPhysicalRoot behindPrefix prefixLength
  rw [h]
  rfl

theorem hasRoot_of_none {path : WideString} (h : parsePath path = none) :
    hasRoot path = path.head?.any isSeparator := by
  unfold hasRoot
  rw [hasPhysicalRoot_of_none h, h]
  exact Bool.or_false _

theorem any_head_of_noRoot {path : WideString} (h : NoRoot path) :
    path.head?.any isSeparator = false := by
  cases path with
  | nil => rfl
  | cons first rest => exact h first rfl

/-- A name that is no drive is put behind what is there. -/
theorem push_name {buffer name : WideString} (hname : IsWideName name)
    (hdrive : parseDrive name = none)
    (hbuffer : (parsePath buffer).any PathPrefix.isVerbatim = false) :
    push buffer name =
      if needsSeparator buffer then buffer ++ mainSeparator :: name else buffer ++ name := by
  have hnone : parsePath name = none := by
    rw [parsePath_of_noRoot hname.noRoot, hdrive]
    rfl
  have hroot : hasRoot name = false := by
    rw [hasRoot_of_none hnone]
    exact any_head_of_noRoot hname.noRoot
  have habsolute : isAbsolute name = false := by
    unfold isAbsolute
    rw [hroot, Bool.false_and]
  unfold push
  rw [habsolute, hnone, hbuffer, hroot]
  rfl

/-- A name that is a drive takes the place of what is there. -/
theorem push_drive {buffer name : WideString} {drive : UInt16} (hname : IsWideName name)
    (hdrive : parseDrive name = some drive) : push buffer name = name := by
  have hdisk : parsePath name = some (.disk drive) := by
    rw [parsePath_of_noRoot hname.noRoot, hdrive]
    rfl
  unfold push
  rw [hdisk, Option.isSome_some, Bool.or_true]
  rfl

/-! ## 4. Names that stay in their places -/

/-- Names written one behind the other. -/
structure Written (names : List WideString) (path : WideString) : Prop where
  noRoot : NoRoot path
  noDrive : parseDrive path = none
  pieces_eq : pieces isSeparator path = names
  empty_iff : path = [] ↔ names = []
  last : ∀ u ∈ path.getLast?, isSeparator u = false

theorem written_nil : Written [] [] := ⟨nofun, rfl, rfl, iff_of_true rfl rfl, nofun⟩

/-- The first two units are not changed by what is behind a separator. -/
theorem parseDrive_append {path : WideString} (hne : path ≠ []) (rest : WideString) :
    parseDrive (path ++ mainSeparator :: rest) = parseDrive path := by
  cases path with
  | nil => exact absurd rfl hne
  | cons first path =>
    cases path with
    | nil =>
      show (if isAsciiAlphabetic first && mainSeparator == unit ':' then _ else _) = none
      rw [show (mainSeparator == unit ':') = false from rfl, Bool.and_false]
      rfl
    | cons second path => rfl

theorem Written.push {names : List WideString} {path name : WideString} (h : Written names path)
    (hname : IsWideName name) (hdrive : parseDrive name = none) :
    Written (names ++ [name]) (if path = [] then name else path ++ mainSeparator :: name) := by
  have hrun : pieces isSeparator name = [name] := pieces_run hname.nonempty hname.noSeparator
  have hlast : ∀ u ∈ name.getLast?, isSeparator u = false :=
    fun u hu => hname.noSeparator u (List.mem_of_getLast? hu)
  split
  · rename_i hempty
    have hnames := h.empty_iff.mp hempty
    subst hnames
    exact ⟨hname.noRoot, hdrive, hrun, iff_of_false hname.nonempty nofun, hlast⟩
  · rename_i hne
    refine ⟨?_, ?_, ?_, ?_, ?_⟩
    · obtain ⟨first, rest, rfl⟩ := List.exists_cons_of_ne_nil hne
      exact h.noRoot
    · rw [parseDrive_append hne, h.noDrive]
    · rw [pieces_append_cons rfl, h.pieces_eq, hrun]
    · exact iff_of_false (by simp) (by simp)
    · have hsame : (path ++ mainSeparator :: name).getLast? = name.getLast? := by
        rw [List.append_cons, List.getLast?_append, List.getLast?_eq_some_getLast hname.nonempty]
        rfl
      rw [hsame]
      exact hlast

/-- The start of a path: nothing, or the root. -/
def rootOf (rooted : Bool) : WideString := if rooted then [mainSeparator] else []

variable {names : List WideString} {path : WideString}

theorem Written.parsePath_eq (h : Written names path) (rooted : Bool) :
    parsePath (rootOf rooted ++ path) = none := by
  cases rooted with
  | true => exact parsePath_of_root h.noRoot
  | false =>
    show parsePath path = none
    rw [parsePath_of_noRoot h.noRoot, h.noDrive]
    rfl

theorem Written.needsSeparator_eq (h : Written names path) (rooted : Bool) :
    needsSeparator (rootOf rooted ++ path) = !path.isEmpty := by
  unfold needsSeparator
  rw [h.parsePath_eq rooted]
  show ((rootOf rooted ++ path).getLast?.any _ && true) = _
  rw [Bool.and_true, List.getLast?_append]
  cases hlast : path.getLast? with
  | none =>
    rw [List.getLast?_eq_none_iff.mp hlast]
    cases rooted <;> rfl
  | some u =>
    have hempty : path.isEmpty = false := by
      cases path with
      | nil => cases hlast
      | cons => rfl
    have hseparator : isSeparator u = false := h.last u hlast
    rw [hempty]
    show (!isSeparator u) = true
    rw [hseparator]
    rfl

theorem Written.push_eq (h : Written names path) (rooted : Bool) {name : WideString}
    (hname : IsWideName name) (hdrive : parseDrive name = none) :
    Windows.push (rootOf rooted ++ path) name
      = rootOf rooted ++ if path = [] then name else path ++ mainSeparator :: name := by
  have hverbatim : (parsePath (rootOf rooted ++ path)).any PathPrefix.isVerbatim = false := by
    rw [h.parsePath_eq rooted]
    rfl
  rw [push_name hname hdrive hverbatim, h.needsSeparator_eq rooted]
  cases path with
  | nil => rw [List.append_nil]; rfl
  | cons first rest => exact List.append_assoc ..

/-- Names that are no drives are written one behind the other. -/
theorem written_foldl_push (rooted : Bool) (hnames : ∀ name ∈ names, IsWideName name)
    (hdrives : ∀ name ∈ names, parseDrive name = none) :
    ∃ path, names.foldl push (rootOf rooted) = rootOf rooted ++ path ∧ Written names path := by
  induction names using List.reverseRecOn with
  | nil => exact ⟨[], (List.append_nil _).symm, written_nil⟩
  | append_singleton names name ih =>
    rw [List.forall_mem_append, List.forall_mem_singleton] at hnames hdrives
    obtain ⟨path, hpath, hwritten⟩ := ih hnames.1 hdrives.1
    refine ⟨_, ?_, hwritten.push hnames.2 hdrives.2⟩
    rw [List.foldl_append, hpath]
    exact hwritten.push_eq rooted hnames.2 hdrives.2

/-! ## 5. A name that takes the place of the path -/

theorem parsePath_of_drive {drive : UInt16} (h : parseDrive path = some drive) :
    parsePath path = some (.disk drive) := by
  have hroot : NoRoot path := by
    intro u hu
    unfold parseDrive at h
    split at h
    · rename_i first colon rest
      cases hu
      split at h
      · rename_i hdrive
        rw [Bool.and_eq_true] at hdrive
        exact isSeparator_of_isAsciiAlphabetic hdrive.1
      · cases h
    · cases h
  rw [parsePath_of_noRoot hroot, h]
  rfl

theorem parseDrive_append_of_some {drive : UInt16} (h : parseDrive path = some drive)
    (rest : WideString) : parseDrive (path ++ rest) = some drive := by
  cases path with
  | nil => cases h
  | cons first path =>
    cases path with
    | nil => cases h
    | cons second path => exact h

theorem drive_foldl_push (start : WideString) (hnames : ∀ name ∈ names, IsWideName name)
    (hdrive : ∃ name ∈ names, parseDrive name ≠ none) :
    ∃ drive, parseDrive (names.foldl push start) = some drive := by
  induction names using List.reverseRecOn with
  | nil =>
    obtain ⟨name, hname, -⟩ := hdrive
    exact absurd hname List.not_mem_nil
  | append_singleton names name ih =>
    rw [List.forall_mem_append, List.forall_mem_singleton] at hnames
    rw [List.foldl_append]
    show ∃ drive, parseDrive (push (names.foldl push start) name) = some drive
    cases hlast : parseDrive name with
    | some drive => exact ⟨drive, by rw [push_drive hnames.2 hlast, hlast]⟩
    | none =>
      have hearlier : ∃ name ∈ names, parseDrive name ≠ none := by
        obtain ⟨other, hother, hsome⟩ := hdrive
        rcases List.mem_append.mp hother with hmem | hmem
        · exact ⟨other, hmem, hsome⟩
        · rw [List.mem_singleton.mp hmem] at hsome
          exact absurd hlast hsome
      obtain ⟨drive, hbuffer⟩ := ih hnames.1 hearlier
      have hverbatim : (parsePath (names.foldl push start)).any PathPrefix.isVerbatim = false := by
        rw [parsePath_of_drive hbuffer]
        rfl
      rw [push_name hnames.2 hlast hverbatim]
      split
      · exact ⟨drive, parseDrive_append_of_some hbuffer _⟩
      · exact ⟨drive, parseDrive_append_of_some hbuffer _⟩

/-! ## 6. The components of what was written -/

theorem IsWideName.componentOfPiece_eq {name : WideString} (h : IsWideName name) :
    componentOfPiece false name = some (.normal name) := by
  unfold componentOfPiece
  rw [if_neg h.notDot, if_neg h.notDotDot]

theorem Written.includeCurDir_eq (h : Written names path)
    (hnames : ∀ name ∈ names, IsWideName name) : includeCurDir path = false := by
  cases hdot : includeCurDir path with
  | false => rfl
  | true =>
    unfold includeCurDir at hdot
    rw [Bool.and_eq_true, beq_iff_eq] at hdot
    cases path with
    | nil => exact absurd hdot.1 nofun
    | cons first rest =>
      obtain rfl : first = unit '.' := Option.some.inj hdot.1
      have hboundary : AtBoundary isSeparator rest := by
        intro u hu
        have hall := hdot.2
        change rest.head?.all isSeparator = true at hall
        rw [Option.mem_def.mp hu] at hall
        exact hall
      have hpieces : pieces isSeparator (dot ++ rest) = dot :: pieces isSeparator rest :=
        pieces_run_append (by decide) (List.forall_mem_singleton.mpr (by decide)) hboundary
      have hmem : dot ∈ names := by
        rw [← h.pieces_eq]
        show dot ∈ pieces isSeparator (dot ++ rest)
        rw [hpieces]
        exact List.mem_cons_self
      exact absurd rfl (hnames dot hmem).notDot

/-- What was pushed together comes apart again. -/
theorem Written.components_eq (h : Written names path) (rooted : Bool)
    (hnames : ∀ name ∈ names, IsWideName name) :
    components (rootOf rooted ++ path)
      = (if rooted then [.rootDir] else []) ++ names.map .normal := by
  have hparse := h.parsePath_eq rooted
  have hroot : hasPhysicalRoot (rootOf rooted ++ path) = rooted := by
    rw [hasPhysicalRoot_of_none hparse]
    cases rooted with
    | true => rfl
    | false => exact any_head_of_noRoot h.noRoot
  have hbehind : behindPrefix (rootOf rooted ++ path) = rootOf rooted ++ path := by
    unfold behindPrefix prefixLength
    rw [hparse]
    rfl
  have hwritten : writtenComponents (rootOf rooted ++ path) = names := by
    unfold writtenComponents separatesComponents body
    rw [hparse, hroot, hbehind, ← h.pieces_eq]
    cases rooted <;> rfl
  have hnormal : names.filterMap (componentOfPiece false) = names.map .normal := by
    clear h hparse hroot hbehind hwritten
    induction names with
    | nil => rfl
    | cons name names ih =>
      rw [List.forall_mem_cons] at hnames
      rw [List.filterMap_cons, hnames.1.componentOfPiece_eq, ih hnames.2, List.map_cons]
  unfold components rootComponent
  rw [hparse, hroot, hwritten]
  show [] ++ _ ++ names.filterMap (componentOfPiece false) = _
  rw [hnormal]
  cases rooted with
  | true => rfl
  | false =>
    show [] ++ (if includeCurDir path then _ else _) ++ _ = _
    rw [h.includeCurDir_eq hnames]
    rfl

end LocalFiles.Windows
