import LocalFiles.Path.Windows
import LocalFiles.Rooted.Session

/-!
# WindowsTokens — how a resolution takes a Windows path apart

`native_tokens` scans the units of a path for its prefix by itself, skips what it takes for it and
splits the rest at both separators.  `SplitsAsWritten` says that the steps are those of the path as
the standard library reads it; `ScanAgrees` tells for which paths they are.
-/

namespace LocalFiles.Rooted

open Windows
open Walk (LocalResolutionOrigin)

/-! ## 1. The scan -/

inductive WideToken where
  | normal (name : WideString) (origin : LocalResolutionOrigin)
  | current (origin : LocalResolutionOrigin)
  | parent (origin : LocalResolutionOrigin)
  | requireDirectory
  deriving DecidableEq, Repr

inductive WideStep where
  | resetRoot
  | current
  | parent
  | requireDirectory
  | normal (name : WideString) (origin : LocalResolutionOrigin)
  deriving DecidableEq, Repr

def asciiUpper (u : UInt16) : UInt16 :=
  if unit 'a' ≤ u ∧ u ≤ unit 'z' then u - (unit 'a' - unit 'A') else u

def expectedUnc : WideString := [unit 'U', unit 'N', unit 'C']

/-- The local variables of the loop over a segment. -/
structure SegmentScan where
  length : Nat := 0
  isQuestion : Bool := true
  isUnc : Bool := true
  skipped : Nat
  deriving DecidableEq, Repr

structure UncSegment where
  isExtendedMarker : Bool
  isUncMarker : Bool
  deriving DecidableEq, Repr

/-- What is left of the units, and how many were skipped. -/
def skipSeparators : WideString → Nat → WideString × Nat
  | [], skipped => ([], skipped)
  | u :: rest, skipped =>
    if isSeparator u then skipSeparators rest (skipped + 1) else (u :: rest, skipped)

def SegmentScan.next (scan : SegmentScan) (u : UInt16) : SegmentScan where
  length := scan.length + 1
  isQuestion := scan.isQuestion && (scan.length == 0 && u == unit '?')
  isUnc := scan.isUnc && expectedUnc[scan.length]?.any (asciiUpper u == ·)
  skipped := scan.skipped + 1

def scanSegment : WideString → SegmentScan → WideString × SegmentScan
  | [], scan => ([], scan)
  | u :: rest, scan => if isSeparator u then (u :: rest, scan) else scanSegment rest (scan.next u)

def consumeUncSegment (units : WideString) (skipped : Nat) : UncSegment × WideString × Nat :=
  let (units, scan) := scanSegment units { skipped := skipped }
  let (units, skipped) := skipSeparators units scan.skipped
  (⟨scan.isQuestion && scan.length == 1, scan.isUnc && scan.length == expectedUnc.length⟩,
    units, skipped)

def prefixUnitsFromWide : WideString → Nat
  | [] => 0
  | first :: tail =>
    if tail.head? = some (unit ':') then 2
    else if isSeparator first && tail.head?.any isSeparator then
      let (units, skipped) := skipSeparators (first :: tail) 0
      let (firstSegment, units, skipped) := consumeUncSegment units skipped
      let (secondSegment, units, skipped) := consumeUncSegment units skipped
      if firstSegment.isExtendedMarker && secondSegment.isUncMarker then
        let (_, units, skipped) := consumeUncSegment units skipped
        (consumeUncSegment units skipped).2.2
      else skipped
    else if isSeparator first then (skipSeparators (first :: tail) 0).2
    else 0

/-! ## 2. Tokens, measure and steps -/

def tokenOfComponent (origin : LocalResolutionOrigin) (component : WideString) : WideToken :=
  if component = [unit '.'] then .current origin
  else if component = [unit '.', unit '.'] then .parent origin
  else .normal component origin

/-- The loop that builds the tokens, with the component read so far. -/
def tokensLoop (origin : LocalResolutionOrigin) (component : WideString) :
    WideString → List WideToken
  | [] => if component = [] then [] else [tokenOfComponent origin component]
  | u :: rest =>
    if isSeparator u then
      (if component = [] then [] else [tokenOfComponent origin component]) ++
        tokensLoop origin [] rest
    else tokensLoop origin (component ++ [u]) rest

def wideTokensAfterCheck (path : WideString) (origin : LocalResolutionOrigin) : List WideToken :=
  tokensLoop origin [] (path.drop (prefixUnitsFromWide path)) ++
    if hasTrailingSeparator path then [.requireDirectory] else []

/-- The loop of `measure_windows_units`. -/
def measureLoop (components bytes currentUnits : Nat) : WideString → Nat × Nat
  | [] =>
    if currentUnits ≠ 0 then (components + 1, bytes + currentUnits * 2 + 2) else (components, bytes)
  | u :: rest =>
    if isSeparator u then
      if currentUnits ≠ 0 then measureLoop (components + 1) (bytes + currentUnits * 2 + 2) 0 rest
      else measureLoop components bytes 0 rest
    else measureLoop components bytes (currentUnits + 1) rest

def measureWindowsUnits (units : WideString) : Nat × Nat :=
  measureLoop 0 0 0 (units.drop (prefixUnitsFromWide units))

def stepOfWideToken : WideToken → WideStep
  | .current _ => .current
  | .parent _ => .parent
  | .normal name origin => .normal name origin
  | .requireDirectory => .requireDirectory

def wideStepsFromPath (contract : ResolutionContract) (operation : LocalFileOperation)
    (original : OsString) (path : WideString) (origin : LocalResolutionOrigin) :
    Except ResolutionError (List WideStep) := do
  inContext operation original
    (contract.checkPending (measureWindowsUnits path).1 (measureWindowsUnits path).2)
  return (if isAbsolute path then [.resetRoot] else []) ++
    (wideTokensAfterCheck path origin).map stepOfWideToken

/-! ## 3. What the steps should be -/

def stepOfComponent (origin : LocalResolutionOrigin) (component : WideString) : WideStep :=
  if component = [unit '.'] then .current
  else if component = [unit '.', unit '.'] then .parent
  else .normal component origin

/-- The steps of a path as the standard library reads it. -/
def writtenSteps (path : WideString) (origin : LocalResolutionOrigin) : List WideStep :=
  (if hasRoot path then [.resetRoot] else []) ++
    (writtenComponents path).map (stepOfComponent origin) ++
    if hasTrailingSeparator path then [.requireDirectory] else []

def writtenMeasure (path : WideString) : Nat × Nat :=
  ((writtenComponents path).length,
    2 * ((writtenComponents path).map fun component => component.length + 1).sum)

/-- Whatever the limits allow, the steps are those of the path as it is written, and so is the
    measure. -/
def SplitsAsWritten (path : WideString) : Prop :=
  (∀ (contract : ResolutionContract) (operation : LocalFileOperation) (original : OsString)
    (origin : LocalResolutionOrigin) (steps : List WideStep),
    wideStepsFromPath contract operation original path origin = .ok steps →
      steps = writtenSteps path origin) ∧
  measureWindowsUnits path = writtenMeasure path

/-- Whether a segment reads UNC in any case. -/
def isUncName (segment : WideString) : Bool := segment.map asciiUpper == expectedUnc

/-- How many names behind two separators the scan takes for the prefix. -/
def expectedNames (path : WideString) : Nat :=
  let names := pieces isSeparator path
  if names[0]? = some [unit '?'] ∧ names[1]?.any isUncName then 4 else 2

/-- How many names stand in the prefix of a path. -/
def prefixNames (path : WideString) : Nat :=
  (pieces isSeparator (path.take (prefixLength path))).length

/-- The paths whose prefix the scan finds, and which do not have a root only. -/
def ScanAgrees (path : WideString) : Prop :=
  match parsePath path with
  | none => path.head?.any isSeparator = false ∧ path[1]? ≠ some (unit ':')
  | some (.disk _) => True
  | some kind =>
    (kind.isVerbatim = true → unit '/' ∉ body path) ∧
      (prefixNames path = expectedNames path ∨
        prefixNames path < expectedNames path ∧ ∀ u ∈ behindPrefix path, isSeparator u = true)

/-! ## 4. Tokens and measure -/

theorem noSeparators_nil : ∀ u ∈ ([] : WideString), isSeparator u = false :=
  fun _ h => absurd h List.not_mem_nil

theorem noSeparators_concat {component : WideString} {u : UInt16}
    (h : ∀ v ∈ component, isSeparator v = false) (hu : isSeparator u = false) :
    ∀ v ∈ component ++ [u], isSeparator v = false := by
  intro v hv
  obtain hv | hv := List.mem_append.mp hv
  · exact h v hv
  · rw [List.mem_singleton.mp hv]
    exact hu

/-- The component read so far is a piece, unless it is empty. -/
theorem pieces_component {component : WideString} (h : ∀ u ∈ component, isSeparator u = false) :
    pieces isSeparator component = if component = [] then [] else [component] := by
  by_cases hempty : component = []
  · rw [if_pos hempty, hempty]
    rfl
  · rw [if_neg hempty, pieces_run hempty h]

theorem tokensLoop_eq (origin : LocalResolutionOrigin) {component : WideString}
    (h : ∀ u ∈ component, isSeparator u = false) (units : WideString) :
    tokensLoop origin component units =
      (pieces isSeparator (component ++ units)).map (tokenOfComponent origin) := by
  induction units generalizing component with
  | nil =>
    unfold tokensLoop
    rw [List.append_nil, pieces_component h, apply_ite (List.map _)]
    rfl
  | cons u units ih =>
    unfold tokensLoop
    cases hu : isSeparator u with
    | true =>
      rw [if_pos rfl, pieces_append_cons hu, List.map_append, ih noSeparators_nil,
        pieces_component h, apply_ite (List.map _)]
      rfl
    | false =>
      rw [if_neg Bool.false_ne_true, ih (noSeparators_concat h hu), List.append_assoc]
      rfl

/-- What the components of a path weigh. -/
def measureOf (components : List WideString) : Nat × Nat :=
  (components.length, 2 * (components.map fun component => component.length + 1).sum)

theorem measureOf_cons (component : WideString) (components : List WideString) :
    measureOf (component :: components) =
      ((measureOf components).1 + 1, component.length * 2 + 2 + (measureOf components).2) := by
  refine Prod.ext rfl ?_
  simp only [measureOf, List.map_cons, List.sum_cons]
  omega

theorem measureLoop_eq (components bytes : Nat) {component : WideString}
    (h : ∀ u ∈ component, isSeparator u = false) (units : WideString) :
    measureLoop components bytes component.length units =
      (components + (measureOf (pieces isSeparator (component ++ units))).1,
        bytes + (measureOf (pieces isSeparator (component ++ units))).2) := by
  induction units generalizing components bytes component with
  | nil =>
    unfold measureLoop
    rw [List.append_nil, pieces_component h]
    by_cases hempty : component = []
    · rw [if_pos hempty, hempty]
      rfl
    · rw [if_neg hempty, if_pos (mt List.length_eq_zero_iff.mp hempty), measureOf_cons]
      rfl
  | cons u units ih =>
    unfold measureLoop
    cases hu : isSeparator u with
    | true =>
      rw [if_pos rfl, pieces_append_cons hu, pieces_component h]
      by_cases hempty : component = []
      · rw [if_pos hempty, hempty, if_neg (not_not.mpr List.length_nil)]
        exact ih components bytes noSeparators_nil
      · have hrest := ih (components + 1) (bytes + component.length * 2 + 2) noSeparators_nil
        rw [List.length_nil, List.nil_append] at hrest
        rw [if_neg hempty, if_pos (mt List.length_eq_zero_iff.mp hempty), hrest,
          List.singleton_append, measureOf_cons]
        refine Prod.ext ?_ ?_
        · dsimp only
          omega
        · dsimp only
          omega
    | false =>
      have hnext := ih components bytes (noSeparators_concat h hu)
      rw [List.length_append, List.append_assoc] at hnext
      rw [if_neg Bool.false_ne_true]
      exact hnext

/-- What the scan leaves of a path, split at both separators. -/
def scannedComponents (path : WideString) : List WideString :=
  pieces isSeparator (path.drop (prefixUnitsFromWide path))

theorem measureWindowsUnits_eq (path : WideString) :
    measureWindowsUnits path = measureOf (scannedComponents path) := by
  have h := measureLoop_eq 0 0 noSeparators_nil (path.drop (prefixUnitsFromWide path))
  rw [List.nil_append, Nat.zero_add, Nat.zero_add] at h
  exact h

theorem stepOfWideToken_tokenOfComponent (origin : LocalResolutionOrigin) (component : WideString) :
    stepOfWideToken (tokenOfComponent origin component) = stepOfComponent origin component := by
  unfold tokenOfComponent stepOfComponent
  split
  · rfl
  · split <;> rfl

/-- The steps that the code makes of a path. -/
theorem wideSteps_eq (path : WideString) (origin : LocalResolutionOrigin) :
    (wideTokensAfterCheck path origin).map stepOfWideToken =
      (scannedComponents path).map (stepOfComponent origin) ++
        if hasTrailingSeparator path then [.requireDirectory] else [] := by
  unfold wideTokensAfterCheck
  rw [List.map_append, tokensLoop_eq origin noSeparators_nil, List.nil_append, List.map_map]
  congr 1
  · exact List.map_congr_left fun component _ => stepOfWideToken_tokenOfComponent origin component
  · split <;> rfl

/-- The component a step was made of. -/
def componentOfStep : WideStep → WideString
  | .current => [unit '.']
  | .parent => [unit '.', unit '.']
  | .normal name _ => name
  | .resetRoot | .requireDirectory => []

theorem componentOfStep_stepOfComponent (origin : LocalResolutionOrigin) (component : WideString) :
    componentOfStep (stepOfComponent origin component) = component := by
  unfold stepOfComponent
  by_cases hdot : component = [unit '.']
  · rw [if_pos hdot, hdot]
    rfl
  rw [if_neg hdot]
  by_cases hdots : component = [unit '.', unit '.']
  · rw [if_pos hdots, hdots]
    rfl
  · rw [if_neg hdots]
    rfl

theorem map_stepOfComponent_inj {origin : LocalResolutionOrigin} {left right : List WideString}
    (h : left.map (stepOfComponent origin) = right.map (stepOfComponent origin)) : left = right :=
  List.map_injective_iff.mpr (Function.LeftInverse.injective
    (componentOfStep_stepOfComponent origin)) h

theorem stepOfComponent_ne_resetRoot (origin : LocalResolutionOrigin) (component : WideString) :
    stepOfComponent origin component ≠ .resetRoot := by
  unfold stepOfComponent
  split
  · exact nofun
  · split <;> exact nofun

/-- The path is split as it is written if it has a root exactly when it is absolute, and the scan
    leaves its components. -/
theorem splitsAsWritten_iff (path : WideString) :
    SplitsAsWritten path ↔
      isAbsolute path = hasRoot path ∧ scannedComponents path = writtenComponents path := by
  constructor
  · rintro ⟨hsteps, -⟩
    have heq := hsteps .unrestricted .metadata [] .input _ rfl
    rw [wideSteps_eq] at heq
    unfold writtenSteps at heq
    have hnone (components : List WideString) : WideStep.resetRoot ∉
        components.map (stepOfComponent .input) ++
          if hasTrailingSeparator path then [WideStep.requireDirectory] else [] := by
      intro hmem
      obtain hmem | hmem := List.mem_append.mp hmem
      · obtain ⟨component, -, heq⟩ := List.mem_map.mp hmem
        exact stepOfComponent_ne_resetRoot _ _ heq
      · split at hmem
        · cases List.mem_singleton.mp hmem
        · cases hmem
    have hmem (root : Bool) (components : List WideString) : WideStep.resetRoot ∈
        (if root then [WideStep.resetRoot] else []) ++ (components.map (stepOfComponent .input) ++
          if hasTrailingSeparator path then [WideStep.requireDirectory] else []) ↔ root = true := by
      rw [List.mem_append, or_iff_left (hnone components)]
      cases root <;> simp
    have hroot : isAbsolute path = hasRoot path := by
      rw [Bool.eq_iff_iff, ← hmem _ (scannedComponents path), heq, List.append_assoc, hmem]
    refine ⟨hroot, ?_⟩
    rw [hroot, List.append_assoc, List.append_cancel_left_eq, List.append_cancel_right_eq] at heq
    exact map_stepOfComponent_inj heq
  · rintro ⟨hroot, hcomponents⟩
    refine ⟨fun contract operation original origin steps h => ?_, ?_⟩
    · obtain ⟨⟨⟩, -, h⟩ := bind_eq_ok h
      cases h
      rw [wideSteps_eq, hroot, hcomponents, ← List.append_assoc]
      rfl
    · rw [measureWindowsUnits_eq, hcomponents]
      rfl

/-! ## 5. What the scan skips -/

theorem skipSeparators_eq (units : WideString) (skipped : Nat) :
    skipSeparators units skipped =
      (units.dropWhile isSeparator, skipped + (units.takeWhile isSeparator).length) := by
  induction units generalizing skipped with
  | nil => rfl
  | cons u units ih =>
    unfold skipSeparators
    cases hu : isSeparator u with
    | true =>
      rw [if_pos rfl, ih, List.dropWhile_cons_of_pos hu, List.takeWhile_cons_of_pos hu,
        List.length_cons]
      exact Prod.ext rfl (by dsimp only; omega)
    | false =>
      rw [if_neg Bool.false_ne_true, List.dropWhile_cons_of_neg (by simp [hu]),
        List.takeWhile_cons_of_neg (by simp [hu])]
      rfl

theorem scanSegment_eq {segment rest : WideString} (h : ∀ u ∈ segment, isSeparator u = false)
    (hrest : AtBoundary isSeparator rest) (scan : SegmentScan) :
    scanSegment (segment ++ rest) scan = (rest, segment.foldl SegmentScan.next scan) := by
  induction segment generalizing scan with
  | nil =>
    cases rest with
    | nil => rfl
    | cons u rest => exact if_pos (hrest u rfl)
  | cons u segment ih =>
    rw [List.forall_mem_cons] at h
    rw [List.cons_append]
    unfold scanSegment
    rw [if_neg (by rw [h.1]; decide), ih h.2]
    rfl

theorem foldl_next (segment : WideString) (scan : SegmentScan) :
    (segment.foldl SegmentScan.next scan).length = scan.length + segment.length ∧
      (segment.foldl SegmentScan.next scan).skipped = scan.skipped + segment.length := by
  induction segment generalizing scan with
  | nil => exact ⟨rfl, rfl⟩
  | cons u segment ih =>
    obtain ⟨hlength, hskipped⟩ := ih (scan.next u)
    rw [List.foldl_cons, hlength, hskipped, List.length_cons]
    refine ⟨?_, ?_⟩
    · show scan.length + 1 + segment.length = _
      omega
    · show scan.skipped + 1 + segment.length = _
      omega

/-- The flags of a segment tell whether it is a question mark, and whether it reads UNC. -/
theorem segment_flags (segment : WideString) (skipped : Nat) :
    let scan := segment.foldl SegmentScan.next { skipped := skipped }
    (scan.isQuestion && scan.length == 1) = (segment == [unit '?']) ∧
      (scan.isUnc && scan.length == expectedUnc.length) = isUncName segment := by
  have hlength := (foldl_next segment { skipped := skipped }).1
  dsimp only at hlength ⊢
  rw [hlength, Nat.zero_add]
  match segment with
  | [] => exact ⟨rfl, rfl⟩
  | [a] => exact ⟨by simp [SegmentScan.next], by simp [isUncName, expectedUnc]⟩
  | [a, b] => exact ⟨by simp, by simp [isUncName, expectedUnc]⟩
  | [a, b, c] =>
    refine ⟨by simp, ?_⟩
    simp [SegmentScan.next, isUncName, expectedUnc, Bool.and_assoc]
  | a :: b :: c :: d :: rest => exact ⟨by simp, by simp [isUncName, expectedUnc]⟩

/-- No separator comes next. -/
def NoLead (units : WideString) : Prop := ∀ u ∈ units.head?, isSeparator u = false

theorem noLead_dropWhile (units : WideString) : NoLead (units.dropWhile isSeparator) := by
  intro u hu
  have hhead := List.head?_dropWhile_not isSeparator units
  rw [hu] at hhead
  exact hhead

/-- A segment and the separators behind it are consumed; the flags are those of the first piece. -/
theorem consumeUncSegment_eq {units : WideString} (hlead : NoLead units) (skipped : Nat) :
    ∃ front rest, units = front ++ rest ∧ NoLead rest ∧
      pieces isSeparator rest = (pieces isSeparator units).drop 1 ∧
      consumeUncSegment units skipped =
        (⟨(pieces isSeparator units)[0]? == some [unit '?'],
          (pieces isSeparator units)[0]?.any isUncName⟩, rest, skipped + front.length) := by
  obtain ⟨segment, tail, rfl, hsegment, htail⟩ : ∃ segment tail, units = segment ++ tail ∧
      (∀ u ∈ segment, isSeparator u = false) ∧ AtBoundary isSeparator tail := by
    refine ⟨_, _, (List.takeWhile_append_dropWhile (l := units)).symm, fun u hu => ?_,
      atBoundary_dropWhile units⟩
    simpa using List.mem_takeWhile_imp hu
  by_cases hempty : segment = []
  · -- Neither a separator nor anything else comes next: the units are used up.
    subst hempty
    cases tail with
    | nil => exact ⟨[], [], rfl, nofun, rfl, rfl⟩
    | cons u tail =>
      have hu := htail u rfl
      rw [hlead u rfl] at hu
      cases hu
  obtain ⟨hquestion, hunc⟩ := segment_flags segment skipped
  have hpieces := pieces_run_append hempty hsegment htail
  refine ⟨segment ++ tail.takeWhile isSeparator, tail.dropWhile isSeparator, ?_,
    noLead_dropWhile tail, ?_, ?_⟩
  · rw [List.append_assoc, List.takeWhile_append_dropWhile]
  · rw [pieces_dropWhile, hpieces]
    rfl
  · unfold consumeUncSegment
    rw [scanSegment_eq hsegment htail]
    dsimp only
    rw [skipSeparators_eq, (foldl_next segment _).2, hquestion, hunc, List.length_append,
      Nat.add_assoc, hpieces]
    rfl

theorem prefixUnitsFromWide_eq {first second : UInt16} {rest : WideString}
    (hfirst : isSeparator first = true) (hsecond : isSeparator second = true) :
    prefixUnitsFromWide (first :: second :: rest) =
      (let (units, skipped) := skipSeparators (first :: second :: rest) 0
      let (firstSegment, units, skipped) := consumeUncSegment units skipped
      let (secondSegment, units, skipped) := consumeUncSegment units skipped
      if firstSegment.isExtendedMarker && secondSegment.isUncMarker then
        let (_, units, skipped) := consumeUncSegment units skipped
        (consumeUncSegment units skipped).2.2
      else skipped) := by
  have hcolon : (second :: rest).head? ≠ some (unit ':') := by
    intro heq
    rw [Option.some.inj heq] at hsecond
    exact absurd hsecond (by decide)
  have hboth : (isSeparator first && (second :: rest).head?.any isSeparator) = true := by
    rw [hfirst]
    exact hsecond
  exact (if_neg hcolon).trans (if_pos hboth)

/-- Behind two separators the scan takes two names for the prefix, or four. -/
theorem scannedComponents_eq {first second : UInt16} {rest : WideString}
    (hfirst : isSeparator first = true) (hsecond : isSeparator second = true) :
    scannedComponents (first :: second :: rest) =
      (pieces isSeparator (first :: second :: rest)).drop
        (expectedNames (first :: second :: rest)) := by
  unfold scannedComponents expectedNames
  rw [prefixUnitsFromWide_eq hfirst hsecond]
  generalize first :: second :: rest = path
  -- What each consumed segment leaves is the path behind the units skipped so far.
  have hbehind {units front left : WideString} {skipped : Nat} (hdrop : path.drop skipped = units)
      (hunits : units = front ++ left) : path.drop (skipped + front.length) = left := by
    rw [← List.drop_drop, hdrop, hunits, List.drop_left]
  have hstart := drop_length_takeWhile isSeparator path
  obtain ⟨front₁, units₁, hunits₁, hlead₁, hpieces₁, hconsume₁⟩ :=
    consumeUncSegment_eq (noLead_dropWhile path) (path.takeWhile isSeparator).length
  have hdrop₁ := hbehind hstart hunits₁
  rw [pieces_dropWhile] at hpieces₁ hconsume₁
  obtain ⟨front₂, units₂, hunits₂, hlead₂, hpieces₂, hconsume₂⟩ :=
    consumeUncSegment_eq hlead₁ ((path.takeWhile isSeparator).length + front₁.length)
  have hdrop₂ := hbehind hdrop₁ hunits₂
  rw [hpieces₁, List.drop_drop] at hpieces₂
  rw [hpieces₁, List.getElem?_drop] at hconsume₂
  simp only [skipSeparators_eq, Nat.zero_add, hconsume₁, hconsume₂]
  by_cases hextended : (pieces isSeparator path)[0]? = some [unit '?'] ∧
      (pieces isSeparator path)[1]?.any isUncName = true
  · obtain ⟨front₃, units₃, hunits₃, hlead₃, hpieces₃, hconsume₃⟩ := consumeUncSegment_eq hlead₂
      ((path.takeWhile isSeparator).length + front₁.length + front₂.length)
    have hdrop₃ := hbehind hdrop₂ hunits₃
    obtain ⟨front₄, units₄, hunits₄, -, hpieces₄, hconsume₄⟩ := consumeUncSegment_eq hlead₃
      ((path.takeWhile isSeparator).length + front₁.length + front₂.length + front₃.length)
    have hdrop₄ := hbehind hdrop₃ hunits₄
    rw [hpieces₂, List.drop_drop] at hpieces₃
    rw [hpieces₃, List.drop_drop] at hpieces₄
    rw [if_pos hextended, if_pos (by simpa using hextended), hconsume₃]
    dsimp only
    rw [hconsume₄, hdrop₄, hpieces₄]
  · rw [if_neg hextended, if_neg (by simpa using hextended), hdrop₂, hpieces₂]

/-! ## 6. When the scan agrees with the grammar -/

theorem drop_append_eq_right {α : Type} {front back : List α} {n : Nat} :
    (front ++ back).drop n = back ↔ front.length = n ∨ front.length < n ∧ back = [] := by
  constructor
  · intro h
    have hlength := congrArg List.length h
    rw [List.length_drop, List.length_append] at hlength
    by_cases hn : front.length = n
    · exact .inl hn
    · have hback : back.length = 0 := by omega
      have hlt : front.length < n ∨ front.length + back.length = 0 := by omega
      cases hlt with
      | inl hlt => exact .inr ⟨hlt, List.length_eq_zero_iff.mp hback⟩
      | inr hzero => exact .inr ⟨by omega, List.length_eq_zero_iff.mp hback⟩
  · rintro (rfl | ⟨hlt, rfl⟩)
    · exact List.drop_left
    · rw [List.append_nil]
      exact List.drop_of_length_le (Nat.le_of_lt hlt)

/-- The separator of the root belongs to no component. -/
theorem pieces_body (path : WideString) :
    pieces isSeparator (body path) = pieces isSeparator (behindPrefix path) := by
  unfold body
  cases hroot : hasPhysicalRoot path with
  | false => rfl
  | true =>
    unfold hasPhysicalRoot at hroot
    cases hbehind : behindPrefix path with
    | nil => rfl
    | cons u rest =>
      rw [hbehind] at hroot
      have hu : isSeparator u = true := hroot
      exact (pieces_cons hu rest).symm

theorem writtenComponents_of_not_verbatim {path : WideString}
    (h : (parsePath path).any PathPrefix.isVerbatim = false) :
    writtenComponents path = pieces isSeparator (behindPrefix path) := by
  unfold writtenComponents separatesComponents
  rw [h, if_neg Bool.false_ne_true, pieces_body]

/-- A slash is part of a component of a verbatim path, and of no component the scan leaves. -/
theorem writtenComponents_of_verbatim {path : WideString} {rest : List WideString}
    (h : (parsePath path).any PathPrefix.isVerbatim = true)
    (hrest : ∀ component ∈ rest, ∀ u ∈ component, isSeparator u = false) :
    rest = writtenComponents path ↔
      unit '/' ∉ body path ∧ rest = pieces isSeparator (behindPrefix path) := by
  have hseparates : separatesComponents path = isVerbatimSeparator := by
    unfold separatesComponents
    rw [h, if_pos rfl]
  by_cases hslash : unit '/' ∈ body path
  · refine iff_of_false (fun heq => ?_) fun hboth => hboth.1 hslash
    have hflat : unit '/' ∈ (writtenComponents path).flatten := by
      unfold writtenComponents
      rw [flatten_pieces, hseparates, List.mem_filter]
      exact ⟨hslash, by decide⟩
    rw [← heq] at hflat
    obtain ⟨component, hcomponent, hmem⟩ := List.mem_flatten.mp hflat
    exact absurd (hrest component hcomponent _ hmem) (by decide)
  · have hcongr : writtenComponents path = pieces isSeparator (behindPrefix path) := by
      unfold writtenComponents
      rw [hseparates, ← pieces_body]
      refine pieces_congr fun u hu => ?_
      have hne : u ≠ unit '/' := fun heq => hslash (heq ▸ hu)
      unfold isVerbatimSeparator isSeparator
      rw [beq_false_of_ne hne, Bool.false_or]
    rw [hcongr, and_iff_right hslash]

/-- A path without a prefix. -/
theorem agrees_of_none {path : WideString} (h : parsePath path = none) :
    (isAbsolute path = hasRoot path ∧ scannedComponents path = writtenComponents path) ↔
      path.head?.any isSeparator = false ∧ path[1]? ≠ some (unit ':') := by
  have hbehind : behindPrefix path = path := by
    unfold behindPrefix prefixLength
    rw [h]
    rfl
  have hroot : hasRoot path = path.head?.any isSeparator := by
    unfold hasRoot hasPhysicalRoot
    rw [h, hbehind]
    exact Bool.or_false _
  have habsolute : isAbsolute path = false := by
    unfold isAbsolute
    rw [h]
    exact Bool.and_false _
  rw [habsolute, hroot, eq_comm, writtenComponents_of_not_verbatim (by rw [h]; rfl), hbehind]
  refine and_congr_right fun hhead => ?_
  unfold scannedComponents
  match path, hhead with
  | [], _ => exact iff_of_true rfl nofun
  | [first], hhead =>
    have hfirst : isSeparator first = false := hhead
    have hnone : prefixUnitsFromWide [first] = 0 := by
      unfold prefixUnitsFromWide
      simp [hfirst]
    rw [hnone]
    exact iff_of_true rfl nofun
  | first :: second :: rest, hhead =>
    have hfirst : isSeparator first = false := hhead
    by_cases hcolon : second = unit ':'
    · -- Both units are lost.
      refine iff_of_false (fun heq => ?_) fun hne => hne (congrArg some hcolon)
      have hskipped : prefixUnitsFromWide (first :: second :: rest) = 2 :=
        if_pos (congrArg some hcolon)
      rw [hskipped] at heq
      have hlength := congrArg (fun components => components.flatten.length) heq
      have hsecond : isSeparator second = false := by
        rw [hcolon]
        decide
      simp only [flatten_pieces, List.drop_succ_cons, List.drop_zero, List.filter_cons, hfirst,
        hsecond, Bool.not_false, if_true, List.length_cons] at hlength
      omega
    · have hnone : prefixUnitsFromWide (first :: second :: rest) = 0 := by
        unfold prefixUnitsFromWide
        simp [hfirst, hcolon]
      rw [hnone]
      exact iff_of_true rfl fun heq => hcolon (Option.some.inj heq)

/-- A path with a drive and no more of a prefix. -/
theorem agrees_of_disk {path : WideString} {drive : UInt16}
    (h : parsePath path = some (.disk drive)) :
    isAbsolute path = hasRoot path ∧ scannedComponents path = writtenComponents path := by
  constructor
  · unfold isAbsolute
    rw [h]
    exact Bool.and_true _
  obtain ⟨letter, colon, rest, rfl, rfl, -, -⟩ | ⟨_, _, _, -, -, -, hdrive, -⟩ := parsePath_some h
  · have hskipped : prefixUnitsFromWide (letter :: unit ':' :: rest) = 2 := by
      unfold prefixUnitsFromWide
      exact if_pos rfl
    rw [writtenComponents_of_not_verbatim (by rw [h]; rfl)]
    unfold scannedComponents behindPrefix prefixLength
    rw [hskipped, h]
    rfl
  · cases hdrive

/-- A path with a prefix behind two separators. -/
theorem agrees_of_some {path : WideString} {kind : PathPrefix} (h : parsePath path = some kind)
    (hdrive : kind.isDrive = false) :
    (isAbsolute path = hasRoot path ∧ scannedComponents path = writtenComponents path) ↔
      (kind.isVerbatim = true → unit '/' ∉ body path) ∧
        (prefixNames path = expectedNames path ∨
          prefixNames path < expectedNames path ∧
            ∀ u ∈ behindPrefix path, isSeparator u = true) := by
  have hroot : isAbsolute path = hasRoot path := by
    unfold isAbsolute
    rw [h]
    exact Bool.and_true _
  have hlength : prefixLength path = kind.len := by
    unfold prefixLength
    rw [h]
    rfl
  obtain ⟨_, _, _, -, -, -, hkind⟩ | ⟨first, second, rest, heq, hfirst, hsecond, -, hends⟩ :=
    parsePath_some h
  · rw [hkind] at hdrive
    cases hdrive
  have hscanned : scannedComponents path = (pieces isSeparator path).drop (expectedNames path) := by
    rw [heq]
    exact scannedComponents_eq hfirst hsecond
  have hpieces : pieces isSeparator path =
      pieces isSeparator (path.take (prefixLength path)) ++
        pieces isSeparator (behindPrefix path) := by
    rw [← hlength] at hends
    rw [behindPrefix, ← pieces_append _ hends, List.take_append_drop]
  have hnames : scannedComponents path = pieces isSeparator (behindPrefix path) ↔
      (prefixNames path = expectedNames path ∨
        prefixNames path < expectedNames path ∧
          ∀ u ∈ behindPrefix path, isSeparator u = true) := by
    rw [hscanned, hpieces, drop_append_eq_right, pieces_eq_nil]
    rfl
  rw [and_iff_right hroot, ← hnames]
  cases hverbatim : kind.isVerbatim with
  | false =>
    rw [writtenComponents_of_not_verbatim (by rw [h]; exact hverbatim), and_iff_right nofun]
  | true =>
    have hscan : ∀ component ∈ scannedComponents path, ∀ u ∈ component, isSeparator u = false :=
      fun _ hmem => mem_pieces hmem
    rw [writtenComponents_of_verbatim (by rw [h]; exact hverbatim) hscan, imp_iff_right rfl]

/-- A path is split as it is written exactly when the scan finds its prefix and it does not have a
    root only. -/
theorem splitsAsWritten_iff_scanAgrees (path : WideString) :
    SplitsAsWritten path ↔ ScanAgrees path := by
  rw [splitsAsWritten_iff]
  unfold ScanAgrees
  cases h : parsePath path with
  | none => exact agrees_of_none h
  | some kind =>
    cases kind with
    | disk drive => exact iff_of_true (agrees_of_disk h) trivial
    | verbatim | verbatimUnc | verbatimDisk | deviceNs | unc => exact agrees_of_some h rfl

/-- `\\server`, the name a link to `\??\UNC\server` is read as. -/
def serverTarget : WideString := ['\\', '\\', 's', 'e', 'r', 'v', 'e', 'r'].map unit

/-- `1:x`, which to `std` is one component without a prefix. -/
def digitPath : WideString := ['1', ':', 'x'].map unit

/-- `\dir\x`, which has a root and no drive. -/
def rootOnlyPath : WideString := ['\\', 'd', 'i', 'r', '\\', 'x'].map unit

/-- The server is followed without its root and its name, `1:x` is looked up as `x`, and `\dir\x`
    does not restart at the root. -/
theorem not_splitsAsWritten_server :
    (¬SplitsAsWritten serverTarget ∧ wideTokensAfterCheck serverTarget .symlinkTarget = []) ∧
      (¬SplitsAsWritten digitPath ∧
        wideTokensAfterCheck digitPath .input = [.normal [unit 'x'] .input]) ∧
      ¬SplitsAsWritten rootOnlyPath := by
  simp only [splitsAsWritten_iff]
  decide

end LocalFiles.Rooted
