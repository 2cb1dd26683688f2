import LocalFiles.Pieces

/-!
# Windows — the grammar of Windows paths

What `std::path` takes for the prefix, the root and the components of a path.  A path is a list of
UTF-16 units; every unit that the grammar looks at is ASCII, so surrogates play no part in it.
-/

namespace LocalFiles.Windows

abbrev WideString := List UInt16

/-- A unit of the Basic Latin block. -/
def unit (c : Char) : UInt16 := UInt16.ofNat c.toNat

/-- `is_sep_byte` -/
def isSeparator (u : UInt16) : Bool := u == unit '/' || u == unit '\\'

/-- `is_verbatim_sep` -/
def isVerbatimSeparator (u : UInt16) : Bool := u == unit '\\'

def isAsciiAlphabetic (u : UInt16) : Bool :=
  (unit 'A' ≤ u && u ≤ unit 'Z') || (unit 'a' ≤ u && u ≤ unit 'z')

/-! ## 1. Prefixes -/

inductive PathPrefix where
  | verbatim (name : WideString)
  | verbatimUnc (server share : WideString)
  | verbatimDisk (drive : UInt16)
  | deviceNs (name : WideString)
  | unc (server share : WideString)
  | disk (drive : UInt16)
  deriving DecidableEq, Repr

namespace PathPrefix

/-- `len`: the share of a UNC prefix has a separator in front of it. -/
def len : PathPrefix → Nat
  | verbatim name => 4 + name.length
  | verbatimUnc server share => 8 + server.length + if share = [] then 0 else 1 + share.length
  | verbatimDisk _ => 6
  | deviceNs name => 4 + name.length
  | unc server share => 2 + server.length + if share = [] then 0 else 1 + share.length
  | disk _ => 2

def isVerbatim : PathPrefix → Bool
  | verbatim _ | verbatimUnc _ _ | verbatimDisk _ => true
  | deviceNs _ | unc _ _ | disk _ => false

def isDrive : PathPrefix → Bool
  | disk _ => true
  | _ => false

/-- `has_implicit_root` -/
def hasImplicitRoot (kind : PathPrefix) : Bool := !kind.isDrive

end PathPrefix

/-- The first component and what follows the separator behind it. -/
def parseNextComponent (path : WideString) (verbatim : Bool) : WideString × WideString :=
  let separates := if verbatim then isVerbatimSeparator else isSeparator
  (path.takeWhile fun u => !separates u, (path.dropWhile fun u => !separates u).drop 1)

def parseDrive : WideString → Option UInt16
  | drive :: colon :: _ =>
    if isAsciiAlphabetic drive && colon == unit ':' then some drive else none
  | _ => none

/-- A drive that is followed by a separator or nothing. -/
def parseDriveExact (path : WideString) : Option UInt16 :=
  if (path.drop 2).head?.all isSeparator then parseDrive path else none

def parseVerbatimName (path : WideString) : PathPrefix :=
  match parseDriveExact path with
  | some drive => .verbatimDisk drive
  | none => .verbatim (parseNextComponent path true).1

/-- Behind `\\?\`. -/
def parseVerbatim (path : WideString) : PathPrefix :=
  match path with
  | u :: n :: c :: separator :: rest =>
    if u = unit 'U' ∧ n = unit 'N' ∧ c = unit 'C' ∧ isSeparator separator then
      let (server, path) := parseNextComponent rest true
      .verbatimUnc server (parseNextComponent path true).1
    else parseVerbatimName path
  | _ => parseVerbatimName path

/-- Behind two separators, when nothing more special follows. -/
def parseUnc (path : WideString) : Option PathPrefix :=
  let (server, path) := parseNextComponent path false
  let (share, _) := parseNextComponent path false
  if server ≠ [] ∧ share ≠ [] then some (.unc server share) else none

/-- `parse_prefix`: the verbatim prefix is written with backslashes only. -/
def parsePath (path : WideString) : Option PathPrefix :=
  match path with
  | first :: second :: rest =>
    if isSeparator first && isSeparator second then
      match rest with
      | third :: fourth :: more =>
        if third = unit '?' ∧ isVerbatimSeparator first ∧ isVerbatimSeparator second ∧
            isVerbatimSeparator fourth then some (parseVerbatim more)
        else if third = unit '.' ∧ isSeparator fourth then
          some (.deviceNs (parseNextComponent more false).1)
        else parseUnc rest
      | _ => parseUnc rest
    else (parseDrive path).map .disk
  | _ => none

/-- The units of a prefix end where a separator comes. -/
theorem atBoundary_next (path : WideString) (verbatim : Bool) :
    AtBoundary isSeparator (path.drop (parseNextComponent path verbatim).1.length) := by
  unfold parseNextComponent
  dsimp only
  rw [drop_length_takeWhile]
  intro u hu
  have hboundary := atBoundary_dropWhile _ u hu
  cases verbatim with
  | true =>
    unfold isSeparator
    rw [Bool.or_eq_true]
    exact .inr hboundary
  | false => exact hboundary

theorem atBoundary_both (path : WideString) (verbatim : Bool) :
    let (server, rest) := parseNextComponent path verbatim
    let share := (parseNextComponent rest verbatim).1
    AtBoundary isSeparator
      (path.drop (server.length + if share = [] then 0 else 1 + share.length)) := by
  have hbehind (n : Nat) : path.drop ((parseNextComponent path verbatim).1.length + (1 + n)) =
      (parseNextComponent path verbatim).2.drop n := by
    unfold parseNextComponent
    dsimp only
    rw [← List.drop_drop, ← List.drop_drop, drop_length_takeWhile]
  dsimp only
  split
  · exact atBoundary_next path verbatim
  · rw [hbehind]
    exact atBoundary_next _ verbatim

theorem atBoundary_verbatimName (first second third fourth : UInt16) (more : WideString) :
    AtBoundary isSeparator ((first :: second :: third :: fourth :: more).drop
      (parseVerbatimName more).len) := by
  unfold parseVerbatimName
  cases hdrive : parseDriveExact more with
  | some drive =>
    unfold parseDriveExact at hdrive
    by_cases hends : (more.drop 2).head?.all isSeparator = true
    · show AtBoundary isSeparator (more.drop 2)
      intro u hu
      rw [Option.mem_def.mp hu] at hends
      exact hends
    · rw [if_neg hends] at hdrive
      cases hdrive
  | none =>
    show AtBoundary isSeparator ((first :: second :: third :: fourth :: more).drop (4 + _))
    rw [Nat.add_comm]
    exact atBoundary_next more true

theorem atBoundary_verbatim (first second third fourth : UInt16) (more : WideString) :
    AtBoundary isSeparator
      ((first :: second :: third :: fourth :: more).drop (parseVerbatim more).len) := by
  unfold parseVerbatim
  split
  · next u n c separator rest =>
    split
    · have hboth := atBoundary_both rest true
      dsimp only at hboth ⊢
      unfold PathPrefix.len
      dsimp only
      rw [Nat.add_assoc, Nat.add_comm 8]
      exact hboth
    · exact atBoundary_verbatimName first second third fourth _
  · exact atBoundary_verbatimName first second third fourth _

theorem parseUnc_some {first second : UInt16} {rest : WideString} {kind : PathPrefix}
    (h : parseUnc rest = some kind) :
    kind.isDrive = false ∧ AtBoundary isSeparator ((first :: second :: rest).drop kind.len) := by
  unfold parseUnc at h
  dsimp only at h
  split at h
  · cases h
    have hboth := atBoundary_both rest false
    refine ⟨rfl, ?_⟩
    dsimp only at hboth ⊢
    unfold PathPrefix.len
    dsimp only
    rw [Nat.add_assoc, Nat.add_comm 2]
    exact hboth
  · cases h

theorem parseVerbatim_isDrive (more : WideString) : (parseVerbatim more).isDrive = false := by
  have hname (path : WideString) : (parseVerbatimName path).isDrive = false := by
    unfold parseVerbatimName
    split <;> rfl
  unfold parseVerbatim
  split
  · split
    · rfl
    · exact hname _
  · exact hname _

/-- A prefix is a drive, or it begins with two separators and ends where a separator comes. -/
theorem parsePath_some {path : WideString} {kind : PathPrefix} (h : parsePath path = some kind) :
    (∃ drive colon rest, path = drive :: colon :: rest ∧ colon = unit ':' ∧
      isAsciiAlphabetic drive = true ∧ kind = .disk drive) ∨
    ∃ first second rest, path = first :: second :: rest ∧ isSeparator first = true ∧
      isSeparator second = true ∧ kind.isDrive = false ∧
      AtBoundary isSeparator (path.drop kind.len) := by
  unfold parsePath at h
  split at h
  · next first second rest =>
    split at h
    · next hboth =>
      rw [Bool.and_eq_true] at hboth
      right
      refine ⟨first, second, rest, rfl, hboth.1, hboth.2, ?_⟩
      split at h
      · next third fourth more =>
        split at h
        · cases h
          exact ⟨parseVerbatim_isDrive more, atBoundary_verbatim first second third fourth more⟩
        · split at h
          · cases h
            refine ⟨rfl, ?_⟩
            show AtBoundary isSeparator ((first :: second :: third :: fourth :: more).drop (4 + _))
            rw [Nat.add_comm]
            exact atBoundary_next more false
          · exact parseUnc_some h
      · exact parseUnc_some h
    · left
      unfold parseDrive at h
      dsimp only at h
      split at h
      · next hdrive =>
        rw [Bool.and_eq_true, beq_iff_eq] at hdrive
        cases h
        exact ⟨first, second, rest, rfl, hdrive.2, hdrive.1, rfl⟩
      · cases h
  · cases h

/-! ## 2. Roots and components -/

variable (path : WideString)

def prefixLength : Nat := ((parsePath path).map PathPrefix.len).getD 0

/-- What stands behind the prefix. -/
def behindPrefix : WideString := path.drop (prefixLength path)

def hasPhysicalRoot : Bool := (behindPrefix path).head?.any isSeparator

def hasRoot : Bool :=
  hasPhysicalRoot path || (parsePath path).any PathPrefix.hasImplicitRoot

def isAbsolute : Bool := hasRoot path && (parsePath path).isSome

/-- What stands behind the prefix and the root. -/
def body : WideString :=
  if hasPhysicalRoot path then (behindPrefix path).drop 1 else behindPrefix path

/-- Verbatim paths know one separator only. -/
def separatesComponents : UInt16 → Bool :=
  if (parsePath path).any PathPrefix.isVerbatim then isVerbatimSeparator else isSeparator

/-- The components behind prefix and root as they are written, dots included. -/
def writtenComponents : List WideString := pieces (separatesComponents path) (body path)

def hasTrailingSeparator : Bool := path.getLast?.any isSeparator

end LocalFiles.Windows
