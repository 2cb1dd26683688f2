import LocalFiles.Reparse.Reading

/-!
# RoundTrip — reading back the links that were created

The record of a target is its header and its two names one after the other, so the name that is
read back is the name that was written.  Whether it leads to the target again is decided by the
two halves of the file alone: the writer asks `std` whether the target is absolute, the reader
looks at the first units of the name.
-/

namespace LocalFiles.Reparse

open Windows (WideString unit)

/-! ## 1. The bytes of a record -/

/-- The fields of a record in their places. -/
def headerBytes (flags : UInt32) (substituteBytes printBytes dataLength : UInt16) : List UInt8 :=
  leBytes 4 ioReparseTagSymlink.toNat ++ leBytes 2 dataLength.toNat ++ [0, 0] ++ leBytes 2 0 ++
    leBytes 2 substituteBytes.toNat ++ leBytes 2 substituteBytes.toNat ++
    leBytes 2 printBytes.toNat ++ leBytes 4 flags.toNat

section Write

variable {front : List UInt8} {size start : Nat}

theorem writeU16_front (value : UInt16) (hstart : start = front.length) (hsize : 2 ≤ size) :
    writeU16 (front ++ List.replicate size 0) start value
      = .ok (front ++ leBytes 2 value.toNat ++ List.replicate (size - 2) 0) := by
  unfold writeU16 copyFromSlice
  rw [copyFromSlice?_replicate hstart (by rw [length_leBytes]; exact hsize), length_leBytes]

theorem writeU32_front (value : UInt32) (hstart : start = front.length) (hsize : 4 ≤ size) :
    writeU32 (front ++ List.replicate size 0) start value
      = .ok (front ++ leBytes 4 value.toNat ++ List.replicate (size - 4) 0) := by
  unfold writeU32 copyFromSlice
  rw [copyFromSlice?_replicate hstart (by rw [length_leBytes]; exact hsize), length_leBytes]

theorem writeWide_front (units : WideString) (hstart : start = front.length)
    (hsize : 2 * units.length ≤ size) :
    writeWide (front ++ List.replicate size 0) start units
      = .ok (front ++ unitBytes units ++ List.replicate (size - 2 * units.length) 0) := by
  induction units generalizing front size start with
  | nil =>
    show Except.ok _ = Except.ok _
    rw [unitBytes, List.flatMap_nil, List.append_nil, List.length_nil, Nat.mul_zero, Nat.sub_zero]
  | cons u units ih =>
    rw [List.length_cons] at hsize
    have hnext : start + 2 = (front ++ leBytes 2 u.toNat).length := by
      rw [List.length_append, length_leBytes, hstart]
    have hsplit : unitBytes (u :: units) = leBytes 2 u.toNat ++ unitBytes units :=
      List.flatMap_cons
    have hrest : size - 2 - 2 * units.length = size - 2 * (units.length + 1) := by omega
    unfold writeWide
    rw [writeU16_front u hstart (by omega)]
    show writeWide _ (start + 2) units = _
    rw [ih hnext (by omega), hsplit, List.length_cons, hrest, List.append_assoc front]

end Write

theorem length_headerBytes (flags : UInt32) (substituteBytes printBytes dataLength : UInt16) :
    (headerBytes flags substituteBytes printBytes dataLength).length = symlinkPathBufferOffset :=
  rfl

/-- The two bytes behind the data length are left zero. -/
theorem replicate_gap {size : Nat} (h : 2 ≤ size) :
    List.replicate size (0 : UInt8) = [0, 0] ++ List.replicate (size - 2) 0 := by
  obtain ⟨rest, rfl⟩ := Nat.exists_eq_add_of_le h
  rw [Nat.add_sub_cancel_left, List.replicate_add]
  rfl

/-- The numbered fields are written one behind the other. -/
theorem writeRecord_eq {substitute printName : WideString} {flags : UInt32}
    {substituteBytes printBytes dataLength : UInt16} {totalLength : Nat}
    (hsubstitute : substituteBytes.toNat = 2 * substitute.length)
    (htotal : totalLength = 20 + (2 * substitute.length + 2 * printName.length)) :
    writeRecord substitute printName flags substituteBytes printBytes dataLength totalLength
      = .ok (headerBytes flags substituteBytes printBytes dataLength ++ unitBytes substitute ++
          unitBytes printName) := by
  have hgap : List.replicate (totalLength - 4 - 2) (0 : UInt8)
      = [0, 0] ++ List.replicate (totalLength - 8) 0 := replicate_gap (by omega)
  have hnone : totalLength - 8 - 2 - 2 - 2 - 2 - 4 - 2 * substitute.length - 2 * printName.length
      = 0 := by omega
  unfold writeRecord
  dsimp only
  rw [← List.nil_append (List.replicate totalLength 0), writeU32_front ioReparseTagSymlink]
  show (writeU16 _ 4 _ >>= _) = _
  rw [writeU16_front dataLength, hgap, ← List.append_assoc]
  show (writeU16 _ 8 _ >>= _) = _
  rw [writeU16_front 0]
  show (writeU16 _ 10 _ >>= _) = _
  rw [writeU16_front substituteBytes]
  show (writeU16 _ 12 _ >>= _) = _
  rw [writeU16_front substituteBytes]
  show (writeU16 _ 14 _ >>= _) = _
  rw [writeU16_front printBytes]
  show (writeU32 _ 16 _ >>= _) = _
  rw [writeU32_front flags]
  show (writeWide (headerBytes flags substituteBytes printBytes dataLength ++ _) _ _ >>= _) = _
  rw [writeWide_front substitute]
  show writeWide _ _ _ = _
  rw [writeWide_front printName, hnone, List.replicate_zero, List.append_nil]
  · rw [List.length_append, length_headerBytes, length_unitBytes, hsubstitute]
  -- Every other field starts where the one before it ends, and fits.
  all_goals first | rfl | omega

/-! ## 2. The name is read back -/

theorem toU16_some {value : Nat} {word : UInt16} (h : toU16 value = some word) :
    word.toNat = value := by
  unfold toU16 u16Max at h
  split at h
  · cases h
    exact UInt16.toNat_ofNat_of_lt' (by unfold UInt16.size; omega)
  · cases h

theorem checkedUsize_some {value sum : Nat} (h : checkedUsize value = some sum) : sum = value := by
  unfold checkedUsize at h
  split at h
  · exact (Option.some.inj h).symm
  · cases h

theorem checkedUtf16ByteLength_ok {units : Nat} {length : UInt16}
    (h : checkedUtf16ByteLength units = .ok length) : length.toNat = 2 * units := by
  unfold checkedUtf16ByteLength at h
  split at h
  · cases h
  · rename_i word hword
    cases h
    obtain ⟨sum, hsum, htry⟩ := Option.bind_eq_some_iff.mp hword
    rw [toU16_some htry, checkedUsize_some hsum, Nat.mul_comm]

/-- The lengths that `recordLengths` accepts. -/
structure Lengths (substituteUnits printUnits : Nat)
    (lengths : UInt16 × UInt16 × UInt16 × Nat) : Prop where
  substitute : lengths.1.toNat = 2 * substituteUnits
  print : lengths.2.1.toNat = 2 * printUnits
  data : lengths.2.2.1.toNat = 12 + (2 * substituteUnits + 2 * printUnits)
  total : lengths.2.2.2 = 20 + (2 * substituteUnits + 2 * printUnits)

theorem recordLengths_ok {substituteUnits printUnits : Nat}
    {lengths : UInt16 × UInt16 × UInt16 × Nat}
    (h : recordLengths substituteUnits printUnits = .ok lengths) :
    Lengths substituteUnits printUnits lengths := by
  unfold recordLengths at h
  cases hsubstitute : checkedUtf16ByteLength substituteUnits with
  | error error => rw [hsubstitute] at h; cases h
  | ok substituteBytes =>
    cases hprint : checkedUtf16ByteLength printUnits with
    | error error => rw [hsubstitute, hprint] at h; cases h
    | ok printBytes =>
      rw [hsubstitute, hprint] at h
      dsimp only [bind, Except.bind] at h
      have hsub := checkedUtf16ByteLength_ok hsubstitute
      have hpri := checkedUtf16ByteLength_ok hprint
      split at h
      · cases h
      rename_i pathBytes hpath
      split at h
      · cases h
      rename_i dataLength hdata
      split at h
      · cases h
      rename_i totalLength htotal
      split at h
      · cases h
      cases h
      obtain ⟨sum, hsum, htry⟩ := Option.bind_eq_some_iff.mp hdata
      have hdata' : dataLength.toNat = 12 + (2 * substituteUnits + 2 * printUnits) := by
        rw [toU16_some htry, checkedUsize_some hsum, checkedUsize_some hpath, hsub, hpri]
        rfl
      refine ⟨hsub, hpri, hdata', ?_⟩
      dsimp only
      rw [checkedUsize_some htotal, hdata']
      omega

theorem u32_leBytes (value : UInt32) :
    UInt32.ofNat (ofLeBytes (leBytes 4 value.toNat)) = value := by
  have hlt : value.toNat < 256 ^ 4 := value.toNat_lt
  rw [ofLeBytes_leBytes, Nat.mod_eq_of_lt hlt, UInt32.ofNat_toNat]

section Record

variable (substitute printName : WideString) (flags : UInt32)
  (substituteBytes printBytes dataLength : UInt16)

/-- What `writeRecord` writes. -/
def recordBytes : List UInt8 :=
  headerBytes flags substituteBytes printBytes dataLength ++ unitBytes substitute ++
    unitBytes printName

theorem length_recordBytes : (recordBytes substitute printName flags substituteBytes printBytes
    dataLength).length = 20 + (2 * substitute.length + 2 * printName.length) := by
  unfold recordBytes
  rw [List.length_append, List.length_append, length_headerBytes, length_unitBytes,
    length_unitBytes, Nat.add_assoc]
  rfl

theorem fieldsOf_recordBytes : fieldsOf (recordBytes substitute printName flags substituteBytes
    printBytes dataLength) = ⟨8 + dataLength.toNat, 0, substituteBytes.toNat, flags⟩ := by
  have hdata : u16At (recordBytes substitute printName flags substituteBytes printBytes
      dataLength) 4 = dataLength := ofNat_leBytes dataLength
  have hlength : u16At (recordBytes substitute printName flags substituteBytes printBytes
      dataLength) 10 = substituteBytes := ofNat_leBytes substituteBytes
  have hflags : u32At (recordBytes substitute printName flags substituteBytes printBytes
      dataLength) 16 = flags := u32_leBytes flags
  unfold fieldsOf
  rw [hdata, hlength, hflags]
  rfl

theorem nameAt_recordBytes : nameAt (recordBytes substitute printName flags substituteBytes
    printBytes dataLength) 20 (20 + 2 * substitute.length) = substitute := by
  have hdrop : (recordBytes substitute printName flags substituteBytes printBytes
      dataLength).drop 20 = unitBytes substitute ++ unitBytes printName := by
    unfold recordBytes
    rw [List.append_assoc]
    exact List.drop_left' rfl
  unfold nameAt
  rw [hdrop, Nat.add_sub_cancel_left, ← length_unitBytes, List.take_left, unitsOf_unitBytes]

end Record

theorem validRecord_recordBytes {substitute printName : WideString} {flags : UInt32}
    {substituteBytes printBytes dataLength : UInt16}
    (hsubstitute : substituteBytes.toNat = 2 * substitute.length)
    (hdata : dataLength.toNat = 12 + (2 * substitute.length + 2 * printName.length)) :
    ValidRecord (recordBytes substitute printName flags substituteBytes printBytes dataLength) 20
      (20 + 2 * substitute.length) := by
  have hlength := length_recordBytes substitute printName flags substituteBytes printBytes
    dataLength
  have hfields := fieldsOf_recordBytes substitute printName flags substituteBytes printBytes
    dataLength
  have htag : u32At (recordBytes substitute printName flags substituteBytes printBytes dataLength) 0
      = ioReparseTagSymlink := u32_leBytes ioReparseTagSymlink
  constructor
  · refine ⟨?_, htag, ?_⟩
    · rw [hlength]
      exact Nat.le_add_right ..
    · rw [hfields, hlength, hdata]
      dsimp only
      omega
  · rw [hfields]
    refine ⟨rfl, ?_, rfl, ?_, ?_⟩
    · rw [hsubstitute]
      exact Nat.mul_mod_right ..
    · rw [hsubstitute]
    · dsimp only
      omega

/-- The reader sees the substitute name and the flag of the target. -/
theorem parse_build {target : WideString} {buffer : List UInt8}
    (h : buildSymbolicLinkBuffer target = .ok buffer) :
    parseSymbolicLinkTarget buffer
      = normalizeSymbolicLinkTarget (substituteName target target).1
          (substituteName target target).2 := by
  unfold buildSymbolicLinkBuffer at h
  dsimp only at h
  split at h
  · cases h
  · generalize substituteName target target = substituted at h
    obtain ⟨substitute, flags⟩ := substituted
    cases hlengths : recordLengths substitute.length target.length with
    | error error => rw [hlengths] at h; cases h
    | ok lengths =>
      obtain ⟨substituteBytes, printBytes, dataLength, totalLength⟩ := lengths
      obtain ⟨hsubstitute, -, hdata, htotal⟩ := recordLengths_ok hlengths
      rw [hlengths] at h
      change writeRecord _ _ _ _ _ _ _ = _ at h
      rw [writeRecord_eq hsubstitute htotal] at h
      cases h
      have hvalid : ValidRecord (recordBytes substitute target flags substituteBytes printBytes
          dataLength) 20 (20 + 2 * substitute.length) := validRecord_recordBytes hsubstitute hdata
      have hfields := fieldsOf_recordBytes substitute target flags substituteBytes printBytes
        dataLength
      have hname := nameAt_recordBytes substitute target flags substituteBytes printBytes dataLength
      have hparse := parseSymbolicLinkTarget_eq hvalid
      rw [hname, hfields] at hparse
      exact hparse

/-! ## 3. Targets -/

section Strip

variable {lead units rest : WideString}

theorem stripPrefix_append : stripPrefix lead (lead ++ rest) = some rest := by
  unfold stripPrefix
  rw [List.take_left, List.drop_left, if_pos rfl]

theorem stripPrefix_some (h : stripPrefix lead units = some rest) : units = lead ++ rest := by
  unfold stripPrefix at h
  split at h
  · rename_i htake
    cases h
    calc units = units.take lead.length ++ units.drop lead.length := (List.take_append_drop ..).symm
      _ = lead ++ units.drop lead.length := by rw [htake]
  · cases h

/-- A longer lead: what is behind the shorter one is asked for the rest. -/
theorem stripPrefix_append_append (more : WideString) :
    stripPrefix (lead ++ more) (lead ++ units) = stripPrefix more units := by
  unfold stripPrefix
  rw [List.length_append, List.take_length_add_append, List.drop_length_add_append]
  simp only [List.append_cancel_left_eq]

end Strip

/-- What a target is read back as: verbatim targets lose the spelling of their namespace. -/
def visibleTarget (target : WideString) : WideString :=
  match stripPrefix win32VerbatimUncPrefix target with
  | some rest => [backslash, backslash] ++ rest
  | none => (stripPrefix win32VerbatimPrefix target).getD target

/-- The targets that lead back to themselves.  A relative target has no root and no drive; an
    absolute one is a drive and its root, or two backslashes in front of a name, or one of both
    behind its verbatim prefix. -/
def ReadsBack (target : WideString) : Prop :=
  if Windows.isAbsolute target = false then isRootedWidePath target = false
  else match stripPrefix win32VerbatimUncPrefix target with
  | some rest => rest ≠ [] ∧ rest.head? ≠ some backslash
  | none =>
    match stripPrefix win32VerbatimPrefix target with
    | some rest => startsWithDriveRoot rest = true
    | none => (stripPrefix [backslash, backslash] target).isSome ∨ startsWithDriveRoot target = true

/-! Facts about `std`'s absolute paths. -/

theorem isAbsolute_of_verbatim {target rest : WideString}
    (h : stripPrefix win32VerbatimPrefix target = some rest) :
    Windows.isAbsolute target = true := by
  have hparse : Windows.parsePath (win32VerbatimPrefix ++ rest)
      = some (Windows.parseVerbatim rest) := rfl
  have hroot : (Windows.parseVerbatim rest).hasImplicitRoot = true := by
    unfold Windows.PathPrefix.hasImplicitRoot
    rw [Windows.parseVerbatim_isDrive]
    rfl
  rw [stripPrefix_some h]
  unfold Windows.isAbsolute Windows.hasRoot
  rw [hparse, Option.any_some, hroot, Bool.or_true]
  rfl

/-- An absolute path behind two backslashes that is not verbatim names a server or a device. -/
theorem head_of_isAbsolute {target rest : WideString} (habsolute : Windows.isAbsolute target = true)
    (h : stripPrefix [backslash, backslash] target = some rest) :
    rest ≠ [] ∧ rest.head? ≠ some backslash := by
  have hparse : (Windows.parsePath target).isSome = true := by
    unfold Windows.isAbsolute at habsolute
    exact (Bool.and_eq_true_iff.mp habsolute).2
  -- Without a name the parser finds no server.
  have hnone (more : WideString) : Windows.parseUnc (backslash :: more) = none := rfl
  rw [stripPrefix_some h] at hparse
  cases rest with
  | nil => exact absurd hparse (by decide)
  | cons u more =>
    refine ⟨List.cons_ne_nil u more, fun hu => ?_⟩
    cases hu
    cases more with
    | nil => exact absurd hparse (by decide)
    | cons v more =>
      change (Windows.parseUnc (backslash :: v :: more)).isSome = true at hparse
      rw [hnone] at hparse
      cases hparse

/-- No path that begins with `UNC\` is absolute. -/
theorem not_isAbsolute_unc (rest : WideString) :
    Windows.isAbsolute ([unit 'U', unit 'N', unit 'C', backslash] ++ rest) = false := by
  have hparse : Windows.parsePath ([unit 'U', unit 'N', unit 'C', backslash] ++ rest) = none := rfl
  unfold Windows.isAbsolute
  rw [hparse]
  exact Bool.and_false _

/-! ## 4. Who reads back -/

section Targets

variable {target rest : WideString}

theorem normalize_absolute (units : WideString) :
    normalizeSymbolicLinkTarget units 0 = normalizeAbsoluteSubstituteName units := by
  unfold normalizeSymbolicLinkTarget
  rw [if_neg (by decide), if_pos rfl]

/-- A name behind the NT prefix of servers. -/
theorem normalize_ntUnc (expected : WideString) :
    normalizeSymbolicLinkTarget (ntUncPrefix ++ rest) 0 = .ok expected ↔
      (rest ≠ [] ∧ rest.head? ≠ some backslash) ∧ expected = [backslash, backslash] ++ rest := by
  have hstrip : stripPrefix ntUncPrefix (ntUncPrefix ++ rest) = some rest := stripPrefix_append
  rw [normalize_absolute]
  unfold normalizeAbsoluteSubstituteName
  rw [hstrip]
  dsimp only
  split
  · rename_i hinvalid
    refine iff_of_false nofun ?_
    rintro ⟨hvalid, -⟩
    exact hinvalid.elim hvalid.1 hvalid.2
  · rename_i hvalid
    rw [not_or] at hvalid
    constructor
    · rintro ⟨⟩
      exact ⟨hvalid, rfl⟩
    · rintro ⟨-, rfl⟩
      rfl

/-- A name behind the NT prefix that is none of a server. -/
theorem normalize_nt (hunc : stripPrefix [unit 'U', unit 'N', unit 'C', backslash] rest = none)
    (expected : WideString) :
    normalizeSymbolicLinkTarget (ntPrefix ++ rest) 0 = .ok expected ↔
      startsWithDriveRoot rest = true ∧ expected = rest := by
  have hstrip : stripPrefix ntPrefix (ntPrefix ++ rest) = some rest := stripPrefix_append
  have hnone : stripPrefix ntUncPrefix (ntPrefix ++ rest) = none :=
    (stripPrefix_append_append _).trans hunc
  rw [normalize_absolute]
  unfold normalizeAbsoluteSubstituteName
  rw [hnone]
  dsimp only
  rw [hstrip]
  dsimp only
  split
  · rename_i hdrive
    constructor
    · rintro ⟨⟩
      exact ⟨hdrive, rfl⟩
    · rintro ⟨-, rfl⟩
      rfl
  · rename_i hdrive
    refine iff_of_false nofun ?_
    rintro ⟨hstarts, -⟩
    exact hdrive hstarts

theorem verbatim_of_verbatimUnc (h : stripPrefix win32VerbatimUncPrefix target = some rest) :
    stripPrefix win32VerbatimPrefix target
      = some ([unit 'U', unit 'N', unit 'C', backslash] ++ rest) := by
  rw [stripPrefix_some h]
  exact stripPrefix_append

/-- The spelling of a target that is not verbatim stays. -/
theorem visibleTarget_eq (h : stripPrefix win32VerbatimPrefix target = none) :
    visibleTarget target = target := by
  unfold visibleTarget
  split
  · rename_i rest hunc
    rw [verbatim_of_verbatimUnc hunc] at h
    cases h
  · rw [h]
    rfl

/-- A relative target. -/
theorem reads_relative (habsolute : Windows.isAbsolute target = false) :
    normalizeSymbolicLinkTarget target symlinkFlagRelative = .ok (visibleTarget target) ↔
      isRootedWidePath target = false := by
  have hverbatim : stripPrefix win32VerbatimPrefix target = none := by
    cases hstrip : stripPrefix win32VerbatimPrefix target with
    | none => rfl
    | some rest =>
      rw [isAbsolute_of_verbatim hstrip] at habsolute
      cases habsolute
  rw [visibleTarget_eq hverbatim]
  unfold normalizeSymbolicLinkTarget
  rw [if_pos rfl]
  split
  · rename_i hrooted
    rw [hrooted]
    exact iff_of_false nofun nofun
  · rename_i hrooted
    exact iff_of_true rfl (Bool.eq_false_iff.mpr hrooted)

/-- What the reader makes of the name that the writer stores. -/
theorem reads_substituteName (target : WideString) :
    normalizeSymbolicLinkTarget (substituteName target target).1 (substituteName target target).2
        = .ok (visibleTarget target) ↔ ReadsBack target := by
  unfold substituteName ReadsBack
  by_cases habsolute : Windows.isAbsolute target = false
  · rw [if_pos habsolute, if_pos habsolute]
    exact reads_relative habsolute
  rw [if_neg habsolute, if_neg habsolute]
  -- verbatim names keep their form; the others get the prefix of the object namespace
  cases hunc : stripPrefix win32VerbatimUncPrefix target with
  | some rest =>
    have hvisible : visibleTarget target = [backslash, backslash] ++ rest := by
      unfold visibleTarget
      rw [hunc]
    dsimp only
    rw [normalize_ntUnc, hvisible]
    exact and_iff_left rfl
  | none =>
    dsimp only
    cases hverbatim : stripPrefix win32VerbatimPrefix target with
    | some rest =>
      have hvisible : visibleTarget target = rest := by
        unfold visibleTarget
        rw [hunc, hverbatim]
        rfl
      have hrest : stripPrefix [unit 'U', unit 'N', unit 'C', backslash] rest = none := by
        rw [stripPrefix_some hverbatim] at hunc
        exact (stripPrefix_append_append _).symm.trans hunc
      dsimp only
      rw [normalize_nt hrest, hvisible]
      exact and_iff_left rfl
    | none =>
      rw [visibleTarget_eq hverbatim]
      dsimp only
      cases hdouble : stripPrefix [backslash, backslash] target with
      | some rest =>
        -- an absolute name with two separators in front is a share
        have hvalid := head_of_isAbsolute (eq_true_of_ne_false habsolute) hdouble
        dsimp only
        rw [normalize_ntUnc]
        exact iff_of_true ⟨hvalid, stripPrefix_some hdouble⟩ (.inl rfl)
      | none =>
        have hrest : stripPrefix [unit 'U', unit 'N', unit 'C', backslash] target = none := by
          cases hstrip : stripPrefix [unit 'U', unit 'N', unit 'C', backslash] target with
          | none => rfl
          | some rest =>
            rw [stripPrefix_some hstrip, not_isAbsolute_unc] at habsolute
            exact absurd rfl habsolute
        dsimp only
        rw [normalize_nt hrest]
        refine ⟨fun h => .inr h.1, fun h => ⟨h.resolve_left nofun, rfl⟩⟩

end Targets

/-- A link that was created is read back exactly when its target is one of these. -/
theorem linkRecord_roundTrip (target : WideString) (buffer : List UInt8)
    (h : buildSymbolicLinkBuffer target = .ok buffer) :
    parseSymbolicLinkTarget buffer = .ok (visibleTarget target) ↔ ReadsBack target := by
  rw [parse_build h]
  exact reads_substituteName target

/-- `C:\x` -/
def driveTarget : WideString := ['C', ':', '\\', 'x'].map unit

theorem linkRecord_roundTrip_drive : ∃ buffer, buildSymbolicLinkBuffer driveTarget = .ok buffer ∧
    (parseSymbolicLinkTarget buffer = .ok (visibleTarget driveTarget) ↔ ReadsBack driveTarget) :=
  ⟨_, rfl, linkRecord_roundTrip driveTarget _ rfl⟩

/-- `C:/x`, which is absolute to `std`. -/
def slashTarget : WideString := ['C', ':', '/', 'x'].map unit

/-- `\x`, which is relative to `std`. -/
def rootedTarget : WideString := ['\\', 'x'].map unit

/-- `\\server`, which is relative to `std` without a share. -/
def serverTarget : WideString := ['\\', '\\', 's', 'e', 'r', 'v', 'e', 'r'].map unit

/-- `\??\UNC\server`, the name under which the kernel stores such a target. -/
def serverSubstitute : WideString := ntUncPrefix ++ ['s', 'e', 'r', 'v', 'e', 'r'].map unit

/-- Links to all three are created, and none can be read, though the last target is one that a link
    reads as. -/
theorem linkRecord_unreadable :
    (∃ buffer, buildSymbolicLinkBuffer slashTarget = .ok buffer ∧ parseSymbolicLinkTarget buffer
      = .error (unsupportedReparse "symbolic-link NT namespace is unsupported")) ∧
    (∃ buffer, buildSymbolicLinkBuffer rootedTarget = .ok buffer ∧ parseSymbolicLinkTarget buffer
      = .error (corruptReparse "relative symbolic-link target is rooted")) ∧
    normalizeRootedLinkTarget serverSubstitute 0 = .ok serverTarget ∧
    ∃ buffer, buildSymbolicLinkBuffer serverTarget = .ok buffer ∧ parseSymbolicLinkTarget buffer
      = .error (corruptReparse "relative symbolic-link target is rooted") := by
  refine ⟨⟨_, rfl, ?_⟩, ⟨_, rfl, ?_⟩, rfl, _, rfl, ?_⟩
  · rw [parse_build (rfl : buildSymbolicLinkBuffer slashTarget = _)]
    rfl
  · rw [parse_build (rfl : buildSymbolicLinkBuffer rootedTarget = _)]
    rfl
  · rw [parse_build (rfl : buildSymbolicLinkBuffer serverTarget = _)]
    rfl

end LocalFiles.Reparse
