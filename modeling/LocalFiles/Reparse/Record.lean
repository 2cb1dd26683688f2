import LocalFiles.CopyBudget
import LocalFiles.LittleEndian
import LocalFiles.Path.Windows
import LocalFiles.WindowsPathCodec

/-!
# Record — symbolic links as Windows stores them

A link is one reparse record: a tag, the length of its data, the places of two names, a flag and
the names.  `build_symbolic_link_buffer` writes a record for a target, and
`parse_symbolic_link_target` reads the target of a record that anything may have written.
A path is the list of its units, so that `from_wide` and `encode_wide` are the identity.
-/

namespace LocalFiles.Reparse

open Windows (WideString unit)
open LocalPathCodec.Windows (slice slice_ok)

/-! ## 1. Records -/

def ioReparseTagSymlink : UInt32 := 0xA000000C
def symlinkFlagRelative : UInt32 := 1
def symlinkPathBufferOffset : Nat := 20
def symlinkReparseFixedDataLength : Nat := 12
def maximumReparseDataBufferSize : Nat := 16384

/-- A value, an `io::Error` or a panic. -/
abbrev ReparseResult (α : Type) := Except (Halt IoError) α

def corruptReparse (message : String) : Halt IoError := .error ⟨.invalidData, message, none⟩
def unsupportedReparse (message : String) : Halt IoError := .error ⟨.unsupported, message, none⟩
def invalidTarget (message : String) : Halt IoError := .error ⟨.invalidInput, message, none⟩

def readU16 (buffer : List UInt8) (offset : Nat) : ReparseResult UInt16 :=
  match fieldAt? buffer offset 2 with
  | none => .error (corruptReparse "symbolic-link reparse field is truncated")
  | some bytes => .ok (UInt16.ofNat (ofLeBytes bytes))

def readU32 (buffer : List UInt8) (offset : Nat) : ReparseResult UInt32 :=
  match fieldAt? buffer offset 4 with
  | none => .error (corruptReparse "symbolic-link reparse field is truncated")
  | some bytes => .ok (UInt32.ofNat (ofLeBytes bytes))

/-- `&mut buffer[..].copy_from_slice(bytes)` -/
def copyFromSlice (buffer : List UInt8) (offset : Nat) (bytes : List UInt8) :
    ReparseResult (List UInt8) :=
  match copyFromSlice? buffer offset bytes with
  | none => .error (.panic "range end index out of range for slice")
  | some buffer => .ok buffer

def writeU16 (buffer : List UInt8) (offset : Nat) (value : UInt16) : ReparseResult (List UInt8) :=
  copyFromSlice buffer offset (leBytes 2 value.toNat)

def writeU32 (buffer : List UInt8) (offset : Nat) (value : UInt32) : ReparseResult (List UInt8) :=
  copyFromSlice buffer offset (leBytes 4 value.toNat)

def writeWide (buffer : List UInt8) (offset : Nat) : WideString → ReparseResult (List UInt8)
  | [] => .ok buffer
  | u :: units => do
    let buffer ← writeU16 buffer offset u
    writeWide buffer (offset + 2) units

/-! ## 2. Names -/

/-- `strip_prefix` -/
def stripPrefix (lead units : WideString) : Option WideString :=
  if units.take lead.length = lead then some (units.drop lead.length) else none

def backslash : UInt16 := unit '\\'

/-- `\??\` -/
def ntPrefix : WideString := [backslash, unit '?', unit '?', backslash]
/-- `\??\UNC\` -/
def ntUncPrefix : WideString := ntPrefix ++ [unit 'U', unit 'N', unit 'C', backslash]
/-- `\\?\` -/
def win32VerbatimPrefix : WideString := [backslash, backslash, unit '?', backslash]
/-- `\\?\UNC\` -/
def win32VerbatimUncPrefix : WideString :=
  win32VerbatimPrefix ++ [unit 'U', unit 'N', unit 'C', backslash]

def isRootedWidePath (units : WideString) : Bool :=
  units.head?.any (fun u => u == backslash || u == unit '/') ||
    (decide (2 ≤ units.length) && units[1]? == some (unit ':'))

/-- A drive letter, `:` and a backslash. -/
def startsWithDriveRoot (units : WideString) : Bool :=
  match units with
  | drive :: colon :: separator :: _ =>
    Windows.isAsciiAlphabetic drive && colon == unit ':' && separator == backslash
  | _ => false

/-- The name the kernel gets, and the flag of a relative link. -/
def substituteName (target printName : WideString) : WideString × UInt32 :=
  if Windows.isAbsolute target = false then (printName, symlinkFlagRelative)
  else match stripPrefix win32VerbatimUncPrefix printName with
  | some rest => (ntUncPrefix ++ rest, 0)
  | none =>
    match stripPrefix win32VerbatimPrefix printName with
    | some rest => (ntPrefix ++ rest, 0)
    | none =>
      match stripPrefix [backslash, backslash] printName with
      | some rest => (ntUncPrefix ++ rest, 0)
      | none => (ntPrefix ++ printName, 0)

def normalizeAbsoluteSubstituteName (units : WideString) : ReparseResult WideString :=
  match stripPrefix ntUncPrefix units with
  | some rest =>
    if rest = [] ∨ rest.head? = some backslash then
      .error (corruptReparse "absolute symbolic-link UNC target is invalid")
    else .ok ([backslash, backslash] ++ rest)
  | none =>
    match stripPrefix ntPrefix units with
    | some rest =>
      if startsWithDriveRoot rest then .ok rest
      else .error (unsupportedReparse "symbolic-link NT namespace is unsupported")
    | none =>
      if isRootedWidePath units then
        .error (unsupportedReparse "symbolic-link NT namespace is unsupported")
      else .error (corruptReparse "absolute symbolic-link target has no supported NT prefix")

def normalizeSymbolicLinkTarget (units : WideString) (flags : UInt32) : ReparseResult WideString :=
  if flags = symlinkFlagRelative then
    if isRootedWidePath units then
      .error (corruptReparse "relative symbolic-link target is rooted")
    else .ok units
  else if flags = 0 then normalizeAbsoluteSubstituteName units
  else .error (corruptReparse "symbolic-link reparse flags are unsupported")

/-! ## 3. Building a record -/

def u16Max : Nat := 2 ^ 16 - 1

/-- `u16::try_from` -/
def toU16 (value : Nat) : Option UInt16 :=
  if value ≤ u16Max then some (UInt16.ofNat value) else none

def checkedUtf16ByteLength (units : Nat) : ReparseResult UInt16 :=
  match (checkedUsize (units * 2)).bind toU16 with
  | none => .error (invalidTarget "symbolic-link target is too long")
  | some length => .ok length

/-- The lengths of both names, of the data and of the record. -/
def recordLengths (substituteUnits printUnits : Nat) :
    ReparseResult (UInt16 × UInt16 × UInt16 × Nat) := do
  let substituteBytes ← checkedUtf16ByteLength substituteUnits
  let printBytes ← checkedUtf16ByteLength printUnits
  match checkedUsize (substituteBytes.toNat + printBytes.toNat) with
  | none => .error (invalidTarget "symbolic-link target is too long")
  | some pathBytes =>
    match (checkedUsize (symlinkReparseFixedDataLength + pathBytes)).bind toU16 with
    | none => .error (invalidTarget "symbolic-link reparse data is too long")
    | some dataLength =>
      match checkedUsize (8 + dataLength.toNat) with
      | none => .error (invalidTarget "symbolic-link reparse buffer overflowed")
      | some totalLength =>
        if maximumReparseDataBufferSize < totalLength then
          .error (invalidTarget "symbolic-link reparse buffer exceeds the native limit")
        else .ok (substituteBytes, printBytes, dataLength, totalLength)

/-- The record written field by field into a buffer of zeros. -/
def writeRecord (substituteName printName : WideString) (flags : UInt32)
    (substituteBytes printBytes dataLength : UInt16) (totalLength : Nat) :
    ReparseResult (List UInt8) := do
  let buffer := List.replicate totalLength 0
  let buffer ← writeU32 buffer 0 ioReparseTagSymlink
  let buffer ← writeU16 buffer 4 dataLength
  let buffer ← writeU16 buffer 8 0
  let buffer ← writeU16 buffer 10 substituteBytes
  let buffer ← writeU16 buffer 12 substituteBytes
  let buffer ← writeU16 buffer 14 printBytes
  let buffer ← writeU32 buffer 16 flags
  let buffer ← writeWide buffer symlinkPathBufferOffset substituteName
  writeWide buffer (symlinkPathBufferOffset + substituteBytes.toNat) printName

def buildSymbolicLinkBuffer (target : WideString) : ReparseResult (List UInt8) :=
  let printName := target
  if 0 ∈ printName then
    .error (invalidTarget "symbolic-link target contains an interior NUL")
  else do
    let (substitute, flags) := substituteName target printName
    let (substituteBytes, printBytes, dataLength, totalLength) ←
      recordLengths substitute.length printName.length
    writeRecord substitute printName flags substituteBytes printBytes dataLength totalLength

/-! ## 4. Reading a record -/

/-- The fields that are used of a record. -/
structure SymbolicLinkFields where
  recordLength : Nat
  substituteOffset : Nat
  substituteLength : Nat
  flags : UInt32
  deriving DecidableEq, Repr

def parseSymbolicLinkFields (buffer : List UInt8) : ReparseResult SymbolicLinkFields :=
  if buffer.length < symlinkPathBufferOffset then
    .error (corruptReparse "symbolic-link reparse buffer is truncated")
  else do
    let tag ← readU32 buffer 0
    if tag ≠ ioReparseTagSymlink then
      .error (unsupportedReparse "reparse point is not a symbolic link")
    else do
      let dataLength ← readU16 buffer 4
      match (checkedUsize (8 + dataLength.toNat)).filter (· ≤ buffer.length) with
      | none => .error (corruptReparse "symbolic-link reparse data length is invalid")
      | some recordLength => do
        let substituteOffset ← readU16 buffer 8
        let substituteLength ← readU16 buffer 10
        let _printOffset ← readU16 buffer 12
        let _printLength ← readU16 buffer 14
        let flags ← readU32 buffer 16
        .ok ⟨recordLength, substituteOffset.toNat, substituteLength.toNat, flags⟩

def wideRange (recordLength offset length : Nat) : ReparseResult (Nat × Nat) :=
  if offset % 2 ≠ 0 ∨ length % 2 ≠ 0 then
    .error (corruptReparse "symbolic-link reparse name is not UTF-16 aligned")
  else match checkedUsize (symlinkPathBufferOffset + offset) with
  | none => .error (corruptReparse "symbolic-link reparse name offset overflowed")
  | some start =>
    match (checkedUsize (start + length)).filter (· ≤ recordLength) with
    | none => .error (corruptReparse "symbolic-link reparse name exceeds its record")
    | some stop => .ok (start, stop)

def readWideRange (buffer : List UInt8) (recordLength offset length : Nat) :
    ReparseResult WideString := do
  let (start, stop) ← wideRange recordLength offset length
  let bytes ← slice buffer start stop
  .ok (unitsOf bytes)

def parseSymbolicLinkTargetUnits (buffer : List UInt8) : ReparseResult WideString := do
  let fields ← parseSymbolicLinkFields buffer
  let units ←
    readWideRange buffer fields.recordLength fields.substituteOffset fields.substituteLength
  normalizeSymbolicLinkTarget units fields.flags

def parseSymbolicLinkTarget (buffer : List UInt8) : ReparseResult WideString :=
  parseSymbolicLinkTargetUnits buffer

inductive RootedLinkTargetRead where
  | target (rawPath : WideString) (flags : UInt32)
  | exceeded (bytes : Nat)
  deriving DecidableEq, Repr

/-- `a - b` -/
def subtract (a b : Nat) : ReparseResult Nat :=
  if a < b then .error (.panic "attempt to subtract with overflow") else .ok (a - b)

def parseLimitedSymbolicLinkTarget (buffer : List UInt8) (maximumBytes : Option Nat) :
    ReparseResult RootedLinkTargetRead := do
  let fields ← parseSymbolicLinkFields buffer
  let (start, stop) ←
    wideRange fields.recordLength fields.substituteOffset fields.substituteLength
  let targetBytes ← subtract stop start
  if ∃ maximum ∈ maximumBytes, maximum < targetBytes then .ok (.exceeded targetBytes)
  else do
    let units ←
      readWideRange buffer fields.recordLength fields.substituteOffset fields.substituteLength
    .ok (.target units fields.flags)

def normalizeRootedLinkTarget (rawPath : WideString) (flags : UInt32) : ReparseResult WideString :=
  normalizeSymbolicLinkTarget rawPath flags

end LocalFiles.Reparse
