import Mathlib.Data.List.Dedup
import Mathlib.Data.List.Sort
import LocalFiles.Types
import LocalFiles.Pieces
import LocalFiles.Interaction

/-!
# ExtendedMetadata — the extended attributes of a replacement

`preserve_extended_metadata` makes the attributes of the staging file those of the file it will
replace.  The kernel does not say how much it would have written into a small buffer, so a list or
a value is measured by one call and read by a second, and another process may write in between.
-/

namespace LocalFiles.ExtendedMetadata

open Interaction

/-! ## 1. Calls -/

abbrev Name := List UInt8
abbrev Value := List UInt8

inductive File where
  | source | staging
  deriving DecidableEq, Repr

/-- A name without the NUL that ends it. -/
structure CString where
  bytes : List UInt8
  noNul : 0 ∉ bytes
  deriving DecidableEq, Repr

/-- Only the staging file is written. -/
inductive XattrCall where
  | queryXattrListLength (file : File)
  | readXattrList (file : File) (capacity : Nat)
  | queryXattrValueLength (file : File) (name : CString)
  | readXattrValue (file : File) (name : CString) (capacity : Nat)
  | setXattr (name : CString) (value : Value)
  | removeXattr (name : CString)
  deriving DecidableEq, Repr

/-- A read answers with its count, and with what it wrote at the front of the buffer. -/
def XattrCall.Result : XattrCall → Type
  | .queryXattrListLength _ => IoResult Nat
  | .readXattrList _ _ => IoResult (Nat × List UInt8)
  | .queryXattrValueLength _ _ => IoResult Nat
  | .readXattrValue _ _ _ => IoResult (Nat × List UInt8)
  | .setXattr _ _ => IoResult Unit
  | .removeXattr _ => IoResult Unit

abbrev XattrM (α : Type) := Prog XattrCall XattrCall.Result α

abbrev XattrEvent := Event XattrCall XattrCall.Result

def xattrCall (c : XattrCall) : XattrM c.Result := Prog.request c
def queryXattrListLength (file : File) : XattrM (IoResult Nat) :=
  xattrCall (.queryXattrListLength file)
def readXattrList (file : File) (capacity : Nat) : XattrM (IoResult (Nat × List UInt8)) :=
  xattrCall (.readXattrList file capacity)
def queryXattrValueLength (file : File) (name : CString) : XattrM (IoResult Nat) :=
  xattrCall (.queryXattrValueLength file name)
def readXattrValue (file : File) (name : CString) (capacity : Nat) :
    XattrM (IoResult (Nat × List UInt8)) := xattrCall (.readXattrValue file name capacity)

/-! ## 2. Errors -/

def erange : Nat := 34
def enodata : Nat := 61
def enotsup : Nat := 95
def eopnotsupp : Nat := 95

def IsMissingXattr (error : IoError) : Prop := error.osCode = some enodata

def IsNotSupported (error : IoError) : Prop :=
  error.osCode = some enotsup ∨ error.osCode = some eopnotsupp

instance (error : IoError) : Decidable (IsMissingXattr error) := by
  unfold IsMissingXattr
  infer_instance

instance (error : IoError) : Decidable (IsNotSupported error) := by
  unfold IsNotSupported
  infer_instance

/-- `Error::from_raw_os_error(ERANGE)` -/
def rangeError : IoError :=
  ⟨.uncategorized, "Numerical result out of range (os error 34)", some erange⟩

def nameContainsNul : IoError := ⟨.invalidData, "extended-attribute name contains NUL", none⟩

def disappeared : IoError :=
  ⟨.notFound, "source extended attribute disappeared during preservation", none⟩

def nativeName (name : List UInt8) : IoResult CString :=
  if h : 0 ∈ name then .error nameContainsNul else .ok ⟨name, h⟩

/-! ## 3. Names -/

/-- `vec![0; length]` after a call that wrote `bytes` at its front. -/
def filled (length : Nat) (bytes : List UInt8) : List UInt8 :=
  bytes.take length ++ List.replicate (length - bytes.length) 0

/-- A `BTreeSet` of names is the sorted list of them. -/
def parseXattrNames (buffer : List UInt8) : List Name :=
  (pieces (· == 0) buffer).dedup.insertionSort (· ≤ ·)

/-- The bytes of `security.`. -/
def securityNamespace : List UInt8 := [115, 101, 99, 117, 114, 105, 116, 121, 46]

def isSecurity (name : Name) : Bool := securityNamespace.isPrefixOf name

def orderedNames (names : List Name) : List Name :=
  names.filter (fun name => !isSecurity name) ++ names.filter isSecurity

def difference (names others : List Name) : List Name := names.filter fun name => name ∉ others

/-! ## 4. Lists and values -/

def xattrSizeRaceAttempts : Nat := 8

/-- One attempt of `list_xattrs`; `again` follows where the list outgrew its buffer. -/
def listAttempt (file : File) (again : IoError → XattrM (IoResult (List Name))) :
    XattrM (IoResult (List Name)) := do
  match ← queryXattrListLength file with
  | .ok 0 => pure (.ok [])
  | .ok length =>
    match ← readXattrList file length with
    | .ok (read, bytes) => pure (.ok (parseXattrNames ((filled length bytes).take read)))
    | .error error =>
      if error.osCode = some erange then again error else pure (.error error)
  | .error error => if IsNotSupported error then pure (.ok []) else pure (.error error)

/-- The loop of `list_xattrs`, with the attempts left after this one. -/
def listLoop (file : File) : Nat → XattrM (IoResult (List Name))
  | 0 => listAttempt file fun error => pure (.error error)
  | remaining + 1 => listAttempt file fun _ => listLoop file remaining

def listXattrs (file : File) : XattrM (IoResult (List Name)) :=
  listLoop file (xattrSizeRaceAttempts - 1)

/-- The arms for the read of a value into a buffer of `length` bytes.  A buffer of none only
    measures: a larger count says that the value has grown. -/
def takeValue (length : Nat) (again : IoError → XattrM (IoResult (Option Value))) :
    IoResult (Nat × List UInt8) → XattrM (IoResult (Option Value))
  | .ok (read, bytes) =>
    if read ≤ length then pure (.ok (some ((filled length bytes).take read)))
    else again rangeError
  | .error error =>
    if error.osCode = some erange then again error
    else if IsMissingXattr error then pure (.ok none)
    else pure (.error error)

/-- One attempt of `get_xattr_inner`. -/
def getAttempt (file : File) (name : CString) (again : IoError → XattrM (IoResult (Option Value))) :
    XattrM (IoResult (Option Value)) := do
  match ← queryXattrValueLength file name with
  | .ok length =>
    let answer ← readXattrValue file name length
    takeValue length again answer
  | .error error => if IsMissingXattr error then pure (.ok none) else pure (.error error)

/-- The loop of `get_xattr_inner`, with the attempts left after this one. -/
def getLoop (file : File) (name : CString) : Nat → XattrM (IoResult (Option Value))
  | 0 => getAttempt file name fun error => pure (.error error)
  | remaining + 1 => getAttempt file name fun _ => getLoop file name remaining

def getXattrInner (file : File) (name : Name) : XattrM (IoResult (Option Value)) :=
  match nativeName name with
  | .error error => pure (.error error)
  | .ok name => getLoop file name (xattrSizeRaceAttempts - 1)

def getXattr (file : File) (name : Name) : XattrM (IoResult Value) :=
  (getXattrInner file name).andThen fun
    | some value => pure (.ok value)
    | none => pure (.error disappeared)

def getOptionalXattr (file : File) (name : Name) : XattrM (IoResult (Option Value)) :=
  getXattrInner file name

def setXattr (name : Name) (value : Value) : XattrM (IoResult Unit) :=
  match nativeName name with
  | .error error => pure (.error error)
  | .ok name => xattrCall (.setXattr name value)

def removeXattr (name : Name) : XattrM (IoResult Unit) :=
  match nativeName name with
  | .error error => pure (.error error)
  | .ok name => do
    let answer : IoResult Unit ← xattrCall (.removeXattr name)
    match answer with
    | .ok () => pure (.ok ())
    | .error error => if IsMissingXattr error then pure (.ok ()) else pure (.error error)

/-! ## 5. The preservation -/

/-- The loop over the names that only the staging file has. -/
def removeNames : List Name → XattrM (IoResult Unit)
  | [] => pure (.ok ())
  | name :: rest => (removeXattr name).andThen fun () => removeNames rest

def copyName (name : Name) : XattrM (IoResult Unit) :=
  (getXattr .source name).andThen fun sourceValue =>
  (getOptionalXattr .staging name).andThen fun stagingValue =>
    if stagingValue ≠ some sourceValue then setXattr name sourceValue else pure (.ok ())

/-- The loop over the ordered names of the source. -/
def copyNames : List Name → XattrM (IoResult Unit)
  | [] => pure (.ok ())
  | name :: rest => (copyName name).andThen fun () => copyNames rest

def preserveExtendedMetadata : XattrM (IoResult Unit) :=
  (listXattrs .source).andThen fun sourceNames =>
  (listXattrs .staging).andThen fun stagingNames =>
  (removeNames (difference stagingNames sourceNames)).andThen fun () =>
    copyNames (orderedNames sourceNames)

/-! ## 6. The kernel, and another process -/

/-- The attributes of a file, in the order in which they are listed.  The kernel refuses the empty
    name. -/
structure Attributes where
  value : Name → Option Value
  names : List Name
  listed : ∀ name, name ∈ names ↔ value name ≠ none
  named : ∀ name ∈ names, name ≠ [] ∧ 0 ∉ name

def Attributes.insert (attributes : Attributes) (name : Name) (value : Value)
    (hnamed : name ≠ [] ∧ 0 ∉ name) : Attributes where
  value := Function.update attributes.value name (some value)
  names := name :: attributes.names
  listed other := by
    by_cases hother : other = name
    · simp [hother]
    · simp [hother, attributes.listed]
  named := List.forall_mem_cons.mpr ⟨hnamed, attributes.named⟩

def Attributes.erase (attributes : Attributes) (name : Name) : Attributes where
  value := Function.update attributes.value name none
  names := attributes.names.filter (· ≠ name)
  listed other := by
    by_cases hother : other = name
    · simp [hother]
    · simp [hother, attributes.listed]
  named other hother := attributes.named other (List.mem_of_mem_filter hother)

/-- Names as `flistxattr` writes them. -/
def Attributes.listing (attributes : Attributes) : List UInt8 :=
  attributes.names.flatMap fun name => name ++ [0]

/-- The two files and what happened to them.  `past` are the attributes that the source no longer
    has, `written` those that were set on the staging file.  `failed` records a call that failed,
    `changed` that another process wrote to the source, `gone` that an attribute of the source was
    looked up and not found. -/
structure World where
  source : Attributes
  staging : Attributes
  past : List Attributes := []
  written : List (Name × Value) := []
  failed : Bool := false
  changed : Bool := false
  gone : Bool := false

/-- The attributes that the source had at some moment. -/
def World.moments (w : World) : List Attributes := w.source :: w.past

def World.file (w : World) : File → Attributes
  | .source => w.source
  | .staging => w.staging

/-- A lookup that finds nothing. -/
def World.lost (w : World) : File → World
  | .source => { w with gone := true }
  | .staging => w

/-- The calls of the kernel that fill a buffer.  A buffer of no bytes is only measured. -/
inductive Fills (capacity : Nat) (bytes : List UInt8) : IoResult (Nat × List UInt8) → Prop
  | measures (hcapacity : capacity = 0) : Fills capacity bytes (.ok (bytes.length, []))
  | writes (hfits : bytes.length ≤ capacity) : Fills capacity bytes (.ok (bytes.length, bytes))
  | outgrown {error : IoError} (hpositive : 0 < capacity) (hlarger : capacity < bytes.length)
      (herror : error.osCode = some erange) : Fills capacity bytes (.error error)

/-- `ENODATA` -/
def Misses {α : Type} (answer : IoResult α) : Prop :=
  ∃ error, IsMissingXattr error ∧ answer = .error error

/-- A call that the kernel serves, and what it does to the files. -/
def Serves (w : World) : (c : XattrCall) → c.Result → World → Prop
  | .queryXattrListLength file, answer, w' => w' = w ∧
      (answer = .ok (w.file file).listing.length ∨
        (w.file file).names = [] ∧ ∃ error, IsNotSupported error ∧ answer = .error error)
  | .readXattrList file capacity, answer, w' => w' = w ∧ Fills capacity (w.file file).listing answer
  | .queryXattrValueLength file name, answer, w' =>
    match (w.file file).value name.bytes with
    | some value => w' = w ∧ answer = .ok value.length
    | none => w' = w.lost file ∧ Misses answer
  | .readXattrValue file name capacity, answer, w' =>
    match (w.file file).value name.bytes with
    | some value => w' = w ∧ Fills capacity value answer
    | none => w' = w.lost file ∧ Misses answer
  | .setXattr name value, answer, w' => answer = .ok () ∧ ∃ attributes : Attributes,
      attributes.value = Function.update w.staging.value name.bytes (some value) ∧
      w' = { w with staging := attributes, written := w.written ++ [(name.bytes, value)] }
  | .removeXattr name, answer, w' =>
    match w.staging.value name.bytes with
    | some _ => answer = .ok () ∧ ∃ attributes : Attributes,
        attributes.value = Function.update w.staging.value name.bytes none ∧
        w' = { w with staging := attributes }
    | none => w' = w ∧ Misses answer

def XattrCall.refused : (c : XattrCall) → IoError → c.Result
  | .queryXattrListLength _, error => .error error
  | .readXattrList _ _, error => .error error
  | .queryXattrValueLength _ _, error => .error error
  | .readXattrValue _ _ _, error => .error error
  | .setXattr _ _, error => .error error
  | .removeXattr _, error => .error error

/-- What a call sets, if it is one that does. -/
def XattrCall.sets : XattrCall → List (Name × Value)
  | .setXattr name value => [(name.bytes, value)]
  | _ => []

/-- A call that fails may have had any effect on the staging file. -/
def Fails (w : World) (c : XattrCall) (answer : c.Result) (w' : World) : Prop :=
  ∃ error staging, answer = c.refused error ∧
    w' = { w with staging := staging, written := w.written ++ c.sets, failed := true }

/-- Before a call another process may give the source any attributes. -/
inductive Competes (w : World) : World → Prop
  | rests : Competes w w
  | replaces (source : Attributes) :
      Competes w { w with source := source, past := w.moments, changed := true }

def Racing (w : World) (c : XattrCall) (answer : c.Result) (w' : World) : Prop :=
  ∃ mid, Competes w mid ∧ (Serves mid c answer w' ∨ Fails mid c answer w')

end LocalFiles.ExtendedMetadata
