import Mathlib.Algebra.Order.Ring.Nat
import Mathlib.Data.List.Basic

/-!
# LittleEndian — numbers and units in a buffer of bytes

A number is written with its lowest byte first.  A record is written field by field into a buffer
that is zero, so what is written so far is a front of it, and what is to come is zero still.
-/

namespace LocalFiles

variable {α : Type}

/-! ## 1. Numbers -/

/-- The lowest bytes of a number, the lowest first. -/
def leBytes : Nat → Nat → List UInt8
  | 0, _ => []
  | width + 1, n => UInt8.ofNat n :: leBytes width (n / 256)

def ofLeBytes : List UInt8 → Nat
  | [] => 0
  | byte :: bytes => byte.toNat + 256 * ofLeBytes bytes

@[simp] theorem length_leBytes (width n : Nat) : (leBytes width n).length = width := by
  induction width generalizing n with
  | zero => rfl
  | succ width ih => rw [leBytes, List.length_cons, ih]

theorem ofLeBytes_leBytes (width n : Nat) : ofLeBytes (leBytes width n) = n % 256 ^ width := by
  induction width generalizing n with
  | zero => rw [Nat.pow_zero, Nat.mod_one]; rfl
  | succ width ih =>
    have hbyte : (UInt8.ofNat n).toNat = n % 256 := UInt8.toNat_ofNat'
    have hpow : 256 ^ (width + 1) = 256 * 256 ^ width := Nat.pow_succ'
    rw [leBytes, ofLeBytes, ih, hbyte, hpow, Nat.mod_mul]

/-! ## 2. Units -/

/-- UTF-16 units as bytes. -/
def unitBytes (units : List UInt16) : List UInt8 := units.flatMap fun u => leBytes 2 u.toNat

/-- `chunks_exact(2)`: an odd byte at the end is no unit. -/
def unitsOf : List UInt8 → List UInt16
  | low :: high :: bytes => UInt16.ofNat (ofLeBytes [low, high]) :: unitsOf bytes
  | _ => []

@[simp] theorem length_unitBytes (units : List UInt16) :
    (unitBytes units).length = 2 * units.length := by
  induction units with
  | nil => rfl
  | cons u units ih =>
    rw [unitBytes, List.flatMap_cons, List.length_append, length_leBytes, List.length_cons]
    unfold unitBytes at ih
    omega

theorem ofNat_leBytes (u : UInt16) : UInt16.ofNat (ofLeBytes (leBytes 2 u.toNat)) = u := by
  have hlt : u.toNat < 256 ^ 2 := u.toNat_lt
  rw [ofLeBytes_leBytes, Nat.mod_eq_of_lt hlt, UInt16.ofNat_toNat]

theorem unitsOf_unitBytes (units : List UInt16) : unitsOf (unitBytes units) = units := by
  induction units with
  | nil => rfl
  | cons u units ih =>
    show UInt16.ofNat (ofLeBytes (leBytes 2 u.toNat)) :: unitsOf (unitBytes units) = u :: units
    rw [ofNat_leBytes, ih]

/-! ## 3. Fields -/

/-- `buffer.get(offset..offset + width)` -/
def fieldAt? (buffer : List α) (offset width : Nat) : Option (List α) :=
  if offset + width ≤ buffer.length then some ((buffer.drop offset).take width) else none

/-- `buffer[start..start + bytes.len()].copy_from_slice(bytes)` -/
def copyFromSlice? (buffer : List α) (start : Nat) (bytes : List α) : Option (List α) :=
  if start + bytes.length ≤ buffer.length then
    some (buffer.take start ++ bytes ++ buffer.drop (start + bytes.length))
  else none

/-- The next field of a record that is written from its front. -/
theorem copyFromSlice?_replicate {front bytes : List α} {zero : α} {start size : Nat}
    (hstart : start = front.length) (hsize : bytes.length ≤ size) :
    copyFromSlice? (front ++ List.replicate size zero) start bytes
      = some (front ++ bytes ++ List.replicate (size - bytes.length) zero) := by
  have hfits : start + bytes.length ≤ (front ++ List.replicate size zero).length := by
    rw [List.length_append, List.length_replicate, hstart]
    omega
  unfold copyFromSlice?
  rw [if_pos hfits, hstart, List.take_left, ← List.drop_drop, List.drop_left, List.drop_replicate]

end LocalFiles
