import Mathlib.Data.List.Basic

/-!
# Utf16 — UTF-16 over lists of code units

`decodeUtf16` reads code units of any kind: a pair of surrogates stands for one scalar, and an
unpaired surrogate is reported where it stands.  No unit is lost, so the units can be read off the
decoded items again.
-/

namespace LocalFiles.Utf16

/-! ## 1. Surrogates -/

def isLeading (unit : UInt16) : Bool := 0xD800 ≤ unit.toNat && unit.toNat ≤ 0xDBFF

def isTrailing (unit : UInt16) : Bool := 0xDC00 ≤ unit.toNat && unit.toNat ≤ 0xDFFF

def isSurrogate (unit : UInt16) : Bool := 0xD800 ≤ unit.toNat && unit.toNat ≤ 0xDFFF

theorem isLeading_iff {unit : UInt16} :
    isLeading unit = true ↔ 0xD800 ≤ unit.toNat ∧ unit.toNat ≤ 0xDBFF := by
  simp only [isLeading, Bool.and_eq_true, decide_eq_true_eq]

theorem isTrailing_iff {unit : UInt16} :
    isTrailing unit = true ↔ 0xDC00 ≤ unit.toNat ∧ unit.toNat ≤ 0xDFFF := by
  simp only [isTrailing, Bool.and_eq_true, decide_eq_true_eq]

theorem isSurrogate_iff {unit : UInt16} :
    isSurrogate unit = true ↔ 0xD800 ≤ unit.toNat ∧ unit.toNat ≤ 0xDFFF := by
  simp only [isSurrogate, Bool.and_eq_true, decide_eq_true_eq]

/-- The scalar that a leading and a trailing surrogate stand for. -/
def scalarOfPair (leading trailing : UInt16) : Char :=
  Char.ofNat (0x10000 + (leading.toNat - 0xD800) * 0x400 + (trailing.toNat - 0xDC00))

/-! ## 2. Encoding and decoding -/

def encodeChar (c : Char) : List UInt16 :=
  if c.toNat < 0x10000 then [UInt16.ofNat c.toNat]
  else [UInt16.ofNat (0xD800 + (c.toNat - 0x10000) / 0x400),
    UInt16.ofNat (0xDC00 + (c.toNat - 0x10000) % 0x400)]

/-- `str::encode_utf16`. -/
def encodeUtf16 (text : List Char) : List UInt16 := text.flatMap encodeChar

/-- `char::decode_utf16`.  A unit behind an unpaired leading surrogate is read again. -/
def decodeUtf16 : List UInt16 → List (Except UInt16 Char)
  | [] => []
  | unit :: rest =>
    if !isSurrogate unit then .ok (Char.ofNat unit.toNat) :: decodeUtf16 rest
    else if isTrailing unit then .error unit :: decodeUtf16 rest
    else match rest with
      | [] => [.error unit]
      | following :: rest =>
        if isTrailing following then .ok (scalarOfPair unit following) :: decodeUtf16 rest
        else .error unit :: decodeUtf16 (following :: rest)

/-- The units that an item was read from. -/
def itemUnits : Except UInt16 Char → List UInt16
  | .ok c => encodeChar c
  | .error surrogate => [surrogate]

/-! ## 3. Scalars and their units -/

theorem toNat_ofNat {n : Nat} (h : n < 0xD800 ∨ (0xDFFF < n ∧ n < 0x110000)) :
    (Char.ofNat n).toNat = n := by
  have hvalid : n.isValidChar := by
    unfold Nat.isValidChar
    omega
  unfold Char.ofNat
  rw [dif_pos hvalid]
  rfl

theorem encodeChar_ofNat {unit : UInt16} (h : isSurrogate unit = false) :
    encodeChar (Char.ofNat unit.toNat) = [unit] := by
  have hlt := unit.toNat_lt
  have hnot : ¬ (0xD800 ≤ unit.toNat ∧ unit.toNat ≤ 0xDFFF) := by
    rw [← isSurrogate_iff, h]
    decide
  have hchar := toNat_ofNat (n := unit.toNat) (by omega)
  unfold encodeChar
  rw [hchar, if_pos (by omega), UInt16.ofNat_toNat]

theorem toNat_scalarOfPair {leading trailing : UInt16} (hl : isLeading leading = true)
    (ht : isTrailing trailing = true) : (scalarOfPair leading trailing).toNat =
      0x10000 + (leading.toNat - 0xD800) * 0x400 + (trailing.toNat - 0xDC00) := by
  rw [isLeading_iff] at hl
  rw [isTrailing_iff] at ht
  exact toNat_ofNat (by omega)

theorem encodeChar_scalarOfPair {leading trailing : UInt16} (hl : isLeading leading = true)
    (ht : isTrailing trailing = true) :
    encodeChar (scalarOfPair leading trailing) = [leading, trailing] := by
  have hchar := toNat_scalarOfPair hl ht
  rw [isLeading_iff] at hl
  rw [isTrailing_iff] at ht
  have hhigh : 0xD800 + ((scalarOfPair leading trailing).toNat - 0x10000) / 0x400 =
      leading.toNat := by omega
  have hlow : 0xDC00 + ((scalarOfPair leading trailing).toNat - 0x10000) % 0x400 =
      trailing.toNat := by omega
  unfold encodeChar
  rw [if_neg (by omega), hhigh, hlow, UInt16.ofNat_toNat, UInt16.ofNat_toNat]

theorem isLeading_of_isSurrogate {unit : UInt16} (h : isSurrogate unit = true)
    (ht : ¬ isTrailing unit = true) : isLeading unit = true := by
  rw [isSurrogate_iff] at h
  rw [isTrailing_iff] at ht
  rw [isLeading_iff]
  omega

/-! ## 4. Nothing is lost -/

/-- The items of any units give the units back. -/
theorem flatMap_itemUnits_decodeUtf16 (units : List UInt16) :
    (decodeUtf16 units).flatMap itemUnits = units := by
  fun_induction decodeUtf16 units with
  | case1 => rfl
  | case2 unit rest h ih =>
    rw [Bool.not_eq_true'] at h
    rw [List.flatMap_cons, ih]
    show encodeChar (Char.ofNat unit.toNat) ++ rest = unit :: rest
    rw [encodeChar_ofNat h, List.singleton_append]
  | case3 unit rest h ht ih =>
    rw [List.flatMap_cons, ih]
    rfl
  | case4 unit h ht => rfl
  | case5 unit h ht following rest hf ih =>
    rw [Bool.not_eq_true', Bool.not_eq_false] at h
    rw [List.flatMap_cons, ih]
    show encodeChar (scalarOfPair unit following) ++ rest = unit :: following :: rest
    rw [encodeChar_scalarOfPair (isLeading_of_isSurrogate h ht) hf]
    rfl
  | case6 unit h ht following rest hf ih =>
    rw [List.flatMap_cons, ih]
    rfl

/-- Only surrogates are reported. -/
theorem isSurrogate_of_mem_decodeUtf16 {units : List UInt16} {surrogate : UInt16}
    (h : .error surrogate ∈ decodeUtf16 units) : isSurrogate surrogate = true := by
  fun_induction decodeUtf16 units with
  | case1 => cases h
  | case2 unit rest hs ih =>
    rcases List.mem_cons.mp h with heq | hmem
    · cases heq
    · exact ih hmem
  | case3 unit rest hs ht ih =>
    rw [Bool.not_eq_true', Bool.not_eq_false] at hs
    rcases List.mem_cons.mp h with heq | hmem
    · cases heq
      exact hs
    · exact ih hmem
  | case4 unit hs ht =>
    rw [Bool.not_eq_true', Bool.not_eq_false] at hs
    cases List.mem_singleton.mp h
    exact hs
  | case5 unit hs ht following rest hf ih =>
    rcases List.mem_cons.mp h with heq | hmem
    · cases heq
    · exact ih hmem
  | case6 unit hs ht following rest hf ih =>
    rw [Bool.not_eq_true', Bool.not_eq_false] at hs
    rcases List.mem_cons.mp h with heq | hmem
    · cases heq
      exact hs
    · exact ih hmem

/-- A unit that is no trailing surrogate is read on its own, whatever stands before it. -/
theorem decodeUtf16_append (units : List UInt16) {unit : UInt16} (h : ¬ isTrailing unit = true)
    (rest : List UInt16) :
    decodeUtf16 (units ++ unit :: rest) = decodeUtf16 units ++ decodeUtf16 (unit :: rest) := by
  fun_induction decodeUtf16 units with
  | case1 => rfl
  | case2 first more hs ih =>
    rw [List.cons_append, List.cons_append, ← ih]
    conv_lhs => unfold decodeUtf16
    rw [if_pos hs]
  | case3 first more hs ht ih =>
    rw [List.cons_append, List.cons_append, ← ih]
    conv_lhs => unfold decodeUtf16
    rw [if_neg hs, if_pos ht]
  | case4 first hs ht =>
    rw [List.cons_append, List.nil_append]
    conv_lhs => unfold decodeUtf16
    rw [if_neg hs, if_neg ht]
    exact if_neg h
  | case5 first hs ht following more hf ih =>
    rw [List.cons_append, List.cons_append, List.cons_append, ← ih]
    conv_lhs => unfold decodeUtf16
    rw [if_neg hs, if_neg ht]
    exact if_pos hf
  | case6 first hs ht following more hf ih =>
    rw [List.cons_append, List.cons_append, List.cons_append, ← List.cons_append, ← ih]
    conv_lhs => unfold decodeUtf16
    rw [if_neg hs, if_neg ht]
    exact if_neg hf

theorem decodeUtf16_pair {leading trailing : UInt16} (hl : isLeading leading = true)
    (ht : isTrailing trailing = true) (rest : List UInt16) :
    decodeUtf16 (leading :: trailing :: rest) =
      .ok (scalarOfPair leading trailing) :: decodeUtf16 rest := by
  have hsurrogate : isSurrogate leading = true := by
    rw [isLeading_iff] at hl
    rw [isSurrogate_iff]
    omega
  have hnot : ¬ isTrailing leading = true := by
    rw [isLeading_iff] at hl
    rw [isTrailing_iff]
    omega
  conv_lhs => unfold decodeUtf16
  rw [hsurrogate, if_neg (by decide), if_neg hnot]
  exact if_pos ht

end LocalFiles.Utf16
