import Mathlib.Data.List.Basic

/-!
# Utf8 — UTF-8 over lists of bytes

A text is the list of its scalars.  `encode` gives its bytes, `fromUtf8` validates bytes and
reports, as an incremental decoder needs it, the length of the longest valid prefix and the
length of the invalid sequence behind it.
-/

namespace LocalFiles.Utf8

/-! ## 1. Encoding -/

def encode (text : List Char) : List UInt8 := text.flatMap String.utf8EncodeChar

@[simp] theorem encode_nil : encode [] = [] := rfl

@[simp] theorem encode_cons (c : Char) (text : List Char) :
    encode (c :: text) = String.utf8EncodeChar c ++ encode text := rfl

@[simp] theorem encode_append (text more : List Char) :
    encode (text ++ more) = encode text ++ encode more := by
  unfold encode
  rw [List.flatMap_append]

/-- An ASCII scalar is its own byte. -/
theorem utf8EncodeChar_ascii {c : Char} (h : c.toNat ≤ 0x7F) :
    String.utf8EncodeChar c = [UInt8.ofNat c.toNat] := by
  unfold String.utf8EncodeChar
  rw [if_pos (show c.val.toNat ≤ 0x7F from h)]
  rfl

/-- The bytes of every other scalar are outside ASCII. -/
theorem utf8EncodeChar_high {c : Char} (h : 0x7F < c.toNat) :
    ∀ b ∈ String.utf8EncodeChar c, 0x80 ≤ b.toNat := by
  have hc : 0x7F < c.val.toNat := h
  have hlt : c.val.toNat < 0x110000 := by
    have hvalid := c.valid
    unfold UInt32.isValidChar Nat.isValidChar at hvalid
    omega
  unfold String.utf8EncodeChar
  simp only [if_neg (show ¬ c.val.toNat ≤ 0x7F by omega)]
  intro b hb
  split at hb
  all_goals
    try split at hb
    all_goals
      simp only [List.mem_cons, List.not_mem_nil, or_false] at hb
      rcases hb with rfl | rfl | rfl | rfl <;> simp only [UInt8.toNat_ofNat'] <;> omega

/-! ## 2. Validation -/

/-- The scalar at the start of the bytes, if they start with one. -/
def decodeFirst (bytes : List UInt8) : Option Char := bytes.toByteArray.utf8DecodeChar? 0

theorem decodeFirst_encode (c : Char) (bytes : List UInt8) :
    decodeFirst (String.utf8EncodeChar c ++ bytes) = some c := by
  unfold decodeFirst
  rw [List.toByteArray_append]
  exact ByteArray.utf8DecodeChar?_utf8EncodeChar_append

theorem decodeFirst_eq_some {bytes : List UInt8} {c : Char} (h : decodeFirst bytes = some c) :
    bytes = String.utf8EncodeChar c ++ bytes.drop c.utf8Size := by
  have hsplit := ByteArray.eq_of_utf8DecodeChar?_eq_some h
  have hlist := congrArg (fun b : ByteArray => b.data.toList) hsplit
  simp only [ByteArray.data_append, Array.toList_append, List.toList_data_toByteArray,
    ByteArray.data_extract, Array.toList_extract, List.extract_eq_take_drop,
    List.size_toByteArray] at hlist
  rwa [List.take_of_length_le (Nat.le_of_eq List.length_drop)] at hlist

/-- The number of bytes a sequence has by its first byte. -/
def utf8CharWidth (first : UInt8) : Nat :=
  if first < 0x80 then 1
  else if 0xC2 ≤ first && first ≤ 0xDF then 2
  else if 0xE0 ≤ first && first ≤ 0xEF then 3
  else if 0xF0 ≤ first && first ≤ 0xF4 then 4
  else 0

def isTail (byte : UInt8) : Bool := 0x80 ≤ byte && byte ≤ 0xBF

/-- Whether `second` can follow `first` in a sequence of three or four bytes. -/
def followsFirst (first second : UInt8) : Bool :=
  if first = 0xE0 then 0xA0 ≤ second && second ≤ 0xBF
  else if first = 0xED then 0x80 ≤ second && second ≤ 0x9F
  else if first = 0xF0 then 0x90 ≤ second && second ≤ 0xBF
  else if first = 0xF4 then 0x80 ≤ second && second ≤ 0x8F
  else isTail second

/-- The position of the first byte that is no continuation byte, counted from `seen`. -/
def tailsBefore (seen : Nat) : List UInt8 → Option Nat
  | [] => none
  | byte :: rest => if isTail byte then tailsBefore (seen + 1) rest else some seen

/-- The length of the invalid sequence at the start of bytes that start with no scalar, or nothing
    where the bytes end within a sequence. -/
def invalidLength : List UInt8 → Option Nat
  | [] => none
  | first :: rest =>
    if utf8CharWidth first < 2 then some 1
    else match rest with
      | [] => none
      | second :: rest => if followsFirst first second then tailsBefore 2 rest else some 1

structure Utf8Error where
  validUpTo : Nat
  errorLen : Option Nat
  deriving DecidableEq, Repr

/-- The validation from `offset` on. -/
def fromUtf8At (offset : Nat) (bytes : List UInt8) : Except Utf8Error (List Char) :=
  if bytes.isEmpty then .ok []
  else
    match _hfirst : decodeFirst bytes with
    | none => .error ⟨offset, invalidLength bytes⟩
    | some c => (fromUtf8At (offset + c.utf8Size) (bytes.drop c.utf8Size)).map (c :: ·)
termination_by bytes.length
decreasing_by
  have hsplit := congrArg List.length (decodeFirst_eq_some _hfirst)
  rw [List.length_append, String.length_utf8EncodeChar] at hsplit
  have hpos := c.utf8Size_pos
  omega

/-- `std::str::from_utf8`, with the scalars of the valid string. -/
def fromUtf8 (bytes : List UInt8) : Except Utf8Error (List Char) := fromUtf8At 0 bytes

theorem fromUtf8At_nil (offset : Nat) : fromUtf8At offset [] = .ok [] := by
  unfold fromUtf8At
  rfl

/-- Validation takes one scalar off the start. -/
theorem fromUtf8At_char (c : Char) (bytes : List UInt8) (offset : Nat) :
    fromUtf8At offset (String.utf8EncodeChar c ++ bytes) =
      (fromUtf8At (offset + c.utf8Size) bytes).map (c :: ·) := by
  have hne : (String.utf8EncodeChar c ++ bytes).isEmpty = false := by
    have hlen := String.length_utf8EncodeChar c
    have hpos := c.utf8Size_pos
    rw [List.isEmpty_eq_false_iff, ← List.length_pos_iff, List.length_append]
    omega
  have hdrop : (String.utf8EncodeChar c ++ bytes).drop c.utf8Size = bytes := by
    rw [← String.length_utf8EncodeChar c, List.drop_left]
  conv_lhs => unfold fromUtf8At
  rw [hne, if_neg (by decide)]
  split
  next h =>
    rw [decodeFirst_encode] at h
    cases h
  next c' h =>
    rw [decodeFirst_encode] at h
    obtain rfl := Option.some.inj h
    rw [hdrop]

theorem fromUtf8At_encode (text : List Char) (offset : Nat) :
    fromUtf8At offset (encode text) = .ok text := by
  induction text generalizing offset with
  | nil => exact fromUtf8At_nil offset
  | cons c text ih =>
    rw [encode_cons, fromUtf8At_char, ih]
    rfl

/-- Bytes that start with no scalar end the valid text before them. -/
theorem fromUtf8At_invalid (text : List Char) (offset : Nat) {rest : List UInt8} (hne : rest ≠ [])
    (h : decodeFirst rest = none) :
    fromUtf8At offset (encode text ++ rest) =
      .error ⟨offset + (encode text).length, invalidLength rest⟩ := by
  induction text generalizing offset with
  | nil =>
    rw [encode_nil, List.nil_append]
    conv_lhs => unfold fromUtf8At
    rw [if_neg (by rwa [List.isEmpty_iff])]
    split
    next => rfl
    next c hfirst =>
      rw [h] at hfirst
      cases hfirst
  | cons c text ih =>
    rw [encode_cons, List.append_assoc, fromUtf8At_char, ih, List.length_append,
      String.length_utf8EncodeChar, Nat.add_assoc]
    rfl

/-- What validation finds: either the bytes encode the text, or they start with a valid prefix of
    the reported length that nothing valid follows. -/
theorem fromUtf8At_spec (offset : Nat) (bytes : List UInt8) :
    (∀ text, fromUtf8At offset bytes = .ok text → bytes = encode text) ∧
    ∀ e, fromUtf8At offset bytes = .error e → ∃ valid rest, bytes = encode valid ++ rest ∧
      e.validUpTo = offset + (encode valid).length ∧ rest ≠ [] ∧
      e.errorLen = invalidLength rest := by
  induction offset, bytes using fromUtf8At.induct with
  | case1 offset bytes h =>
    obtain rfl := List.isEmpty_iff.mp h
    rw [fromUtf8At_nil]
    constructor
    · rintro text ⟨⟩
      rfl
    · rintro e ⟨⟩
  -- the first character is invalid
  | case2 offset bytes hne hnone =>
    unfold fromUtf8At
    rw [if_neg hne]
    split
    · constructor
      · rintro text ⟨⟩
      · rintro e ⟨⟩
        refine ⟨[], bytes, rfl, rfl, ?_, rfl⟩
        rwa [List.isEmpty_iff] at hne
    · rename_i c h
      rw [hnone] at h
      cases h
  | case3 offset bytes hne c hfirst ih =>
    -- a valid character goes to the front of what the rest gives
    have hbytes := decodeFirst_eq_some hfirst
    unfold fromUtf8At
    rw [if_neg hne]
    split
    · rename_i h
      rw [hfirst] at h
      cases h
    · rename_i c' h
      obtain rfl := Option.some.inj (hfirst.symm.trans h)
      cases hrest : fromUtf8At (offset + c.utf8Size) (bytes.drop c.utf8Size) with
      | ok text =>
        constructor
        · rintro text' ⟨⟩
          rw [encode_cons, ← ih.1 text hrest, ← hbytes]
        · rintro e ⟨⟩
      | error e =>
        constructor
        · rintro text' ⟨⟩
        · rintro e' ⟨⟩
          obtain ⟨valid, rest, hvalid, hupto, hrestne, hlen⟩ := ih.2 e hrest
          refine ⟨c :: valid, rest, ?_, ?_, hrestne, hlen⟩
          · rw [encode_cons, List.append_assoc, ← hvalid, ← hbytes]
          · rw [encode_cons, List.length_append, String.length_utf8EncodeChar, hupto]
            omega

theorem fromUtf8_encode (text : List Char) : fromUtf8 (encode text) = .ok text :=
  fromUtf8At_encode text 0

theorem encode_of_fromUtf8 {bytes : List UInt8} {text : List Char}
    (h : fromUtf8 bytes = .ok text) : encode text = bytes :=
  ((fromUtf8At_spec 0 bytes).1 text h).symm

theorem tailsBefore_bounds (seen : Nat) (bytes : List UInt8) {k : Nat}
    (h : tailsBefore seen bytes = some k) : seen ≤ k ∧ k < seen + bytes.length := by
  induction bytes generalizing seen with
  | nil => cases h
  | cons byte rest ih =>
    unfold tailsBefore at h
    rw [List.length_cons]
    split at h
    · have hrest := ih (seen + 1) h
      omega
    · obtain rfl := Option.some.inj h
      omega

/-- The invalid sequence is within the bytes and not empty; a truncated one counts for a byte. -/
theorem invalidLength_bounds {bytes : List UInt8} (h : bytes ≠ []) :
    1 ≤ (invalidLength bytes).getD 1 ∧ (invalidLength bytes).getD 1 ≤ bytes.length := by
  have hpos := List.length_pos_iff.mpr h
  cases hlen : invalidLength bytes with
  | none => exact ⟨Nat.le_refl 1, hpos⟩
  | some k =>
    rw [Option.getD_some]
    unfold invalidLength at hlen
    split at hlen
    · cases hlen
    · split at hlen
      · obtain rfl := Option.some.inj hlen
        omega
      · split at hlen
        · cases hlen
        · split at hlen
          · have hbounds := tailsBefore_bounds 2 _ hlen
            simp only [List.length_cons]
            omega
          · obtain rfl := Option.some.inj hlen
            omega

/-- The contract of a failed validation. -/
theorem fromUtf8_error {bytes : List UInt8} {e : Utf8Error} (h : fromUtf8 bytes = .error e) :
    ∃ valid, fromUtf8 (bytes.take e.validUpTo) = .ok valid ∧
      bytes.take e.validUpTo = encode valid ∧
      1 ≤ e.errorLen.getD 1 ∧ e.validUpTo + e.errorLen.getD 1 ≤ bytes.length := by
  obtain ⟨valid, rest, rfl, hupto, hne, hlen⟩ := (fromUtf8At_spec 0 bytes).2 e h
  have htake : (encode valid ++ rest).take e.validUpTo = encode valid := by
    rw [hupto, Nat.zero_add, List.take_left]
  have hbounds := invalidLength_bounds hne
  refine ⟨valid, ?_, htake, ?_, ?_⟩
  · rw [htake, fromUtf8_encode]
  · rw [hlen]
    exact hbounds.1
  · rw [hlen, hupto, List.length_append]
    omega

end LocalFiles.Utf8
