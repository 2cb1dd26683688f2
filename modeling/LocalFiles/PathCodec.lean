import LocalFiles.Utf8
import LocalFiles.Types

/-!
# PathCodec — canonical texts of native path components

A native component is written as a text in which percent signs, controls and the bytes that are
not valid UTF-8 appear as percent escapes.  `LocalPathCodec` converts in both directions; its
decoder accepts the canonical spelling only, which it checks by encoding again.
-/

namespace LocalFiles.LocalPathCodec

open Utf8

/-! ## 1. Escapes -/

def percent : UInt8 := 0x25

/-- The value of a hexadecimal digit in either case. -/
def uppercaseHex (byte : UInt8) : Option UInt8 :=
  if 0x30 ≤ byte && byte ≤ 0x39 then some (byte - 0x30)
  else if 0x41 ≤ byte && byte ≤ 0x46 then some (byte - 0x41 + 10)
  else if 0x61 ≤ byte && byte ≤ 0x66 then some (byte - 0x61 + 10)
  else none

/-- The loop of `decode_escaped_bytes` from `index` on. -/
def decodeEscapedLoop (decoded : List UInt8) (index : Nat) :
    List UInt8 → Except LocalPathCodecError (List UInt8)
  | [] => .ok decoded
  | byte :: rest =>
    if byte ≠ percent then decodeEscapedLoop (decoded ++ [byte]) (index + 1) rest
    else match rest with
      | high :: low :: rest =>
        match uppercaseHex high, uppercaseHex low with
        | some high, some low =>
          decodeEscapedLoop (decoded ++ [(high <<< 4) ||| low]) (index + 3) rest
        | _, _ => .error (.invalidEscape index)
      | _ => .error (.invalidEscape index)

def decodeEscapedBytes (text : String) : Except LocalPathCodecError (List UInt8) :=
  decodeEscapedLoop [] 0 (encode text.toList)

/-- The digit of a nibble in upper case. -/
def hexDigit (nibble : UInt8) : Char := "0123456789ABCDEF".toList.getD nibble.toNat '0'

def pushEscapedByte (text : String) (byte : UInt8) : String :=
  ((text.push '%').push (hexDigit (byte >>> 4))).push (hexDigit (byte &&& 0x0F))

/-- The scalars of the general category Cc. -/
def isControl (scalar : Char) : Bool :=
  scalar.toNat < 0x20 || (0x7F ≤ scalar.toNat && scalar.toNat ≤ 0x9F)

def pushScalar (text : String) (scalar : Char) : String :=
  if scalar = '%' || isControl scalar then
    (String.utf8EncodeChar scalar).foldl pushEscapedByte text
  else text.push scalar

/-! ## 2. The codec on Unix -/

/-- A native string of Unix: its bytes. -/
abbrev OsStr := List UInt8

def decodeCanonicalText (text : String) : Except LocalPathCodecError OsStr :=
  match decodeEscapedBytes text with
  | .error e => .error e
  | .ok bytes => if 0 ∈ bytes then .error .nativeNul else .ok bytes

/-- The loop of the encoder: a valid prefix is copied, the invalid sequence behind it escaped. -/
def encodeLoop (encoded : String) (remaining : List UInt8) :
    Except (Halt LocalPathCodecError) String :=
  if remaining.isEmpty then .ok encoded
  else
    match _hvalid : fromUtf8 remaining with
    | .ok valid => .ok (valid.foldl pushScalar encoded)
    | .error error =>
      let validEnd := error.validUpTo
      match fromUtf8 (remaining.take validEnd) with
      | .error _ => .error (.panic "valid_up_to always identifies a valid UTF-8 prefix")
      | .ok valid =>
        let invalidLen := error.errorLen.getD 1
        if remaining.length < validEnd + invalidLen then
          .error (.panic "range end index out of range for slice")
        else
          let invalid := (remaining.drop validEnd).take invalidLen
          encodeLoop (invalid.foldl pushEscapedByte (valid.foldl pushScalar encoded))
            (remaining.drop (validEnd + invalidLen))
termination_by remaining.length
decreasing_by
  obtain ⟨-, -, -, hlen, -⟩ := fromUtf8_error _hvalid
  rw [List.length_drop]
  omega

/-- A component without anything to escape is borrowed as it is. -/
def encodeNativeText (native : OsStr) : Except (Halt LocalPathCodecError) String :=
  if 0 ∈ native then .error (.error .nativeNul)
  else match fromUtf8 native with
    | .ok valid =>
      if !valid.contains '%' && !valid.any isControl then .ok (String.ofList valid)
      else encodeLoop "" native
    | .error _ => encodeLoop "" native

def pathCodecError (error : LocalPathCodecError) : LocalFileError :=
  .fromPathCodec .composePath none error

def Halt.mapError {ε ε' : Type} (f : ε → ε') : Halt ε → Halt ε'
  | .error e => .error (f e)
  | .panic message => .panic message

def encodeComponent (component : OsStr) : Except (Halt LocalFileError) String :=
  (encodeNativeText component).mapError (Halt.mapError pathCodecError)

def decodeComponent (component : String) : Except (Halt LocalFileError) OsStr := do
  let native ← (decodeCanonicalText component).mapError (Halt.error ∘ pathCodecError)
  let canonical ← (encodeNativeText native).mapError (Halt.mapError pathCodecError)
  if canonical ≠ component then throw (.error (pathCodecError .nonCanonicalText))
  return native

/-! ## 3. What a text spells -/

/-- The decoder reads the bytes off the text, whatever stands around it. -/
def Spells (text : List Char) (bytes : List UInt8) : Prop :=
  ∀ decoded index rest, ∃ index',
    decodeEscapedLoop decoded index (encode text ++ rest) =
      decodeEscapedLoop (decoded ++ bytes) index' rest

theorem Spells.nil : Spells [] [] := by
  intro decoded index rest
  exact ⟨index, by rw [encode_nil, List.append_nil, List.nil_append]⟩

theorem Spells.append {text more : List Char} {bytes moreBytes : List UInt8}
    (h : Spells text bytes) (hmore : Spells more moreBytes) :
    Spells (text ++ more) (bytes ++ moreBytes) := by
  intro decoded index rest
  obtain ⟨mid, hmid⟩ := h decoded index (encode more ++ rest)
  obtain ⟨last, hlast⟩ := hmore (decoded ++ bytes) mid rest
  refine ⟨last, ?_⟩
  rw [encode_append, List.append_assoc, hmid, hlast, List.append_assoc]

/-- Bytes that are no percent sign are read as they stand. -/
theorem decodeEscapedLoop_literal (bytes : List UInt8) (h : percent ∉ bytes) (decoded : List UInt8)
    (index : Nat) (rest : List UInt8) :
    decodeEscapedLoop decoded index (bytes ++ rest) =
      decodeEscapedLoop (decoded ++ bytes) (index + bytes.length) rest := by
  induction bytes generalizing decoded index with
  | nil => rw [List.nil_append, List.append_nil, List.length_nil, Nat.add_zero]
  | cons byte bytes ih =>
    rw [List.mem_cons, not_or] at h
    rw [List.cons_append, List.length_cons]
    conv_lhs => unfold decodeEscapedLoop
    rw [if_pos (Ne.symm h.1), ih h.2, List.append_assoc, List.singleton_append, Nat.add_assoc,
      Nat.add_comm 1]

theorem percent_notMem_encodeChar {c : Char} (h : c ≠ '%') :
    percent ∉ String.utf8EncodeChar c := by
  intro hmem
  by_cases hascii : c.toNat ≤ 0x7F
  · rw [utf8EncodeChar_ascii hascii, List.mem_singleton] at hmem
    have hnat := congrArg UInt8.toNat hmem
    rw [UInt8.toNat_ofNat', Nat.mod_eq_of_lt (by omega)] at hnat
    apply h
    rw [← Char.ofNat_toNat c, ← hnat]
    rfl
  · have hhigh := utf8EncodeChar_high (by omega) percent hmem
    exact absurd hhigh (by decide)

theorem spells_literal {c : Char} (h : c ≠ '%') : Spells [c] (String.utf8EncodeChar c) := by
  intro decoded index rest
  refine ⟨index + (String.utf8EncodeChar c).length, ?_⟩
  rw [encode_cons, encode_nil, List.append_nil]
  exact decodeEscapedLoop_literal _ (percent_notMem_encodeChar h) decoded index rest

/-- The three scalars of an escape. -/
def escape (byte : UInt8) : List Char :=
  ['%', hexDigit (byte >>> 4), hexDigit (byte &&& 0x0F)]

theorem toList_pushEscapedByte (text : String) (byte : UInt8) :
    (pushEscapedByte text byte).toList = text.toList ++ escape byte := by
  unfold pushEscapedByte escape
  simp only [String.toList_push, List.append_assoc, List.cons_append, List.nil_append]

theorem hexDigit_spec {nibble : UInt8} (h : nibble < 16) :
    (hexDigit nibble).toNat ≤ 0x7F ∧
      uppercaseHex (UInt8.ofNat (hexDigit nibble).toNat) = some nibble := by
  have hall : ∀ n < 16, (hexDigit (UInt8.ofNat n)).toNat ≤ 0x7F ∧
      uppercaseHex (UInt8.ofNat (hexDigit (UInt8.ofNat n)).toNat) = some (UInt8.ofNat n) := by
    decide
  have hnibble := hall nibble.toNat h
  rwa [UInt8.ofNat_toNat] at hnibble

theorem encode_ascii {c : Char} (h : c.toNat ≤ 0x7F) (text : List Char) :
    encode (c :: text) = UInt8.ofNat c.toNat :: encode text := by
  rw [encode_cons, utf8EncodeChar_ascii h, List.singleton_append]

/-- The nibbles of a byte, put together again. -/
theorem nibbles (byte : UInt8) : ((byte >>> 4) <<< 4) ||| (byte &&& 0x0F) = byte := by
  have hall : ∀ n < 256, ((UInt8.ofNat n >>> 4) <<< 4) ||| (UInt8.ofNat n &&& 0x0F) =
      UInt8.ofNat n := by
    decide +kernel
  have hbyte := hall byte.toNat (UInt8.toNat_lt byte)
  rwa [UInt8.ofNat_toNat] at hbyte

theorem nibble_bounds (byte : UInt8) : byte >>> 4 < 16 ∧ byte &&& 0x0F < 16 := by
  have hall : ∀ n < 256, UInt8.ofNat n >>> 4 < 16 ∧ UInt8.ofNat n &&& 0x0F < 16 := by
    decide +kernel
  have hbyte := hall byte.toNat (UInt8.toNat_lt byte)
  rwa [UInt8.ofNat_toNat] at hbyte

theorem spells_escape (byte : UInt8) : Spells (escape byte) [byte] := by
  intro decoded index rest
  obtain ⟨hhigh, hlow⟩ := nibble_bounds byte
  obtain ⟨hhighAscii, hhighHex⟩ := hexDigit_spec hhigh
  obtain ⟨hlowAscii, hlowHex⟩ := hexDigit_spec hlow
  refine ⟨index + 3, ?_⟩
  unfold escape
  rw [encode_ascii (by decide), encode_ascii hhighAscii, encode_ascii hlowAscii, encode_nil,
    List.cons_append, List.cons_append, List.cons_append, List.nil_append]
  conv_lhs => unfold decodeEscapedLoop
  rw [if_neg (by decide)]
  simp only [hhighHex, hlowHex, nibbles]

theorem spells_escapes (bytes : List UInt8) : Spells (bytes.flatMap escape) bytes := by
  induction bytes with
  | nil => exact Spells.nil
  | cons byte bytes ih =>
    rw [List.flatMap_cons]
    exact (spells_escape byte).append ih

theorem toList_escapeAll (text : String) (bytes : List UInt8) :
    (bytes.foldl pushEscapedByte text).toList = text.toList ++ bytes.flatMap escape := by
  induction bytes generalizing text with
  | nil => rw [List.foldl_nil, List.flatMap_nil, List.append_nil]
  | cons byte bytes ih =>
    rw [List.foldl_cons, ih, toList_pushEscapedByte, List.flatMap_cons, List.append_assoc]

/-! ## 4. The encoder spells its input -/

/-- The scalars that stand for one scalar of the native text. -/
def spelling (scalar : Char) : List Char :=
  if scalar = '%' || isControl scalar then (String.utf8EncodeChar scalar).flatMap escape
  else [scalar]

theorem toList_pushScalar (text : String) (scalar : Char) :
    (pushScalar text scalar).toList = text.toList ++ spelling scalar := by
  unfold pushScalar spelling
  split
  · rw [toList_escapeAll]
  · rw [String.toList_push]

theorem toList_pushAll (text : String) (valid : List Char) :
    (valid.foldl pushScalar text).toList = text.toList ++ valid.flatMap spelling := by
  induction valid generalizing text with
  | nil => rw [List.foldl_nil, List.flatMap_nil, List.append_nil]
  | cons scalar valid ih =>
    rw [List.foldl_cons, ih, toList_pushScalar, List.flatMap_cons, List.append_assoc]

theorem spells_spelling (scalar : Char) : Spells (spelling scalar) (String.utf8EncodeChar scalar) := by
  unfold spelling
  split
  · exact spells_escapes _
  · rename_i h
    apply spells_literal
    rintro rfl
    exact h (by decide)

theorem spells_valid (valid : List Char) : Spells (valid.flatMap spelling) (encode valid) := by
  induction valid with
  | nil => exact Spells.nil
  | cons scalar valid ih =>
    rw [List.flatMap_cons, encode_cons]
    exact (spells_spelling scalar).append ih

/-- A text without percent signs spells its own bytes. -/
theorem spells_plain (valid : List Char) (h : '%' ∉ valid) : Spells valid (encode valid) := by
  induction valid with
  | nil => exact Spells.nil
  | cons scalar valid ih =>
    rw [List.mem_cons, not_or] at h
    rw [encode_cons, ← List.singleton_append (l := valid)]
    exact (spells_literal (Ne.symm h.1)).append (ih h.2)

/-- The loop ends, and what it appends spells the bytes it was given. -/
theorem encodeLoop_spells (encoded : String) (remaining : List UInt8) :
    ∃ text more, encodeLoop encoded remaining = .ok text ∧
      text.toList = encoded.toList ++ more ∧ Spells more remaining := by
  induction hlen : remaining.length using Nat.strongRecOn generalizing encoded remaining with
  | _ n ih =>
    unfold encodeLoop
    by_cases hempty : remaining.isEmpty
    · rw [if_pos hempty]
      obtain rfl := List.isEmpty_iff.mp hempty
      exact ⟨encoded, [], rfl, (List.append_nil _).symm, Spells.nil⟩
    rw [if_neg hempty]
    split
    · rename_i valid hvalid
      refine ⟨_, valid.flatMap spelling, rfl, toList_pushAll encoded valid, ?_⟩
      rw [← encode_of_fromUtf8 hvalid]
      exact spells_valid valid
    · rename_i e herror
      obtain ⟨valid, hhead, htake, hpos, hbound⟩ := fromUtf8_error herror
      dsimp only
      rw [hhead]
      dsimp only
      rw [if_neg (by omega)]
      -- What is left is shorter by the invalid sequence, which has a byte at least.
      have hshorter : (remaining.drop (e.validUpTo + e.errorLen.getD 1)).length < n := by
        rw [List.length_drop]
        omega
      obtain ⟨text, more, htext, hmore, hspells⟩ := ih _ hshorter
        (((remaining.drop e.validUpTo).take (e.errorLen.getD 1)).foldl pushEscapedByte
          (valid.foldl pushScalar encoded)) (remaining.drop (e.validUpTo + e.errorLen.getD 1)) rfl
      refine ⟨text, valid.flatMap spelling ++
        (((remaining.drop e.validUpTo).take (e.errorLen.getD 1)).flatMap escape ++ more),
        htext, ?_, ?_⟩
      · rw [hmore, toList_escapeAll, toList_pushAll, List.append_assoc, List.append_assoc]
      · have hcut : remaining = encode valid ++
            ((remaining.drop e.validUpTo).take (e.errorLen.getD 1) ++
              remaining.drop (e.validUpTo + e.errorLen.getD 1)) := by
          rw [← List.drop_drop, List.take_append_drop, ← htake, List.take_append_drop]
        conv => rhs; rw [hcut]
        exact (spells_valid valid).append ((spells_escapes _).append hspells)

theorem encodeNativeText_spells {native : OsStr} (h : 0 ∉ native) :
    ∃ text, encodeNativeText native = .ok text ∧ Spells text.toList native := by
  have hloop : ∃ text, encodeLoop "" native = .ok text ∧ Spells text.toList native := by
    obtain ⟨text, more, htext, hmore, hspells⟩ := encodeLoop_spells "" native
    rw [String.toList_empty, List.nil_append] at hmore
    rw [← hmore] at hspells
    exact ⟨text, htext, hspells⟩
  unfold encodeNativeText
  rw [if_neg h]
  split
  · rename_i valid hvalid
    split
    · rename_i hplain
      refine ⟨_, rfl, ?_⟩
      rw [String.toList_ofList, ← encode_of_fromUtf8 hvalid]
      apply spells_plain
      intro hmem
      rw [← List.contains_iff_mem] at hmem
      rw [hmem, Bool.not_true, Bool.false_and] at hplain
      exact Bool.false_ne_true hplain
    · exact hloop
  · exact hloop

theorem decodeEscapedBytes_of_spells {text : String} {bytes : List UInt8}
    (h : Spells text.toList bytes) : decodeEscapedBytes text = .ok bytes := by
  obtain ⟨index, hindex⟩ := h [] 0 []
  unfold decodeEscapedBytes
  rw [List.append_nil] at hindex
  rw [hindex, List.nil_append]
  rfl

/-! ## 5. The round trips -/

theorem encodeComponent_ok {b : OsStr} {t : String} :
    encodeComponent b = .ok t ↔ encodeNativeText b = .ok t := by
  unfold encodeComponent
  cases encodeNativeText b with
  | ok text =>
    show Except.ok text = Except.ok t ↔ Except.ok text = Except.ok t
    rw [Except.ok.injEq, Except.ok.injEq]
  | error e =>
    constructor
    · rintro ⟨⟩
    · rintro ⟨⟩

theorem decodeComponent_ok {t : String} {b : OsStr} :
    decodeComponent t = .ok b ↔ decodeCanonicalText t = .ok b ∧ encodeNativeText b = .ok t := by
  unfold decodeComponent
  cases hnative : decodeCanonicalText t with
  | error e =>
    constructor
    · rintro ⟨⟩
    · rintro ⟨⟨⟩, -⟩
  | ok native =>
    constructor
    · intro h
      cases hcanonical : encodeNativeText native with
      | error e => simp [hcanonical, Except.mapError, bind, Except.bind] at h
      | ok canonical =>
        simp only [hcanonical, Except.mapError, bind, Except.bind] at h
        split at h
        · cases h
        · rename_i heq
          rw [not_not] at heq
          cases h
          exact ⟨rfl, by rw [hcanonical, heq]⟩
    · rintro ⟨⟨⟩, hcanonical⟩
      simp [hcanonical, Except.mapError, bind, Except.bind, pure, Except.pure]

theorem encode_decode {b : OsStr} (h : 0 ∉ b) :
    ∃ t, encodeComponent b = .ok t ∧ decodeComponent t = .ok b := by
  obtain ⟨t, htext, hspells⟩ := encodeNativeText_spells h
  refine ⟨t, encodeComponent_ok.mpr htext, decodeComponent_ok.mpr ⟨?_, htext⟩⟩
  unfold decodeCanonicalText
  rw [decodeEscapedBytes_of_spells hspells]
  exact if_neg h

theorem encodeComponent_nul {b : OsStr} {t : String} (h : encodeComponent b = .ok t) : 0 ∉ b := by
  rw [encodeComponent_ok] at h
  intro hmem
  unfold encodeNativeText at h
  rw [if_pos hmem] at h
  cases h

theorem decode_of_encode {b : OsStr} {t : String} (h : encodeComponent b = .ok t) :
    decodeComponent t = .ok b := by
  obtain ⟨t', hencode, hback⟩ := encode_decode (encodeComponent_nul h)
  rw [h] at hencode
  rwa [Except.ok.inj hencode]

theorem decode_encode {t : String} {b : OsStr} (h : decodeComponent t = .ok b) :
    encodeComponent b = .ok t :=
  encodeComponent_ok.mpr (decodeComponent_ok.mp h).2

/-- Encoding and decoding are inverse to each other between the components without NUL and the
    canonical texts: the texts that the decoder accepts are those that the encoder produces. -/
theorem codec_bijective :
    (∀ b : OsStr, 0 ∉ b → ∃ t, encodeComponent b = .ok t ∧ decodeComponent t = .ok b) ∧
    (∀ (t : String) (b : OsStr), decodeComponent t = .ok b →
      0 ∉ b ∧ encodeComponent b = .ok t) ∧
    (∀ (b b' : OsStr) (t : String), encodeComponent b = .ok t → encodeComponent b' = .ok t →
      b = b') ∧
    (∀ t : String, (∃ b, decodeComponent t = .ok b) ↔ ∃ b, encodeComponent b = .ok t) := by
  constructor
  · intro b h
    exact encode_decode h
  constructor
  · intro t b h
    have hencode := decode_encode h
    exact ⟨encodeComponent_nul hencode, hencode⟩
  constructor
  · intro b b' t h h'
    have heq := (decode_of_encode h).symm.trans (decode_of_encode h')
    exact Except.ok.inj heq
  · intro t
    constructor
    · rintro ⟨b, h⟩
      exact ⟨b, decode_encode h⟩
    · rintro ⟨b, h⟩
      exact ⟨b, decode_of_encode h⟩

/-- A component with a percent sign, a control and a truncated sequence at its end. -/
theorem codec_bijective_escaped :
    ∃ t, encodeComponent [0x61, 0x25, 0x0A, 0xE2, 0x82] = .ok t ∧
      decodeComponent t = .ok [0x61, 0x25, 0x0A, 0xE2, 0x82] :=
  codec_bijective.1 [0x61, 0x25, 0x0A, 0xE2, 0x82] (by decide)

end LocalFiles.LocalPathCodec
