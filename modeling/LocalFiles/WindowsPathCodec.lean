import LocalFiles.PathCodec
import LocalFiles.Utf16

/-!
# WindowsPathCodec — the component codec over UTF-16

A native string of Windows is a sequence of UTF-16 units, whose surrogates need not be paired.  Its
text spells the generalised UTF-8 of the units: the scalars as they are on Unix, and every unpaired
surrogate as three escaped bytes.
-/

namespace LocalFiles.LocalPathCodec.Windows

open Utf8 Utf16

/-! ## 1. Surrogates as bytes -/

/-- A native string of Windows: its UTF-16 units. -/
abbrev OsStr := List UInt16

def wtf8SurrogateBytes (surrogate : UInt16) : List UInt8 :=
  [(0xE0 : UInt8) ||| (surrogate >>> 12).toUInt8,
    (0x80 : UInt8) ||| ((surrogate >>> 6) &&& 0x3F).toUInt8,
    (0x80 : UInt8) ||| (surrogate &&& 0x3F).toUInt8]

/-- The unit that three bytes stand for. -/
def surrogateOfBytes (first second third : UInt8) : UInt16 :=
  ((first &&& 0x0F).toUInt16 <<< 12) ||| ((second &&& 0x3F).toUInt16 <<< 6) |||
    (third &&& 0x3F).toUInt16

/-- Whether three bytes are the sequence of a surrogate. -/
def isSurrogateSequence (first second third : UInt8) : Bool :=
  first == 0xED && (0xA0 ≤ second && second ≤ 0xBF) && (0x80 ≤ third && third ≤ 0xBF)

def wtf8SurrogateAt (bytes : List UInt8) (index : Nat) : Option (UInt16 × Nat) :=
  match bytes[index]?, bytes[index + 1]?, bytes[index + 2]? with
  | some first, some second, some third =>
    if !isSurrogateSequence first second third then none
    else some (surrogateOfBytes first second third, 3)
  | _, _, _ => none

theorem wtf8SurrogateAt_width {bytes : List UInt8} {index width : Nat} {surrogate : UInt16}
    (h : wtf8SurrogateAt bytes index = some (surrogate, width)) : width = 3 := by
  unfold wtf8SurrogateAt at h
  split at h
  · split at h
    · cases h
    · cases h
      rfl
  · cases h

/-! ## 2. The codec on Windows -/

/-- `&bytes[start..stop]`. -/
def slice {ε : Type} (bytes : List UInt8) (start stop : Nat) : Except (Halt ε) (List UInt8) :=
  if stop < start then .error (.panic "slice index starts past its end")
  else if bytes.length < stop then .error (.panic "range end index out of range for slice")
  else .ok ((bytes.drop start).take (stop - start))

/-- The loop of `decode_wtf8` from `index` on. -/
def decodeWtf8Loop (bytes : List UInt8) (units : List UInt16) (index : Nat) :
    Except (Halt LocalPathCodecError) (List UInt16) :=
  if _hindex : index < bytes.length then
    match _hsurrogate : wtf8SurrogateAt bytes index with
    | some (surrogate, width) => decodeWtf8Loop bytes (units ++ [surrogate]) (index + width)
    | none =>
      match slice bytes index bytes.length with
      | .error halt => .error halt
      | .ok remaining =>
        match fromUtf8 remaining with
        | .ok valid => .ok (units ++ encodeUtf16 valid)
        | .error error =>
          let validEnd := error.validUpTo
          if _hprogress : validEnd = 0 then .error (.error .unrepresentableNativeValue)
          else
            match slice bytes index (index + validEnd) with
            | .error halt => .error halt
            | .ok head =>
              match fromUtf8 head with
              | .error _ => .error (.error .unrepresentableNativeValue)
              | .ok valid => decodeWtf8Loop bytes (units ++ encodeUtf16 valid) (index + validEnd)
  else .ok units
termination_by bytes.length - index
decreasing_by
  · have hwidth := wtf8SurrogateAt_width _hsurrogate
    omega
  · omega

def decodeWtf8 (bytes : List UInt8) : Except (Halt LocalPathCodecError) (List UInt16) :=
  decodeWtf8Loop bytes [] 0

def decodeCanonicalText (text : String) : Except (Halt LocalPathCodecError) OsStr := do
  let bytes ← (decodeEscapedBytes text).mapError Halt.error
  let units ← decodeWtf8 bytes
  if 0 ∈ units then throw (.error .nativeNul)
  return units

/-- What the encoder appends for one item of the decoded units. -/
def pushItem (encoded : String) : Except UInt16 Char → String
  | .ok scalar => pushScalar encoded scalar
  | .error surrogate => (wtf8SurrogateBytes surrogate).foldl pushEscapedByte encoded

def encodeNativeText (native : OsStr) : Except LocalPathCodecError String :=
  if 0 ∈ native then .error .nativeNul
  else .ok ((decodeUtf16 native).foldl pushItem "")

def encodeComponent (component : OsStr) : Except LocalFileError String :=
  (encodeNativeText component).mapError pathCodecError

def decodeComponent (component : String) : Except (Halt LocalFileError) OsStr := do
  let native ← (decodeCanonicalText component).mapError (Halt.mapError pathCodecError)
  let canonical ← (encodeNativeText native).mapError (Halt.error ∘ pathCodecError)
  if canonical ≠ component then throw (.error (pathCodecError .nonCanonicalText))
  return native

/-! ## 3. Generalised UTF-8 -/

/-- The bytes that an item is written as. -/
def itemBytes : Except UInt16 Char → List UInt8
  | .ok scalar => String.utf8EncodeChar scalar
  | .error surrogate => wtf8SurrogateBytes surrogate

/-- The three bytes of a surrogate are recognised and stand for it. -/
theorem surrogateBytes_spec {surrogate : UInt16} (h : isSurrogate surrogate = true) :
    ∃ first second third, wtf8SurrogateBytes surrogate = [first, second, third] ∧
      isSurrogateSequence first second third = true ∧
      surrogateOfBytes first second third = surrogate := by
  have hall : ∀ n < 0x800, ∃ first second third,
      wtf8SurrogateBytes (UInt16.ofNat (0xD800 + n)) = [first, second, third] ∧
      isSurrogateSequence first second third = true ∧
      surrogateOfBytes first second third = UInt16.ofNat (0xD800 + n) := by
    intro n hn
    refine ⟨_, _, _, rfl, ?_⟩
    revert n
    decide +kernel
  rw [isSurrogate_iff] at h
  have hunit := hall (surrogate.toNat - 0xD800) (by omega)
  rwa [Nat.add_sub_cancel' h.1, UInt16.ofNat_toNat] at hunit

theorem isSurrogateSequence_iff {first second third : UInt8} :
    isSurrogateSequence first second third = true ↔
      first.toNat = 0xED ∧ (0xA0 ≤ second.toNat ∧ second.toNat ≤ 0xBF) ∧
        (0x80 ≤ third.toNat ∧ third.toNat ≤ 0xBF) := by
  simp only [isSurrogateSequence, Bool.and_eq_true, beq_iff_eq, decide_eq_true_eq,
    ← UInt8.toNat_inj, UInt8.le_iff_toNat_le]
  rw [and_assoc]
  rfl

/-- No scalar starts with the sequence of a surrogate. -/
theorem utf8EncodeChar_not_surrogate {c : Char} {first second third : UInt8}
    {rest more : List UInt8}
    (h : String.utf8EncodeChar c ++ rest = first :: second :: third :: more) :
    isSurrogateSequence first second third = false := by
  have hvalid : c.val.toNat < 0xD800 ∨ (0xDFFF < c.val.toNat ∧ c.val.toNat < 0x110000) := by
    have hvalid := c.valid
    unfold UInt32.isValidChar Nat.isValidChar at hvalid
    omega
  by_contra hs
  rw [Bool.not_eq_false, isSurrogateSequence_iff] at hs
  obtain ⟨hfirst, hsecond, -⟩ := hs
  unfold String.utf8EncodeChar at h
  dsimp only at h
  -- The first byte tells the length; with three bytes the second one tells the range.
  split at h
  · have heq := congrArg UInt8.toNat (List.cons.inj h).1
    rw [UInt8.toNat_ofNat'] at heq
    omega
  split at h
  · have heq := congrArg UInt8.toNat (List.cons.inj h).1
    rw [UInt8.toNat_ofNat'] at heq
    omega
  split at h
  · have heq := congrArg UInt8.toNat (List.cons.inj h).1
    have heqSecond := congrArg UInt8.toNat (List.cons.inj (List.cons.inj h).2).1
    rw [UInt8.toNat_ofNat'] at heq heqSecond
    omega
  · have heq := congrArg UInt8.toNat (List.cons.inj h).1
    rw [UInt8.toNat_ofNat'] at heq
    omega

theorem wtf8SurrogateAt_append (before bytes : List UInt8) :
    wtf8SurrogateAt (before ++ bytes) before.length = wtf8SurrogateAt bytes 0 := by
  have hget (k : Nat) : (before ++ bytes)[before.length + k]? = bytes[k]? := by
    rw [List.getElem?_append_right (by omega), Nat.add_sub_cancel_left]
  unfold wtf8SurrogateAt
  rw [hget 1, hget 2, ← Nat.add_zero before.length, hget 0]

/-- A surrogate is recognised behind any bytes. -/
theorem wtf8SurrogateAt_surrogate {surrogate : UInt16} (h : isSurrogate surrogate = true)
    (rest : List UInt8) :
    wtf8SurrogateAt (wtf8SurrogateBytes surrogate ++ rest) 0 = some (surrogate, 3) := by
  obtain ⟨first, second, third, hbytes, hsequence, hunit⟩ := surrogateBytes_spec h
  rw [hbytes]
  show (if !isSurrogateSequence first second third then none
    else some (surrogateOfBytes first second third, 3)) = some (surrogate, 3)
  rw [hsequence, if_neg (by decide), hunit]

theorem wtf8SurrogateAt_scalar (c : Char) (rest : List UInt8) :
    wtf8SurrogateAt (String.utf8EncodeChar c ++ rest) 0 = none := by
  unfold wtf8SurrogateAt
  split
  next first second third hfirst hsecond hthird =>
    obtain ⟨more, hmore⟩ : ∃ more, String.utf8EncodeChar c ++ rest =
        first :: second :: third :: more := by
      match hlist : String.utf8EncodeChar c ++ rest with
      | [] =>
        rw [hlist] at hfirst
        cases hfirst
      | [_] =>
        rw [hlist] at hsecond
        cases hsecond
      | [_, _] =>
        rw [hlist] at hthird
        cases hthird
      | _ :: _ :: _ :: more =>
        rw [hlist] at hfirst hsecond hthird
        cases hfirst
        cases hsecond
        cases hthird
        exact ⟨more, rfl⟩
    rw [utf8EncodeChar_not_surrogate hmore]
    rfl
  next => rfl

/-- The bytes of a surrogate start with no scalar. -/
theorem decodeFirst_surrogate {surrogate : UInt16} (h : isSurrogate surrogate = true)
    (rest : List UInt8) : decodeFirst (wtf8SurrogateBytes surrogate ++ rest) = none := by
  cases hfirst : decodeFirst (wtf8SurrogateBytes surrogate ++ rest) with
  | none => rfl
  | some c =>
    have hsome := wtf8SurrogateAt_surrogate h rest
    rw [decodeFirst_eq_some hfirst, wtf8SurrogateAt_scalar] at hsome
    cases hsome

/-! ## 4. The loop of the decoder -/

theorem slice_ok {ε : Type} {bytes : List UInt8} {start stop : Nat} (hstart : start ≤ stop)
    (hstop : stop ≤ bytes.length) :
    (slice bytes start stop : Except (Halt ε) (List UInt8)) =
      .ok ((bytes.drop start).take (stop - start)) := by
  unfold slice
  rw [if_neg (by omega), if_neg (by omega)]

/-- The rest of the bytes is within the bytes. -/
theorem slice_rest {ε : Type} {bytes : List UInt8} {index : Nat} (h : index < bytes.length) :
    (slice bytes index bytes.length : Except (Halt ε) (List UInt8)) = .ok (bytes.drop index) := by
  rw [slice_ok (by omega) (Nat.le_refl _), ← List.length_drop, List.take_length]

theorem decodeWtf8Loop_end {bytes : List UInt8} {units : List UInt16} {index : Nat}
    (h : bytes.length ≤ index) : decodeWtf8Loop bytes units index = .ok units := by
  unfold decodeWtf8Loop
  rw [dif_neg (by omega)]

theorem decodeWtf8Loop_surrogate {bytes : List UInt8} {units : List UInt16} {index width : Nat}
    {surrogate : UInt16} (hindex : index < bytes.length)
    (h : wtf8SurrogateAt bytes index = some (surrogate, width)) :
    decodeWtf8Loop bytes units index =
      decodeWtf8Loop bytes (units ++ [surrogate]) (index + width) := by
  conv_lhs => unfold decodeWtf8Loop
  rw [dif_pos hindex]
  split
  next surrogate' width' h' =>
    rw [h] at h'
    cases h'
    rfl
  next h' =>
    rw [h] at h'
    cases h'

/-- Where no surrogate stands, the loop does what the validation of the rest says. -/
theorem decodeWtf8Loop_text {bytes : List UInt8} {units : List UInt16} {index : Nat}
    (hindex : index < bytes.length) (h : wtf8SurrogateAt bytes index = none) :
    decodeWtf8Loop bytes units index =
      match fromUtf8 (bytes.drop index) with
      | .ok valid => .ok (units ++ encodeUtf16 valid)
      | .error error =>
        if error.validUpTo = 0 then .error (.error .unrepresentableNativeValue)
        else match fromUtf8 ((bytes.drop index).take error.validUpTo) with
          | .error _ => .error (.error .unrepresentableNativeValue)
          | .ok valid =>
            decodeWtf8Loop bytes (units ++ encodeUtf16 valid) (index + error.validUpTo) := by
  conv_lhs => unfold decodeWtf8Loop
  rw [dif_pos hindex]
  split
  next surrogate width h' =>
    rw [h] at h'
    cases h'
  rw [slice_rest hindex]
  dsimp only
  cases herror : fromUtf8 (bytes.drop index) with
  | ok valid => rfl
  | error error =>
    obtain ⟨-, -, -, -, hbound⟩ := fromUtf8_error herror
    rw [List.length_drop] at hbound
    dsimp only
    rw [slice_ok (by omega) (by omega), Nat.add_sub_cancel_left]
    split <;> rfl

/-- No slice of the loop is out of range. -/
theorem decodeWtf8Loop_ne_panic (bytes : List UInt8) (units : List UInt16) (index : Nat)
    (message : String) : decodeWtf8Loop bytes units index ≠ .error (.panic message) := by
  induction hleft : bytes.length - index using Nat.strongRecOn generalizing units index with
  | _ n ih =>
    by_cases hindex : index < bytes.length
    · cases hsurrogate : wtf8SurrogateAt bytes index with
      | some found =>
        have hwidth := wtf8SurrogateAt_width hsurrogate
        rw [decodeWtf8Loop_surrogate hindex hsurrogate]
        exact ih _ (by omega) _ _ rfl
      | none =>
        rw [decodeWtf8Loop_text hindex hsurrogate]
        split
        next => nofun
        next error herror =>
          split
          next => nofun
          next hprogress =>
            split
            next => nofun
            next valid hvalid => exact ih _ (by omega) _ _ rfl
    · rw [decodeWtf8Loop_end (by omega)]
      nofun

/-- A surrogate is taken off the bytes, and the loop goes on behind it. -/
theorem decodeWtf8Loop_takes_surrogate {surrogate : UInt16} (h : isSurrogate surrogate = true)
    (before more : List UInt8) (units : List UInt16) :
    decodeWtf8Loop (before ++ (wtf8SurrogateBytes surrogate ++ more)) units before.length =
      decodeWtf8Loop ((before ++ wtf8SurrogateBytes surrogate) ++ more) (units ++ [surrogate])
        (before ++ wtf8SurrogateBytes surrogate).length := by
  have hat : wtf8SurrogateAt (before ++ (wtf8SurrogateBytes surrogate ++ more)) before.length =
      some (surrogate, 3) := by
    rw [wtf8SurrogateAt_append, wtf8SurrogateAt_surrogate h]
  have hlen : (wtf8SurrogateBytes surrogate).length = 3 := rfl
  have hindex : before.length < (before ++ (wtf8SurrogateBytes surrogate ++ more)).length := by
    rw [List.length_append, List.length_append, hlen]
    omega
  rw [decodeWtf8Loop_surrogate hindex hat, List.append_assoc, List.length_append, hlen]

/-- Scalars are taken off the bytes as far as they go. -/
theorem decodeWtf8Loop_takes_scalars {valid : List Char} (hvalid : valid ≠ [])
    {more : List UInt8} (hmore : more ≠ [] → decodeFirst more = none)
    (before : List UInt8) (units : List UInt16) :
    decodeWtf8Loop (before ++ (encode valid ++ more)) units before.length =
      decodeWtf8Loop ((before ++ encode valid) ++ more) (units ++ encodeUtf16 valid)
        (before ++ encode valid).length := by
  obtain ⟨scalar, valid', rfl⟩ := List.exists_cons_of_ne_nil hvalid
  have hpos : 0 < (encode (scalar :: valid')).length := by
    have hscalar := scalar.utf8Size_pos
    rw [encode_cons, List.length_append, String.length_utf8EncodeChar]
    omega
  have hindex : before.length < (before ++ (encode (scalar :: valid') ++ more)).length := by
    rw [List.length_append, List.length_append]
    omega
  have hat : wtf8SurrogateAt (before ++ (encode (scalar :: valid') ++ more)) before.length =
      none := by
    rw [wtf8SurrogateAt_append, encode_cons, List.append_assoc, wtf8SurrogateAt_scalar]
  rw [decodeWtf8Loop_text hindex hat, List.drop_left]
  by_cases hempty : more = []
  · subst hempty
    rw [List.append_nil, List.append_nil, fromUtf8_encode, decodeWtf8Loop_end (Nat.le_refl _)]
  · have herror : fromUtf8 (encode (scalar :: valid') ++ more) =
        .error ⟨0 + (encode (scalar :: valid')).length, invalidLength more⟩ :=
      fromUtf8At_invalid (scalar :: valid') 0 hempty (hmore hempty)
    rw [herror]
    dsimp only
    rw [Nat.zero_add, if_neg (by omega), List.take_left, fromUtf8_encode, List.append_assoc,
      List.length_append]

/-- The scalars at the start of the items, up to the first surrogate. -/
theorem exists_scalars (items : List (Except UInt16 Char)) :
    ∃ (valid : List Char) (rest : List (Except UInt16 Char)),
      items = valid.map Except.ok ++ rest ∧
        (rest = [] ∨ ∃ surrogate more, rest = .error surrogate :: more) := by
  induction items with
  | nil => exact ⟨[], [], rfl, .inl rfl⟩
  | cons item items ih =>
    cases item with
    | error surrogate => exact ⟨[], _, rfl, .inr ⟨surrogate, items, rfl⟩⟩
    | ok scalar =>
      obtain ⟨valid, rest, hitems, hrest⟩ := ih
      exact ⟨scalar :: valid, rest, by rw [hitems]; rfl, hrest⟩

theorem flatMap_itemBytes_scalars (valid : List Char) :
    (valid.map Except.ok).flatMap itemBytes = encode valid := by
  rw [List.flatMap_map]
  rfl

theorem flatMap_itemUnits_scalars (valid : List Char) :
    (valid.map Except.ok).flatMap itemUnits = encodeUtf16 valid := by
  rw [List.flatMap_map]
  rfl

/-- Behind a surrogate the loop goes on with the next item, behind scalars with the surrogate that
    ends them: the units of the items are read off their bytes, whether they form pairs or not. -/
theorem decodeWtf8Loop_items (items : List (Except UInt16 Char))
    (h : ∀ surrogate, .error surrogate ∈ items → isSurrogate surrogate = true)
    (before : List UInt8) (units : List UInt16) :
    decodeWtf8Loop (before ++ items.flatMap itemBytes) units before.length =
      .ok (units ++ items.flatMap itemUnits) := by
  induction hlen : items.length using Nat.strongRecOn generalizing items before units with
  | _ n ih =>
    match items with
    | [] =>
      rw [List.flatMap_nil, List.flatMap_nil, List.append_nil, List.append_nil]
      exact decodeWtf8Loop_end (Nat.le_refl _)
    | .error surrogate :: more =>
      rw [List.length_cons] at hlen
      have hmore := ih more.length (by omega) more (fun s hs => h s (List.mem_cons_of_mem _ hs))
        (before ++ wtf8SurrogateBytes surrogate) (units ++ [surrogate]) rfl
      rw [List.flatMap_cons, List.flatMap_cons]
      show decodeWtf8Loop (before ++ (wtf8SurrogateBytes surrogate ++ _)) _ _ =
        .ok (units ++ ([surrogate] ++ _))
      rw [decodeWtf8Loop_takes_surrogate (h surrogate (List.mem_cons_self ..)), hmore,
        List.append_assoc]
    | .ok scalar :: items' =>
      obtain ⟨valid, rest, rfl, hrest⟩ := exists_scalars items'
      have hrestItems := ih rest.length (by simp at hlen; omega) rest
        (fun s hs => h s (List.mem_cons_of_mem _ (List.mem_append_right _ hs)))
        (before ++ encode (scalar :: valid)) (units ++ encodeUtf16 (scalar :: valid)) rfl
      have hstart : rest.flatMap itemBytes ≠ [] →
          decodeFirst (rest.flatMap itemBytes) = none := by
        intro hne
        rcases hrest with rfl | ⟨surrogate, more, rfl⟩
        · exact absurd rfl hne
        · rw [List.flatMap_cons]
          exact decodeFirst_surrogate (h surrogate (by simp)) _
      rw [← List.cons_append, ← List.map_cons, List.flatMap_append, List.flatMap_append,
        flatMap_itemBytes_scalars, flatMap_itemUnits_scalars,
        decodeWtf8Loop_takes_scalars (List.cons_ne_nil _ _) hstart, hrestItems, List.append_assoc]

/-! ## 5. The round trips -/

theorem decodeWtf8_items (items : List (Except UInt16 Char))
    (h : ∀ surrogate, .error surrogate ∈ items → isSurrogate surrogate = true) :
    decodeWtf8 (items.flatMap itemBytes) = .ok (items.flatMap itemUnits) :=
  decodeWtf8Loop_items items h [] []

/-- The scalars that stand for one item. -/
def itemText : Except UInt16 Char → List Char
  | .ok scalar => spelling scalar
  | .error surrogate => (wtf8SurrogateBytes surrogate).flatMap escape

theorem toList_pushItem (text : String) (item : Except UInt16 Char) :
    (pushItem text item).toList = text.toList ++ itemText item := by
  cases item with
  | ok scalar => exact toList_pushScalar text scalar
  | error surrogate => exact toList_escapeAll text (wtf8SurrogateBytes surrogate)

theorem toList_pushItems (text : String) (items : List (Except UInt16 Char)) :
    (items.foldl pushItem text).toList = text.toList ++ items.flatMap itemText := by
  induction items generalizing text with
  | nil => rw [List.foldl_nil, List.flatMap_nil, List.append_nil]
  | cons item items ih =>
    rw [List.foldl_cons, ih, toList_pushItem, List.flatMap_cons, List.append_assoc]

theorem spells_itemText (item : Except UInt16 Char) : Spells (itemText item) (itemBytes item) := by
  cases item with
  | ok scalar => exact spells_spelling scalar
  | error surrogate => exact spells_escapes (wtf8SurrogateBytes surrogate)

theorem spells_items (items : List (Except UInt16 Char)) :
    Spells (items.flatMap itemText) (items.flatMap itemBytes) := by
  induction items with
  | nil => exact Spells.nil
  | cons item items ih =>
    rw [List.flatMap_cons, List.flatMap_cons]
    exact (spells_itemText item).append ih

/-- A text made of items is read as their units, whether it is canonical or not. -/
theorem decodeCanonicalText_items {text : String} {items : List (Except UInt16 Char)}
    (htext : text.toList = items.flatMap itemText)
    (h : ∀ surrogate, .error surrogate ∈ items → isSurrogate surrogate = true)
    (hnul : 0 ∉ items.flatMap itemUnits) :
    decodeCanonicalText text = .ok (items.flatMap itemUnits) := by
  have hspells : Spells text.toList (items.flatMap itemBytes) := by
    rw [htext]
    exact spells_items items
  unfold decodeCanonicalText
  simp only [decodeEscapedBytes_of_spells hspells, Except.mapError, bind, Except.bind,
    decodeWtf8_items items h, if_neg hnul]
  rfl

/-- The canonical text of units. -/
def canonicalText (native : OsStr) : String := (decodeUtf16 native).foldl pushItem ""

theorem toList_canonicalText (native : OsStr) :
    (canonicalText native).toList = (decodeUtf16 native).flatMap itemText := by
  unfold canonicalText
  rw [toList_pushItems, String.toList_empty, List.nil_append]

theorem encodeNativeText_of_nul_notMem {native : OsStr} (h : 0 ∉ native) :
    encodeNativeText native = .ok (canonicalText native) := if_neg h

theorem encodeComponent_eq_ok {native : OsStr} {text : String} :
    encodeComponent native = .ok text ↔ 0 ∉ native ∧ canonicalText native = text := by
  unfold encodeComponent encodeNativeText
  by_cases h : 0 ∈ native
  · rw [if_pos h]
    constructor
    · nofun
    · intro hnul
      exact absurd h hnul.1
  · rw [if_neg h]
    constructor
    · intro hok
      exact ⟨h, Except.ok.inj hok⟩
    · intro htext
      exact congrArg Except.ok htext.2

/-- The decoder reads the units, encodes them again and compares. -/
theorem decodeComponent_of_units {text : String} {native : OsStr}
    (h : decodeCanonicalText text = .ok native) (hnul : 0 ∉ native) :
    decodeComponent text =
      if canonicalText native = text then .ok native
      else .error (.error (pathCodecError .nonCanonicalText)) := by
  unfold decodeComponent
  simp only [h, Except.mapError, bind, Except.bind, encodeNativeText_of_nul_notMem hnul]
  by_cases htext : canonicalText native = text
  · rw [if_pos htext, if_neg (not_not.mpr htext)]
    rfl
  · rw [if_neg htext, if_pos htext]
    rfl

theorem decode_canonicalText {native : OsStr} (h : 0 ∉ native) :
    decodeComponent (canonicalText native) = .ok native := by
  have hunits := flatMap_itemUnits_decodeUtf16 native
  have hread := decodeCanonicalText_items (toList_canonicalText native)
    (fun _ => isSurrogate_of_mem_decodeUtf16) (by rwa [hunits])
  rw [hunits] at hread
  rw [decodeComponent_of_units hread h, if_pos rfl]

theorem encode_of_decode {text : String} {native : OsStr} (h : decodeComponent text = .ok native) :
    encodeComponent native = .ok text := by
  unfold decodeComponent at h
  cases hread : decodeCanonicalText text with
  | error e =>
    rw [hread] at h
    cases h
  | ok units =>
    simp only [hread, Except.mapError, bind, Except.bind] at h
    cases hencode : encodeNativeText units with
    | error e =>
      rw [hencode] at h
      cases h
    | ok canonical =>
      simp only [hencode] at h
      by_cases htext : canonical = text
      · rw [if_neg (not_not.mpr htext)] at h
        cases h
        unfold encodeComponent
        rw [hencode, htext]
        rfl
      · rw [if_pos htext] at h
        cases h

/-- The text of a surrogate that is escaped on its own. -/
def escapedSurrogate (surrogate : UInt16) : String :=
  String.ofList ((wtf8SurrogateBytes surrogate).flatMap escape)

/-- A scalar above the Basic Multilingual Plane stands for itself. -/
theorem spelling_of_supplementary {c : Char} (h : 0x10000 ≤ c.toNat) : spelling c = [c] := by
  unfold spelling isControl
  rw [if_neg]
  simp only [Bool.or_eq_true, Bool.and_eq_true, decide_eq_true_eq, not_or, not_and]
  constructor
  · rintro rfl
    exact absurd h (by decide)
  · omega

/-- A pair of surrogates has a shorter canonical text than its two halves, so the text of the two
    halves is not what the encoder gives. -/
theorem decodeComponent_escaped_pair {native more : OsStr} {text moreText : String}
    {leading trailing : UInt16} (htext : encodeComponent native = .ok text)
    (hmore : encodeComponent more = .ok moreText) (hl : isLeading leading = true)
    (ht : isTrailing trailing = true) :
    decodeComponent (text ++ escapedSurrogate leading ++ escapedSurrogate trailing ++ moreText) =
      .error (.error (pathCodecError .nonCanonicalText)) := by
  obtain ⟨hnul, rfl⟩ := encodeComponent_eq_ok.mp htext
  obtain ⟨hmoreNul, rfl⟩ := encodeComponent_eq_ok.mp hmore
  have hleading := isLeading_iff.mp hl
  have htrailing := isTrailing_iff.mp ht
  let halves : List (Except UInt16 Char) := [.error leading, .error trailing]
  let items := decodeUtf16 native ++ halves ++ decodeUtf16 more
  have hitemsText : (canonicalText native ++ escapedSurrogate leading ++
      escapedSurrogate trailing ++ canonicalText more).toList = items.flatMap itemText := by
    simp only [String.toList_append, toList_canonicalText, escapedSurrogate, String.toList_ofList,
      items, halves, List.flatMap_append, List.flatMap_cons, List.flatMap_nil, List.append_nil,
      List.append_assoc]
    rfl
  have hunits : items.flatMap itemUnits = native ++ leading :: trailing :: more := by
    rw [List.flatMap_append, List.flatMap_append, flatMap_itemUnits_decodeUtf16,
      flatMap_itemUnits_decodeUtf16, List.append_assoc]
    rfl
  have hsurrogates (surrogate : UInt16) (hmem : .error surrogate ∈ items) :
      isSurrogate surrogate = true := by
    rw [List.mem_append, List.mem_append] at hmem
    rcases hmem with (hmem | hmem) | hmem
    · exact isSurrogate_of_mem_decodeUtf16 hmem
    · rw [isSurrogate_iff]
      simp only [halves, List.mem_cons, Except.error.injEq, List.not_mem_nil, or_false] at hmem
      rcases hmem with rfl | rfl <;> omega
    · exact isSurrogate_of_mem_decodeUtf16 hmem
  have hunitsNul : 0 ∉ items.flatMap itemUnits := by
    rw [hunits]
    intro hmem
    simp only [List.mem_append, List.mem_cons] at hmem
    rcases hmem with hmem | rfl | rfl | hmem
    · exact hnul hmem
    · exact absurd hl (by decide)
    · exact absurd ht (by decide)
    · exact hmoreNul hmem
  have hread := decodeCanonicalText_items hitemsText hsurrogates hunitsNul
  -- The canonical text has one scalar where the text has eighteen.
  have hpair : decodeUtf16 (native ++ leading :: trailing :: more) =
      decodeUtf16 native ++ .ok (scalarOfPair leading trailing) :: decodeUtf16 more := by
    have hnot : ¬ isTrailing leading = true := by
      rw [isTrailing_iff]
      omega
    rw [decodeUtf16_append native hnot, decodeUtf16_pair hl ht]
  have hspelling : itemText (.ok (scalarOfPair leading trailing)) =
      [scalarOfPair leading trailing] := by
    apply spelling_of_supplementary
    rw [toNat_scalarOfPair hl ht]
    omega
  have hhalf (surrogate : UInt16) : (itemText (.error surrogate)).length = 9 := rfl
  rw [decodeComponent_of_units hread hunitsNul, if_neg]
  intro heq
  have hlen := congrArg (fun t : String => t.toList.length) heq
  rw [hitemsText, hunits, toList_canonicalText, hpair] at hlen
  simp only [items, halves, List.flatMap_append, List.flatMap_cons, List.flatMap_nil, hspelling,
    List.length_append, List.length_singleton, List.length_nil, hhalf] at hlen
  omega

/-- Encoding and decoding are inverse to each other between the units without NUL and the canonical
    texts, the two halves of a pair are no canonical text, and no bytes make the decoder index out
    of range. -/
theorem wtf8_codec_bijective :
    (∀ u : OsStr, 0 ∉ u → ∃ t, encodeComponent u = .ok t ∧ decodeComponent t = .ok u) ∧
    (∀ (t : String) (u : OsStr), decodeComponent t = .ok u →
      0 ∉ u ∧ encodeComponent u = .ok t) ∧
    (∀ (u v : OsStr) (t s : String) (leading trailing : UInt16), encodeComponent u = .ok t →
      encodeComponent v = .ok s → isLeading leading = true → isTrailing trailing = true →
      decodeComponent (t ++ escapedSurrogate leading ++ escapedSurrogate trailing ++ s) =
        .error (.error (pathCodecError .nonCanonicalText))) ∧
    (∀ (bytes : List UInt8) (message : String), decodeWtf8 bytes ≠ .error (.panic message)) := by
  constructor
  · intro u h
    exact ⟨canonicalText u, encodeComponent_eq_ok.mpr ⟨h, rfl⟩, decode_canonicalText h⟩
  constructor
  · intro t u h
    have hencode := encode_of_decode h
    exact ⟨(encodeComponent_eq_ok.mp hencode).1, hencode⟩
  constructor
  · intro u v t s leading trailing hu hv hl ht
    exact decodeComponent_escaped_pair hu hv hl ht
  · intro bytes message
    exact decodeWtf8Loop_ne_panic bytes [] 0 message

/-- Units with a percent sign, a pair and three unpaired surrogates. -/
theorem wtf8_codec_bijective_unpaired :
    ∃ t, encodeComponent [0xDC00, 0x25, 0xD83D, 0xDE00, 0xD800, 0xD801] = .ok t ∧
      decodeComponent t = .ok [0xDC00, 0x25, 0xD83D, 0xDE00, 0xD800, 0xD801] :=
  wtf8_codec_bijective.1 [0xDC00, 0x25, 0xD83D, 0xDE00, 0xD800, 0xD801] (by decide)

end LocalFiles.LocalPathCodec.Windows
