import LocalFiles.Reparse.Record

/-!
# Reading — what is read of a record that anything may have written

A record is valid when its fields are there, its tag is that of a link and its name is an even
range within the declared data.  Both readers take the same units of a valid record and nothing of
any other, so the resolver and `read_link` agree on where a link leads.
-/

namespace LocalFiles.Reparse

open Windows (WideString unit)
open LocalPathCodec.Windows (slice slice_ok)

/-! ## 1. Fields -/

def u16At (buffer : List UInt8) (offset : Nat) : UInt16 :=
  UInt16.ofNat (ofLeBytes ((buffer.drop offset).take 2))

def u32At (buffer : List UInt8) (offset : Nat) : UInt32 :=
  UInt32.ofNat (ofLeBytes ((buffer.drop offset).take 4))

variable {buffer : List UInt8}

theorem readU16_eq (offset : Nat) (h : offset + 2 ≤ buffer.length) :
    readU16 buffer offset = .ok (u16At buffer offset) := by
  unfold readU16 fieldAt?
  rw [if_pos h]
  rfl

theorem readU32_eq (offset : Nat) (h : offset + 4 ≤ buffer.length) :
    readU32 buffer offset = .ok (u32At buffer offset) := by
  unfold readU32 fieldAt?
  rw [if_pos h]
  rfl

/-- The fields as they stand in the buffer. -/
def fieldsOf (buffer : List UInt8) : SymbolicLinkFields where
  recordLength := 8 + (u16At buffer 4).toNat
  substituteOffset := (u16At buffer 8).toNat
  substituteLength := (u16At buffer 10).toNat
  flags := u32At buffer 16

theorem checkedUsize_eq {value : Nat} (h : value ≤ 2 ^ 63) : checkedUsize value = some value := by
  unfold checkedUsize usizeMax
  exact if_pos (by omega)

/-- The header of a link whose data is in the buffer. -/
structure ValidHeader (buffer : List UInt8) : Prop where
  complete : symlinkPathBufferOffset ≤ buffer.length
  tag : u32At buffer 0 = ioReparseTagSymlink
  declared : (fieldsOf buffer).recordLength ≤ buffer.length

theorem recordLength_lt (buffer : List UInt8) : (fieldsOf buffer).recordLength < 2 ^ 17 := by
  have := (u16At buffer 4).toNat_lt
  show 8 + (u16At buffer 4).toNat < 2 ^ 17
  omega

theorem checkedUsize_recordLength (buffer : List UInt8) :
    checkedUsize (8 + (u16At buffer 4).toNat) = some (fieldsOf buffer).recordLength :=
  checkedUsize_eq (Nat.le_of_lt (Nat.lt_trans (recordLength_lt buffer) (by decide)))

theorem parseSymbolicLinkFields_eq (h : ValidHeader buffer) :
    parseSymbolicLinkFields buffer = .ok (fieldsOf buffer) := by
  have hlength : 20 ≤ buffer.length := h.complete
  have hword := checkedUsize_recordLength buffer
  have hdeclared : (some (fieldsOf buffer).recordLength).filter (decide <| · ≤ buffer.length)
      = some (fieldsOf buffer).recordLength := by
    rw [Option.filter_some, if_pos (decide_eq_true h.declared)]
  unfold parseSymbolicLinkFields
  rw [if_neg (Nat.not_lt.mpr h.complete), readU32_eq 0 (by omega)]
  show (if u32At buffer 0 ≠ ioReparseTagSymlink then _ else _) = _
  rw [if_neg (not_not.mpr h.tag), readU16_eq 4 (by omega)]
  dsimp only [bind, Except.bind]
  rw [hword, hdeclared, readU16_eq 8 (by omega), readU16_eq 10 (by omega),
    readU16_eq 12 (by omega), readU16_eq 14 (by omega),
    readU32_eq 16 (by omega)]
  rfl

theorem parseSymbolicLinkFields_error (h : ¬ ValidHeader buffer) :
    ∃ error, parseSymbolicLinkFields buffer = .error (.error error) := by
  unfold parseSymbolicLinkFields
  by_cases hlength : buffer.length < symlinkPathBufferOffset
  · rw [if_pos hlength]
    exact ⟨_, rfl⟩
  · rw [if_neg hlength]
    have hcomplete : 20 ≤ buffer.length := Nat.le_of_not_lt hlength
    rw [readU32_eq 0 (by omega)]
    by_cases htag : u32At buffer 0 = ioReparseTagSymlink
    · have hword := checkedUsize_recordLength buffer
      have hdeclared : ¬ (fieldsOf buffer).recordLength ≤ buffer.length :=
        fun hle => h ⟨hcomplete, htag, hle⟩
      refine ⟨⟨.invalidData, "symbolic-link reparse data length is invalid", none⟩, ?_⟩
      show (if u32At buffer 0 ≠ ioReparseTagSymlink then _ else _) = _
      rw [if_neg (not_not.mpr htag), readU16_eq 4 (by omega)]
      dsimp only [bind, Except.bind]
      rw [hword, Option.filter_some, if_neg (by simpa using hdeclared)]
      rfl
    · refine ⟨⟨.unsupported, "reparse point is not a symbolic link", none⟩, ?_⟩
      exact if_pos htag

/-! ## 2. Names -/

/-- Where the name of a record starts and stops. -/
structure ValidRange (fields : SymbolicLinkFields) (start stop : Nat) : Prop where
  evenOffset : fields.substituteOffset % 2 = 0
  evenLength : fields.substituteLength % 2 = 0
  start_eq : start = symlinkPathBufferOffset + fields.substituteOffset
  stop_eq : stop = start + fields.substituteLength
  within : stop ≤ fields.recordLength

theorem wideRange_eq {start stop : Nat} (h : ValidRange (fieldsOf buffer) start stop) :
    wideRange (fieldsOf buffer).recordLength (fieldsOf buffer).substituteOffset
      (fieldsOf buffer).substituteLength = .ok (start, stop) := by
  have hrecord := recordLength_lt buffer
  have hwithin := h.within
  have hstart : checkedUsize (symlinkPathBufferOffset + (fieldsOf buffer).substituteOffset)
      = some start := by
    rw [← h.start_eq]
    have := h.stop_eq
    exact checkedUsize_eq (by omega)
  have hstop : checkedUsize (start + (fieldsOf buffer).substituteLength) = some stop := by
    rw [← h.stop_eq]
    exact checkedUsize_eq (by omega)
  have heven : ¬ ((fieldsOf buffer).substituteOffset % 2 ≠ 0 ∨
      (fieldsOf buffer).substituteLength % 2 ≠ 0) := by
    rw [h.evenOffset, h.evenLength]
    decide
  unfold wideRange
  rw [if_neg heven, hstart]
  dsimp only
  rw [hstop, Option.filter_some, if_pos (decide_eq_true hwithin)]

theorem wideRange_error
    (h : ¬ ∃ start stop, ValidRange (fieldsOf buffer) start stop) :
    ∃ error, wideRange (fieldsOf buffer).recordLength (fieldsOf buffer).substituteOffset
      (fieldsOf buffer).substituteLength = .error (.error error) := by
  unfold wideRange
  split
  · exact ⟨_, rfl⟩
  · rename_i heven
    rw [not_or, not_not, not_not] at heven
    split
    · exact ⟨_, rfl⟩
    · rename_i start hstart
      split
      · exact ⟨_, rfl⟩
      · rename_i stop hstop
        obtain ⟨hsum, hwithin⟩ := Option.filter_eq_some_iff.mp hstop
        unfold checkedUsize at hstart hsum
        split at hstart
        · split at hsum
          · cases hstart
            cases hsum
            exact absurd ⟨_, _, heven.1, heven.2, rfl, rfl, of_decide_eq_true hwithin⟩ h
          · cases hsum
        · cases hstart

/-- A record from which a name is read. -/
structure ValidRecord (buffer : List UInt8) (start stop : Nat) : Prop where
  header : ValidHeader buffer
  range : ValidRange (fieldsOf buffer) start stop

def nameAt (buffer : List UInt8) (start stop : Nat) : WideString :=
  unitsOf ((buffer.drop start).take (stop - start))

theorem readWideRange_eq {start stop : Nat} (h : ValidRecord buffer start stop) :
    readWideRange buffer (fieldsOf buffer).recordLength (fieldsOf buffer).substituteOffset
      (fieldsOf buffer).substituteLength = .ok (nameAt buffer start stop) := by
  have hle : start ≤ stop := by
    rw [h.range.stop_eq]
    exact Nat.le_add_right ..
  have hslice : (slice buffer start stop : ReparseResult (List UInt8))
      = .ok ((buffer.drop start).take (stop - start)) :=
    slice_ok hle (Nat.le_trans h.range.within h.header.declared)
  unfold readWideRange
  rw [wideRange_eq h.range]
  show (slice buffer start stop >>= _) = _
  rw [hslice]
  rfl

/-! ## 3. Both readers -/

/-- The plain reader. -/
theorem parseSymbolicLinkTarget_eq {start stop : Nat} (h : ValidRecord buffer start stop) :
    parseSymbolicLinkTarget buffer
      = normalizeSymbolicLinkTarget (nameAt buffer start stop) (fieldsOf buffer).flags := by
  unfold parseSymbolicLinkTarget parseSymbolicLinkTargetUnits
  rw [parseSymbolicLinkFields_eq h.header]
  show (readWideRange _ _ _ _ >>= _) = _
  rw [readWideRange_eq h]
  rfl

theorem parseSymbolicLinkTarget_error (h : ¬ ∃ start stop, ValidRecord buffer start stop) :
    ∃ error, parseSymbolicLinkTarget buffer = .error (.error error) := by
  unfold parseSymbolicLinkTarget parseSymbolicLinkTargetUnits
  by_cases hheader : ValidHeader buffer
  · have hrange : ¬ ∃ start stop, ValidRange (fieldsOf buffer) start stop := by
      rintro ⟨start, stop, hrange⟩
      exact h ⟨start, stop, hheader, hrange⟩
    obtain ⟨error, herror⟩ := wideRange_error hrange
    rw [parseSymbolicLinkFields_eq hheader]
    show ∃ e, (readWideRange _ _ _ _ >>= _) = _
    unfold readWideRange
    rw [herror]
    exact ⟨error, rfl⟩
  · obtain ⟨error, herror⟩ := parseSymbolicLinkFields_error hheader
    rw [herror]
    exact ⟨error, rfl⟩

/-- The bounded reader. -/
theorem parseLimitedSymbolicLinkTarget_eq {start stop : Nat} (h : ValidRecord buffer start stop)
    (maximumBytes : Option Nat) :
    parseLimitedSymbolicLinkTarget buffer maximumBytes
      = if ∃ maximum ∈ maximumBytes, maximum < stop - start then .ok (.exceeded (stop - start))
        else .ok (.target (nameAt buffer start stop) (fieldsOf buffer).flags) := by
  have hsubtract : subtract stop start = .ok (stop - start) := by
    unfold subtract
    rw [if_neg (Nat.not_lt.mpr (h.range.stop_eq ▸ Nat.le_add_right ..))]
  unfold parseLimitedSymbolicLinkTarget
  rw [parseSymbolicLinkFields_eq h.header]
  show (wideRange _ _ _ >>= _) = _
  rw [wideRange_eq h.range]
  show (subtract stop start >>= _) = _
  rw [hsubtract]
  show (if _ then _ else readWideRange _ _ _ _ >>= _) = _
  rw [readWideRange_eq h]
  rfl

theorem parseLimitedSymbolicLinkTarget_error (maximumBytes : Option Nat)
    (h : ¬ ∃ start stop, ValidRecord buffer start stop) :
    ∃ error, parseLimitedSymbolicLinkTarget buffer maximumBytes = .error (.error error) := by
  unfold parseLimitedSymbolicLinkTarget
  by_cases hheader : ValidHeader buffer
  · have hrange : ¬ ∃ start stop, ValidRange (fieldsOf buffer) start stop := by
      rintro ⟨start, stop, hrange⟩
      exact h ⟨start, stop, hheader, hrange⟩
    obtain ⟨error, herror⟩ := wideRange_error hrange
    rw [parseSymbolicLinkFields_eq hheader]
    show ∃ e, (wideRange _ _ _ >>= _) = _
    rw [herror]
    exact ⟨error, rfl⟩
  · obtain ⟨error, herror⟩ := parseSymbolicLinkFields_error hheader
    rw [herror]
    exact ⟨error, rfl⟩

/-! ## 4. What an absolute name becomes -/

theorem normalizeSymbolicLinkTarget_ne_panic (units : WideString) (flags : UInt32)
    (message : String) : normalizeSymbolicLinkTarget units flags ≠ .error (.panic message) := by
  unfold normalizeSymbolicLinkTarget
  split
  · split <;> nofun
  · split
    · unfold normalizeAbsoluteSubstituteName
      split
      · split <;> nofun
      · split
        · split <;> nofun
        · split <;> nofun
    · nofun

/-- A drive and its root, or two backslashes and a name. -/
def SupportedAbsolute (path : WideString) : Prop :=
  (∃ drive rest, path = drive :: unit ':' :: backslash :: rest ∧
    Windows.isAsciiAlphabetic drive = true) ∨
  ∃ u rest, path = backslash :: backslash :: u :: rest ∧ u ≠ backslash

theorem startsWithDriveRoot_iff {units : WideString} :
    startsWithDriveRoot units = true ↔
      ∃ drive rest, units = drive :: unit ':' :: backslash :: rest ∧
        Windows.isAsciiAlphabetic drive = true := by
  constructor
  · intro h
    unfold startsWithDriveRoot at h
    split at h
    · rename_i drive colon separator rest
      rw [Bool.and_eq_true, Bool.and_eq_true, beq_iff_eq, beq_iff_eq] at h
      obtain ⟨⟨hdrive, rfl⟩, rfl⟩ := h
      exact ⟨drive, rest, rfl, hdrive⟩
    · cases h
  · rintro ⟨drive, rest, rfl, hdrive⟩
    show (Windows.isAsciiAlphabetic drive && _ && _) = true
    rw [hdrive]
    rfl

theorem normalizeAbsolute_supported {units path : WideString}
    (h : normalizeAbsoluteSubstituteName units = .ok path) : SupportedAbsolute path := by
  unfold normalizeAbsoluteSubstituteName at h
  split at h
  · rename_i rest _
    split at h
    · cases h
    · rename_i hrest
      cases h
      cases rest with
      | nil => exact absurd (.inl rfl) hrest
      | cons u rest => exact .inr ⟨u, rest, rfl, fun hu => hrest (.inr (congrArg some hu))⟩
  · split at h
    · split at h
      · rename_i hdrive
        cases h
        exact .inl (startsWithDriveRoot_iff.mp hdrive)
      · cases h
    · split at h <;> cases h

theorem normalizeSymbolicLinkTarget_supported {units path : WideString} {flags : UInt32}
    (hflags : flags ≠ symlinkFlagRelative)
    (h : normalizeSymbolicLinkTarget units flags = .ok path) : SupportedAbsolute path := by
  unfold normalizeSymbolicLinkTarget at h
  rw [if_neg hflags] at h
  split at h
  · exact normalizeAbsolute_supported h
  · cases h

/-! ## 5. Any buffer -/

/-- What is read of a buffer, and how the two readers agree on it. -/
structure Reading (buffer : List UInt8) (maximumBytes : Option Nat) : Prop where
  noPanic : ∀ message, parseSymbolicLinkTarget buffer ≠ .error (.panic message)
  limitedNoPanic : ∀ message,
    parseLimitedSymbolicLinkTarget buffer maximumBytes ≠ .error (.panic message)
  sums : ∀ fields, parseSymbolicLinkFields buffer = .ok fields → fields.recordLength ≤ usizeMax ∧
    symlinkPathBufferOffset + fields.substituteOffset + fields.substituteLength ≤ usizeMax
  within : ∀ path, parseSymbolicLinkTarget buffer = .ok path → ∃ start stop,
    ValidRecord buffer start stop ∧
      normalizeSymbolicLinkTarget (nameAt buffer start stop) (fieldsOf buffer).flags = .ok path
  exceeded : ∀ bytes, parseLimitedSymbolicLinkTarget buffer maximumBytes = .ok (.exceeded bytes) ↔
    ∃ start stop, ValidRecord buffer start stop ∧ bytes = stop - start ∧
      ∃ maximum ∈ maximumBytes, maximum < bytes
  invalid : (∃ error, parseLimitedSymbolicLinkTarget buffer maximumBytes = .error error) ↔
    ¬ ∃ start stop, ValidRecord buffer start stop
  target : ∀ rawPath flags,
    parseLimitedSymbolicLinkTarget buffer maximumBytes = .ok (.target rawPath flags) →
      (∃ start stop, ValidRecord buffer start stop ∧ rawPath = nameAt buffer start stop) ∧
      normalizeRootedLinkTarget rawPath flags = parseSymbolicLinkTarget buffer
  absolute : ∀ path, u32At buffer 16 ≠ symlinkFlagRelative →
    parseSymbolicLinkTarget buffer = .ok path → SupportedAbsolute path

theorem sums_fit {fields : SymbolicLinkFields} (h : parseSymbolicLinkFields buffer = .ok fields) :
    fields.recordLength ≤ usizeMax ∧
      symlinkPathBufferOffset + fields.substituteOffset + fields.substituteLength ≤ usizeMax := by
  by_cases hheader : ValidHeader buffer
  · rw [parseSymbolicLinkFields_eq hheader] at h
    cases h
    have hrecord := recordLength_lt buffer
    have hoffset := (u16At buffer 8).toNat_lt
    have hlength := (u16At buffer 10).toNat_lt
    unfold usizeMax symlinkPathBufferOffset
    refine ⟨by omega, ?_⟩
    show 20 + (u16At buffer 8).toNat + (u16At buffer 10).toNat ≤ 2 ^ 64 - 1
    omega
  · obtain ⟨error, herror⟩ := parseSymbolicLinkFields_error hheader
    rw [herror] at h
    cases h

theorem ValidRecord.reading {start stop : Nat} (h : ValidRecord buffer start stop)
    (maximumBytes : Option Nat) : Reading buffer maximumBytes := by
  have hplain := parseSymbolicLinkTarget_eq h
  have hlimited := parseLimitedSymbolicLinkTarget_eq h maximumBytes
  have hunique (start' stop' : Nat) (h' : ValidRecord buffer start' stop') :
      start' = start ∧ stop' = stop := by
    have hstart : start' = start := h'.range.start_eq.trans h.range.start_eq.symm
    exact ⟨hstart, by rw [h'.range.stop_eq, h.range.stop_eq, hstart]⟩
  constructor
  case noPanic => exact fun message => hplain ▸ normalizeSymbolicLinkTarget_ne_panic _ _ message
  case limitedNoPanic => intro message; rw [hlimited]; split <;> nofun
  case sums => exact fun fields => sums_fit
  case within => exact fun path hpath => ⟨start, stop, h, hplain ▸ hpath⟩
  case exceeded =>
    intro bytes
    rw [hlimited]
    constructor
    · intro hexceeded
      split at hexceeded
      · rename_i hover
        cases hexceeded
        exact ⟨start, stop, h, rfl, hover⟩
      · cases hexceeded
    · rintro ⟨start', stop', h', rfl, hover⟩
      obtain ⟨rfl, rfl⟩ := hunique start' stop' h'
      exact if_pos hover
  case invalid =>
    refine iff_of_false ?_ (not_not.mpr ⟨start, stop, h⟩)
    rintro ⟨error, herror⟩
    rw [hlimited] at herror
    split at herror <;> cases herror
  case target =>
    intro rawPath flags htarget
    rw [hlimited] at htarget
    split at htarget
    · cases htarget
    · cases htarget
      exact ⟨⟨start, stop, h, rfl⟩, hplain.symm⟩
  case absolute =>
    intro path hflags hpath
    rw [hplain] at hpath
    exact normalizeSymbolicLinkTarget_supported hflags hpath

/-- Whatever the bytes are, both readers stay within the declared data, and the bounded one leads
    to the same target as the plain one. -/
theorem linkRecord_reading (buffer : List UInt8) (maximumBytes : Option Nat) :
    Reading buffer maximumBytes := by
  by_cases h : ∃ start stop, ValidRecord buffer start stop
  · obtain ⟨start, stop, h⟩ := h
    exact h.reading maximumBytes
  · obtain ⟨error, hplain⟩ := parseSymbolicLinkTarget_error h
    obtain ⟨error', hlimited⟩ := parseLimitedSymbolicLinkTarget_error maximumBytes h
    constructor
    case noPanic => intro message; rw [hplain]; nofun
    case limitedNoPanic => intro message; rw [hlimited]; nofun
    case sums => exact fun fields => sums_fit
    case within => intro path hpath; rw [hplain] at hpath; cases hpath
    case exceeded =>
      intro bytes
      rw [hlimited]
      refine iff_of_false nofun ?_
      rintro ⟨start, stop, hvalid, -⟩
      exact h ⟨start, stop, hvalid⟩
    case invalid => exact iff_of_true ⟨_, hlimited⟩ h
    case target => intro rawPath flags htarget; rw [hlimited] at htarget; cases htarget
    case absolute => intro path _ hpath; rw [hplain] at hpath; cases hpath

end LocalFiles.Reparse
