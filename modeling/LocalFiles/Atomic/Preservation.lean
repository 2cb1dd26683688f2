import LocalFiles.Contract
import LocalFiles.Atomic.ExtendedMetadata

/-!
# Preservation — the staging file ends with the attributes of the source

Every value that is copied is one that the source had when it was read, whatever another process
does.  A lookup or a list fails only where a call failed or the source was written to, so without
either the copy is exact.
-/

namespace LocalFiles.ExtendedMetadata

open Interaction

/-! ## 1. Buffers and names -/

theorem take_filled {length : Nat} {bytes : List UInt8} (h : bytes.length ≤ length) :
    (filled length bytes).take bytes.length = bytes := by
  unfold filled
  rw [List.take_of_length_le h, List.take_left]

theorem mem_parseXattrNames {buffer : List UInt8} {name : Name} :
    name ∈ parseXattrNames buffer ↔ name ∈ pieces (· == 0) buffer := by
  unfold parseXattrNames
  rw [List.mem_insertionSort, List.mem_dedup]

/-- No name is empty or contains the separator. -/
theorem named_of_mem {buffer : List UInt8} {name : Name} (h : name ∈ parseXattrNames buffer) :
    name ≠ [] ∧ 0 ∉ name := by
  have hpiece := mem_parseXattrNames.mp h
  refine ⟨ne_nil_of_mem_pieces hpiece, fun hzero => ?_⟩
  have hfalse := mem_pieces hpiece 0 hzero
  cases hfalse

theorem pieces_listing (names : List Name) (hnamed : ∀ name ∈ names, name ≠ [] ∧ 0 ∉ name) :
    pieces (· == 0) (names.flatMap fun name => name ++ [0]) = names := by
  induction names with
  | nil => rfl
  | cons name rest ih =>
    rw [List.forall_mem_cons] at hnamed
    obtain ⟨⟨hne, hnul⟩, hrest⟩ := hnamed
    have hrun : ∀ byte ∈ name, (byte == 0) = false := by
      intro byte hbyte
      exact beq_eq_false_iff_ne.mpr fun heq => hnul (heq ▸ hbyte)
    rw [List.flatMap_cons, List.append_assoc, List.singleton_append, pieces_append_cons rfl,
      pieces_run hne hrun, ih hrest, List.singleton_append]

theorem mem_parse_listing (attributes : Attributes) {name : Name} :
    name ∈ parseXattrNames attributes.listing ↔ name ∈ attributes.names := by
  rw [mem_parseXattrNames, Attributes.listing, pieces_listing _ attributes.named]

theorem names_eq_nil {attributes : Attributes} (h : attributes.listing.length = 0) :
    attributes.names = [] := by
  have hnil : attributes.listing = [] := List.length_eq_zero_iff.mp h
  have hpieces := pieces_listing attributes.names attributes.named
  rw [← hpieces, ← Attributes.listing, hnil, pieces_nil]

theorem nativeName_of {name : Name} (h : 0 ∉ name) : nativeName name = .ok ⟨name, h⟩ := dif_neg h

theorem mem_orderedNames {names : List Name} {name : Name} :
    name ∈ orderedNames names ↔ name ∈ names := by
  unfold orderedNames
  rw [List.mem_append, List.mem_filter, List.mem_filter]
  cases isSecurity name <;> simp

/-- Security attributes come last. -/
theorem orderedNames_pairwise (names : List Name) :
    (orderedNames names).Pairwise fun first second => isSecurity first → isSecurity second := by
  refine List.pairwise_append.mpr ⟨?_, ?_, ?_⟩
  · refine List.pairwise_of_forall_mem_list fun first hfirst _ _ hsecurity => ?_
    have hordinary := (List.mem_filter.mp hfirst).2
    rw [hsecurity] at hordinary
    cases hordinary
  · refine List.pairwise_of_forall_mem_list fun _ _ second hsecond _ => ?_
    exact (List.mem_filter.mp hsecond).2
  · intro first _ second hsecond _
    exact (List.mem_filter.mp hsecond).2

theorem mem_difference {names others : List Name} {name : Name} :
    name ∈ difference names others ↔ name ∈ names ∧ name ∉ others := by
  unfold difference
  rw [List.mem_filter, decide_eq_true_iff]

/-! ## 2. What a call leaves as it was -/

/-- What no call takes back. -/
structure Follows (w w' : World) : Prop where
  failed : w.failed = true → w'.failed = true
  changed : w.changed = true → w'.changed = true
  source : w'.changed = false → w'.source = w.source
  moments : w.moments ⊆ w'.moments

section Steps

variable {w w₁ w' : World} {file : File} {c : XattrCall} {answer : c.Result}

theorem Follows.refl (w : World) : Follows w w := ⟨id, id, fun _ => rfl, List.Subset.refl _⟩

theorem Follows.not_failed (h : Follows w w') (hfailed : w'.failed = false) : w.failed = false := by
  refine Bool.eq_false_iff.mpr fun hw => ?_
  rw [h.failed hw] at hfailed
  cases hfailed

theorem Follows.not_changed (h : Follows w w') (hchanged : w'.changed = false) :
    w.changed = false := by
  refine Bool.eq_false_iff.mpr fun hw => ?_
  rw [h.changed hw] at hchanged
  cases hchanged

theorem resolve_failed {P : Prop} (h : w.failed = true ∨ P) (hfailed : w.failed = false) : P :=
  h.resolve_left (by rw [hfailed]; nofun)

theorem Follows.trans (h : Follows w w₁) (h' : Follows w₁ w') : Follows w w' where
  failed := h'.failed ∘ h.failed
  changed := h'.changed ∘ h.changed
  source hchanged := by rw [h'.source hchanged, h.source (h'.not_changed hchanged)]
  moments := List.Subset.trans h.moments h'.moments

/-- The calls that leave the staging file alone. -/
def XattrCall.Reads : XattrCall → Prop
  | .setXattr _ _ => False
  | .removeXattr _ => False
  | _ => True

/-- The calls that look up an attribute of the source. -/
def XattrCall.Looks : XattrCall → Prop
  | .queryXattrValueLength .source _ => True
  | .readXattrValue .source _ _ => True
  | _ => False

structure Step (w : World) (c : XattrCall) (w' : World) : Prop extends Follows w w' where
  staging : c.Reads → w'.failed = false → w'.staging = w.staging
  written : w'.written = w.written ++ c.sets
  gone : ¬ c.Looks → w'.gone = w.gone

/-- A call that changes neither file and takes no note. -/
theorem Step.same (hsets : c.sets = []) : Step w c w :=
  ⟨.refl w, fun _ _ => rfl, by rw [hsets, List.append_nil], fun _ => rfl⟩

@[simp] theorem lost_file (other : File) : (w.lost file).file other = w.file other := by
  cases file <;> rfl

theorem Step.lost (hsets : c.sets = []) (hlooks : file = .source → c.Looks) :
    Step w c (w.lost file) := by
  cases file with
  | staging => exact .same hsets
  | source =>
    refine ⟨⟨id, id, fun _ => rfl, List.Subset.refl _⟩, fun _ _ => rfl, ?_, ?_⟩
    · rw [hsets, List.append_nil]
      rfl
    · exact fun hlooks' => absurd (hlooks rfl) hlooks'

theorem Serves.step (h : Serves w c answer w') : Step w c w' := by
  cases c with
  | queryXattrListLength file =>
    obtain ⟨rfl, -⟩ := h
    exact .same rfl
  | readXattrList file capacity =>
    obtain ⟨rfl, -⟩ := h
    exact .same rfl
  | queryXattrValueLength file name =>
    dsimp only [Serves] at h
    split at h
    · obtain ⟨rfl, -⟩ := h
      exact .same rfl
    · obtain ⟨rfl, -⟩ := h
      exact .lost rfl (by rintro rfl; trivial)
  | readXattrValue file name capacity =>
    dsimp only [Serves] at h
    split at h
    · obtain ⟨rfl, -⟩ := h
      exact .same rfl
    · obtain ⟨rfl, -⟩ := h
      exact .lost rfl (by rintro rfl; trivial)
  | setXattr name value =>
    obtain ⟨-, attributes, -, rfl⟩ := h
    exact ⟨⟨id, id, fun _ => rfl, List.Subset.refl _⟩, nofun, rfl, fun _ => rfl⟩
  | removeXattr name =>
    dsimp only [Serves] at h
    split at h
    · obtain ⟨-, attributes, -, rfl⟩ := h
      exact ⟨⟨id, id, fun _ => rfl, List.Subset.refl _⟩, nofun, (List.append_nil _).symm,
        fun _ => rfl⟩
    · obtain ⟨rfl, -⟩ := h
      exact .same rfl

theorem Fails.step (h : Fails w c answer w') : Step w c w' := by
  obtain ⟨error, staging, -, rfl⟩ := h
  exact ⟨⟨fun _ => rfl, id, fun _ => rfl, List.Subset.refl _⟩, nofun, rfl, fun _ => rfl⟩

theorem Competes.follows (h : Competes w w') : Follows w w' := by
  cases h with
  | rests => exact .refl w
  | replaces source => exact ⟨id, fun _ => rfl, nofun, List.subset_cons_self _ _⟩

theorem Competes.staging (h : Competes w w') : w'.staging = w.staging := by cases h <;> rfl

theorem Competes.written (h : Competes w w') : w'.written = w.written := by cases h <;> rfl

theorem Competes.gone (h : Competes w w') : w'.gone = w.gone := by cases h <;> rfl

theorem racing_step (h : Racing w c answer w') : Step w c w' := by
  obtain ⟨mid, hcompetes, h⟩ := h
  have hstep : Step mid c w' := h.elim Serves.step Fails.step
  refine ⟨hcompetes.follows.trans hstep.toFollows, fun hreads hfailed => ?_, ?_, fun hlooks => ?_⟩
  · rw [hstep.staging hreads hfailed, hcompetes.staging]
  · rw [hstep.written, hcompetes.written]
  · rw [hstep.gone hlooks, hcompetes.gone]

/-- What reading calls leave as it was. -/
structure Kept (w w' : World) : Prop extends Follows w w' where
  staging : w'.failed = false → w'.staging = w.staging
  written : w'.written = w.written

theorem XattrCall.Reads.sets (h : c.Reads) : c.sets = [] := by
  cases c with
  | setXattr name value => exact h.elim
  | _ => rfl

theorem Kept.step (h : Kept w w₁) (hreads : c.Reads) (hE : Racing w₁ c answer w') : Kept w w' := by
  have hstep := racing_step hE
  refine ⟨h.toFollows.trans hstep.toFollows, fun hfailed => ?_, ?_⟩
  · rw [hstep.staging hreads hfailed, h.staging (hstep.not_failed hfailed)]
  · rw [hstep.written, hreads.sets, List.append_nil, h.written]

theorem Kept.refl (w : World) : Kept w w := ⟨.refl w, fun _ => rfl, rfl⟩

theorem wp_kept {α : Type} {p : XattrM α} (hp : p.Makes XattrCall.Reads) :
    p.Wp Racing (fun _ w' => Kept w w') w :=
  hp.wp (fun _ _ _ _ hreads h hE => h.step hreads hE) (.refl w)

/-- A call failed, or the file may have been written by another process. -/
def Disturbed (file : File) (w : World) : Prop :=
  w.failed = true ∨ file = .source ∧ w.changed = true

theorem Kept.sameFile (h : Kept w w') (hcalm : ¬ Disturbed file w') : w'.file file = w.file file := by
  cases file with
  | source => exact h.source (Bool.eq_false_iff.mpr fun hchanged => hcalm (.inr ⟨rfl, hchanged⟩))
  | staging => exact h.staging (Bool.eq_false_iff.mpr fun hfailed => hcalm (.inl hfailed))

/-- Between two reading calls the file is another only where it is disturbed. -/
theorem disturbed_of_ne (hE : Racing w c answer w') (hreads : c.Reads)
    (hne : w'.file file ≠ w.file file) : Disturbed file w' := by
  by_contra hcalm
  exact hne (((Kept.refl w).step hreads hE).sameFile hcalm)

end Steps

/-! ## 3. One lookup -/

section Lookups

variable {w w₁ w' : World} {file : File} {name : CString} {capacity : Nat} {gone : Bool}

/-- The answer to a call about one attribute. -/
inductive Looked {α : Type} (file : File) (name : Name) (w : World)
    (served : Value → IoResult α → Prop) : IoResult α → World → Prop
  | found {answer : IoResult α} {w' : World} {value : Value}
      (hvalue : (w'.file file).value name = some value) (hserved : served value answer)
      (hgone : w'.gone = w.gone) : Looked file name w served answer w'
  | missing {error : IoError} {w' : World} (hvalue : (w'.file file).value name = none)
      (herror : IsMissingXattr error) (hgone : file = .staging → w'.gone = w.gone) :
      Looked file name w served (.error error) w'
  | failed {error : IoError} {w' : World} (hfailed : w'.failed = true)
      (hgone : w'.gone = w.gone) : Looked file name w served (.error error) w'

theorem looked_of_served {α : Type} {name : Name} {mid : World} {served : Value → IoResult α → Prop}
    {answer : IoResult α} (hcompetes : Competes w mid)
    (h : match (mid.file file).value name with
      | some value => w' = mid ∧ served value answer
      | none => w' = mid.lost file ∧ Misses answer) : Looked file name w served answer w' := by
  cases hvalue : (mid.file file).value name with
  | some value =>
    rw [hvalue] at h
    obtain ⟨rfl, hserved⟩ := h
    exact .found hvalue hserved hcompetes.gone
  | none =>
    rw [hvalue] at h
    obtain ⟨rfl, error, herror, rfl⟩ := h
    refine .missing (by rwa [lost_file]) herror ?_
    rintro rfl
    exact hcompetes.gone

theorem looked_of_query {answer : IoResult Nat}
    (hE : Racing w (.queryXattrValueLength file name) answer w') :
    Looked file name.bytes w (fun value answer => answer = .ok value.length) answer w' := by
  obtain ⟨mid, hcompetes, hserves | ⟨error, staging, rfl, rfl⟩⟩ := hE
  · exact looked_of_served hcompetes hserves
  · exact .failed rfl hcompetes.gone

theorem looked_of_read {answer : IoResult (Nat × List UInt8)}
    (hE : Racing w (.readXattrValue file name capacity) answer w') :
    Looked file name.bytes w (Fills capacity) answer w' := by
  obtain ⟨mid, hcompetes, hserves | ⟨error, staging, rfl, rfl⟩⟩ := hE
  · exact looked_of_served hcompetes hserves
  · exact .failed rfl hcompetes.gone

/-- What a lookup says: a value is the one of this moment, and an error means that the file was
    disturbed. -/
inductive Answered (file : File) (name : Name) (gone : Bool) :
    IoResult (Option Value) → World → Prop
  | found {w' : World} {value : Value} (hvalue : (w'.file file).value name = some value)
      (hgone : w'.gone = gone) : Answered file name gone (.ok (some value)) w'
  | missing {w' : World} (hvalue : (w'.file file).value name = none ∨ w'.failed = true)
      (hgone : file = .staging → w'.gone = gone) : Answered file name gone (.ok none) w'
  | failed {w' : World} {error : IoError} (hdisturbed : Disturbed file w')
      (hgone : w'.gone = gone) : Answered file name gone (.error error) w'

/-- A value that fits its buffer is kept whole; one that does not has changed since it was
    measured. -/
theorem wp_takeValue {length : Nat} {again : IoError → XattrM (IoResult (Option Value))}
    {answer : IoResult (Nat × List UInt8)}
    (hlooked : Looked file name.bytes w (Fills length) answer w') (hgone : w.gone = gone)
    (hlength : ∀ value, (w'.file file).value name.bytes = some value → length < value.length →
      Disturbed file w')
    (hagain : ∀ error, Disturbed file w' → w'.gone = gone →
      (again error).Wp Racing (Answered file name.bytes gone) w') :
    (takeValue length again answer).Wp Racing (Answered file name.bytes gone) w' := by
  cases hlooked with
  | @found answer w' value hvalue hserved hsame =>
    have hgone' : w'.gone = gone := hsame.trans hgone
    cases hserved with
    | measures hcapacity =>
      show Prog.Wp _ _ (if _ then _ else _) _
      by_cases hfits : value.length ≤ length
      · rw [if_pos hfits]
        have hnil : value = [] := List.length_eq_zero_iff.mp (by omega)
        subst hnil
        exact .found hvalue hgone'
      · rw [if_neg hfits]
        exact hagain _ (hlength value hvalue (Nat.lt_of_not_le hfits)) hgone'
    | writes hfits =>
      show Prog.Wp _ _ (if _ then _ else _) _
      rw [if_pos hfits, take_filled hfits]
      exact .found hvalue hgone'
    | outgrown hpositive hlarger herror =>
      show Prog.Wp _ _ (if _ then _ else _) _
      rw [if_pos herror]
      exact hagain _ (hlength _ hvalue hlarger) hgone'
  | missing hvalue herror hgone' =>
    have hrange (error : IoError) (h : IsMissingXattr error) : error.osCode ≠ some erange := by
      rw [IsMissingXattr.eq_1] at h
      rw [h]
      decide
    show Prog.Wp _ _ (if _ then _ else _) _
    rw [if_neg (hrange _ herror), if_pos herror]
    exact .missing (.inl hvalue) fun hfile => (hgone' hfile).trans hgone
  | failed hfailed hsame =>
    have hgone' : w'.gone = gone := hsame.trans hgone
    show Prog.Wp _ _ (if _ then _ else (if _ then _ else _)) _
    split
    · exact hagain _ (.inl hfailed) hgone'
    · split
      · exact .missing (.inr hfailed) fun _ => hgone'
      · exact .failed (.inl hfailed) hgone'

theorem wp_getAttempt {again : IoError → XattrM (IoResult (Option Value))} (hgone : w.gone = gone)
    (hagain : ∀ error w', Disturbed file w' → w'.gone = gone →
      (again error).Wp Racing (Answered file name.bytes gone) w') :
    (getAttempt file name again).Wp Racing (Answered file name.bytes gone) w := by
  refine Prog.wp_bind.mpr fun (answer : IoResult Nat) w₁ hquery => ?_
  have hlooked := looked_of_query hquery
  cases hlooked with
  | found hvalue hserved hgone₁ =>
    rename_i value
    subst hserved
    refine Prog.wp_bind.mpr fun (answer : IoResult (Nat × List UInt8)) w₂ hread => ?_
    refine wp_takeValue (looked_of_read hread) (hgone₁.trans hgone) ?_ (fun error => hagain error w₂)
    intro value₂ hvalue₂ hlonger
    refine disturbed_of_ne hread trivial fun hsame => ?_
    rw [hsame, hvalue] at hvalue₂
    cases hvalue₂
    exact Nat.lt_irrefl _ hlonger
  | missing hvalue herror hgone₁ =>
    show Prog.Wp _ _ (if _ then _ else _) _
    rw [if_pos herror]
    exact .missing (.inl hvalue) fun hfile => (hgone₁ hfile).trans hgone
  | failed hfailed hgone₁ =>
    show Prog.Wp _ _ (if _ then _ else _) _
    split
    · exact .missing (.inr hfailed) fun _ => hgone₁.trans hgone
    · exact .failed (.inl hfailed) (hgone₁.trans hgone)

theorem wp_getLoop (name : CString) (remaining : Nat) (hgone : w.gone = gone) :
    (getLoop file name remaining).Wp Racing (Answered file name.bytes gone) w := by
  induction remaining generalizing w with
  | zero => exact wp_getAttempt hgone fun _ _ hdisturbed hgone' => .failed hdisturbed hgone'
  | succ remaining ih => exact wp_getAttempt hgone fun _ _ _ hgone' => ih hgone'

end Lookups

/-! ## 4. Lists, and removals -/

section Lists

variable {w w' : World} {file : File}

/-- What a list says: its names are those of this moment, unless a call failed. -/
inductive Listed (file : File) : IoResult (List Name) → World → Prop
  | names {w' : World} {names : List Name} (hnamed : ∀ name ∈ names, name ≠ [] ∧ 0 ∉ name)
      (hnames : w'.failed = true ∨ ∀ name, name ∈ names ↔ name ∈ (w'.file file).names) :
      Listed file (.ok names) w'
  | failed {w' : World} {error : IoError} (hdisturbed : Disturbed file w') :
      Listed file (.error error) w'

theorem Listed.none (h : w.failed = true ∨ (w.file file).names = []) :
    Listed file (.ok []) w := by
  refine .names nofun (h.imp_right fun hnil name => ?_)
  rw [hnil]

theorem wp_readList {length : Nat} {again : IoError → XattrM (IoResult (List Name))}
    (hpositive : 0 < length) (hlength : (w.file file).listing.length = length)
    (hagain : ∀ error w', Disturbed file w' → (again error).Wp Racing (Listed file) w') :
    (readXattrList file length >>= fun
      | .ok (read, bytes) => pure (.ok (parseXattrNames ((filled length bytes).take read)))
      | .error error =>
        if error.osCode = some erange then again error
        else pure (.error error)).Wp Racing (Listed file) w := by
  refine Prog.wp_bind.mpr fun (answer : IoResult (Nat × List UInt8)) w' hread => ?_
  obtain ⟨mid, -, ⟨rfl, hfills⟩ | ⟨error, staging, rfl, rfl⟩⟩ := id hread
  · cases hfills with
    | measures hcapacity => exact absurd hcapacity (Nat.ne_of_gt hpositive)
    | writes hfits =>
      show Listed file (.ok (parseXattrNames _)) _
      rw [take_filled hfits]
      exact .names (fun _ => named_of_mem) (.inr fun _ => mem_parse_listing _)
    | outgrown _ hlarger herror =>
      show Prog.Wp _ _ (if _ then _ else _) _
      rw [if_pos herror]
      refine hagain _ _ (disturbed_of_ne hread trivial fun hsame => ?_)
      rw [hsame, hlength] at hlarger
      exact Nat.lt_irrefl _ hlarger
  · show Prog.Wp _ _ (if _ then _ else _) _
    split
    · exact hagain _ _ (.inl rfl)
    · exact .failed (.inl rfl)

theorem wp_listAttempt {again : IoError → XattrM (IoResult (List Name))}
    (hagain : ∀ error w', Disturbed file w' → (again error).Wp Racing (Listed file) w') :
    (listAttempt file again).Wp Racing (Listed file) w := by
  refine Prog.wp_bind.mpr fun (answer : IoResult Nat) w₁ hquery => ?_
  obtain ⟨mid, -, ⟨rfl, rfl | ⟨hnil, error, hunsupported, rfl⟩⟩ | ⟨error, staging, rfl, rfl⟩⟩ := hquery
  · cases hlength : (w₁.file file).listing.length with
    | zero => exact Listed.none (.inr (names_eq_nil hlength))
    | succ length => exact wp_readList (Nat.succ_pos length) hlength hagain
  · show Prog.Wp _ _ (if _ then _ else _) _
    rw [if_pos hunsupported]
    exact Listed.none (.inr hnil)
  · show Prog.Wp _ _ (if _ then _ else _) _
    split
    · exact Listed.none (.inl rfl)
    · exact .failed (.inl rfl)

theorem wp_listXattrs : (listXattrs file).Wp Racing (Listed file) w := by
  have hloop (remaining : Nat) (w : World) : (listLoop file remaining).Wp Racing (Listed file) w := by
    induction remaining generalizing w with
    | zero => exact wp_listAttempt fun _ _ hdisturbed => .failed hdisturbed
    | succ remaining ih => exact wp_listAttempt fun _ _ _ => ih _
  exact hloop _ w

/-! ### Which calls are made -/

/-- The calls of a list: none writes, and none is about one attribute. -/
def XattrCall.Lists : XattrCall → Prop
  | .queryXattrListLength _ => True
  | .readXattrList _ _ => True
  | _ => False

theorem listXattrs_makes (file : File) : (listXattrs file).Makes XattrCall.Lists := by
  have hattempt (again : IoError → XattrM (IoResult (List Name)))
      (hagain : ∀ error, (again error).Makes XattrCall.Lists) :
      (listAttempt file again).Makes XattrCall.Lists := by
    refine .bind (p := queryXattrListLength file) ⟨trivial, fun _ => trivial⟩ fun answer => ?_
    match answer with
    | .ok 0 => trivial
    | .ok (length + 1) =>
      refine .bind (p := readXattrList file _) ⟨trivial, fun _ => trivial⟩ fun answer => ?_
      match answer with
      | .ok (read, bytes) => trivial
      | .error error =>
        show Prog.Makes _ (if _ then _ else _)
        split
        · exact hagain error
        · trivial
    | .error error =>
      show Prog.Makes _ (if _ then _ else _)
      split <;> trivial
  have hloop (remaining : Nat) : (listLoop file remaining).Makes XattrCall.Lists := by
    induction remaining with
    | zero => exact hattempt _ fun _ => trivial
    | succ remaining ih => exact hattempt _ fun _ => ih
  exact hloop _

/-- The calls about one attribute of one file. -/
def XattrCall.About (file : File) : XattrCall → Prop
  | .queryXattrValueLength other _ => other = file
  | .readXattrValue other _ _ => other = file
  | _ => False

theorem getLoop_makes (file : File) (name : CString) (remaining : Nat) :
    (getLoop file name remaining).Makes (XattrCall.About file) := by
  have hattempt (again : IoError → XattrM (IoResult (Option Value)))
      (hagain : ∀ error, (again error).Makes (XattrCall.About file)) :
      (getAttempt file name again).Makes (XattrCall.About file) := by
    refine .bind (p := queryXattrValueLength file name) ⟨rfl, fun _ => trivial⟩ fun answer => ?_
    match answer with
    | .ok length =>
      refine .bind (p := readXattrValue file name _) ⟨rfl, fun _ => trivial⟩ fun answer => ?_
      match answer with
      | .ok (read, bytes) =>
        show Prog.Makes _ (if _ then _ else _)
        split
        · trivial
        · exact hagain _
      | .error error =>
        show Prog.Makes _ (if _ then _ else (if _ then _ else _))
        split
        · exact hagain error
        · split <;> trivial
    | .error error =>
      show Prog.Makes _ (if _ then _ else _)
      split <;> trivial
  induction remaining with
  | zero => exact hattempt _ fun _ => trivial
  | succ remaining ih => exact hattempt _ fun _ => ih

theorem XattrCall.Lists.reads {c : XattrCall} (h : c.Lists) : c.Reads ∧ ¬ c.Looks := by
  cases c <;> first | exact h.elim | exact ⟨trivial, id⟩

theorem XattrCall.About.reads {c : XattrCall} (h : c.About file) : c.Reads := by
  cases c <;> first | exact h.elim | trivial

/-- A list leaves everything as it was but for the other process. -/
theorem wp_listXattrs_kept :
    (listXattrs file).Wp Racing (fun r w' => Listed file r w' ∧ Kept w w' ∧ w'.gone = w.gone) w := by
  have hmakes := listXattrs_makes file
  have hkept := wp_kept (w := w) (hmakes.mono fun _ h => h.reads.1)
  have hgone : (listXattrs file).Wp Racing (fun _ w' => w'.gone = w.gone) w := by
    refine hmakes.wp (fun w₁ c answer w₂ hlists hsame hE => ?_) rfl
    rw [(racing_step hE).gone hlists.reads.2, hsame]
  exact wp_listXattrs.and (hkept.and hgone)

end Lists

/-! ## 5. Removals -/

section Removals

variable {w w₁ w' : World} {name : Name} {names rest : List Name} {r : IoResult Unit}

/-- What removing `names` from the staging file does. -/
structure Removed (names : List Name) (w : World) (r : IoResult Unit) (w' : World) : Prop
    extends Follows w w' where
  written : w'.written = w.written
  gone : w'.gone = w.gone
  refused : ∀ error, r = .error error → w'.failed = true
  value : r = .ok () → w'.failed = false → ∀ name, w'.staging.value name =
    if name ∈ names then none else w.staging.value name

theorem Removed.nil : Removed [] w (.ok ()) w :=
  ⟨.refl w, rfl, rfl, nofun, fun _ _ name => by rw [if_neg List.not_mem_nil]⟩

theorem Removed.cons (h : Removed [name] w (.ok ()) w₁) (h' : Removed rest w₁ r w') :
    Removed (name :: rest) w r w' where
  toFollows := h.toFollows.trans h'.toFollows
  written := h'.written.trans h.written
  gone := h'.gone.trans h.gone
  refused := h'.refused
  value hok hfailed other := by
    rw [h'.value hok hfailed, h.value rfl (h'.not_failed hfailed)]
    by_cases hrest : other ∈ rest
    · rw [if_pos hrest, if_pos (List.mem_cons_of_mem _ hrest)]
    · rw [if_neg hrest]
      simp only [List.mem_cons, List.not_mem_nil, or_false, hrest]

theorem Removed.stop {error : IoError} (h : Removed names w (.error error) w') (rest : List Name) :
    Removed (names ++ rest) w (.error error) w' :=
  ⟨h.toFollows, h.written, h.gone, h.refused, nofun⟩

theorem wp_removeXattr (hnul : 0 ∉ name) : (removeXattr name).Wp Racing (Removed [name] w) w := by
  unfold removeXattr
  rw [nativeName_of hnul]
  refine Prog.wp_bind.mpr fun (answer : IoResult Unit) w' hE => ?_
  have hstep := racing_step hE
  have hwritten : w'.written = w.written := hstep.written.trans (List.append_nil _)
  have hremoved (r : IoResult Unit) (hrefused : ∀ error, r = .error error → w'.failed = true)
      (hvalue : w'.failed = false → w'.staging.value = Function.update w.staging.value name none) :
      Removed [name] w r w' := by
    refine ⟨hstep.toFollows, hwritten, hstep.gone id, hrefused, fun _ hfailed other => ?_⟩
    rw [hvalue hfailed, Function.update_apply]
    simp only [List.mem_singleton]
  obtain ⟨mid, hcompetes, hserves | ⟨error, staging, rfl, rfl⟩⟩ := hE
  · dsimp only [Serves] at hserves
    split at hserves
    · obtain ⟨rfl, attributes, hattributes, rfl⟩ := hserves
      refine hremoved _ nofun fun _ => ?_
      rw [hattributes, hcompetes.staging]
    · rename_i habsent
      obtain ⟨rfl, error, hmissing, rfl⟩ := hserves
      show Prog.Wp _ _ (if _ then _ else _) _
      rw [if_pos hmissing]
      refine hremoved _ nofun fun _ => ?_
      rw [hcompetes.staging] at habsent ⊢
      rw [Function.update_eq_self_iff.mpr habsent.symm]
  · show Prog.Wp _ _ (if _ then _ else _) _
    split <;> exact hremoved _ (fun _ _ => rfl) nofun

theorem wp_removeNames (hnul : ∀ name ∈ names, 0 ∉ name) :
    (removeNames names).Wp Racing (Removed names w) w := by
  induction names generalizing w with
  | nil => exact Removed.nil
  | cons name rest ih =>
    obtain ⟨hname, hrest⟩ := List.forall_mem_cons.mp hnul
    refine Prog.wp_andThen.mpr ((wp_removeXattr hname).mono fun r w₁ hremoved => ⟨?_, ?_⟩)
    · rintro error rfl
      exact hremoved.stop rest
    · rintro ⟨⟩ rfl
      exact (ih hrest).mono fun r w' => hremoved.cons

end Removals

/-! ## 6. Copies -/

section Copies

variable {w w₁ w' : World} {name : Name} {value : Value} {names rest : List Name}
  {r : IoResult Unit} {error : IoError}

/-- The source had this value at some moment. -/
def World.Held (w : World) (name : Name) (value : Value) : Prop :=
  ∃ attributes ∈ w.moments, attributes.value name = some value

theorem World.Held.follows (h : w.Held name value) (hfollows : Follows w w') :
    w'.Held name value := by
  obtain ⟨attributes, hmem, hvalue⟩ := h
  exact ⟨attributes, hfollows.moments hmem, hvalue⟩

theorem held_of_value (h : w.source.value name = some value) : w.Held name value :=
  ⟨w.source, List.mem_cons_self, h⟩

/-- What copying `names` to the staging file does. -/
structure Copied (names : List Name) (w : World) (r : IoResult Unit) (w' : World) : Prop
    extends Follows w w' where
  others : w'.failed = false → ∀ name ∉ names, w'.staging.value name = w.staging.value name
  copied : r = .ok () → w'.failed = false → ∀ name ∈ names, ∃ value,
    w'.staging.value name = some value ∧ w'.Held name value
  exact : w'.failed = false → w'.changed = false → (∀ name ∈ names, w.source.value name ≠ none) →
    r = .ok () ∧ ∀ name ∈ names, w'.staging.value name = w.source.value name
  gone : w'.gone = true → r = .error disappeared
  written : ∃ added, w'.written = w.written ++ added ∧ (added.map Prod.fst).Sublist names ∧
    ∀ entry ∈ added, w'.Held entry.1 entry.2

theorem Copied.nil (hgone : w.gone = false) : Copied [] w (.ok ()) w where
  toFollows := .refl w
  others _ _ _ := rfl
  copied _ _ _ hmem := absurd hmem List.not_mem_nil
  exact _ _ _ := ⟨rfl, fun _ hmem => absurd hmem List.not_mem_nil⟩
  gone h := by rw [hgone] at h; cases h
  written := ⟨[], (List.append_nil _).symm, List.Sublist.refl _, nofun⟩

theorem Copied.cons (h : Copied [name] w (.ok ()) w₁) (h' : Copied rest w₁ r w') :
    Copied (name :: rest) w r w' where
  toFollows := h.toFollows.trans h'.toFollows
  others hfailed other hother := by
    rw [List.mem_cons, not_or] at hother
    rw [h'.others hfailed other hother.2, h.others (h'.not_failed hfailed) other]
    exact fun hmem => hother.1 (List.mem_singleton.mp hmem)
  copied hok hfailed other hother := by
    by_cases hrest : other ∈ rest
    · exact h'.copied hok hfailed other hrest
    · have hname : other = name := (List.mem_cons.mp hother).resolve_right hrest
      obtain ⟨value, hvalue, hheld⟩ :=
        h.copied rfl (h'.not_failed hfailed) other (List.mem_singleton.mpr hname)
      exact ⟨value, (h'.others hfailed other hrest).trans hvalue, hheld.follows h'.toFollows⟩
  exact hfailed hchanged hpresent := by
    obtain ⟨hname, hrest⟩ := List.forall_mem_cons.mp hpresent
    have hsource : w₁.source = w.source := h.source (h'.not_changed hchanged)
    obtain ⟨-, hfirst⟩ := h.exact (h'.not_failed hfailed) (h'.not_changed hchanged)
      (List.forall_mem_singleton.mpr hname)
    obtain ⟨hok, hothers⟩ := h'.exact hfailed hchanged (by rwa [hsource])
    refine ⟨hok, fun other hother => ?_⟩
    by_cases hmem : other ∈ rest
    · rw [hothers other hmem, hsource]
    · have heq : other = name := (List.mem_cons.mp hother).resolve_right hmem
      rw [h'.others hfailed other hmem, hfirst other (List.mem_singleton.mpr heq)]
  gone := h'.gone
  written := by
    obtain ⟨added, hadded, hsublist, hheld⟩ := h.written
    obtain ⟨more, hmore, hsublist', hheld'⟩ := h'.written
    refine ⟨added ++ more, by rw [hmore, hadded, List.append_assoc], ?_, fun entry hentry => ?_⟩
    · rw [List.map_append]
      exact hsublist.append hsublist'
    · rcases List.mem_append.mp hentry with hentry | hentry
      · exact (hheld entry hentry).follows h'.toFollows
      · exact hheld' entry hentry

theorem Copied.stop (h : Copied [name] w (.error error) w') (rest : List Name) :
    Copied (name :: rest) w (.error error) w' where
  toFollows := h.toFollows
  others hfailed other hother := h.others hfailed other fun hmem =>
    hother (List.mem_cons.mpr (.inl (List.mem_singleton.mp hmem)))
  copied := nofun
  exact hfailed hchanged hpresent := by
    have hname := (List.forall_mem_cons.mp hpresent).1
    obtain ⟨habsurd, -⟩ := h.exact hfailed hchanged (List.forall_mem_singleton.mpr hname)
    cases habsurd
  gone := h.gone
  written := by
    obtain ⟨added, hadded, hsublist, hheld⟩ := h.written
    exact ⟨added, hadded, hsublist.trans (List.sublist_append_left [name] rest), hheld⟩

/-- An attribute that could not be read. -/
theorem Kept.stopped (h : Kept w w') (hgone : w'.gone = true → error = disappeared)
    (hdisturbed : w'.failed = false → w'.changed = false → w.source.value name = none) :
    Copied [name] w (.error error) w' where
  toFollows := h.toFollows
  others hfailed _ _ := by rw [h.staging hfailed]
  copied := nofun
  exact hfailed hchanged hpresent :=
    absurd (hdisturbed hfailed hchanged) (hpresent name List.mem_cons_self)
  gone hgone' := congrArg _ (hgone hgone')
  written := ⟨[], by rw [h.written, List.append_nil], List.nil_sublist _, nofun⟩

theorem wp_getXattrInner {file : File} {gone : Bool} (hnul : 0 ∉ name) (hgone : w.gone = gone) :
    (getXattrInner file name).Wp Racing (fun r w' => Answered file name gone r w' ∧ Kept w w')
      w := by
  unfold getXattrInner
  rw [nativeName_of hnul]
  have hanswered : (getLoop file ⟨name, hnul⟩ (xattrSizeRaceAttempts - 1)).Wp Racing
      (Answered file name gone) w := wp_getLoop ⟨name, hnul⟩ _ hgone
  exact hanswered.and (wp_kept ((getLoop_makes file _ _).mono fun _ h => h.reads))

/-- The value of the source at the moment it is read. -/
structure Required (name : Name) (w : World) (value : Value) (w' : World) : Prop extends Kept w w' where
  value : w'.source.value name = some value
  gone : w'.gone = false

theorem wp_getXattr (hnul : 0 ∉ name) (hgone : w.gone = false) :
    (getXattr .source name).Wp Racing (fun r w' =>
      (∀ error, r = .error error → Copied [name] w (.error error) w') ∧
      ∀ value, r = .ok value → Required name w value w') w := by
  refine Prog.wp_andThen.mpr ((wp_getXattrInner hnul hgone).mono fun r w' hr => ?_)
  obtain ⟨hanswered, hkept⟩ := hr
  cases hanswered with
  | found hvalue hgone' =>
    refine ⟨nofun, ?_⟩
    rintro _ ⟨⟩
    refine ⟨nofun, ?_⟩
    rintro _ ⟨⟩
    exact ⟨hkept, hvalue, hgone'⟩
  | missing hvalue hgone' =>
    refine ⟨nofun, ?_⟩
    rintro _ ⟨⟩
    refine ⟨?_, nofun⟩
    rintro _ ⟨⟩
    refine hkept.stopped (fun _ => rfl) fun hfailed hchanged => ?_
    rw [← hkept.source hchanged]
    exact resolve_failed hvalue.symm hfailed
  | failed hdisturbed hgone' =>
    refine ⟨?_, nofun⟩
    rintro error ⟨⟩
    refine ⟨?_, nofun⟩
    rintro _ ⟨⟩
    refine hkept.stopped (fun h => ?_) fun hfailed hchanged => ?_
    · rw [hgone'] at h
      cases h
    · have h := (resolve_failed hdisturbed hfailed).2
      rw [hchanged] at h
      cases h

/-- The value is there: it was already, or is now set. -/
theorem Required.copied (h : Required name w value w₁) (hfollows : Follows w₁ w')
    (hgone : w'.gone = false)
    (hset : w'.failed = false → w'.staging.value = Function.update w.staging.value name (some value))
    (hwritten : w'.written = w₁.written ∨ w'.written = w₁.written ++ [(name, value)]) :
    Copied [name] w (.ok ()) w' where
  toFollows := h.toFollows.trans hfollows
  others hfailed other hother := by
    rw [hset hfailed, Function.update_of_ne fun heq => hother (List.mem_singleton.mpr heq)]
  copied _ hfailed other hother := by
    cases List.mem_singleton.mp hother
    rw [hset hfailed, Function.update_self]
    exact ⟨value, rfl, (held_of_value h.value).follows hfollows⟩
  exact hfailed hchanged _ := by
    refine ⟨rfl, fun other hother => ?_⟩
    cases List.mem_singleton.mp hother
    rw [hset hfailed, Function.update_self, ← h.source (hfollows.not_changed hchanged), h.value]
  gone h' := by rw [hgone] at h'; cases h'
  written := by
    rcases hwritten with hsame | hadded
    · exact ⟨[], by rw [hsame, h.written, List.append_nil], List.nil_sublist _, nofun⟩
    · refine ⟨[(name, value)], by rw [hadded, h.written], List.Sublist.refl _, ?_⟩
      exact List.forall_mem_singleton.mpr ((held_of_value h.value).follows hfollows)

/-- A call about the staging file failed. -/
theorem Required.refused (h : Required name w value w₁) (hfollows : Follows w₁ w')
    (hgone : w'.gone = false) (hfailed : w'.failed = true)
    (hwritten : w'.written = w₁.written ∨ w'.written = w₁.written ++ [(name, value)]) :
    Copied [name] w (.error error) w' where
  toFollows := h.toFollows.trans hfollows
  others hfine := by rw [hfailed] at hfine; cases hfine
  copied := nofun
  exact hfine := by rw [hfailed] at hfine; cases hfine
  gone h' := by rw [hgone] at h'; cases h'
  written := by
    rcases hwritten with hsame | hadded
    · exact ⟨[], by rw [hsame, h.written, List.append_nil], List.nil_sublist _, nofun⟩
    · refine ⟨[(name, value)], by rw [hadded, h.written], List.Sublist.refl _, ?_⟩
      exact List.forall_mem_singleton.mpr ((held_of_value h.value).follows hfollows)

theorem wp_setXattr {w₂ : World} (hnul : 0 ∉ name) (h : Required name w value w₁)
    (hkept : Kept w₁ w₂) (hgone : w₂.gone = false) :
    (setXattr name value).Wp Racing (Copied [name] w) w₂ := by
  unfold setXattr
  rw [nativeName_of hnul]
  intro (answer : IoResult Unit) w' hE
  have hstep := racing_step hE
  have hfollows : Follows w₁ w' := hkept.toFollows.trans hstep.toFollows
  have hgone' : w'.gone = false := (hstep.gone id).trans hgone
  have hwritten : w'.written = w₁.written ++ [(name, value)] := by
    rw [hstep.written, hkept.written]
    rfl
  obtain ⟨mid, hcompetes, ⟨rfl, attributes, hattributes, rfl⟩ | ⟨error, staging, rfl, rfl⟩⟩ := hE
  · refine h.copied hfollows hgone' (fun hfailed => ?_) (.inr hwritten)
    have hfine : w₂.failed = false := hstep.not_failed hfailed
    rw [hattributes, hcompetes.staging, hkept.staging hfine, h.staging (hkept.not_failed hfine)]
  · exact h.refused hfollows hgone' rfl (.inr hwritten)

theorem wp_copyName (hnul : 0 ∉ name) (hgone : w.gone = false) :
    (copyName name).Wp Racing (Copied [name] w) w := by
  refine Prog.wp_andThen.mpr ((wp_getXattr hnul hgone).mono fun r w₁ hr => ⟨?_, ?_⟩)
  · exact hr.1
  intro value hok
  have hrequired := hr.2 value hok
  refine Prog.wp_andThen.mpr ((wp_getXattrInner hnul hrequired.gone).mono fun r w₂ hr => ?_)
  obtain ⟨hanswered, hkept⟩ := hr
  cases hanswered with
  | failed hdisturbed hgone₂ =>
    refine ⟨?_, nofun⟩
    rintro _ ⟨⟩
    have hfailed : w₂.failed = true := hdisturbed.resolve_right fun h => nomatch h.1
    exact hrequired.refused hkept.toFollows hgone₂ hfailed (.inl hkept.written)
  | missing hvalue hgone₂ =>
    refine ⟨nofun, ?_⟩
    rintro _ ⟨⟩
    rw [if_pos nofun]
    exact wp_setXattr hnul hrequired hkept (hgone₂ rfl)
  | found hvalue hgone₂ =>
    refine ⟨nofun, ?_⟩
    rintro _ ⟨⟩
    rename_i present
    by_cases hsame : some present = some value
    · rw [if_neg (not_not_intro hsame)]
      refine hrequired.copied hkept.toFollows hgone₂ (fun hfailed => ?_) (.inl hkept.written)
      have hstaging : w₂.staging = w.staging := by
        rw [hkept.staging hfailed, hrequired.staging (hkept.not_failed hfailed)]
      have hpresent : w.staging.value name = some value := by
        rw [← hstaging, ← hsame]
        exact hvalue
      rw [hstaging, Function.update_eq_self_iff.mpr hpresent.symm]
    · rw [if_pos hsame]
      exact wp_setXattr hnul hrequired hkept hgone₂

theorem wp_copyNames (hnul : ∀ name ∈ names, 0 ∉ name) (hgone : w.gone = false) :
    (copyNames names).Wp Racing (Copied names w) w := by
  induction names generalizing w with
  | nil => exact Copied.nil hgone
  | cons name rest ih =>
    obtain ⟨hname, hrest⟩ := List.forall_mem_cons.mp hnul
    refine Prog.wp_andThen.mpr ((wp_copyName hname hgone).mono fun r w₁ hcopied => ⟨?_, ?_⟩)
    · rintro error rfl
      exact hcopied.stop rest
    · rintro ⟨⟩ rfl
      have hgone₁ : w₁.gone = false := Bool.eq_false_iff.mpr fun hlost => nomatch hcopied.gone hlost
      exact (ih hrest hgone₁).mono fun r w' => hcopied.cons

end Copies

/-! ## 7. Attempts -/

/-- The first call of an attempt. -/
def measures (ev : XattrEvent) : Bool :=
  match ev.call with
  | .queryXattrValueLength _ _ => true
  | _ => false

section Attempts

variable {file : File} {past : List XattrEvent} {bound : Nat}

theorem wp_getAttempt_measures {name : CString} {again : IoError → XattrM (IoResult (Option Value))}
    (hbound : past.countP measures + 1 ≤ bound)
    (hagain : ∀ error past', past'.countP measures = past.countP measures + 1 →
      (again error).Wp Recording (fun _ past' => past'.countP measures ≤ bound) past') :
    (getAttempt file name again).Wp Recording (fun _ past' => past'.countP measures ≤ bound)
      past := by
  have hfirst (answer : IoResult Nat) :
      (past ++ [(⟨.queryXattrValueLength file name, answer⟩ : XattrEvent)]).countP measures
        = past.countP measures + 1 := by
    rw [List.countP_append]
    rfl
  have hend (past' : List XattrEvent) (h : past'.countP measures = past.countP measures + 1) :
      past'.countP measures ≤ bound := h ▸ hbound
  rintro (error | length) _ rfl
  · show Prog.Wp _ _ (if _ then _ else _) _
    split <;> exact hend _ (hfirst _)
  · rintro (answer : IoResult (Nat × List UInt8)) _ rfl
    have hsecond : (past ++ [(⟨.queryXattrValueLength file name, .ok length⟩ : XattrEvent)] ++
        [(⟨.readXattrValue file name length, answer⟩ : XattrEvent)]).countP measures
          = past.countP measures + 1 := by
      rw [List.countP_append, hfirst]
      rfl
    match answer with
    | .ok (read, bytes) =>
      show Prog.Wp _ _ (if _ then _ else _) _
      split
      · exact hend _ hsecond
      · exact hagain _ _ hsecond
    | .error error =>
      show Prog.Wp _ _ (if _ then _ else (if _ then _ else _)) _
      split
      · exact hagain _ _ hsecond
      · split <;> exact hend _ hsecond

theorem wp_getLoop_measures (name : CString) (remaining : Nat)
    (hbound : past.countP measures + remaining + 1 ≤ bound) :
    (getLoop file name remaining).Wp Recording (fun _ past' => past'.countP measures ≤ bound)
      past := by
  induction remaining generalizing past with
  | zero =>
    refine wp_getAttempt_measures hbound fun _ past' h => ?_
    exact Nat.le_trans (Nat.le_of_eq h) hbound
  | succ remaining ih =>
    refine wp_getAttempt_measures (by omega) fun _ past' h => ih ?_
    omega

theorem getXattrInner_attempts {name : Name} {tr : List XattrEvent} {r : IoResult (Option Value)}
    (h : (getXattrInner file name).Runs tr r) : tr.countP measures ≤ xattrSizeRaceAttempts := by
  unfold getXattrInner nativeName at h
  split at h
  · cases h.1
    exact Nat.zero_le _
  · have hbound : ([] : List XattrEvent).countP measures + (xattrSizeRaceAttempts - 1) + 1
        ≤ xattrSizeRaceAttempts := by decide
    exact (wp_getLoop_measures _ _ hbound).runs h

end Attempts

/-! ## 8. The whole set -/

def World.start (source staging : Attributes) : World where
  source := source
  staging := staging

/-- What a preservation comes to. -/
structure Preserved (source : Attributes) (r : IoResult Unit) (w' : World) : Prop where
  exact : w'.failed = false → w'.changed = false → r = .ok () ∧ w'.staging.value = source.value
  securityLast : (w'.written.map Prod.fst).Pairwise fun first second =>
    isSecurity first → isSecurity second
  truthful : ∀ entry ∈ w'.written, w'.Held entry.1 entry.2
  noSkip : w'.gone = true → r = .error disappeared
  complete : r = .ok () → w'.failed = false → ∃ listed ∈ w'.moments, ∀ name,
    (name ∈ w'.staging.names ↔ name ∈ listed.names) ∧
      ∀ value, w'.staging.value name = some value → w'.Held name value

section Whole

variable {w w₁ w₂ w₃ w' : World} {source staging : Attributes} {names others : List Name}
  {r : IoResult Unit} {error : IoError}

/-- A failure before anything is written. -/
theorem Preserved.stopped (hwritten : w'.written = []) (hgone : w'.gone = false)
    (hdisturbed : w'.failed = true ∨ w'.changed = true) : Preserved source (.error error) w' where
  exact hfailed hchanged := by
    have h := resolve_failed hdisturbed hfailed
    rw [hchanged] at h
    cases h
  securityLast := by
    rw [hwritten]
    exact List.Pairwise.nil
  truthful := by
    rw [hwritten]
    nofun
  noSkip h := by
    rw [hgone] at h
    cases h
  complete := nofun

theorem Disturbed.any {file : File} (h : Disturbed file w) : w.failed = true ∨ w.changed = true :=
  h.imp_right And.right

/-- Without the names that only the staging file had, a name that was not listed is not there. -/
theorem removed_value (hlisted : ∀ name, name ∈ others ↔ name ∈ w₂.staging.names)
    (hremoved : ∀ name, w₃.staging.value name =
      if name ∈ difference others names then none else w₂.staging.value name)
    {name : Name} (hname : name ∉ names) : w₃.staging.value name = none := by
  rw [hremoved]
  by_cases hother : name ∈ others
  · exact if_pos (mem_difference.mpr ⟨hother, hname⟩)
  · rw [if_neg fun hmem => hother (mem_difference.mp hmem).1]
    rw [hlisted, w₂.staging.listed, not_not] at hother
    exact hother

theorem preserved_of_copied (h₁ : Kept (.start source staging) w₁) (h₂ : Kept w₁ w₂)
    (hnames : w₁.failed = true ∨ ∀ name, name ∈ names ↔ name ∈ w₁.source.names)
    (hothers : w₂.failed = true ∨ ∀ name, name ∈ others ↔ name ∈ w₂.staging.names)
    (hremoved : Removed (difference others names) w₂ (.ok ()) w₃)
    (hcopied : Copied (orderedNames names) w₃ r w') : Preserved source r w' := by
  have hfollows : Follows w₁ w' :=
    (h₂.toFollows.trans hremoved.toFollows).trans hcopied.toFollows
  have hlisted (hfailed : w'.failed = false) (name : Name) :
      name ∈ names ↔ name ∈ w₁.source.names :=
    resolve_failed hnames (hfollows.not_failed hfailed) name
  -- a name that was not listed has been removed from the staging file
  have habsent (hfailed : w'.failed = false) (name : Name) (hname : name ∉ names) :
      w'.staging.value name = none := by
    have hfailed₃ : w₃.failed = false := hcopied.not_failed hfailed
    have hfailed₂ : w₂.failed = false := hremoved.not_failed hfailed₃
    rw [hcopied.others hfailed name fun hmem => hname (mem_orderedNames.mp hmem)]
    exact removed_value (resolve_failed hothers hfailed₂) (hremoved.value rfl hfailed₃) hname
  obtain ⟨added, hadded, hsublist, hheld⟩ := hcopied.written
  -- all that was written came from the last part
  have hwritten : w'.written = added := by
    rw [hadded, hremoved.written, h₂.written, h₁.written]
    rfl
  refine ⟨fun hfailed hchanged => ?_, ?_, hwritten ▸ hheld, hcopied.gone, fun hok hfailed => ?_⟩
  · have hsource₁ : w₁.source = source := h₁.source (hfollows.not_changed hchanged)
    have hsource₃ : w₃.source = source := by
      have hchanged₃ : w₃.changed = false := hcopied.not_changed hchanged
      rw [hremoved.source hchanged₃, h₂.source (hremoved.not_changed hchanged₃), hsource₁]
    obtain ⟨hok, hvalue⟩ := hcopied.exact hfailed hchanged fun name hmem => by
      rw [hsource₃, ← source.listed, ← hsource₁, ← hlisted hfailed]
      exact mem_orderedNames.mp hmem
    refine ⟨hok, funext fun name => ?_⟩
    by_cases hname : name ∈ names
    · rw [hvalue name (mem_orderedNames.mpr hname), hsource₃]
    · have hnot : name ∉ source.names := by rwa [← hsource₁, ← hlisted hfailed]
      rw [source.listed, not_not] at hnot
      rw [habsent hfailed name hname, hnot]
  · rw [hwritten]
    exact (orderedNames_pairwise names).sublist hsublist
  · refine ⟨w₁.source, hfollows.moments List.mem_cons_self, fun name => ?_⟩
    rw [← hlisted hfailed, w'.staging.listed]
    by_cases hname : name ∈ names
    · obtain ⟨value, hvalue, hheld⟩ := hcopied.copied hok hfailed name (mem_orderedNames.mpr hname)
      rw [hvalue]
      refine ⟨iff_of_true nofun hname, ?_⟩
      rintro _ ⟨⟩
      exact hheld
    · rw [habsent hfailed name hname]
      exact ⟨iff_of_false (not_not_intro rfl) hname, nofun⟩

theorem wp_preserveExtendedMetadata :
    preserveExtendedMetadata.Wp Racing (Preserved source) (.start source staging) := by
  refine Prog.wp_andThen.mpr (wp_listXattrs_kept.mono fun r w₁ h₁ => ?_)
  obtain ⟨hlisted₁, hkept₁, hgone₁⟩ := h₁
  cases hlisted₁ with
  | failed hdisturbed =>
    refine ⟨?_, nofun⟩
    rintro _ ⟨⟩
    exact .stopped hkept₁.written hgone₁ hdisturbed.any
  | @names _ names hnamed hnames =>
  refine ⟨nofun, ?_⟩
  rintro _ ⟨⟩
  refine Prog.wp_andThen.mpr (wp_listXattrs_kept.mono fun r w₂ h₂ => ?_)
  obtain ⟨hlisted₂, hkept₂, hgone₂⟩ := h₂
  have hwritten₂ : w₂.written = [] := hkept₂.written.trans hkept₁.written
  cases hlisted₂ with
  | failed hdisturbed =>
    refine ⟨?_, nofun⟩
    rintro _ ⟨⟩
    exact .stopped hwritten₂ (hgone₂.trans hgone₁) hdisturbed.any
  | @names _ others hnamed' hothers =>
  refine ⟨nofun, ?_⟩
  rintro _ ⟨⟩
  have hnul : ∀ name ∈ difference others names, 0 ∉ name :=
    fun name hmem => (hnamed' name (mem_difference.mp hmem).1).2
  refine Prog.wp_andThen.mpr ((wp_removeNames hnul).mono fun r w₃ hremoved => ⟨?_, ?_⟩)
  · rintro error rfl
    refine .stopped (hremoved.written.trans hwritten₂) ?_ (.inl (hremoved.refused error rfl))
    rw [hremoved.gone, hgone₂, hgone₁]
    rfl
  · rintro ⟨⟩ rfl
    have hgone₃ : w₃.gone = false := by
      rw [hremoved.gone, hgone₂, hgone₁]
      rfl
    have hnul' : ∀ name ∈ orderedNames names, 0 ∉ name :=
      fun name hmem => (hnamed name (mem_orderedNames.mp hmem)).2
    refine (wp_copyNames hnul' hgone₃).mono fun r w' hcopied => ?_
    exact preserved_of_copied hkept₁ hkept₂ hnames hothers hremoved hcopied

end Whole

/-! ## 9. A calm run -/

/-- The environment in which nothing fails and no other process writes. -/
def Calm (w : World) (c : XattrCall) (answer : c.Result) (w' : World) : Prop :=
  Racing w c answer w' ∧ w'.failed = w.failed ∧ w'.changed = w.changed

/-- The kernel sets no attribute with an empty name. -/
def XattrCall.Named : XattrCall → Prop
  | .setXattr name _ => name.bytes ≠ []
  | _ => True

section Run

variable {w : World} {c : XattrCall} {names : List Name}

theorem exists_fills (capacity : Nat) (bytes : List UInt8) :
    ∃ answer, Fills capacity bytes answer := by
  by_cases hfits : bytes.length ≤ capacity
  · exact ⟨_, .writes hfits⟩
  · cases capacity with
    | zero => exact ⟨_, .measures rfl⟩
    | succ capacity =>
      exact ⟨.error rangeError, .outgrown (Nat.succ_pos _) (Nat.lt_of_not_le hfits) rfl⟩

def missingError : IoError :=
  ⟨.uncategorized, "No data available (os error 61)", some enodata⟩

theorem misses_missingError {α : Type} : Misses (.error missingError : IoResult α) :=
  ⟨missingError, rfl, rfl⟩

theorem calm_of_serves (answer : c.Result) (w' : World) (h : Serves w c answer w')
    (hfailed : w'.failed = w.failed) (hchanged : w'.changed = w.changed) :
    ∃ answer w', Calm w c answer w' := ⟨answer, w', ⟨w, .rests, .inl h⟩, hfailed, hchanged⟩

theorem calm_of_missing {file : File} (answer : c.Result) (h : Serves w c answer (w.lost file)) :
    ∃ answer w', Calm w c answer w' := by
  refine calm_of_serves answer _ h ?_ ?_
  · cases file <;> rfl
  · cases file <;> rfl

theorem exists_calm (hnamed : c.Named) : ∃ answer w', Calm w c answer w' := by
  cases c with
  | queryXattrListLength file => exact calm_of_serves (.ok _) w ⟨rfl, .inl rfl⟩ rfl rfl
  | readXattrList file capacity =>
    obtain ⟨answer, hfills⟩ := exists_fills capacity (w.file file).listing
    exact calm_of_serves answer w ⟨rfl, hfills⟩ rfl rfl
  | queryXattrValueLength file name =>
    cases hvalue : (w.file file).value name.bytes with
    | none =>
      refine @calm_of_missing _ _ file (.error missingError) ?_
      dsimp only [Serves]
      rw [hvalue]
      exact ⟨rfl, misses_missingError⟩
    | some value =>
      refine calm_of_serves (.ok value.length) w ?_ rfl rfl
      dsimp only [Serves]
      rw [hvalue]
      exact ⟨rfl, rfl⟩
  | readXattrValue file name capacity =>
    cases hvalue : (w.file file).value name.bytes with
    | none =>
      refine @calm_of_missing _ _ file (.error missingError) ?_
      dsimp only [Serves]
      rw [hvalue]
      exact ⟨rfl, misses_missingError⟩
    | some value =>
      obtain ⟨answer, hfills⟩ := exists_fills capacity value
      refine calm_of_serves answer w ?_ rfl rfl
      dsimp only [Serves]
      rw [hvalue]
      exact ⟨rfl, hfills⟩
  | setXattr name value =>
    exact calm_of_serves (.ok ()) _
      ⟨rfl, w.staging.insert name.bytes value ⟨hnamed, name.noNul⟩, rfl, rfl⟩ rfl rfl
  | removeXattr name =>
    cases hvalue : w.staging.value name.bytes with
    | none =>
      refine calm_of_serves (.error missingError) w ?_ rfl rfl
      dsimp only [Serves]
      rw [hvalue]
      exact ⟨rfl, misses_missingError⟩
    | some value =>
      refine calm_of_serves (.ok ()) { w with staging := w.staging.erase name.bytes } ?_ rfl rfl
      dsimp only [Serves]
      rw [hvalue]
      exact ⟨rfl, w.staging.erase name.bytes, rfl, rfl⟩

/-- Nothing failed, and no other process wrote. -/
def Undisturbed (w : World) : Prop := w.failed = false ∧ w.changed = false

theorem ensures_calm {α : Type} {p : XattrM α} (hp : p.Makes XattrCall.Named) (h : Undisturbed w) :
    p.Ensures Calm (fun _ w' => Undisturbed w') w := by
  refine hp.ensures (fun w c hnamed _ => exists_calm hnamed) ?_ h
  intro w c answer w' _ hw hE
  exact ⟨hE.2.1.trans hw.1, hE.2.2.trans hw.2⟩

/-- A program whose second part makes such calls for what the first can return. -/
theorem ensures_calm_andThen {α β : Type} {Q : α → Prop} {p : XattrM (IoResult α)}
    {f : α → XattrM (IoResult β)} (hp : p.Makes XattrCall.Named)
    (hQ : ∀ w : World, p.Wp Racing (fun r _ => ∀ a, r = .ok a → Q a) w)
    (hf : ∀ a, Q a → ∀ w, Undisturbed w → (f a).Ensures Calm (fun _ w' => Undisturbed w') w)
    (h : Undisturbed w) : (p.andThen f).Ensures Calm (fun _ w' => Undisturbed w') w := by
  refine .bind (((ensures_calm hp h).and_wp ((hQ w).restrict fun _ _ _ _ hE => hE.1)).mono ?_)
  rintro (error | a) w' ⟨hw', ha⟩
  · exact hw'
  · exact hf a (ha a rfl) w' hw'

theorem listXattrs_named (file : File) (w : World) :
    (listXattrs file).Wp Racing (fun r _ => ∀ names, r = .ok names → ∀ name ∈ names, name ≠ []) w := by
  refine wp_listXattrs.mono fun r w' hlisted => ?_
  rintro names rfl
  cases hlisted with
  | names hnamed hnames => exact fun name hmem => (hnamed name hmem).1

theorem removeNames_makes (names : List Name) : (removeNames names).Makes XattrCall.Named := by
  induction names with
  | nil => trivial
  | cons name rest ih =>
    refine Prog.Makes.andThen ?_ fun _ => ih
    unfold removeXattr
    cases nativeName name with
    | error error => trivial
    | ok name =>
      refine ⟨trivial, fun answer => ?_⟩
      match answer with
      | .ok () => trivial
      | .error error =>
        show Prog.Makes _ (if _ then _ else _)
        split <;> trivial

theorem getXattrInner_named (file : File) (name : Name) :
    (getXattrInner file name).Makes XattrCall.Named := by
  unfold getXattrInner
  cases nativeName name with
  | error error => trivial
  | ok name => exact (getLoop_makes file name _).mono fun c h => by cases c <;> trivial

theorem setXattr_named {name : Name} (hname : name ≠ []) (value : Value) :
    (setXattr name value).Makes XattrCall.Named := by
  unfold setXattr nativeName
  split
  · trivial
  · rename_i hnative
    split at hnative
    · cases hnative
    · cases hnative
      exact ⟨hname, fun _ => trivial⟩

theorem copyNames_makes (hnamed : ∀ name ∈ names, name ≠ []) :
    (copyNames names).Makes XattrCall.Named := by
  induction names with
  | nil => trivial
  | cons name rest ih =>
    obtain ⟨hname, hrest⟩ := List.forall_mem_cons.mp hnamed
    refine Prog.Makes.andThen ?_ fun _ => ih hrest
    refine Prog.Makes.andThen ?_ fun value => ?_
    · refine (getXattrInner_named .source name).andThen fun found => ?_
      cases found <;> trivial
    · refine (getXattrInner_named .staging name).andThen fun found => ?_
      split
      · exact setXattr_named hname value
      · trivial

theorem ensures_preserveExtendedMetadata (h : Undisturbed w) :
    preserveExtendedMetadata.Ensures Calm (fun _ w' => Undisturbed w') w := by
  have hlists (file : File) : (listXattrs file).Makes XattrCall.Named :=
    (listXattrs_makes file).mono fun c h => by cases c <;> trivial
  refine ensures_calm_andThen (hlists .source) (listXattrs_named .source) ?_ h
  intro names hnamed w₁ h₁
  refine ensures_calm_andThen (hlists .staging) (listXattrs_named .staging) ?_ h₁
  intro others _ w₂ h₂
  refine ensures_calm ((removeNames_makes _).andThen fun _ => copyNames_makes fun name hmem => ?_) h₂
  exact hnamed name (mem_orderedNames.mp hmem)

end Run

/-- Without a failed call and without another writer the staging file gets exactly the attributes
    of the source, and such a run exists.  Security attributes are written last.  Every value
    written is one that the source had, an attribute that disappears is the error of the call, and a
    lookup makes at most eight attempts and returns the value of the moment of its last read. -/
theorem preserveExtendedMetadata_copies (source staging : Attributes) :
    (∀ tr w' r, preserveExtendedMetadata.RunsIn Racing (.start source staging) tr w' r →
      Preserved source r w') ∧
    (∃ tr w', preserveExtendedMetadata.RunsIn Racing (.start source staging) tr w' (.ok ()) ∧
      Undisturbed w') ∧
    ∀ file name w tr w' r, (getXattrInner file name).RunsIn Racing w tr w' r →
      tr.countP measures ≤ xattrSizeRaceAttempts ∧
      ∀ value, r = .ok (some value) → (w'.file file).value name = some value := by
  have hpreserved (tr w' r)
      (hrun : preserveExtendedMetadata.RunsIn Racing (.start source staging) tr w' r) :
      Preserved source r w' := wp_preserveExtendedMetadata.runsIn hrun
  refine ⟨hpreserved, ?_, fun file name w tr w' r hrun => ?_⟩
  · have hensures := ensures_preserveExtendedMetadata
      (w := .start source staging) ⟨rfl, rfl⟩
    obtain ⟨tr, w', r, hrun⟩ := hensures.exists_run
    have hcalm : Undisturbed w' := hensures.runsIn hrun
    have hracing := hrun.mono fun _ _ _ _ hE => hE.1
    obtain ⟨rfl, -⟩ := (hpreserved tr w' r hracing).exact hcalm.1 hcalm.2
    exact ⟨tr, w', hracing, hcalm⟩
  · refine ⟨getXattrInner_attempts hrun.runs, ?_⟩
    rintro value rfl
    by_cases hnul : 0 ∈ name
    · rw [getXattrInner, nativeName, dif_pos hnul] at hrun
      cases hrun.2.2
    · obtain ⟨hanswered, -⟩ := (wp_getXattrInner hnul (w := w) rfl).runsIn hrun
      cases hanswered with
      | found hvalue hgone => exact hvalue

end LocalFiles.ExtendedMetadata
