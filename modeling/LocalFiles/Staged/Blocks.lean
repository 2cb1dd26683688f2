import LocalFiles.Staged.Stage

/-!
# Staged.Blocks — the copy of the input, block by block

Both routes run the same two loops.  What is proved here of the loops needs of a route only that a
write appends the bytes it accepts.
-/

namespace LocalFiles.Staged

open Interaction Prog Atomic
open Copy (Transient)
open Private (EntryWorld EntryCall)

variable {I σ : Type} [DecidableEq I] {slot : Slot I} {writer : BlockWriter I σ}
  {Inv : σ → List UInt8 → StageWorld I → Prop} {w : StageWorld I} {state : σ}
  {stored input : List UInt8} {maximum : UInt64}

/-! ## 1. Every run -/

/-- `Inv state stored w` says that the new file holds `stored`.  A write appends what it accepts,
    and reading the input does not matter. -/
structure BlockWriter.Appends (slot : Slot I) (writer : BlockWriter I σ)
    (Inv : σ → List UInt8 → StageWorld I → Prop) : Prop where
  write : ∀ {state stored w} bytes, Inv state stored w → (writer.write state bytes).Wp
    (StageEffect slot) (fun r w' => w'.source = w.source ∧ match r with
      | (.error _, state') => Inv state' stored w'
      | (.ok count, state') => count ≤ bytes.length ∧ Inv state' (stored ++ bytes.take count) w') w
  read : ∀ {state stored w} source, Inv state stored w → Inv state stored { w with source := source }

theorem wp_readInput {capacity : Nat} {post : IoResult (List UInt8) → StageWorld I → Prop}
    (h : ∀ answer source, w.source.Reads Transient capacity answer source →
      post answer { w with source := source }) :
    (readInput capacity).Wp (StageEffect slot) post w := by
  intro answer next hE
  obtain ⟨source, hreads, rfl⟩ : ∃ source, _ := hE
  exact h answer source hreads

theorem wp_writeBlock (happends : writer.Appends slot Inv) (bound : Nat) (bytes : List UInt8)
    (hinv : Inv state stored w) :
    (writer.writeBlock bound state bytes).Wp (StageEffect slot) (fun r w' => w'.source = w.source ∧
      match r with
      | (.ok (), state') => Inv state' (stored ++ bytes) w'
      | (.error _, state') => ∃ more, Inv state' more w') w := by
  induction bound generalizing state stored w bytes with
  | zero => exact ⟨rfl, stored, hinv⟩
  | succ bound ih =>
    unfold BlockWriter.writeBlock
    by_cases hempty : bytes = []
    · rw [if_pos hempty, hempty]
      refine ⟨rfl, ?_⟩
      dsimp only
      rw [List.append_nil]
      exact hinv
    · rw [if_neg hempty]
      refine wp_bind.mpr ((happends.write bytes hinv).mono fun r w' hr => ?_)
      obtain ⟨hsource, hr⟩ := hr
      obtain ⟨answer, state'⟩ := r
      match answer, hr with
      | .error error, hinv' =>
        dsimp only
        split
        · refine (ih bytes hinv').mono fun r w'' hr => ?_
          rw [← hsource]
          exact hr
        · exact ⟨hsource, stored, hinv'⟩
      | .ok 0, hr => exact ⟨hsource, _, hr.2⟩
      | .ok (count + 1), hr =>
        refine (ih (bytes.drop (count + 1)) hr.2).mono fun r w'' hr => ?_
        rw [List.append_assoc, List.take_append_drop, hsource] at hr
        exact hr

/-- The copy ends with the whole input in the file, which is not too long then, or with an error. -/
theorem wp_copyInput (happends : writer.Appends slot Inv) (writes bound : Nat) {total : Nat}
    (hinv : Inv state stored w) (htotal : stored.length = total) (hmaximum : total ≤ maximum.toNat)
    (hinput : stored ++ w.source.unread = input) :
    (writer.copyInput maximum writes bound total state).Wp (StageEffect slot) (fun r w' =>
      match r with
      | (.ok (), state') => Inv state' input w' ∧ input.length ≤ maximum.toNat
      | (.error _, state') => ∃ more, Inv state' more w') w := by
  induction bound generalizing state stored w total with
  | zero => exact ⟨stored, hinv⟩
  | succ bound ih =>
    unfold BlockWriter.copyInput
    refine wp_bind.mpr (wp_readInput fun answer source hreads => ?_)
    have hinv' := happends.read source hinv
    match answer, hreads with
    | .error error, hreads =>
      dsimp only
      split
      · next hagain =>
        have hunread := (hreads.again hagain).1
        exact ih hinv' htotal hmaximum (by rw [← hinput, ← hunread])
      · exact ⟨stored, hinv'⟩
    | .ok [], hreads =>
      have hunread := hreads.end (by decide)
      rw [hunread, List.append_nil] at hinput
      rw [← hinput]
      exact ⟨hinv', by rw [htotal]; exact hmaximum⟩
    | .ok (first :: chunk), hreads =>
      have hunread := hreads.more.1
      dsimp only
      unfold BlockWriter.addCount
      -- the sum has to fit its type before it is compared with the limit
      by_cases hoverflow : 2 ^ 64 ≤ total + (first :: chunk).length
      · rw [if_pos hoverflow]
        exact ⟨stored, hinv'⟩
      rw [if_neg hoverflow]
      by_cases hlong : maximum.toNat < total + (first :: chunk).length
      · rw [if_pos hlong]
        exact ⟨stored, hinv'⟩
      rw [if_neg hlong]
      refine wp_bind.mpr ((wp_writeBlock happends writes (first :: chunk) hinv').mono
        fun r w' hr => ?_)
      obtain ⟨hsource, hr⟩ := hr
      obtain ⟨answer, state'⟩ := r
      match answer, hr with
      | .error exit, hr => exact hr
      | .ok (), hr =>
        refine ih hr ?_ (Nat.le_of_not_lt hlong) ?_
        · rw [List.length_append, htotal]
        · rw [hsource, List.append_assoc, ← hinput, hunread]

/-! ## 2. Runs without failures -/

section Smooth

variable {fits : Nat → Prop}

/-- While the limit is kept a write is interrupted, or accepts a part of the block. -/
structure BlockWriter.Drains (slot : Slot I) (fits : Nat → Prop) (length : Nat) (maximum : UInt64)
    (writer : BlockWriter I σ) (Inv : σ → List UInt8 → StageWorld I → Prop) : Prop where
  write : ∀ {state stored w} bytes, Inv state stored w → bytes ≠ [] →
    stored.length + bytes.length ≤ maximum.toNat →
    length ≤ w.source.unread.length + maximum.toNat →
    (writer.write state bytes).Ensures (SmoothUntil slot fits length maximum.toNat) (fun r w' =>
      w'.source = w.source ∧ match r with
      | (.error error, state') => Transient error ∧ Inv state' stored w' ∧
          w.interrupts = w'.interrupts + 1
      | (.ok count, state') => 0 < count ∧ count ≤ bytes.length ∧
          Inv state' (stored ++ bytes.take count) w' ∧ w'.interrupts = w.interrupts) w
  read : ∀ {state stored w} source, Inv state stored w → Inv state stored { w with source := source }
  tooLong : writer.tooLong.kind = .resourceLimit

theorem ensures_writeBlock {length : Nat} (hdrains : writer.Drains slot fits length maximum Inv)
    (bound : Nat) (bytes : List UInt8) (hinv : Inv state stored w)
    (hfits : stored.length + bytes.length ≤ maximum.toNat)
    (hwithin : length ≤ w.source.unread.length + maximum.toNat)
    (hbound : bytes.length + w.interrupts < bound) :
    (writer.writeBlock bound state bytes).Ensures (SmoothUntil slot fits length maximum.toNat)
      (fun r w' => r.1 = .ok () ∧ Inv r.2 (stored ++ bytes) w' ∧ w'.source = w.source ∧
        w'.interrupts ≤ w.interrupts) w := by
  induction bound generalizing state stored w bytes with
  | zero => exact absurd hbound (Nat.not_lt_zero _)
  | succ bound ih =>
    unfold BlockWriter.writeBlock
    by_cases hempty : bytes = []
    · rw [if_pos hempty, hempty]
      refine ⟨rfl, ?_, rfl, Nat.le_refl _⟩
      rw [List.append_nil]
      exact hinv
    · rw [if_neg hempty]
      refine .bind ((hdrains.write bytes hinv hempty hfits hwithin).mono fun r w' hr => ?_)
      obtain ⟨hsource, hr⟩ := hr
      obtain ⟨answer, state'⟩ := r
      match answer, hr with
      | .error error, ⟨hagain, hinv', hinterrupts⟩ =>
        have hagain : error.kind = .interrupted := hagain
        show Prog.Ensures _ _ (if _ then _ else _) _
        rw [if_pos hagain]
        refine (ih bytes hinv' hfits (by rw [hsource]; exact hwithin) (by omega)).mono
          fun r w'' hr => ?_
        obtain ⟨hok, hinv'', hsource', hle⟩ := hr
        exact ⟨hok, hinv'', hsource'.trans hsource, by omega⟩
      | .ok (count + 1), ⟨_, hcount, hinv', hinterrupts⟩ =>
        have hdrop : (bytes.drop (count + 1)).length = bytes.length - (count + 1) := List.length_drop
        have htake : (bytes.take (count + 1)).length = count + 1 := List.length_take_of_le hcount
        refine (ih (bytes.drop (count + 1)) hinv' ?_ (by rw [hsource]; exact hwithin) ?_).mono
          fun r w'' hr => ?_
        · rw [List.length_append, htake, hdrop]
          omega
        · rw [hdrop]
          omega
        · obtain ⟨hok, hinv'', hsource', hle⟩ := hr
          rw [List.append_assoc, List.take_append_drop] at hinv''
          exact ⟨hok, hinv'', hsource'.trans hsource, by omega⟩

theorem ensures_readInput {length capacity : Nat}
    {post : IoResult (List UInt8) → StageWorld I → Prop}
    (h : ∀ answer source, w.source.Reads Transient capacity answer source →
      (length ≤ w.source.unread.length + maximum.toNat →
        ∀ error, answer = .error error → Transient error) → post answer { w with source := source }) :
    (readInput capacity).Ensures (SmoothUntil slot fits length maximum.toNat) post w := by
  refine ⟨?_, fun answer next hE => ?_⟩
  · obtain ⟨chunk, source, hreads⟩ := Source.exists_reads Transient capacity w.source
    exact ⟨(.ok chunk : IoResult (List UInt8)), _, ⟨source, hreads, rfl⟩, fun _ => nofun⟩
  · obtain ⟨⟨source, hreads, rfl⟩, hsmooth⟩ := hE
    exact h answer source hreads hsmooth

/-- The copy succeeds exactly with an input that is not too long. -/
theorem ensures_copyInput (hdrains : writer.Drains slot fits input.length maximum Inv)
    (writes bound : Nat) {total : Nat} (hinv : Inv state stored w) (htotal : stored.length = total)
    (hmaximum : total ≤ maximum.toNat) (hinput : stored ++ w.source.unread = input)
    (hwrites : blockSize + w.interrupts < writes)
    (hbound : w.source.unread.length + w.source.interrupts < bound) :
    (writer.copyInput maximum writes bound total state).Ensures
      (SmoothUntil slot fits input.length maximum.toNat) (fun r w' =>
        if input.length ≤ maximum.toNat then
          r.1 = .ok () ∧ Inv r.2 input w'
        else ∃ error more, r.1 = .error (some error) ∧ error.kind = .resourceLimit ∧
          Inv r.2 more w' ∧ w'.source.unread.length + maximum.toNat < input.length) w := by
  induction bound generalizing state stored w total with
  | zero => exact absurd hbound (Nat.not_lt_zero _)
  | succ bound ih =>
    have hlength : input.length = total + w.source.unread.length := by
      rw [← hinput, List.length_append, htotal]
    unfold BlockWriter.copyInput
    refine .bind (ensures_readInput fun answer source hreads hsmooth => ?_)
    have hinv' := hdrains.read source hinv
    match answer, hreads, hsmooth with
    | .error error, hreads, hsmooth =>
      -- without failures an error can only be an interruption
      have hagain : error.kind = .interrupted := hsmooth (by omega) error rfl
      obtain ⟨hunread, hinterrupts⟩ := hreads.again hagain
      dsimp only
      rw [if_pos hagain]
      refine ih hinv' htotal hmaximum ?_ hwrites ?_
      · rw [← hinput, ← hunread]
      · dsimp only
        rw [hunread]
        omega
    | .ok [], hreads, _ =>
      have hunread := hreads.end (by decide)
      rw [hunread, List.append_nil] at hinput
      have hfits : input.length ≤ maximum.toNat := by
        rw [← hinput, htotal]
        exact hmaximum
      show if _ then _ else _
      rw [if_pos hfits, ← hinput]
      exact ⟨rfl, hinv'⟩
    | .ok (first :: chunk), hreads, _ =>
      obtain ⟨hunread, hinterrupts, hsize⟩ := hreads.more
      have hrest : w.source.unread.length = (first :: chunk).length + source.unread.length := by
        rw [hunread, List.length_append]
      have hpositive : 0 < (first :: chunk).length := Nat.succ_pos _
      have hsize' : maximum.toNat < 2 ^ 64 := maximum.toNat_lt
      dsimp only
      -- a chunk that exceeds the limit ends the copy before it is written
      by_cases hlong : maximum.toNat < total + (first :: chunk).length
      · have hadd : writer.addCount maximum total (first :: chunk).length =
            .error writer.tooLong := by
          unfold BlockWriter.addCount
          rw [if_pos hlong, ite_self]
        rw [hadd]
        show if _ then _ else _
        rw [if_neg (by omega)]
        refine ⟨_, stored, rfl, hdrains.tooLong, hinv', ?_⟩
        show source.unread.length + maximum.toNat < input.length
        omega
      · have hadd : writer.addCount maximum total (first :: chunk).length =
            .ok (total + (first :: chunk).length) := by
          unfold BlockWriter.addCount
          rw [if_neg (by omega), if_neg hlong]
        rw [hadd]
        refine .bind ((ensures_writeBlock hdrains writes (first :: chunk) hinv' (by omega) ?_ ?_).mono
          fun r w' hr => ?_)
        · dsimp only
          omega
        · show (first :: chunk).length + w.interrupts < writes
          omega
        · obtain ⟨answer, state'⟩ := r
          obtain ⟨rfl, hinv'', hsource, hle⟩ := hr
          have hle : w'.interrupts ≤ w.interrupts := hle
          refine ih hinv'' ?_ (Nat.le_of_not_lt hlong) ?_ (by omega) ?_
          · rw [List.length_append, htotal]
          · rw [hsource, List.append_assoc, ← hinput, hunread]
          · rw [hsource]
            show source.unread.length + source.interrupts < bound
            omega

end Smooth

end LocalFiles.Staged
