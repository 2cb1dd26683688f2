import Mathlib.Data.FinEnum
import LocalFiles.CopyBudget
import LocalFiles.Loop
import LocalFiles.Atomic.Parents

/-!
# Link — the stored target of one link

`readlinkat` fills a buffer and says how much of it, not how much there was: a full buffer may
have cut the target.  So the buffer doubles until it is not full, and under a maximum it stops one
byte above, where a full buffer is an answer.
-/

namespace LocalFiles.RootedLink

open Atomic (addPathContext)

/-! ## 1. The loop -/

/-- The allocator, and `readlinkat` on the opened parent and name. -/
structure Native where
  tryReserveExact : Nat → IoResult Unit
  readlinkat : Nat → IoResult (List UInt8)

def maximumCapacity (maximumBytes : Option UInt64) : Option Nat :=
  maximumBytes.bind fun maximum => checkedUsize (maximum.toNat + 1)

def initialCapacity (maximumBytes : Option UInt64) : Nat :=
  max (((maximumCapacity maximumBytes).map fun maximum => min maximum 256).getD 256) 1

/-- No buffer is larger than the probe. -/
def clamped (maximumBytes : Option UInt64) (capacity : Nat) : Nat :=
  ((maximumCapacity maximumBytes).map (min capacity)).getD capacity

def lengthOverflow : IoError := ⟨.invalidData, "symbolic-link target length overflow", none⟩

/-- The bytes of the target, if they were kept, and how many were read. -/
abbrev LinkRead := IoResult (Option (List UInt8) × Nat)

/-- One turn of the loop of `read_rooted_link`, with the capacity of its buffer. -/
def readTurn (native : Native) (diagnosticPath : Path) (maximumBytes : Option UInt64)
    (capacity : Nat) : Turn LinkRead Nat :=
  match native.tryReserveExact capacity with
  | .error error => .done (.error ⟨.outOfMemory, error.message, none⟩)
  | .ok () =>
    match native.readlinkat capacity with
    | .error error =>
      .done (.error (addPathContext error "read rooted symbolic link" diagnosticPath))
    | .ok bytes =>
      let read := bytes.length
      if read < capacity then .done (.ok (some bytes, read))
      else if ∃ maximum ∈ maximumBytes, maximum.toNat < read then .done (.ok (none, read))
      else match checkedUsize (capacity * 2) with
        | none => .done (.error lengthOverflow)
        | some doubled => .again (clamped maximumBytes doubled)

/-- A link that keeps its target: as much of it as the buffer holds. -/
def staticLink (target : List UInt8) (tryReserveExact : Nat → IoResult Unit) : Native where
  tryReserveExact := tryReserveExact
  readlinkat capacity := .ok (target.take capacity)

/-! ## 2. One turn -/

/-- What a turn makes of a link that keeps its target. -/
inductive Outcome (target : List UInt8) (tryReserveExact : Nat → IoResult Unit)
    (maximumBytes : Option UInt64) (capacity : Nat) : Turn LinkRead Nat → Prop
  | refused {error : IoError} (hreserve : tryReserveExact capacity = .error error) :
      Outcome target tryReserveExact maximumBytes capacity
        (.done (.error ⟨.outOfMemory, error.message, none⟩))
  | whole (hfits : target.length < capacity) :
      Outcome target tryReserveExact maximumBytes capacity
        (.done (.ok (some target, target.length)))
  | tooLong {maximum : UInt64} (hfull : capacity ≤ target.length) (hmaximum : maximum ∈ maximumBytes)
      (hover : maximum.toNat < capacity) :
      Outcome target tryReserveExact maximumBytes capacity (.done (.ok (none, capacity)))
  | overflow (hfull : capacity ≤ target.length) (hwithin : ∀ m ∈ maximumBytes, capacity ≤ m.toNat)
      (hword : usizeMax < capacity * 2) :
      Outcome target tryReserveExact maximumBytes capacity (.done (.error lengthOverflow))
  | again (hfull : capacity ≤ target.length) (hwithin : ∀ m ∈ maximumBytes, capacity ≤ m.toNat)
      (hword : capacity * 2 ≤ usizeMax) :
      Outcome target tryReserveExact maximumBytes capacity
        (.again (clamped maximumBytes (capacity * 2)))

section Turns

variable {target : List UInt8} {tryReserveExact : Nat → IoResult Unit} {path : Path}
  {maximumBytes : Option UInt64} {capacity capacity' : Nat} {result : LinkRead}

theorem readTurn_outcome :
    Outcome target tryReserveExact maximumBytes capacity
      (readTurn (staticLink target tryReserveExact) path maximumBytes capacity) := by
  unfold readTurn staticLink
  dsimp only
  cases hreserve : tryReserveExact capacity with
  | error error => exact .refused hreserve
  | ok =>
    dsimp only
    by_cases hfits : target.length < capacity
    · have htake : target.take capacity = target := List.take_of_length_le (Nat.le_of_lt hfits)
      rw [htake, if_pos hfits]
      exact .whole hfits
    · have hfull : capacity ≤ target.length := Nat.le_of_not_lt hfits
      have hlength : (target.take capacity).length = capacity := List.length_take_of_le hfull
      rw [hlength, if_neg (Nat.lt_irrefl capacity)]
      split
      · rename_i hover
        obtain ⟨maximum, hmaximum, hlt⟩ := hover
        exact .tooLong hfull hmaximum hlt
      · rename_i hover
        have hwithin : ∀ m ∈ maximumBytes, capacity ≤ m.toNat :=
          fun m hm => Nat.le_of_not_lt fun hlt => hover ⟨m, hm, hlt⟩
        unfold checkedUsize
        by_cases hword : capacity * 2 ≤ usizeMax
        · rw [if_pos hword]
          exact .again hfull hwithin hword
        · rw [if_neg hword]
          exact .overflow hfull hwithin (Nat.lt_of_not_le hword)

/-! ## 3. Capacities -/

/-- The probe is one byte above the maximum; no word holds one above the largest. -/
theorem maximumCapacity_some {m : UInt64} (hm : m.toNat < usizeMax) :
    maximumCapacity (some m) = some (m.toNat + 1) := if_pos hm

theorem maximumCapacity_largest {m : UInt64} (hm : usizeMax ≤ m.toNat) :
    maximumCapacity (some m) = none := if_neg (Nat.not_le_of_lt (Nat.lt_succ_of_le hm))

/-- What bounds every capacity. -/
def Fits (length : Nat) (maximumBytes : Option UInt64) (capacity : Nat) : Prop :=
  0 < capacity ∧ capacity ≤ usizeMax ∧
    match maximumBytes with
    | none => capacity ≤ max 256 (2 * length)
    | some maximum => capacity ≤ maximum.toNat + 1

theorem fits_initial (length : Nat) : Fits length maximumBytes (initialCapacity maximumBytes) := by
  unfold Fits initialCapacity usizeMax
  cases maximumBytes with
  | none =>
    refine ⟨by decide, by decide, ?_⟩
    exact Nat.le_max_left ..
  | some m =>
    by_cases hm : m.toNat < usizeMax
    · rw [maximumCapacity_some hm]
      dsimp only [Option.map_some, Option.getD_some]
      omega
    · rw [maximumCapacity_largest (Nat.le_of_not_lt hm)]
      unfold usizeMax at hm
      dsimp only [Option.map_none, Option.getD_none]
      omega

/-- From a full buffer within the maximum the next capacity is larger, and bounded like it. -/
theorem clamped_fits {length : Nat} (hfits : Fits length maximumBytes capacity)
    (hfull : capacity ≤ length) (hwithin : ∀ m ∈ maximumBytes, capacity ≤ m.toNat)
    (hword : capacity * 2 ≤ usizeMax) :
    capacity < clamped maximumBytes (capacity * 2) ∧
      Fits length maximumBytes (clamped maximumBytes (capacity * 2)) := by
  unfold Fits clamped at *
  cases maximumBytes with
  | none =>
    dsimp only [maximumCapacity, Option.bind_none, Option.map_none, Option.getD_none] at *
    omega
  | some m =>
    have hle : capacity ≤ m.toNat := hwithin m rfl
    by_cases hm : m.toNat < usizeMax
    · rw [maximumCapacity_some hm]
      dsimp only [Option.map_some, Option.getD_some] at *
      omega
    · rw [maximumCapacity_largest (Nat.le_of_not_lt hm)]
      dsimp only [Option.map_none, Option.getD_none] at *
      omega

/-! ## 4. Runs -/

abbrev readLoop (target : List UInt8) (tryReserveExact : Nat → IoResult Unit) (path : Path)
    (maximumBytes : Option UInt64) : Nat → Turn LinkRead Nat :=
  readTurn (staticLink target tryReserveExact) path maximumBytes

theorem fits_of_again (hfits : Fits target.length maximumBytes capacity)
    (h : readLoop target tryReserveExact path maximumBytes capacity = .again capacity') :
    Fits target.length maximumBytes capacity' ∧
      target.length + 1 - capacity' < target.length + 1 - capacity := by
  have houtcome : Outcome target tryReserveExact maximumBytes capacity (.again capacity') :=
    h ▸ readTurn_outcome
  cases houtcome with
  | again hfull hwithin hword =>
    obtain ⟨hlt, hlarger⟩ := clamped_fits hfits hfull hwithin hword
    exact ⟨hlarger, by omega⟩

theorem fits_of_reaches
    (h : Loop.Reaches (readLoop target tryReserveExact path maximumBytes)
      (initialCapacity maximumBytes) capacity) :
    Fits target.length maximumBytes capacity :=
  Loop.Reaches.invariant (Fits target.length maximumBytes)
    (fun _ _ hfits hnext => (fits_of_again hfits hnext).1) (fits_initial target.length) h

theorem readLoop_returns :
    ∃ result, Loop.Returns (readLoop target tryReserveExact path maximumBytes)
      (initialCapacity maximumBytes) result :=
  Loop.exists_returns (Fits target.length maximumBytes)
    (fun capacity => target.length + 1 - capacity) (fun _ _ => fits_of_again)
    (fits_initial target.length)

/-- The whole target, or none of it where it is above the maximum. -/
def Exact (target : List UInt8) (maximumBytes : Option UInt64)
    (read : Option (List UInt8) × Nat) : Prop :=
  if ∀ m ∈ maximumBytes, target.length ≤ m.toNat then read = (some target, target.length)
  else read.1 = none ∧ ∃ m ∈ maximumBytes, m.toNat < read.2

theorem exact_of_done (hfits : Fits target.length maximumBytes capacity)
    (h : readLoop target tryReserveExact path maximumBytes capacity = .done result) :
    (∃ error, tryReserveExact capacity = .error error ∧
      result = .error ⟨.outOfMemory, error.message, none⟩) ∨
    (result = .error lengthOverflow ∧ 2 ^ 63 ≤ target.length ∧
      ∀ m ∈ maximumBytes, 2 ^ 63 ≤ m.toNat) ∨
    ∃ read, result = .ok read ∧ Exact target maximumBytes read := by
  have houtcome : Outcome target tryReserveExact maximumBytes capacity (.done result) :=
    h ▸ readTurn_outcome
  cases houtcome with
  | refused hreserve => exact .inl ⟨_, hreserve, rfl⟩
  | whole hshort =>
    -- The probe is one byte: what does not fill it is within the maximum.
    have hwithin : ∀ m ∈ maximumBytes, target.length ≤ m.toNat := by
      intro m hm
      cases hm
      exact Nat.le_of_lt_succ (Nat.lt_of_lt_of_le hshort hfits.2.2)
    exact .inr (.inr ⟨_, rfl, by rw [Exact, if_pos hwithin]⟩)
  | tooLong hfull hmaximum hover =>
    have hlong : ¬ ∀ m ∈ maximumBytes, target.length ≤ m.toNat := fun hwithin =>
      Nat.not_lt.mpr (hwithin _ hmaximum) (Nat.lt_of_lt_of_le hover hfull)
    exact .inr (.inr ⟨_, rfl, by rw [Exact, if_neg hlong]; exact ⟨rfl, _, hmaximum, hover⟩⟩)
  | overflow hfull hwithin hword =>
    have hhalf : 2 ^ 63 ≤ capacity := by
      unfold usizeMax at hword
      omega
    exact .inr (.inl ⟨rfl, Nat.le_trans hhalf hfull,
      fun m hm => Nat.le_trans hhalf (hwithin m hm)⟩)

end Turns

/-- The loop ends, its buffers are bounded, and it returns the whole target or says that it is
    above the maximum, unless an allocation fails or half of the address space is not enough. -/
theorem readRootedLink_exact (target : List UInt8) (tryReserveExact : Nat → IoResult Unit)
    (path : Path) (maximumBytes : Option UInt64) :
    let turn := readTurn (staticLink target tryReserveExact) path maximumBytes
    let reached := Loop.Reaches turn (initialCapacity maximumBytes)
    (∃ result, Loop.Returns turn (initialCapacity maximumBytes) result) ∧
    (∀ capacity, reached capacity → Fits target.length maximumBytes capacity) ∧
    ∀ result, Loop.Returns turn (initialCapacity maximumBytes) result →
      (∃ capacity error, reached capacity ∧ tryReserveExact capacity = .error error ∧
        result = .error ⟨.outOfMemory, error.message, none⟩) ∨
      (result = .error lengthOverflow ∧ 2 ^ 63 ≤ target.length ∧
        ∀ m ∈ maximumBytes, 2 ^ 63 ≤ m.toNat) ∨
      ∃ read, result = .ok read ∧ Exact target maximumBytes read := by
  refine ⟨readLoop_returns, fun _ => fits_of_reaches, fun result hreturns => ?_⟩
  obtain ⟨capacity, hreached, hdone⟩ := hreturns.stops
  rcases exact_of_done (fits_of_reaches hreached) hdone with ⟨error, hreserve, hresult⟩ | hread
  · exact .inl ⟨capacity, error, hreached, hreserve, hresult⟩
  · exact .inr hread

/-- A target at the limit is kept, one byte more is not. -/
example :
    Loop.run (readTurn (staticLink [1, 2, 3] fun _ => .ok ()) [] (some 3)) 1
        (initialCapacity (some 3))
      = some (.ok (some [1, 2, 3], 3)) ∧
    Loop.run (readTurn (staticLink [1, 2, 3] fun _ => .ok ()) [] (some 2)) 1
        (initialCapacity (some 2))
      = some (.ok (none, 3)) := by
  decide

end LocalFiles.RootedLink
