import Mathlib.Data.FinEnum
import LocalFiles.CopyBudget

/-!
# ObservedReader — a bounded collection of the whole input

The input is collected block by block, each block reserved, zero-filled, read into and cut to what
was read.  At the maximum one byte more is asked for: its end is the end of the input, and the
byte itself says that the input is too long.
-/

namespace LocalFiles.Observed

open Interaction
open Copy (Transient fatalRead)

/-! ## 1. Calls -/

/-- `overflow` is no call of the source: it records a checked sum that does not fit its type. -/
inductive CollectCall where
  | reserve (output : List UInt8) (additional : Nat)
  | read (capacity : Nat)
  | overflow

def CollectCall.Result : CollectCall → Type
  | .reserve _ _ => IoResult Unit
  | .read _ => IoResult (List UInt8)
  | .overflow => Unit

abbrev CollectM (α : Type) := Prog CollectCall CollectCall.Result α

/-- The collected bytes, an error, a panic, or more turns than were considered. -/
abbrev CollectEnd := Except (Option (Halt LocalFileError)) (List UInt8)

def collectCall (c : CollectCall) : CollectM c.Result := Prog.request c
def reserve (output : List UInt8) (additional : Nat) : CollectM (IoResult Unit) :=
  collectCall (.reserve output additional)
def read (capacity : Nat) : CollectM (IoResult (List UInt8)) := collectCall (.read capacity)

/-! ## 2. The collection -/

def blockSize : Nat := 8 * 1024

def resourceLimit : LocalFileError := .new .resourceLimit .read

def readError (error : IoError) : LocalFileError := .fromIo .read none none error

def failed (error : LocalFileError) : CollectEnd := .error (some (.error error))

def overflowed : CollectM CollectEnd := do
  collectCall .overflow
  pure (failed resourceLimit)

/-- How much to ask for, and whether it is the byte after the maximum. -/
def nextRequest (maximum : Option UInt64) (count : Nat) :
    Except (Halt LocalFileError) (Nat × Bool) :=
  match maximum with
  | some limit =>
    if count = limit.toNat then .ok (1, true)
    else if limit.toNat < count then .error (.panic "attempt to subtract with overflow")
    else
      let available := toUsize (limit.toNat - count)
      .ok (min blockSize (max available 1), false)
  | none => .ok (blockSize, false)

/-- A read into `buffer[start..]`. -/
def filled (buffer : List UInt8) (start : Nat) (chunk : List UInt8) : List UInt8 :=
  buffer.take start ++ chunk ++ buffer.drop (start + chunk.length)

/-- The inner loop, for at most `retries` reads. -/
def readBlock (capacity : Nat) : Nat → CollectM (Option (IoResult (List UInt8)))
  | 0 => pure none
  | retries + 1 => do
    match ← read capacity with
    | .error error =>
      if error.kind = .interrupted then readBlock capacity retries else pure (some (.error error))
    | .ok chunk => pure (some (.ok chunk))

/-- What is kept of a block that was read, and the new count. -/
def keepBlock (maximum : Option UInt64) (request start count : Nat) (buffer chunk : List UInt8)
    (turn : List UInt8 → Nat → CollectM CollectEnd) : CollectM CollectEnd :=
  if request < chunk.length then pure (failed (.new .dataCorruption .read))
  else if usizeMax < start + chunk.length then
    pure (.error (some (.panic "attempt to add with overflow")))
  else if u64Max < count + chunk.length then overflowed
  else if ∃ limit ∈ maximum, limit.toNat < count + chunk.length then pure (failed resourceLimit)
  else turn ((filled buffer start chunk).take (start + chunk.length)) (count + chunk.length)

/-- The outer loop. -/
def collectBlocks (maximum : Option UInt64) (retries : Nat) :
    Nat → List UInt8 → Nat → CollectM CollectEnd
  | 0, _, _ => pure (.error none)
  | bound + 1, output, count =>
    match nextRequest maximum count with
    | .error halt => pure (.error (some halt))
    | .ok (request, true) => do
      match ← read request with
      | .ok [] => pure (.ok output)
      | .ok _ => pure (failed resourceLimit)
      | .error error =>
        if error.kind = .interrupted then collectBlocks maximum retries bound output count
        else pure (failed (readError error))
    | .ok (request, false) =>
      if usizeMax < output.length + request then overflowed
      else do
        let newLen := output.length + request
        match ← reserve output (newLen - output.length) with
        | .error _ => pure (failed resourceLimit)
        | .ok () =>
          let start := output.length
          let buffer := output ++ List.replicate (newLen - start) 0
          match ← readBlock (buffer.length - start) retries with
          | none => pure (.error none)
          | some (.error error) => pure (failed (readError error))
          | some (.ok []) => pure (.ok (buffer.take start))
          | some (.ok chunk) =>
            keepBlock maximum request start count buffer chunk
              (collectBlocks maximum retries bound)

/-- `bound` limits the turns, and the reads of each of them, in the runs considered. -/
def collectLimitedWithReserver (maximum : Option UInt64) (bound : Nat) : CollectM CollectEnd :=
  collectBlocks maximum bound bound [] 0

/-! ## 3. The input and the reserver -/

/-- No vector holds more bytes. -/
def isizeMax : Nat := 2 ^ 63 - 1

/-- `consumed` counts the bytes read.  `troubled` records a refused reservation or a fatal error of
    the input, `overflowed` a sum that did not fit. -/
structure CollectWorld where
  source : Source UInt8
  consumed : Nat := 0
  troubled : Bool := false
  overflowed : Bool := false

def answered : IoResult (List UInt8) → Nat
  | .ok chunk => chunk.length
  | .error _ => 0

/-- A reserver leaves the output as it is, and refuses what no vector can hold. -/
def Collecting : CollectWorld → (c : CollectCall) → c.Result → CollectWorld → Prop
  | w, .reserve output additional, answer, w' =>
    (answer = .ok () → output.length + additional ≤ isizeMax) ∧
      w' = { w with troubled := w.troubled || !answer.isOk }
  | w, .read capacity, answer, w' => ∃ source, w.source.Reads Transient capacity answer source ∧
    w' = { w with
      source := source
      consumed := w.consumed + answered answer
      troubled := w.troubled || fatalRead answer }
  | w, .overflow, _, w' => w' = { w with overflowed := true }

/-! ## 4. Requests -/

section Requests

variable {maximum : Option UInt64} {count request : Nat} {sentinel : Bool}

/-- What `nextRequest` asks for: up to a block within the maximum, or the byte after it. -/
inductive Asks (maximum : Option UInt64) (count : Nat) :
    Except (Halt LocalFileError) (Nat × Bool) → Prop
  | probe {limit : UInt64} (hlimit : maximum = some limit) (hcount : count = limit.toNat) :
      Asks maximum count (.ok (1, true))
  | block {request : Nat} (hpositive : 0 < request) (hblock : request ≤ blockSize)
      (hroom : ∀ limit ∈ maximum, count + request ≤ limit.toNat) :
      Asks maximum count (.ok (request, false))

theorem nextRequest_asks (hcount : ∀ limit ∈ maximum, count ≤ limit.toNat) :
    Asks maximum count (nextRequest maximum count) := by
  cases maximum with
  | none => exact .block (by decide) (Nat.le_refl _) nofun
  | some limit =>
    have hle : count ≤ limit.toNat := hcount limit rfl
    unfold nextRequest
    dsimp only
    by_cases hequal : count = limit.toNat
    · rw [if_pos hequal]
      exact .probe rfl hequal
    · have hsize : limit.toNat - count ≤ usizeMax := by
        have := limit.toNat_lt
        unfold usizeMax
        omega
      rw [if_neg hequal, if_neg (Nat.not_lt.mpr hle)]
      have havailable : toUsize (limit.toNat - count) = limit.toNat - count := if_pos hsize
      rw [havailable]
      refine .block ?_ (Nat.min_le_left ..) ?_
      · unfold blockSize
        omega
      · rintro _ ⟨⟩
        omega

end Requests

/-! ## 5. One read -/

section Reads

variable {capacity retries : Nat} {w w' : CollectWorld}

/-- Ends of `readBlock`: interruptions leave no trace but their number. -/
inductive BlockRead (capacity : Nat) (w : CollectWorld) :
    Option (IoResult (List UInt8)) → CollectWorld → Prop
  | fatal {w' : CollectWorld} {error : IoError} (htroubled : w'.troubled = true)
      (hconsumed : w'.consumed = w.consumed) (hoverflowed : w'.overflowed = w.overflowed) :
      BlockRead capacity w (some (.error error)) w'
  | done {w' : CollectWorld} (hend : w.source.unread = []) (hconsumed : w'.consumed = w.consumed)
      (hoverflowed : w'.overflowed = w.overflowed) : BlockRead capacity w (some (.ok [])) w'
  | chunk {w' : CollectWorld} {first : UInt8} {rest : List UInt8}
      (hunread : w.source.unread = first :: rest ++ w'.source.unread)
      (hfits : (first :: rest).length ≤ capacity)
      (hinterrupts : w'.source.interrupts ≤ w.source.interrupts)
      (hconsumed : w'.consumed = w.consumed + (first :: rest).length)
      (hoverflowed : w'.overflowed = w.overflowed) :
      BlockRead capacity w (some (.ok (first :: rest))) w'

theorem BlockRead.after {w₁ : CollectWorld} {r : Option (IoResult (List UInt8))}
    (h : BlockRead capacity w₁ r w') (hunread : w₁.source.unread = w.source.unread)
    (hinterrupts : w₁.source.interrupts ≤ w.source.interrupts)
    (hconsumed : w₁.consumed = w.consumed) (hoverflowed : w₁.overflowed = w.overflowed) :
    BlockRead capacity w r w' := by
  cases h with
  | fatal htroubled hconsumed' hoverflowed' =>
    exact .fatal htroubled (hconsumed'.trans hconsumed) (hoverflowed'.trans hoverflowed)
  | done hend hconsumed' hoverflowed' =>
    exact .done (hunread ▸ hend) (hconsumed'.trans hconsumed) (hoverflowed'.trans hoverflowed)
  | chunk hunread' hfits hinterrupts' hconsumed' hoverflowed' =>
    exact .chunk (hunread ▸ hunread') hfits (Nat.le_trans hinterrupts' hinterrupts)
      (hconsumed ▸ hconsumed') (hoverflowed'.trans hoverflowed)

theorem ensures_read {post : IoResult (List UInt8) → CollectWorld → Prop}
    (h : ∀ answer source, w.source.Reads Transient capacity answer source →
      post answer { w with
        source := source
        consumed := w.consumed + answered answer
        troubled := w.troubled || fatalRead answer }) :
    (read capacity).Ensures Collecting post w := by
  refine ⟨?_, fun answer next hE => ?_⟩
  · obtain ⟨chunk, source, hreads⟩ := Source.exists_reads Transient capacity w.source
    exact ⟨(.ok chunk : IoResult (List UInt8)), _, source, hreads, rfl⟩
  · obtain ⟨source, hreads, rfl⟩ := hE
    exact h answer source hreads

theorem fatalRead_eq {error : IoError} (h : error.kind ≠ .interrupted) :
    fatalRead (.error error) = true := decide_eq_true h

theorem ensures_readBlock (hcapacity : 0 < capacity) (hretries : w.source.interrupts < retries) :
    (readBlock capacity retries).Ensures Collecting (BlockRead capacity w) w := by
  induction retries generalizing w with
  | zero => exact absurd hretries (Nat.not_lt_zero _)
  | succ retries ih =>
    unfold readBlock
    refine .bind (ensures_read fun answer source hreads => ?_)
    match answer, hreads with
    | .error error, hreads =>
      show Prog.Ensures _ _ (if _ then _ else _) _
      by_cases hagain : error.kind = .interrupted
      · obtain ⟨hunread, hinterrupts⟩ := hreads.again hagain
        rw [if_pos hagain]
        have hlt : source.interrupts < retries := by omega
        refine (ih hlt).mono fun r w' h => ?_
        exact h.after hunread (by dsimp only; omega) rfl rfl
      · rw [if_neg hagain]
        refine .fatal ?_ rfl rfl
        rw [fatalRead_eq hagain, Bool.or_true]
    | .ok [], hreads => exact .done (hreads.end hcapacity) rfl rfl
    | .ok (first :: rest), hreads =>
      obtain ⟨hunread, hinterrupts, hfits⟩ := hreads.more
      exact .chunk hunread hfits (Nat.le_of_eq hinterrupts) rfl rfl

end Reads

/-! ## 6. The whole input or nothing -/

section Collection

variable {maximum : Option UInt64} {input output chunk : List UInt8} {count request retries : Nat}
  {w w' : CollectWorld}

/-- What the end of a collection says about the input. -/
structure Collected (maximum : Option UInt64) (input : List UInt8) (r : CollectEnd)
    (w' : CollectWorld) : Prop where
  whole : ∀ v, r = .ok v → v = input ∧ ∀ limit ∈ maximum, v.length ≤ limit.toNat
  exact : w'.troubled = false →
    r = if ∀ limit ∈ maximum, input.length ≤ limit.toNat then .ok input else failed resourceLimit
  consumed : ∀ limit ∈ maximum, w'.consumed ≤ limit.toNat + 1
  noOverflow : w'.overflowed = false
  noPanic : ∀ message, r ≠ .error (some (.panic message))
  returns : r ≠ .error none

/-- The state at the head of the outer loop. -/
structure Head (maximum : Option UInt64) (input output : List UInt8) (count : Nat)
    (w : CollectWorld) : Prop where
  split : output ++ w.source.unread = input
  counted : count = output.length
  consumed : w.consumed = count
  within : ∀ limit ∈ maximum, count ≤ limit.toNat
  size : output.length ≤ isizeMax
  noOverflow : w.overflowed = false

/-- Nothing is left: the output is the input. -/
theorem Head.finished (h : Head maximum input output count w) (hend : w.source.unread = [])
    (hconsumed : w'.consumed = w.consumed) (hoverflowed : w'.overflowed = w.overflowed) :
    Collected maximum input (.ok output) w' := by
  have hinput : output = input := by rw [← h.split, hend, List.append_nil]
  have hwithin : ∀ limit ∈ maximum, output.length ≤ limit.toNat :=
    fun limit hlimit => h.counted ▸ h.within limit hlimit
  refine ⟨?_, fun _ => ?_, fun limit hlimit => ?_, hoverflowed.trans h.noOverflow, nofun, nofun⟩
  · rintro _ ⟨⟩
    exact ⟨hinput, hwithin⟩
  · rw [if_pos (hinput ▸ hwithin), hinput]
  · rw [hconsumed, h.consumed]
    exact Nat.le_succ_of_le (h.within limit hlimit)

/-- A failure of the reserver or of the input is the result. -/
theorem Head.failed (h : Head maximum input output count w) {error : LocalFileError}
    (htroubled : w'.troubled = true) (hconsumed : w'.consumed = w.consumed)
    (hoverflowed : w'.overflowed = w.overflowed) :
    Collected maximum input (failed error) w' := by
  refine ⟨nofun, fun hfine => ?_, fun limit hlimit => ?_, hoverflowed.trans h.noOverflow, nofun,
    nofun⟩
  · rw [htroubled] at hfine
    cases hfine
  · rw [hconsumed, h.consumed]
    exact Nat.le_succ_of_le (h.within limit hlimit)

/-- The byte after the maximum is there: the input is too long. -/
theorem Head.tooLong (h : Head maximum input output count w) {limit : UInt64}
    (hlimit : maximum = some limit) (hcount : count = limit.toNat)
    (hmore : 0 < w.source.unread.length) (hconsumed : w'.consumed = w.consumed + 1)
    (hoverflowed : w'.overflowed = w.overflowed) :
    Collected maximum input (Observed.failed resourceLimit) w' := by
  have hlong : ¬ ∀ limit ∈ maximum, input.length ≤ limit.toNat := by
    intro hwithin
    have hle := hwithin limit hlimit
    rw [← h.split, List.length_append, ← h.counted] at hle
    omega
  refine ⟨nofun, fun _ => (if_neg hlong).symm, fun limit' hlimit' => ?_,
    hoverflowed.trans h.noOverflow, nofun, nofun⟩
  rw [hconsumed, h.consumed]
  exact Nat.succ_le_succ (h.within limit' hlimit')

theorem filled_take {start size : Nat} (hstart : start = output.length) :
    (filled (output ++ List.replicate size 0) start chunk).take (start + chunk.length)
      = output ++ chunk := by
  have hkept : (output ++ List.replicate size 0).take start = output := by
    rw [hstart, List.take_left]
  have hlength : start + chunk.length = (output ++ chunk).length := by
    rw [hstart, List.length_append]
  unfold filled
  rw [hkept, hlength, List.take_left]

theorem ensures_reserve {additional : Nat} {post : IoResult Unit → CollectWorld → Prop}
    (hrefused : ∀ error, post (.error error) { w with troubled := true })
    (hgranted : output.length + additional ≤ isizeMax → post (.ok ()) w) :
    (reserve output additional).Ensures Collecting post w := by
  refine ⟨?_, fun answer next hE => ?_⟩
  · exact ⟨(.error ⟨.other, "", none⟩ : IoResult Unit), _, nofun, rfl⟩
  · obtain ⟨hfits, rfl⟩ := hE
    match answer, hfits with
    | .error error, _ =>
      show post _ { w with troubled := w.troubled || true }
      rw [Bool.or_true]
      exact hrefused error
    | .ok (), hfits =>
      show post _ { w with troubled := w.troubled || false }
      rw [Bool.or_false]
      exact hgranted (hfits rfl)

/-- A block that was read is kept whole: it fits the maximum and the types. -/
theorem keepBlock_eq {size : Nat} {turn : List UInt8 → Nat → CollectM CollectEnd}
    (hfits : chunk.length ≤ request) (hroom : ∀ limit ∈ maximum, count + request ≤ limit.toNat)
    (hcount : count = output.length) (hsize : output.length + request ≤ isizeMax) :
    keepBlock maximum request output.length count (output ++ List.replicate size 0) chunk turn
      = turn (output ++ chunk) (count + chunk.length) := by
  have hwithin : ¬ ∃ limit ∈ maximum, limit.toNat < count + chunk.length := by
    rintro ⟨limit, hlimit, hlt⟩
    have := hroom limit hlimit
    omega
  unfold keepBlock usizeMax u64Max
  unfold isizeMax at hsize
  rw [if_neg (by omega), if_neg (by omega), if_neg (by omega), if_neg hwithin, filled_take rfl]

theorem Head.next (h : Head maximum input output count w)
    (hunread : w.source.unread = chunk ++ w'.source.unread)
    (hconsumed : w'.consumed = w.consumed + chunk.length)
    (hoverflowed : w'.overflowed = w.overflowed) (hfits : chunk.length ≤ request)
    (hroom : ∀ limit ∈ maximum, count + request ≤ limit.toNat)
    (hsize : output.length + request ≤ isizeMax) :
    Head maximum input (output ++ chunk) (count + chunk.length) w' where
  split := by rw [List.append_assoc, ← hunread, h.split]
  counted := by rw [List.length_append, h.counted]
  consumed := by rw [hconsumed, h.consumed]
  within limit hlimit := Nat.le_trans (Nat.add_le_add_left hfits count) (hroom limit hlimit)
  size := by rw [List.length_append]; exact Nat.le_trans (Nat.add_le_add_left hfits _) hsize
  noOverflow := hoverflowed.trans h.noOverflow

theorem ensures_collectBlocks {bound : Nat} (h : Head maximum input output count w)
    (hretries : w.source.interrupts < retries)
    (hbound : w.source.unread.length + w.source.interrupts < bound) :
    (collectBlocks maximum retries bound output count).Ensures Collecting (Collected maximum input)
      w := by
  induction bound generalizing output count w with
  | zero => exact absurd hbound (Nat.not_lt_zero _)
  | succ bound ih =>
    unfold collectBlocks
    -- the next request is one byte beyond a full output, or a block
    have hasks := nextRequest_asks h.within
    generalize nextRequest maximum count = asked at hasks
    cases hasks with
    | probe hlimit hcount =>
      refine .bind (ensures_read fun answer source hreads => ?_)
      match answer, hreads with
      | .error error, hreads =>
        show Prog.Ensures _ _ (if _ then _ else _) _
        -- an interrupted read leaves the collection where it was
        by_cases hagain : error.kind = .interrupted
        · obtain ⟨hunread, hinterrupts⟩ := hreads.again hagain
          rw [if_pos hagain]
          refine ih ⟨?_, h.counted, h.consumed, h.within, h.size, h.noOverflow⟩ ?_ ?_
          · rw [hunread, h.split]
          · dsimp only; omega
          · rw [hunread]; dsimp only; omega
        · rw [if_neg hagain]
          refine h.failed ?_ rfl rfl
          rw [fatalRead_eq hagain, Bool.or_true]
      | .ok [], hreads => exact h.finished (hreads.end (by decide)) rfl rfl
      | .ok (first :: rest), hreads =>
        obtain ⟨hunread, -, hfits⟩ := hreads.more
        -- a byte beyond the limit proves the input too long
        have hone : (first :: rest).length = 1 := by
          rw [List.length_cons] at *
          omega
        refine h.tooLong hlimit hcount ?_ ?_ rfl
        · rw [hunread, List.length_append]
          omega
        · show w.consumed + (first :: rest).length = w.consumed + 1
          rw [hone]
    | @block request hpositive hblock hroom =>
      have hword : ¬ usizeMax < output.length + request := by
        have hsize := h.size
        unfold isizeMax at hsize
        unfold blockSize at hblock
        unfold usizeMax
        omega
      have hadditional : output.length + request - output.length = request :=
        Nat.add_sub_cancel_left ..
      show Prog.Ensures _ _ (if _ then _ else _) _
      rw [if_neg hword]
      dsimp only
      rw [hadditional]
      refine .bind (ensures_reserve (fun error => h.failed rfl rfl rfl) fun hsize => ?_)
      have hcapacity : (output ++ List.replicate request (0 : UInt8)).length - output.length
          = request := by
        rw [List.length_append, List.length_replicate, hadditional]
      show Prog.Ensures _ _ (readBlock _ _ >>= _) _
      rw [hcapacity]
      refine .bind ((ensures_readBlock hpositive hretries).mono fun r w' hread => ?_)
      cases hread with
      | fatal htroubled hconsumed hoverflowed => exact h.failed htroubled hconsumed hoverflowed
      | done hend hconsumed hoverflowed =>
        show Collected maximum input (.ok (List.take _ _)) w'
        rw [List.take_left]
        exact h.finished hend hconsumed hoverflowed
      | @chunk _ first rest hunread hfits hinterrupts hconsumed hoverflowed =>
        show Prog.Ensures _ _ (keepBlock _ _ _ _ _ _ _) _
        rw [keepBlock_eq hfits hroom h.counted hsize]
        have hlength : w.source.unread.length
            = (first :: rest).length + w'.source.unread.length := by
          rw [hunread, List.length_append]
        rw [List.length_cons] at hlength
        refine ih (h.next hunread hconsumed hoverflowed hfits hroom hsize) ?_ ?_
        · exact Nat.lt_of_le_of_lt hinterrupts hretries
        · omega

end Collection

/-! ## 7. Reservations -/

section Reservations

variable {maximum : Option UInt64} {retries : Nat}

/-- A reservation of a block at most, and of no more than the maximum still allows. -/
def WithinCapacity (maximum : Option UInt64) : CollectCall → Prop
  | .reserve output additional =>
    additional ≤ blockSize ∧ ∀ limit ∈ maximum, output.length + additional ≤ limit.toNat
  | _ => True

theorem makes_readBlock (capacity : Nat) :
    (readBlock capacity retries).Makes (WithinCapacity maximum) := by
  induction retries with
  | zero => trivial
  | succ retries ih =>
    unfold readBlock
    refine .bind ⟨trivial, fun _ => trivial⟩ fun answer => ?_
    cases answer with
    | error error =>
      dsimp only
      split
      · exact ih
      · trivial
    | ok chunk => trivial

theorem makes_overflowed : overflowed.Makes (WithinCapacity maximum) :=
  .bind ⟨trivial, fun _ => trivial⟩ fun _ => trivial

theorem makes_collectBlocks {bound count : Nat} {output : List UInt8}
    (hcount : count = output.length) (hwithin : ∀ limit ∈ maximum, count ≤ limit.toNat) :
    (collectBlocks maximum retries bound output count).Makes (WithinCapacity maximum) := by
  induction bound generalizing output count with
  | zero => trivial
  | succ bound ih =>
    unfold collectBlocks
    have hasks := nextRequest_asks hwithin
    generalize nextRequest maximum count = asked at hasks
    cases hasks with
    | probe hlimit hcount' =>
      refine .bind ⟨trivial, fun _ => trivial⟩ fun answer => ?_
      match answer with
      | .error error =>
        dsimp only
        split
        · exact ih hcount hwithin
        · trivial
      | .ok [] => trivial
      | .ok (_ :: _) => trivial
    | @block request hpositive hblock hroom =>
      dsimp only
      split
      · exact makes_overflowed
      · rw [Nat.add_sub_cancel_left]
        -- room is reserved for the block that is requested, and no more
        refine .bind ⟨⟨hblock, hcount ▸ hroom⟩, fun _ => trivial⟩ fun answer => ?_
        match answer with
        | .error error => trivial
        | .ok () =>
          refine .bind (makes_readBlock _) fun read => ?_
          match read with
          | none => trivial
          | some (.error error) => trivial
          | some (.ok []) => trivial
          | some (.ok (first :: rest)) =>
            dsimp only
            unfold keepBlock
            split
            · trivial
            split
            · trivial
            split
            · exact makes_overflowed
            split
            · trivial
            · rename_i hwithin'
              rw [filled_take rfl]
              refine ih ?_ fun limit hlimit => Nat.le_of_not_lt fun hlt => ?_
              · rw [List.length_append, hcount]
              · exact hwithin' ⟨limit, hlimit, hlt⟩

end Reservations

/-! ## 8. Runs -/

/-- A run of `collect_limited_with_reserver` over an input with some interruptions. -/
def Run (maximum : Option UInt64) (bound : Nat) (input : List UInt8) (interrupts : Nat)
    (tr : List (Event CollectCall CollectCall.Result)) (r : CollectEnd)
    (w' : CollectWorld) : Prop :=
  (collectLimitedWithReserver maximum bound).RunsIn Collecting { source := ⟨input, interrupts⟩ } tr
    w' r

theorem head_initial (maximum : Option UInt64) (input : List UInt8) (interrupts : Nat) :
    Head maximum input [] 0 { source := ⟨input, interrupts⟩ } :=
  ⟨rfl, rfl, rfl, fun _ _ => Nat.zero_le _, Nat.zero_le _, rfl⟩

/-- A collection that is given enough turns ends with the whole input or with none of it, reads one
    byte above the maximum at most and reserves no more than it still allows. -/
theorem collectLimitedWithReserver_whole (maximum : Option UInt64) (bound : Nat)
    (input : List UInt8) (interrupts : Nat) (hbound : input.length + interrupts < bound) :
    (∃ tr r w', Run maximum bound input interrupts tr r w') ∧
    ∀ tr r w', Run maximum bound input interrupts tr r w' →
      Collected maximum input r w' ∧ ∀ event ∈ tr, WithinCapacity maximum event.call := by
  have hensures : (collectLimitedWithReserver maximum bound).Ensures Collecting
      (Collected maximum input) { source := ⟨input, interrupts⟩ } :=
    ensures_collectBlocks (head_initial maximum input interrupts) (by dsimp only; omega) hbound
  refine ⟨?_, fun tr r w' hrun => ⟨hensures.runsIn hrun, ?_⟩⟩
  · obtain ⟨tr, w', r, hrun⟩ := hensures.exists_run
    exact ⟨tr, r, w', hrun⟩
  · have hmakes : (collectLimitedWithReserver maximum bound).Makes (WithinCapacity maximum) :=
      makes_collectBlocks rfl fun _ _ => Nat.zero_le _
    exact hmakes.calls hrun.runs

theorem collectLimitedWithReserver_whole_atLimit :
    (∃ tr r w', Run (some 3) 6 [1, 2, 3, 4] 1 tr r w') ∧
    ∀ tr r w', Run (some 3) 6 [1, 2, 3, 4] 1 tr r w' →
      Collected (some 3) [1, 2, 3, 4] r w' ∧
        ∀ event ∈ tr, WithinCapacity (some 3) event.call :=
  collectLimitedWithReserver_whole (some 3) 6 [1, 2, 3, 4] 1 (by decide)

end LocalFiles.Observed
