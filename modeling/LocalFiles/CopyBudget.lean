import LocalFiles.Contract
import LocalFiles.QubitBudget
import LocalFiles.Streams

/-!
# CopyBudget — copying the bytes of one file under a limit

`copy_with_now` reads at most one byte more than the budget still covers, so that it sees whether
a source is too long without writing more than it may.  Every accepted part of a write is charged
at once.
-/

namespace LocalFiles

open Interaction

/-! ## 1. The budget -/

def u64Max : Nat := 2 ^ 64 - 1

/-- `u64::saturating_add` -/
def saturatingAdd (a b : Nat) : Nat := min (a + b) u64Max

/-- `usize::try_from(..).unwrap_or(usize::MAX)` -/
def toUsize (value : Nat) : Nat := if value ≤ usizeMax then value else usizeMax

/-- `usize::checked_add` and `usize::checked_mul`. -/
def checkedUsize (value : Nat) : Option Nat := if value ≤ usizeMax then some value else none

def copyChunkSize : Nat := 64 * 1024

/-- An `io::Error`, which may carry the facts of an exhausted budget. -/
inductive CopyError where
  | io (error : IoError)
  | limit (error : LocalResourceLimitError)
  deriving DecidableEq, Repr

/-- Only what the copy of bytes reads: the copied-byte budget, which is a `u64`, and the start of
    the copy with its deadline. -/
structure CopyBudget [QubitBudget] where
  bytes : Option ResourceBudget
  deadline : Option (Nat × Nat)
  resource : ∀ budget ∈ bytes, budget.resource = .copiedBytes
  inRange : ∀ budget ∈ bytes, budget.remaining ≤ u64Max

namespace CopyBudget

variable [QubitBudget] (budget : CopyBudget)

def remainingBytes : Option Nat := budget.bytes.map (·.remaining)

/-- `check_deadline_at` fails. -/
def late (deadline : Option (Nat × Nat)) (now : Nat) : Bool :=
  deadline.any fun (started, duration) => duration ≤ now - started

def timedOut : CopyError := .io ⟨.timedOut, "local copy deadline exceeded", none⟩

def writeZero : CopyError := .io ⟨.writeZero, "failed to write copy staging data", none⟩

/-- One byte more than the budget covers. -/
def readCapacity (chunkSize : Nat) : Nat :=
  match budget.remainingBytes with
  | none => chunkSize
  | some remaining => min (toUsize (saturatingAdd remaining 1)) chunkSize

/-- How much of a chunk of `read` bytes the budget covers. -/
def permitted (read : Nat) : Nat :=
  match budget.remainingBytes with
  | none => read
  | some remaining => min (toUsize remaining) read

/-- `u64_budget_error` -/
def budgetError (error : LocalResourceLimitError) : CopyError :=
  .limit (.new error.resource (toUsize error.limit) (toUsize error.remaining)
    (toUsize error.requested))

/-- The budget of the bytes after a charge that fits. -/
def charged (bytes bytes' : ResourceBudget) (amount : Nat) (hbytes : budget.bytes = some bytes)
    (h : bytes.Consumed amount bytes') : CopyBudget where
  bytes := some bytes'
  deadline := budget.deadline
  resource after hafter := by
    cases hafter
    exact h.resource.trans (budget.resource bytes hbytes)
  inRange after hafter := by
    cases hafter
    rw [h.remaining]
    exact Nat.le_trans (Nat.sub_le _ _) (budget.inRange bytes hbytes)

def chargeBytes (amount : Nat) : Except CopyError CopyBudget :=
  match hbytes : budget.bytes with
  | none => .ok budget
  | some bytes =>
    match hcharged : bytes.tryConsume amount with
    | .ok bytes' =>
      .ok (budget.charged bytes bytes' amount hbytes (ResourceBudget.tryConsume_ok hcharged))
    | .error error => .error (budgetError error)

/-- The two `expect`s are the panics. -/
def copiedBytesExhausted (excess : Nat) : Halt CopyError :=
  match budget.bytes with
  | none => .panic "an over-limit read requires a copied-byte budget"
  | some bytes =>
    match bytes.tryConsume excess with
    | .ok _ => .panic "an over-limit read must exceed the exhausted copied-byte budget"
    | .error error => .error (budgetError error)

end CopyBudget

/-! ## 2. The copy -/

/-- `charge` has no answer: whether the charge after a write fits is only recorded. -/
inductive CopyCall where
  | now
  | read (capacity : Nat)
  | write (source : List UInt8)
  | charge (fits : Bool)
  deriving DecidableEq, Repr

/-- A read answers with the bytes it has put into the buffer. -/
def CopyCall.Result : CopyCall → Type
  | .now => Nat
  | .read _ => IoResult (List UInt8)
  | .write _ => IoResult Nat
  | .charge _ => Unit

structure CopyLocals [QubitBudget] where
  budget : CopyBudget
  copied : Nat := 0

/-- An exit without a result stands for a run that is longer than the bound considered. -/
abbrev CopyM [QubitBudget] (α : Type) :=
  Proc.Recorded CopyCall CopyCall.Result CopyLocals (Option (Halt CopyError)) α

namespace Copy

theorem saturatingAdd_zero {a : Nat} (h : a ≤ u64Max) : saturatingAdd a 0 = a := Nat.min_eq_left h

theorem saturatingAdd_add (a b c : Nat) :
    saturatingAdd (saturatingAdd a b) c = saturatingAdd a (b + c) := by
  unfold saturatingAdd
  omega

section Pipeline

variable [QubitBudget] {α : Type}

def call (c : CopyCall) : CopyM c.Result := Proc.ask c
def now : CopyM Nat := call .now
def read (capacity : Nat) : CopyM (IoResult (List UInt8)) := call (.read capacity)
def write (source : List UInt8) : CopyM (IoResult Nat) := call (.write source)
def recordCharge (fits : Bool) : CopyM Unit := call (.charge fits)

def fail (error : CopyError) : CopyM α := Proc.exit (some (.error error))

/-- `check_deadline_at(now())` -/
def checkDeadline : CopyM Unit := do
  let time ← now
  let s ← Proc.get
  if CopyBudget.late s.budget.deadline time then fail CopyBudget.timedOut else pure ()

def chargeBytes (amount : Nat) : CopyM Unit := do
  let s ← Proc.get
  match s.budget.chargeBytes amount with
  | .error error => do
    recordCharge false
    fail error
  | .ok budget => do
    recordCharge true
    Proc.modify fun s => { s with budget := budget }

/-- For at most `bound` attempts. -/
def writeAllWithDeadline : Nat → List UInt8 → CopyM Unit
  | 0, _ => Proc.exit none
  | bound + 1, source =>
    if source = [] then pure ()
    else do
      checkDeadline
      match ← write source with
      | .error error =>
        if error.kind = .interrupted then writeAllWithDeadline bound source else fail (.io error)
      | .ok 0 => fail CopyBudget.writeZero
      | .ok written => do
        chargeBytes written
        Proc.modify fun s => { s with copied := saturatingAdd s.copied written }
        checkDeadline
        writeAllWithDeadline bound (source.drop written)

/-- What is done with a chunk that is not empty. -/
def copyChunk (bound : Nat) (chunk : List UInt8) : CopyM Unit := do
  checkDeadline
  let s ← Proc.get
  let permitted := s.budget.permitted chunk.length
  writeAllWithDeadline bound (chunk.take permitted)
  if permitted < chunk.length then do
    let s ← Proc.get
    Proc.exit (some (s.budget.copiedBytesExhausted (chunk.length - permitted)))
  else pure ()

/-- The outer loop. -/
def copyChunks (writes : Nat) : Nat → CopyM Nat
  | 0 => Proc.exit none
  | bound + 1 => do
    checkDeadline
    let s ← Proc.get
    match ← read (s.budget.readCapacity copyChunkSize) with
    | .error error =>
      if error.kind = .interrupted then copyChunks writes bound else fail (.io error)
    | .ok [] => do
      checkDeadline
      let s ← Proc.get
      pure s.copied
    | .ok chunk => do
      copyChunk writes chunk
      copyChunks writes bound

/-- `bound` limits the reads, and the writes for each of them, in the runs considered. -/
def copyWithNow (bound : Nat) : CopyM Nat := copyChunks bound bound

/-! ## 3. Streams that are copied -/

/-- `troubled` records a fatal error of a stream, a write that accepts nothing and a deadline that
    has passed; `overcharged` a charge that did not fit. -/
structure CopyStreams where
  source : Source UInt8
  sink : Sink UInt8
  troubled : Bool := false
  overcharged : Bool := false

def Transient (error : IoError) : Prop := error.kind = .interrupted

instance : DecidablePred Transient := fun error => decEq error.kind .interrupted

def fatalRead : IoResult (List UInt8) → Bool
  | .error error => ¬ Transient error
  | .ok _ => false

def fatalWrite (request : List UInt8) : IoResult Nat → Bool
  | .error error => ¬ Transient error
  | .ok count => count = 0 ∧ request ≠ []

/-- What the calls of a copy with this deadline may be answered. -/
def Streaming (deadline : Option (Nat × Nat)) :
    CopyStreams → (c : CopyCall) → c.Result → CopyStreams → Prop
  | w, .now, time, w' => w' = { w with troubled := w.troubled || CopyBudget.late deadline time }
  | w, .read capacity, answer, w' => ∃ source, w.source.Reads Transient capacity answer source ∧
      w' = { w with source := source, troubled := w.troubled || fatalRead answer }
  | w, .write request, answer, w' => ∃ sink, w.sink.Accepts Transient request answer sink ∧
      w' = { w with sink := sink, troubled := w.troubled || fatalWrite request answer }
  | w, .charge fits, _, w' => w' = { w with overcharged := w.overcharged || !fits }

/-- `n` bytes more have been charged. -/
structure Charged (before after : CopyBudget) (n : Nat) : Prop where
  deadline : after.deadline = before.deadline
  covered : ∀ remaining ∈ before.remainingBytes, n ≤ remaining
  remaining : after.remainingBytes = before.remainingBytes.map (· - n)

theorem Charged.zero (budget : CopyBudget) : Charged budget budget 0 := by
  refine ⟨rfl, fun _ _ => Nat.zero_le _, ?_⟩
  cases budget.remainingBytes <;> rfl

theorem Charged.trans {before mid after : CopyBudget} {n m : Nat} (h : Charged before mid n)
    (h' : Charged mid after m) : Charged before after (n + m) := by
  refine ⟨h'.deadline.trans h.deadline, fun remaining hremaining => ?_, ?_⟩
  · have hle := h.covered remaining hremaining
    have hle' := h'.covered (remaining - n) (by rw [h.remaining, hremaining]; rfl)
    omega
  · rw [h'.remaining, h.remaining, Option.map_map]
    cases before.remainingBytes with
    | none => rfl
    | some remaining => exact congrArg some (Nat.sub_sub remaining n m)

/-- A charge that the budget covers is made. -/
theorem chargeBytes_ok {budget : CopyBudget} {amount : Nat}
    (h : ∀ remaining ∈ budget.remainingBytes, amount ≤ remaining) :
    ∃ budget', budget.chargeBytes amount = .ok budget' ∧ Charged budget budget' amount := by
  unfold CopyBudget.chargeBytes
  split
  next hbytes =>
    refine ⟨budget, rfl, rfl, h, ?_⟩
    unfold CopyBudget.remainingBytes
    rw [hbytes]
    rfl
  next bytes hbytes =>
    have hremaining : budget.remainingBytes = some bytes.remaining := congrArg _ hbytes
    split
    next bytes' hcharged =>
      refine ⟨_, rfl, rfl, h, ?_⟩
      rw [hremaining]
      exact congrArg some (ResourceBudget.tryConsume_ok hcharged).remaining
    next error hexceeds =>
      have hshort := (ResourceBudget.tryConsume_error hexceeds).1
      exact absurd (h bytes.remaining hremaining) (Nat.not_le_of_lt hshort)

/-! ## 4. Writing a chunk -/

/-- `bytes` were written, charged and counted between the two states. -/
structure Moved (s : CopyLocals) (w : CopyStreams) (bytes : List UInt8) (s' : CopyLocals)
    (w' : CopyStreams) : Prop where
  charged : Charged s.budget s'.budget bytes.length
  copied : s'.copied = saturatingAdd s.copied bytes.length
  received : w'.sink.received = w.sink.received ++ bytes
  source : w'.source = w.source
  interrupts : w'.sink.interrupts ≤ w.sink.interrupts
  overcharged : w'.overcharged = w.overcharged

variable {s s' s'' : CopyLocals} {w w' w'' : CopyStreams} {deadline : Option (Nat × Nat)}

theorem Moved.nil (hcopied : s.copied ≤ u64Max) (hsource : w'.source = w.source)
    (hreceived : w'.sink.received = w.sink.received)
    (hinterrupts : w'.sink.interrupts ≤ w.sink.interrupts)
    (hovercharged : w'.overcharged = w.overcharged) : Moved s w [] s w' where
  charged := .zero s.budget
  copied := (saturatingAdd_zero hcopied).symm
  received := by rw [hreceived, List.append_nil]
  source := hsource
  interrupts := hinterrupts
  overcharged := hovercharged

theorem Moved.trans {bytes more : List UInt8} (h : Moved s w bytes s' w')
    (h' : Moved s' w' more s'' w'') : Moved s w (bytes ++ more) s'' w'' where
  charged := by
    rw [List.length_append]
    exact h.charged.trans h'.charged
  copied := by rw [h'.copied, h.copied, saturatingAdd_add, List.length_append]
  received := by rw [h'.received, h.received, List.append_assoc]
  source := h'.source.trans h.source
  interrupts := Nat.le_trans h'.interrupts h.interrupts
  overcharged := h'.overcharged.trans h.overcharged

theorem Moved.copied_le {bytes : List UInt8} (h : Moved s w bytes s' w') : s'.copied ≤ u64Max :=
  h.copied ▸ Nat.min_le_right _ _

/-- How the writing of a chunk ends: completely, or in trouble after a part of it. -/
def Wrote (s : CopyLocals) (w : CopyStreams) (bytes : List UInt8) :
    Except (Option (Halt CopyError)) Unit → CopyLocals → CopyStreams → Prop
  | .ok (), s', w' => Moved s w bytes s' w'
  | .error (some (.error (.io _))), s', w' => w'.troubled = true ∧
      ∃ n ≤ bytes.length, Moved s w (bytes.take n) s' w'
  | _, _, _ => False

/-- What is written after a first part. -/
theorem Moved.wrote {bytes more : List UInt8} {r : Except (Option (Halt CopyError)) Unit}
    (h : Moved s w bytes s' w') (h' : Wrote s' w' more r s'' w'') :
    Wrote s w (bytes ++ more) r s'' w'' := by
  match r, h' with
  | .ok (), h' => exact h.trans h'
  | .error (some (.error (.io _))), h' =>
    obtain ⟨htroubled, n, hn, hmoved⟩ := h'
    refine ⟨htroubled, bytes.length + n, by rw [List.length_append]; omega, ?_⟩
    rw [List.take_length_add_append]
    exact h.trans hmoved

theorem ensures_checkDeadline {α : Type} {f : Unit → CopyM α}
    {post : Except (Option (Halt CopyError)) α → CopyLocals → CopyStreams → Prop}
    (hdeadline : s.budget.deadline = deadline)
    (hlate : post (.error (some (.error CopyBudget.timedOut))) s { w with troubled := true })
    (hok : (f ()).Ensures (Streaming deadline) post s w) :
    (checkDeadline >>= f).Ensures (Streaming deadline) post s w := by
  refine .bind (fun r s' w' => s' = s ∧ (r = .ok () ∧ w' = w ∨
    r = .error (some (.error CopyBudget.timedOut)) ∧ w' = { w with troubled := true })) ?_ ?_ ?_
  · refine .ask_bind ⟨(0 : Nat), _, rfl⟩ fun (time : Nat) next hanswer => .get ?_
    obtain rfl : next = { w with troubled := w.troubled || CopyBudget.late deadline time } := hanswer
    rw [hdeadline]
    cases hpassed : CopyBudget.late deadline time with
    | true =>
      rw [Bool.or_true]
      exact .exit ⟨rfl, .inr ⟨rfl, rfl⟩⟩
    | false =>
      rw [Bool.or_false]
      exact .pure ⟨rfl, .inl ⟨rfl, rfl⟩⟩
  · rintro _ s' w' ⟨rfl, ⟨-, rfl⟩ | ⟨⟨⟩, -⟩⟩
    exact hok
  · rintro error s' w' ⟨rfl, ⟨⟨⟩, -⟩ | ⟨herror, rfl⟩⟩
    cases herror
    exact hlate

theorem ensures_chargeBytes {amount : Nat}
    (h : ∀ remaining ∈ s.budget.remainingBytes, amount ≤ remaining) :
    (chargeBytes amount).Ensures (Streaming deadline) (fun r s' w' => r = .ok () ∧
      w' = w ∧ s'.copied = s.copied ∧ Charged s.budget s'.budget amount) s w := by
  obtain ⟨budget, hcharge, hcharged⟩ := chargeBytes_ok h
  refine .get ?_
  rw [hcharge]
  refine .ask_bind ⟨(), _, rfl⟩ fun answer next hanswer => ?_
  obtain rfl : next = { w with overcharged := w.overcharged || false } := hanswer
  rw [Bool.or_false]
  exact .modify ⟨rfl, rfl, rfl, hcharged⟩

theorem ensures_writeAll {bound : Nat} {bytes : List UInt8} (hdeadline : s.budget.deadline = deadline)
    (hcopied : s.copied ≤ u64Max)
    (hcovered : ∀ remaining ∈ s.budget.remainingBytes, bytes.length ≤ remaining)
    (hbound : bytes.length + w.sink.interrupts < bound) :
    (writeAllWithDeadline bound bytes).Ensures (Streaming deadline) (Wrote s w bytes) s w := by
  induction bound generalizing bytes s w with
  | zero => omega
  | succ bound ih =>
    unfold writeAllWithDeadline
    by_cases hempty : bytes = []
    · rw [if_pos hempty, hempty]
      exact .pure (Moved.nil hcopied rfl rfl (Nat.le_refl _) rfl)
    rw [if_neg hempty]
    have hnothing (w' : CopyStreams) (error : IoError) (htroubled : w'.troubled = true)
        (hmoved : Moved s w [] s w') :
        Wrote s w bytes (.error (some (.error (.io error)))) s w' :=
      ⟨htroubled, 0, Nat.zero_le _, hmoved⟩
    refine ensures_checkDeadline hdeadline (hnothing { w with troubled := true } _ rfl
      (.nil hcopied rfl rfl (Nat.le_refl _) rfl)) ?_
    -- a write can always be answered, so the run does not get stuck
    obtain ⟨sink, haccepts⟩ := Sink.exists_accepts Transient bytes w.sink
    refine .ask_bind ⟨.ok bytes.length, _, sink, haccepts, rfl⟩ ?_
    rintro answer _ ⟨sink', haccepts', rfl⟩
    match answer, haccepts' with
    | .error error, haccepts' =>
      show Proc.Ensures _ _ (if error.kind = .interrupted then _ else _) _ _
      -- an interrupted write is repeated, and the bound pays for it
      by_cases hagain : error.kind = .interrupted
      · obtain ⟨hreceived, hinterrupts⟩ := haccepts'.again hagain
        have hmoved : Moved s w [] s { w with
            sink := sink'
            troubled := w.troubled || fatalWrite bytes (.error error) } :=
          .nil hcopied rfl hreceived (by rw [hinterrupts]; exact Nat.le_succ _) rfl
        rw [if_pos hagain]
        have hrest := ih (w := { w with
            sink := sink'
            troubled := w.troubled || fatalWrite bytes (.error error) }) hdeadline hcopied hcovered
          (by dsimp only; omega)
        exact hrest.mono fun r s' w' h => hmoved.wrote h
      · obtain rfl := haccepts'.refused hagain
        have htroubled : (w.troubled || fatalWrite bytes (.error error)) = true := by
          rw [show fatalWrite bytes (.error error) = true from decide_eq_true hagain, Bool.or_true]
        rw [if_neg hagain]
        exact .exit (hnothing _ error htroubled (.nil hcopied rfl rfl (Nat.le_refl _) rfl))
    | .ok 0, haccepts' =>
      obtain ⟨-, hreceived, hinterrupts⟩ := haccepts'.accepted
      rw [List.take_zero, List.append_nil] at hreceived
      have htroubled : (w.troubled || fatalWrite bytes (.ok 0)) = true := by
        rw [show fatalWrite bytes (.ok 0) = true from decide_eq_true ⟨rfl, hempty⟩, Bool.or_true]
      exact .exit (hnothing _ _ htroubled
        (.nil hcopied rfl hreceived (Nat.le_of_eq hinterrupts) rfl))
    | .ok (count + 1), haccepts' =>
      obtain ⟨hcount, hreceived, hinterrupts⟩ := haccepts'.accepted
      have hlength : (bytes.take (count + 1)).length = count + 1 := List.length_take_of_le hcount
      refine .bind _ (ensures_chargeBytes fun remaining hremaining =>
        Nat.le_trans hcount (hcovered remaining hremaining)) ?_ ?_
      · rintro _ s₁ _ ⟨-, rfl, hsame, hcharged⟩
        refine .modify_bind ?_
        have hmoved : Moved s w (bytes.take (count + 1))
            { s₁ with copied := saturatingAdd s₁.copied (count + 1) }
            { w with sink := sink', troubled := w.troubled || fatalWrite bytes (.ok (count + 1)) } :=
          ⟨by rw [hlength]; exact hcharged, by rw [hlength, hsame], hreceived, rfl,
            Nat.le_of_eq hinterrupts, rfl⟩
        have hdeadline' : s₁.budget.deadline = deadline := hcharged.deadline.trans hdeadline
        refine ensures_checkDeadline hdeadline' ⟨rfl, count + 1, hcount, ?_⟩ ?_
        · exact ⟨hmoved.charged, hmoved.copied, hmoved.received, rfl, hmoved.interrupts, rfl⟩
        · refine (ih (s := { s₁ with copied := saturatingAdd s₁.copied (count + 1) }) hdeadline'
            hmoved.copied_le (fun remaining hremaining => ?_) ?_).mono ?_
          · rw [hcharged.remaining] at hremaining
            obtain ⟨before, hbefore, rfl⟩ := Option.map_eq_some_iff.mp hremaining
            have hle := hcovered before hbefore
            rw [List.length_drop]
            omega
          · rw [List.length_drop]
            dsimp only
            omega
          · intro r s' w' h
            have hall := hmoved.wrote h
            rwa [List.take_append_drop] at hall
      · rintro error s₁ w₁ ⟨⟨⟩, -⟩

/-! ## 5. The whole source -/

/-- `bytes` were received and charged. -/
structure Transferred (s : CopyLocals) (w : CopyStreams) (bytes : List UInt8) (s' : CopyLocals)
    (w' : CopyStreams) : Prop where
  charged : Charged s.budget s'.budget bytes.length
  received : w'.sink.received = w.sink.received ++ bytes
  overcharged : w'.overcharged = w.overcharged

theorem Moved.transferred {bytes : List UInt8} (h : Moved s w bytes s' w') :
    Transferred s w bytes s' w' :=
  ⟨h.charged, h.received, h.overcharged⟩

theorem Transferred.trans {bytes more : List UInt8} (h : Transferred s w bytes s' w')
    (h' : Transferred s' w' more s'' w'') : Transferred s w (bytes ++ more) s'' w'' where
  charged := by
    rw [List.length_append]
    exact h.charged.trans h'.charged
  received := by rw [h'.received, h.received, List.append_assoc]
  overcharged := h'.overcharged.trans h.overcharged

/-- How the copy of `bytes` ends: with all of them, in trouble after a part of them, or with as
    many as the budget covers. -/
def Copied {α : Type} (s : CopyLocals) (w : CopyStreams) (bytes : List UInt8) (done : α → Prop) :
    Except (Option (Halt CopyError)) α → CopyLocals → CopyStreams → Prop
  | .ok a, s', w' => done a ∧ Transferred s w bytes s' w'
  | .error (some (.error (.io _))), s', w' => w'.troubled = true ∧
      ∃ n ≤ bytes.length, Transferred s w (bytes.take n) s' w'
  | .error (some (.error (.limit facts))), s', w' => facts.resource = .copiedBytes ∧
      ∃ remaining, s.budget.remainingBytes = some remaining ∧ remaining < bytes.length ∧
        Transferred s w (bytes.take remaining) s' w'
  | _, _, _ => False

/-- The copy of the rest after that of a first part. -/
theorem Transferred.copied {α : Type} {bytes more : List UInt8} {done done' : α → Prop}
    {r : Except (Option (Halt CopyError)) α} (h : Transferred s w bytes s' w')
    (h' : Copied s' w' more done r s'' w'') (hdone : ∀ a, done a → done' a) :
    Copied s w (bytes ++ more) done' r s'' w'' := by
  match r, h' with
  | .ok a, h' => exact ⟨hdone a h'.1, h.trans h'.2⟩
  | .error (some (.error (.io _))), h' =>
    obtain ⟨htroubled, n, hn, hmoved⟩ := h'
    refine ⟨htroubled, bytes.length + n, by rw [List.length_append]; omega, ?_⟩
    rw [List.take_length_add_append]
    exact h.trans hmoved
  | .error (some (.error (.limit facts))), h' =>
    obtain ⟨hresource, remaining, hremaining, hshort, hmoved⟩ := h'
    rw [h.charged.remaining] at hremaining
    obtain ⟨before, hbefore, rfl⟩ := Option.map_eq_some_iff.mp hremaining
    have hle := h.charged.covered before hbefore
    refine ⟨hresource, before, hbefore, by rw [List.length_append]; omega, ?_⟩
    rw [show before = bytes.length + (before - bytes.length) by omega,
      List.take_length_add_append]
    exact h.trans hmoved

theorem readCapacity_pos (budget : CopyBudget) : 0 < budget.readCapacity copyChunkSize := by
  unfold CopyBudget.readCapacity
  split
  · decide
  · rename_i remaining _
    unfold toUsize saturatingAdd usizeMax u64Max copyChunkSize
    split <;> omega

theorem remaining_le {budget : CopyBudget} {remaining : Nat}
    (h : budget.remainingBytes = some remaining) : remaining ≤ u64Max := by
  obtain ⟨bytes, hbytes, rfl⟩ := Option.map_eq_some_iff.mp h
  exact budget.inRange bytes hbytes

theorem permitted_eq {budget : CopyBudget} {remaining : Nat} (read : Nat)
    (h : budget.remainingBytes = some remaining) : budget.permitted read = min remaining read := by
  have hle := remaining_le h
  unfold CopyBudget.permitted
  rw [h]
  show min (toUsize remaining) read = _
  unfold toUsize
  rw [if_pos (show remaining ≤ usizeMax from hle)]

theorem permitted_none {budget : CopyBudget} (read : Nat) (h : budget.remainingBytes = none) :
    budget.permitted read = read := by
  unfold CopyBudget.permitted
  rw [h]

theorem permitted_le (budget : CopyBudget) (read : Nat) : budget.permitted read ≤ read := by
  cases h : budget.remainingBytes with
  | none => exact Nat.le_of_eq (permitted_none read h)
  | some remaining =>
    rw [permitted_eq read h]
    exact Nat.min_le_right _ _

/-- A budget that is used up refuses what is read beyond it. -/
theorem copiedBytesExhausted_eq {budget : CopyBudget} {excess : Nat}
    (h : budget.remainingBytes = some 0) (hexcess : 0 < excess) :
    ∃ facts, budget.copiedBytesExhausted excess = .error (.limit facts) ∧
      facts.resource = .copiedBytes := by
  obtain ⟨bytes, hbytes, hzero⟩ := Option.map_eq_some_iff.mp h
  have hrefused := ResourceBudget.tryConsume_exceeds (show bytes.remaining < excess by omega)
  unfold CopyBudget.copiedBytesExhausted
  rw [hbytes]
  dsimp only
  rw [hrefused]
  exact ⟨_, rfl, budget.resource bytes hbytes⟩

theorem Wrote.copied {α : Type} {bytes : List UInt8} {exit : Option (Halt CopyError)}
    (done : α → Prop) (h : Wrote s w bytes (.error exit) s' w') :
    Copied s w bytes done (.error exit) s' w' := by
  match exit, h with
  | some (.error (.io _)), h =>
    obtain ⟨htroubled, n, hn, hmoved⟩ := h
    exact ⟨htroubled, n, hn, hmoved.transferred⟩

/-- A copy that fails within a first part never sees the rest. -/
theorem Copied.append {α β : Type} {bytes : List UInt8} {done : α → Prop}
    {exit : Option (Halt CopyError)} (rest : List UInt8) (done' : β → Prop)
    (h : Copied s w bytes done (.error exit) s' w') :
    Copied s w (bytes ++ rest) done' (.error exit) s' w' := by
  match exit, h with
  | some (.error (.io _)), h =>
    obtain ⟨htroubled, n, hn, hmoved⟩ := h
    refine ⟨htroubled, n, by rw [List.length_append]; omega, ?_⟩
    rwa [List.take_append_of_le_length hn]
  | some (.error (.limit facts)), h =>
    obtain ⟨hresource, remaining, hremaining, hshort, hmoved⟩ := h
    refine ⟨hresource, remaining, hremaining, by rw [List.length_append]; omega, ?_⟩
    rwa [List.take_append_of_le_length (Nat.le_of_lt hshort)]

theorem ensures_copyChunk {bound : Nat} {chunk : List UInt8} (hdeadline : s.budget.deadline = deadline)
    (hcopied : s.copied ≤ u64Max)
    (hbound : chunk.length + w.sink.interrupts < bound) :
    (copyChunk bound chunk).Ensures (Streaming deadline)
      (fun r s' w' => Copied s w chunk (fun _ => Moved s w chunk s' w') r s' w') s w := by
  have hnone : Transferred s w [] s { w with troubled := true } :=
    ⟨.zero s.budget, (List.append_nil _).symm, rfl⟩
  refine ensures_checkDeadline hdeadline ⟨rfl, 0, Nat.zero_le _, hnone⟩ (.get ?_)
  dsimp only
  have hpermitted : s.budget.permitted chunk.length ≤ chunk.length := permitted_le s.budget _
  generalize hn : s.budget.permitted chunk.length = n at hpermitted
  have hlength : (chunk.take n).length = n := List.length_take_of_le hpermitted
  have hcovered : ∀ remaining ∈ s.budget.remainingBytes, (chunk.take n).length ≤ remaining := by
    intro remaining hremaining
    rw [hlength, ← hn, permitted_eq _ hremaining]
    exact Nat.min_le_left _ _
  refine .bind _ (ensures_writeAll hdeadline hcopied hcovered (by rw [hlength]; omega)) ?_ ?_
  · rintro ⟨⟩ s' w' (hmoved : Moved s w (chunk.take n) s' w')
    by_cases hshort : n < chunk.length
    · rw [if_pos hshort]
      -- only a budget can hold a part of the chunk back, and then it is used up
      cases hremaining : s.budget.remainingBytes with
      | none =>
        rw [permitted_none _ hremaining] at hn
        omega
      | some remaining =>
        rw [permitted_eq _ hremaining] at hn
        obtain rfl : n = remaining := by omega
        have hzero : s'.budget.remainingBytes = some 0 := by
          rw [hmoved.charged.remaining, hremaining, hlength]
          exact congrArg some (Nat.sub_self n)
        obtain ⟨facts, herror, hresource⟩ :=
          copiedBytesExhausted_eq hzero (Nat.sub_pos_of_lt hshort)
        refine .get ?_
        rw [herror]
        exact .exit ⟨hresource, n, hremaining, hshort, hmoved.transferred⟩
    · rw [if_neg hshort]
      rw [List.take_of_length_le (Nat.le_of_not_lt hshort)] at hmoved
      exact .pure ⟨hmoved, hmoved.transferred⟩
  · intro error s' w' hwrote
    have hpart := hwrote.copied fun _ : Unit => Moved s w chunk s' w'
    have hall := hpart.append (chunk.drop n) fun _ : Unit => Moved s w chunk s' w'
    rwa [List.take_append_drop] at hall

theorem ensures_copyChunks {writes bound : Nat} (hdeadline : s.budget.deadline = deadline)
    (hcopied : s.copied ≤ u64Max)
    (hwrites : w.source.unread.length + w.sink.interrupts < writes)
    (hbound : w.source.unread.length + w.source.interrupts < bound) :
    (copyChunks writes bound).Ensures (Streaming deadline)
      (Copied s w w.source.unread (· = saturatingAdd s.copied w.source.unread.length)) s w := by
  induction bound generalizing s w with
  | zero => omega
  | succ bound ih =>
    unfold copyChunks
    have hnone (w' : CopyStreams) (hreceived : w'.sink = w.sink)
        (hovercharged : w'.overcharged = w.overcharged) : Transferred s w [] s w' :=
      ⟨.zero s.budget, by rw [hreceived, List.append_nil], hovercharged⟩
    refine ensures_checkDeadline hdeadline ⟨rfl, 0, Nat.zero_le _, hnone _ rfl rfl⟩ (.get ?_)
    -- a read can always be answered, so the run does not get stuck
    obtain ⟨first, source, hreads⟩ :=
      w.source.exists_reads Transient (s.budget.readCapacity copyChunkSize)
    refine .ask_bind ⟨.ok first, _, source, hreads, rfl⟩ ?_
    rintro answer _ ⟨source', hreads', rfl⟩
    match answer, hreads' with
    | .error error, hreads' =>
      show Proc.Ensures _ _ (if error.kind = .interrupted then _ else _) _ _
      -- an interrupted read is repeated with the budget as it was
      by_cases hagain : error.kind = .interrupted
      · obtain ⟨hunread, hinterrupts⟩ := hreads'.again hagain
        rw [if_pos hagain]
        have hrest := ih (w := { w with
            source := source'
            troubled := w.troubled || fatalRead (.error error) }) hdeadline hcopied
          (by dsimp only; rw [hunread]; exact hwrites) (by dsimp only; rw [hunread]; omega)
        dsimp only at hrest
        rw [hunread] at hrest
        refine hrest.mono fun r s' w' h => ?_
        have hstart : Transferred s w [] s { w with
            source := source'
            troubled := w.troubled || fatalRead (.error error) } := hnone _ rfl rfl
        exact hstart.copied h fun a ha => ha
      · have htroubled : (w.troubled || fatalRead (.error error)) = true := by
          rw [show fatalRead (.error error) = true from decide_eq_true hagain, Bool.or_true]
        rw [if_neg hagain]
        exact .exit ⟨htroubled, 0, Nat.zero_le _, hnone _ rfl rfl⟩
    | .ok [], hreads' =>
      have hend := hreads'.end (readCapacity_pos s.budget)
      rw [hend]
      refine ensures_checkDeadline hdeadline ⟨rfl, 0, Nat.zero_le _, hnone _ rfl rfl⟩ ?_
      exact .get (.pure ⟨(saturatingAdd_zero hcopied).symm, hnone _ rfl rfl⟩)
    | .ok (byte :: rest), hreads' =>
      obtain ⟨hunread, hinterrupts, -⟩ := hreads'.more
      have hsum : w.source.unread.length = (byte :: rest).length + source'.unread.length := by
        rw [hunread, List.length_append]
      show Proc.Ensures _ _ (copyChunk writes (byte :: rest) >>= fun _ => copyChunks writes bound) _ _
      have hpos : 0 < (byte :: rest).length := Nat.succ_pos _
      have hstart : Transferred s w [] s { w with
          source := source'
          troubled := w.troubled || fatalRead (.ok (byte :: rest)) } := hnone _ rfl rfl
      -- from here on the chunk counts only as a whole
      generalize byte :: rest = chunk at hunread hsum hpos hstart
      refine .bind _ (ensures_copyChunk hdeadline hcopied (by dsimp only; omega)) ?_ ?_
      · rintro ⟨⟩ s₁ w₁ ⟨hmoved, -⟩
        have hsource : w₁.source = source' := hmoved.source
        have hsink : w₁.sink.interrupts ≤ w.sink.interrupts := hmoved.interrupts
        have hrest := ih (s := s₁) (w := w₁) (hmoved.charged.deadline.trans hdeadline)
          hmoved.copied_le (by rw [hsource]; omega) (by rw [hsource]; omega)
        rw [hsource] at hrest
        refine hrest.mono fun r s' w' h => ?_
        rw [hunread]
        refine hstart.copied (hmoved.transferred.copied h fun n hn => hn) fun n hn => ?_
        rw [hn, hmoved.copied, saturatingAdd_add, List.length_append]
      · intro error s₁ w₁ h
        rw [hunread]
        exact hstart.copied (h.append source'.unread _) fun n hn => hn

/-! ## 6. The copy is exact -/

/-- A run of `copy_with_now` over the streams `w`. -/
def Run (budget : CopyBudget) (bound : Nat) (w : CopyStreams)
    (tr : List (Event (CopyLocals × CopyCall) fun c => c.2.Result))
    (result : Except (Option (Halt CopyError)) Nat) (after : CopyLocals) (w' : CopyStreams) : Prop :=
  (copyWithNow bound { budget := budget }).RunsIn (fun w c => Streaming budget.deadline w c.2) w tr
    w' (result, after)

/-- What the result of the copy of `bytes` says about the bytes received and charged. -/
structure Exact (budget : CopyBudget) (bytes : List UInt8) (w : CopyStreams)
    (result : Except (Option (Halt CopyError)) Nat) (after : CopyBudget) (w' : CopyStreams) :
    Prop where
  ok : ∀ n, result = .ok n → n = min bytes.length u64Max ∧
    w'.sink.received = w.sink.received ++ bytes ∧ Charged budget after bytes.length
  limit : ∀ facts, result = .error (some (.error (.limit facts))) →
    facts.resource = .copiedBytes ∧ ∃ remaining, budget.remainingBytes = some remaining ∧
      remaining < bytes.length ∧ after.remainingBytes = some 0 ∧
      w'.sink.received = w.sink.received ++ bytes.take remaining
  io : ∀ error, result = .error (some (.error (.io error))) → w'.troubled = true ∧
    ∃ n ≤ bytes.length, w'.sink.received = w.sink.received ++ bytes.take n ∧
      Charged budget after n
  noPanic : ∀ message, result ≠ .error (some (.panic message))
  returns : result ≠ .error none
  charges : w'.overcharged = w.overcharged
  accepts : (∀ remaining ∈ budget.remainingBytes, bytes.length ≤ remaining) →
    w'.troubled = false → ∃ n, result = .ok n

theorem Copied.exact {budget : CopyBudget} {bytes : List UInt8} {done : Nat → Prop}
    {r : Except (Option (Halt CopyError)) Nat} (h : Copied { budget := budget } w bytes done r s' w')
    (hdone : ∀ n, done n → n = min bytes.length u64Max) :
    Exact budget bytes w r s'.budget w' := by
  match r, h with
  | .ok n, ⟨hn, hall⟩ =>
    refine ⟨?_, nofun, nofun, nofun, nofun, hall.overcharged, fun _ _ => ⟨n, rfl⟩⟩
    rintro _ ⟨⟩
    exact ⟨hdone n hn, hall.received, hall.charged⟩
  | .error (some (.error (.io _))), ⟨htroubled, n, hn, hpart⟩ =>
    have hlength : (bytes.take n).length = n := List.length_take_of_le hn
    refine ⟨nofun, nofun, ?_, nofun, nofun, hpart.overcharged, fun _ hquiet => ?_⟩
    · rintro _ ⟨⟩
      have hcharged := hpart.charged
      rw [hlength] at hcharged
      exact ⟨htroubled, n, hn, hpart.received, hcharged⟩
    · rw [htroubled] at hquiet
      cases hquiet
  | .error (some (.error (.limit facts))), ⟨hresource, remaining, hremaining, hshort, hpart⟩ =>
    refine ⟨nofun, ?_, nofun, nofun, nofun, hpart.overcharged, fun hcovered => ?_⟩
    · rintro _ ⟨⟩
      refine ⟨hresource, remaining, hremaining, hshort, ?_, hpart.received⟩
      rw [hpart.charged.remaining, List.length_take_of_le (Nat.le_of_lt hshort)]
      change CopyBudget.remainingBytes budget = some remaining at hremaining
      rw [hremaining]
      exact congrArg some (Nat.sub_self remaining)
    · exact absurd (hcovered remaining hremaining) (Nat.not_le_of_lt hshort)

theorem ensures_copyWithNow (budget : CopyBudget) {bound : Nat}
    (hbound : w.source.unread.length + w.source.interrupts + w.sink.interrupts < bound) :
    (copyWithNow bound).Ensures (Streaming budget.deadline)
      (fun r s' w' => Exact budget w.source.unread w r s'.budget w') { budget := budget } w := by
  have hchunks : (copyChunks bound bound).Ensures (Streaming budget.deadline)
      (Copied { budget := budget } w w.source.unread (· = saturatingAdd 0 w.source.unread.length))
      { budget := budget } w :=
    ensures_copyChunks rfl (Nat.zero_le _) (by omega) (by omega)
  refine hchunks.mono fun r s' w' h => ?_
  refine h.exact fun n hn => ?_
  rw [hn]
  exact congrArg (min · u64Max) (Nat.zero_add _)

theorem Run.exact {budget : CopyBudget} {bound : Nat} {after : CopyLocals}
    {tr : List (Event (CopyLocals × CopyCall) fun c => c.2.Result)}
    {result : Except (Option (Halt CopyError)) Nat} (h : Run budget bound w tr result after w')
    (hbound : w.source.unread.length + w.source.interrupts + w.sink.interrupts < bound) :
    Exact budget w.source.unread w result after.budget w' := by
  have hend := Prog.Ensures.runsIn (ensures_copyWithNow budget hbound) h
  exact hend

/-- Whatever the streams and the clock do, a run that is given enough attempts ends, and its
    result tells exactly which bytes were received and charged. -/
theorem copyWithNow_exact (budget : CopyBudget) (bound : Nat) (w : CopyStreams)
    (hbound : w.source.unread.length + w.source.interrupts + w.sink.interrupts < bound) :
    (∃ tr result after w', Run budget bound w tr result after w') ∧
    ∀ tr result after w', Run budget bound w tr result after w' →
      Exact budget w.source.unread w result after.budget w' := by
  constructor
  · obtain ⟨tr, w', ⟨result, after⟩, hrun⟩ :=
      Prog.Ensures.exists_run (ensures_copyWithNow budget hbound)
    exact ⟨tr, result, after, w', hrun⟩
  · intro tr result after w' hrun
    exact hrun.exact hbound

end Pipeline

section ThreeBytes

open scoped QubitBudget

/-! Two bytes fit the budget, the source has three. -/

def smallBudget : CopyBudget where
  bytes := some (.new .copiedBytes 2)
  deadline := none
  resource := by
    rintro _ ⟨⟩
    rfl
  inRange := by
    rintro _ ⟨⟩
    decide

def threeBytes : CopyStreams := { source := ⟨[1, 2, 3], 1⟩, sink := ⟨[], 1⟩ }

theorem copyWithNow_exact_threeBytes :
    (∃ tr result after w', Run smallBudget 6 threeBytes tr result after w') ∧
    ∀ tr result after w', Run smallBudget 6 threeBytes tr result after w' →
      Exact smallBudget [1, 2, 3] threeBytes result after.budget w' :=
  copyWithNow_exact smallBudget 6 threeBytes (by decide)

end ThreeBytes

/-! ## 7. A source that is too long to count -/

/-- Streams that cause no trouble, copied without a deadline. -/
def Calm (w : CopyStreams) (c : CopyCall) (answer : c.Result) (w' : CopyStreams) : Prop :=
  Streaming none w c answer w' ∧ w'.troubled = w.troubled

theorem calm_progress (w : CopyStreams) (c : CopyCall) : ∃ answer next, Calm w c answer next := by
  cases c with
  | now => exact ⟨(0 : Nat), _, rfl, Bool.or_false _⟩
  | read capacity =>
    obtain ⟨chunk, source, hreads⟩ := w.source.exists_reads Transient capacity
    exact ⟨.ok chunk, _, ⟨source, hreads, rfl⟩, Bool.or_false _⟩
  | write request =>
    obtain ⟨sink, haccepts⟩ := Sink.exists_accepts Transient request w.sink
    refine ⟨.ok request.length, _, ⟨sink, haccepts, rfl⟩, ?_⟩
    have hfine : fatalWrite request (.ok request.length) = false := by
      apply decide_eq_false
      rintro ⟨hzero, hsome⟩
      exact hsome (List.length_eq_zero_iff.mp hzero)
    show (w.troubled || fatalWrite request (.ok request.length)) = w.troubled
    rw [hfine, Bool.or_false]
  | charge fits => exact ⟨(), _, rfl, rfl⟩

def unlimited [QubitBudget] : CopyBudget where
  bytes := none
  deadline := none
  resource := nofun
  inRange := nofun

/-- Without a limit, calm streams are copied to the end. -/
theorem copyWithNow_calm [QubitBudget] (w : CopyStreams) (hcalm : w.troubled = false) :
    ∃ bound tr after w', Run unlimited bound w tr (.ok (min w.source.unread.length u64Max)) after
      w' := by
  have hensures := ensures_copyWithNow unlimited (Nat.lt_succ_self
    (w.source.unread.length + w.source.interrupts + w.sink.interrupts))
  have hrestricted := hensures.restrict (fun w c => calm_progress w c.2) fun _ _ _ _ h => h.1
  obtain ⟨tr, w', ⟨result, after⟩, hrun⟩ := hrestricted.exists_run
  have hquiet : w'.troubled = false := by
    have hstep (s : CopyStreams) (c : CopyLocals × CopyCall) (answer : c.2.Result)
        (s' : CopyStreams) (h : Calm s c.2 answer s') (hs : s.troubled = false) :
        s'.troubled = false := h.2.trans hs
    exact Prog.RunsIn.invariant hstep hrun hcalm
  have hexact := hrestricted.runsIn hrun
  obtain ⟨n, rfl⟩ := hexact.accepts nofun hquiet
  obtain rfl := (hexact.ok n rfl).1
  exact ⟨_, tr, after, w', hrun.mono fun _ _ _ _ h => h.1⟩

section Uncounted

open scoped QubitBudget

/-- The counter stops at its largest value, so the length of a longer source is not reported. -/
theorem copyWithNow_exact_not_length :
    ∃ bound tr n after w', Run unlimited bound
        { source := ⟨List.replicate (2 ^ 64) 0, 0⟩, sink := ⟨[], 0⟩ } tr (.ok n) after w' ∧
      n ≠ (List.replicate (2 ^ 64) (0 : UInt8)).length := by
  obtain ⟨bound, tr, after, w', hrun⟩ :=
    copyWithNow_calm { source := ⟨List.replicate (2 ^ 64) 0, 0⟩, sink := ⟨[], 0⟩ } rfl
  refine ⟨bound, tr, _, after, w', hrun, ?_⟩
  rw [List.length_replicate]
  decide

end Uncounted

end Copy

end LocalFiles
