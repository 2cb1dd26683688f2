import Mathlib.Data.List.Basic

/-!
# Streams — readers and writers that make partial progress

A read gives any part of what is left, a write accepts any part of what it is offered, and both
may be interrupted.  Interruptions are counted, so that a loop that tries again comes to an end.
-/

namespace LocalFiles

variable {α ε : Type}

/-! ## 1. Sources -/

/-- What is left to read, and how many interruptions are still to come. -/
structure Source (α : Type) where
  unread : List α
  interrupts : Nat

/-- A read of at most `capacity` items; nothing read is the end, unless nothing was asked for.
    After an error that is not `transient` the source may be anywhere. -/
inductive Source.Reads (transient : ε → Prop) (capacity : Nat) :
    Source α → Except ε (List α) → Source α → Prop
  | chunk {first : α} {chunk rest : List α} {interrupts : Nat}
      (fits : (first :: chunk).length ≤ capacity) :
      Reads transient capacity ⟨first :: chunk ++ rest, interrupts⟩ (.ok (first :: chunk))
        ⟨rest, interrupts⟩
  | done {unread : List α} {interrupts : Nat} (nothing : unread = [] ∨ capacity = 0) :
      Reads transient capacity ⟨unread, interrupts⟩ (.ok []) ⟨unread, interrupts⟩
  | interrupted {unread : List α} {interrupts : Nat} {error : ε} (again : transient error) :
      Reads transient capacity ⟨unread, interrupts + 1⟩ (.error error) ⟨unread, interrupts⟩
  | failed {source source' : Source α} {error : ε} (fatal : ¬ transient error) :
      Reads transient capacity source (.error error) source'

variable {transient : ε → Prop} {capacity : Nat} {source source' : Source α}

/-- A source can always be read without an error. -/
theorem Source.exists_reads (transient : ε → Prop) (capacity : Nat) (source : Source α) :
    ∃ chunk source', source.Reads transient capacity (.ok chunk) source' := by
  obtain ⟨unread, interrupts⟩ := source
  cases unread with
  | nil => exact ⟨_, _, .done (.inl rfl)⟩
  | cons first rest =>
    by_cases hcapacity : capacity = 0
    · exact ⟨_, _, .done (.inr hcapacity)⟩
    · exact ⟨_, _, @Source.Reads.chunk α ε transient capacity first [] rest interrupts
        (Nat.pos_of_ne_zero hcapacity)⟩

theorem Source.Reads.end (h : source.Reads transient capacity (.ok []) source')
    (hcapacity : 0 < capacity) : source.unread = [] := by
  cases h with
  | done nothing => exact nothing.resolve_right (Nat.ne_of_gt hcapacity)

theorem Source.Reads.more {first : α} {chunk : List α}
    (h : source.Reads transient capacity (.ok (first :: chunk)) source') :
    source.unread = first :: chunk ++ source'.unread ∧ source'.interrupts = source.interrupts ∧
      (first :: chunk).length ≤ capacity := by
  cases h with
  | chunk fits => exact ⟨rfl, rfl, fits⟩

theorem Source.Reads.again {error : ε}
    (h : source.Reads transient capacity (.error error) source') (ht : transient error) :
    source'.unread = source.unread ∧ source.interrupts = source'.interrupts + 1 := by
  cases h with
  | interrupted => exact ⟨rfl, rfl⟩
  | failed hfatal => exact absurd ht hfatal

/-! ## 2. Sinks -/

/-- What has been written, and how many interruptions are still to come. -/
structure Sink (α : Type) where
  received : List α
  interrupts : Nat

/-- A write of `request`, of which the first `count` items are accepted; an error accepts none. -/
inductive Sink.Accepts (transient : ε → Prop) (request : List α) :
    Sink α → Except ε Nat → Sink α → Prop
  | part {received : List α} {interrupts count : Nat} (fits : count ≤ request.length) :
      Accepts transient request ⟨received, interrupts⟩ (.ok count)
        ⟨received ++ request.take count, interrupts⟩
  | interrupted {received : List α} {interrupts : Nat} {error : ε} (again : transient error) :
      Accepts transient request ⟨received, interrupts + 1⟩ (.error error) ⟨received, interrupts⟩
  | failed {sink : Sink α} {error : ε} (fatal : ¬ transient error) :
      Accepts transient request sink (.error error) sink

variable {request : List α} {sink sink' : Sink α}

/-- A sink can always accept all it is offered. -/
theorem Sink.exists_accepts (transient : ε → Prop) (request : List α) (sink : Sink α) :
    ∃ sink', sink.Accepts transient request (.ok request.length) sink' :=
  ⟨_, .part (Nat.le_refl _)⟩

theorem Sink.Accepts.accepted {count : Nat} (h : sink.Accepts transient request (.ok count) sink') :
    count ≤ request.length ∧ sink'.received = sink.received ++ request.take count ∧
      sink'.interrupts = sink.interrupts := by
  cases h with
  | part fits => exact ⟨fits, rfl, rfl⟩

theorem Sink.Accepts.again {error : ε} (h : sink.Accepts transient request (.error error) sink')
    (ht : transient error) :
    sink'.received = sink.received ∧ sink.interrupts = sink'.interrupts + 1 := by
  cases h with
  | interrupted => exact ⟨rfl, rfl⟩
  | failed hfatal => exact absurd ht hfatal

theorem Sink.Accepts.refused {error : ε} (h : sink.Accepts transient request (.error error) sink')
    (ht : ¬ transient error) : sink' = sink := by
  cases h with
  | interrupted hagain => exact absurd hagain ht
  | failed => rfl

theorem Sink.Accepts.interrupts_le {answer : Except ε Nat}
    (h : sink.Accepts transient request answer sink') : sink'.interrupts ≤ sink.interrupts := by
  cases h with
  | part => exact Nat.le_refl _
  | interrupted => exact Nat.le_succ _
  | failed => exact Nat.le_refl _

end LocalFiles
