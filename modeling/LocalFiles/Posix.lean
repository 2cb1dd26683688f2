import LocalFiles.Interaction
import LocalFiles.Directory
import LocalFiles.Types

/-!
# Posix — the native calls on one parent directory

The backends reach the file system through the calls listed here.  The calls that read or change
names are answered according to the directory, the `inert` ones leave it alone and may answer
anything.  Another process may change the directory before every call.
-/

namespace LocalFiles

open Interaction

/-! ## 1. Calls and answers -/

inductive Syscall (N I O : Type) where
  | stat (name : N)
  | openRead (name : N)
  | createExclusive (name : N)
  | rename (source destination : N)
  | renameNoReplace (source destination : N)
  | renameExchange (left right : N)
  | link (source destination : N)
  | unlink (name : N)
  | fileStat (file : I)
  | randomName
  | inert (o : O)
  deriving DecidableEq, Repr

/-- The status of a file: whether it is a regular file, and its identity. -/
structure Status (I : Type) where
  regular : Bool
  identity : I
  deriving DecidableEq, Repr

namespace Syscall

variable {N I O : Type}

def Result (P : O → Type) : Syscall N I O → Type
  | .stat _ => IoResult (Status I)
  | .openRead _ => IoResult I
  | .createExclusive _ => IoResult I
  | .rename _ _ => IoResult Unit
  | .renameNoReplace _ _ => IoResult Unit
  | .renameExchange _ _ => IoResult Unit
  | .link _ _ => IoResult Unit
  | .unlink _ => IoResult Unit
  | .fileStat _ => IoResult (Status I)
  | .randomName => IoResult N
  | .inert o => P o

/-- The calls that can change an entry of the directory. -/
def mutates : Syscall N I O → Bool
  | .createExclusive _ | .rename _ _ | .renameNoReplace _ _ | .renameExchange _ _ | .link _ _
  | .unlink _ => true
  | .stat _ | .openRead _ | .fileStat _ | .randomName | .inert _ => false

end Syscall

/-! ## 2. The environment -/

/-- What the runs are taken over: the name that other processes may also use, what they do to the
    directory between two calls, the types of the files, and the errors that a call may report
    although it took effect. -/
structure Posix (N I : Type) where
  target : N
  meddles : Directory N I → Directory N I → Prop
  regular : I → Bool
  late : IoError → Prop

namespace Posix

variable {N I O : Type} [DecidableEq N] [DecidableEq I] {P : O → Type} (w : Posix N I)

/-- A call that turns `d` into `next` where it is `enabled`; a failed call as a rule has no
    effect. -/
def Performs (d : Directory N I) (enabled : Prop) (next d' : Directory N I) :
    IoResult Unit → Prop
  | .ok () => enabled ∧ d' = next
  | .error e => d' = d ∨ w.late e ∧ enabled ∧ d' = next

def Effect (d : Directory N I) :
    (c : Syscall N I O) → c.Result P → Directory N I → Prop
  | .stat n, .ok status, d' => d' = d ∧ d n = some status.identity ∧
      status.regular = w.regular status.identity
  | .stat n, .error e, d' => d' = d ∧ (e.kind = .notFound → d n = none)
  | .openRead n, .ok i, d' => d' = d ∧ d n = some i
  | .openRead _, .error _, d' => d' = d
  | .createExclusive n, .ok i, d' =>
      d n = none ∧ (∀ m, d m ≠ some i) ∧ w.regular i = true ∧ d' = d.bind n i
  | .createExclusive _, .error _, d' => d' = d
  | .rename a b, answer, d' => w.Performs d (d a).isSome (d.rename a b) d' answer
  | .renameNoReplace a b, answer, d' =>
      w.Performs d ((d a).isSome ∧ d b = none) (d.rename a b) d' answer
  | .renameExchange a b, answer, d' =>
      w.Performs d ((d a).isSome ∧ (d b).isSome) (d.exchange a b) d' answer
  | .link a b, answer, d' => w.Performs d ((d a).isSome ∧ d b = none) (d.link a b) d' answer
  | .unlink n, answer, d' => w.Performs d (d n).isSome (d.unbind n) d' answer ∧
      ∀ e, answer = .error e → e.kind = .notFound → d n = none
  | .fileStat f, .ok status, d' => d' = d ∧ status = ⟨w.regular f, f⟩
  | .fileStat _, .error _, d' => d' = d
  | .randomName, .ok n, d' => d' = d ∧ n ≠ w.target
  | .randomName, .error _, d' => d' = d
  | .inert _, _, d' => d' = d

/-- One answered call, after whatever the other processes did. -/
def Step (d : Directory N I) (c : Syscall N I O) (answer : c.Result P) (d' : Directory N I) :
    Prop :=
  ∃ met, w.meddles d met ∧ w.Effect met c answer d'

variable {w} {d d' : Directory N I}

omit [DecidableEq N] [DecidableEq I] in
theorem Performs.cases {enabled : Prop} {next : Directory N I} {answer : IoResult Unit}
    (h : w.Performs d enabled next d' answer) : d' = d ∨ enabled ∧ d' = next := by
  cases answer with
  | ok _ => exact .inr h
  | error e =>
    obtain h | ⟨-, h⟩ := h
    · exact .inl h
    · exact .inr h

/-- A call that changes no name leaves the directory as the other processes made it. -/
theorem Effect.observes {c : Syscall N I O} {answer : c.Result P} (h : w.Effect d c answer d')
    (hc : c.mutates = false) : d' = d := by
  cases c with
  | stat n =>
    cases answer with
    | ok status => exact h.1
    | error e => exact h.1
  | openRead n =>
    cases answer with
    | ok i => exact h.1
    | error e => exact h
  | fileStat f =>
    cases answer with
    | ok status => exact h.1
    | error e => exact h
  | randomName =>
    cases answer with
    | ok n => exact h.1
    | error e => exact h
  | inert o => exact h
  | _ => cases hc

/-- The calls that cannot take a bound name away from its file, or give it another one. -/
def Spares (n : N) : Syscall N I O → Prop
  | .rename a b => a ≠ n ∧ b ≠ n
  | .renameExchange a b => a ≠ n ∧ b ≠ n
  | .renameNoReplace a _ => a ≠ n
  | .unlink a => a ≠ n
  | _ => True

omit [DecidableEq N] [DecidableEq I] in
theorem spares_of_observes {n : N} {c : Syscall N I O} (h : c.mutates = false) : Spares n c := by
  cases c with
  | rename a b => cases h
  | renameExchange a b => cases h
  | renameNoReplace a b => cases h
  | unlink a => cases h
  | _ => trivial

theorem rename_of_ne {n a b : N} (ha : a ≠ n) (hb : b ≠ n) : d.rename a b n = d n := by
  unfold Directory.rename
  split
  · rfl
  · rw [Function.update_of_ne ha.symm, Function.update_of_ne hb.symm]

/-- A bound name is kept by every call that spares it. -/
theorem Effect.keeps {c : Syscall N I O} {answer : c.Result P} {n : N} {i : I}
    (h : w.Effect d c answer d') (hc : Spares n c) (hn : d n = some i) : d' n = some i := by
  cases c with
  | createExclusive m =>
    cases answer with
    | error e => rw [h, hn]
    | ok file =>
      obtain ⟨hfree, -, -, rfl⟩ := h
      have hne : n ≠ m := by rintro rfl; rw [hn] at hfree; cases hfree
      rw [Directory.bind_of_ne hne, hn]
  | rename a b =>
    obtain rfl | ⟨-, rfl⟩ := Performs.cases h
    · exact hn
    · rw [rename_of_ne hc.1 hc.2, hn]
  | renameNoReplace a b =>
    obtain rfl | ⟨⟨-, hfree⟩, rfl⟩ := Performs.cases h
    · exact hn
    · have hne : b ≠ n := by rintro rfl; rw [hn] at hfree; cases hfree
      rw [rename_of_ne hc hne, hn]
  | renameExchange a b =>
    obtain rfl | ⟨-, rfl⟩ := Performs.cases h
    · exact hn
    · unfold Directory.exchange
      rw [Function.update_of_ne hc.2.symm, Function.update_of_ne hc.1.symm, hn]
  | link a b =>
    obtain rfl | ⟨⟨-, hfree⟩, rfl⟩ := Performs.cases h
    · exact hn
    · have hne : n ≠ b := by rintro rfl; rw [hn] at hfree; cases hfree
      unfold Directory.link
      rw [Function.update_of_ne hne, hn]
  | unlink a =>
    obtain rfl | ⟨-, rfl⟩ := Performs.cases h.1
    · exact hn
    · rw [Directory.unbind_of_ne (Ne.symm hc), hn]
  | _ => rw [h.observes rfl, hn]

end Posix

end LocalFiles
