import Mathlib.Logic.Function.Basic

/-!
# Directory — the entries of one directory

A directory maps names to files.  The operations are those of a file system that keeps links
apart from files: binding and unbinding a name, giving a file a second name, moving a file from
one name to another and exchanging two names.
-/

namespace LocalFiles

abbrev Directory (N I : Type) := N → Option I

namespace Directory

variable {N I : Type} [DecidableEq N] (d : Directory N I)

def bind (n : N) (i : I) : Directory N I := Function.update d n (some i)

def unbind (n : N) : Directory N I := Function.update d n none

def link (source destination : N) : Directory N I := Function.update d destination (d source)

/-- Moving a name over another link to the same file does nothing. -/
def rename [DecidableEq I] (source destination : N) : Directory N I :=
  if d source = d destination then d
  else Function.update (Function.update d destination (d source)) source none

def exchange (left right : N) : Directory N I :=
  Function.update (Function.update d left (d right)) right (d left)

/-- The two directories differ in the entry `n` at most. -/
def AgreeOff (n : N) (d d' : Directory N I) : Prop := ∀ m, m ≠ n → d' m = d m

variable {d} {n m : N}

@[simp] theorem bind_self {i : I} : d.bind n i n = some i := Function.update_self ..

@[simp] theorem bind_of_ne {i : I} (h : m ≠ n) : d.bind n i m = d m := Function.update_of_ne h ..

@[simp] theorem unbind_self : d.unbind n n = none := Function.update_self ..

@[simp] theorem unbind_of_ne (h : m ≠ n) : d.unbind n m = d m := Function.update_of_ne h ..

theorem rename_destination [DecidableEq I] (hne : n ≠ m) (h : d n ≠ d m) :
    d.rename n m m = d n := by
  unfold rename
  rw [if_neg h, Function.update_of_ne hne.symm, Function.update_self]

theorem rename_source [DecidableEq I] (h : d n ≠ d m) : d.rename n m n = none := by
  unfold rename
  rw [if_neg h, Function.update_self]

end Directory

end LocalFiles
