import LocalFiles.Private.World
import LocalFiles.Staged.Write

/-!
# Staged.Stage — the directory, the files and the input of a new file

The environment in which `write_file_new` runs: the names that `Private.World` knows, the bytes of
every file, the input that is left, and the interruptions that are still to come.  Nobody else
changes the directory; a call that fails does nothing, apart from the errors that are reported late.
-/

namespace LocalFiles.Staged

open Interaction Atomic
open Copy (Transient)
open Private (EntryWorld EntryCall OwningError TempResult)

variable {I : Type} [DecidableEq I]

/-! ## 1. The state -/

structure StageWorld (I : Type) where
  entry : EntryWorld I
  contents : I → List UInt8
  source : Source UInt8
  interrupts : Nat

namespace StageWorld

variable (w : StageWorld I) (parent : I)

/-- The names in the directory that contains the new file. -/
def names : Directory String I := w.entry.entries parent

def withNames (names : Directory String I) : StageWorld I :=
  { w with entry := { w.entry with entries := Function.update w.entry.entries parent names } }

def withContents (file : I) (bytes : List UInt8) : StageWorld I :=
  { w with contents := Function.update w.contents file bytes }

@[simp] theorem names_withNames (names : Directory String I) :
    (w.withNames parent names).names parent = names := Function.update_self ..

@[simp] theorem contents_withNames (names : Directory String I) :
    (w.withNames parent names).contents = w.contents := rfl

@[simp] theorem source_withNames (names : Directory String I) :
    (w.withNames parent names).source = w.source := rfl

@[simp] theorem interrupts_withNames (names : Directory String I) :
    (w.withNames parent names).interrupts = w.interrupts := rfl

end StageWorld

/-! ## 2. The calls -/

/-- What the runs are taken over: the directory, the name, and the late errors. -/
structure Slot (I : Type) where
  parent : I
  name : String
  late : IoError → Prop

variable (slot : Slot I)

/-- The calls of the writer see the directory as it is. -/
def Slot.posix (w : StageWorld I) : Posix String I where
  target := slot.name
  meddles d d' := d' = d
  regular file := w.entry.kind file = .file
  late := slot.late

/-- The bytes that are offered go to the end of the file. -/
def Writes (w : StageWorld I) (file : I) (bytes : List UInt8) (answer : IoResult Nat)
    (w' : StageWorld I) : Prop :=
  ∃ sink, (Sink.mk (w.contents file) w.interrupts).Accepts Transient bytes answer sink ∧
    w' = { w.withContents file sink.received with interrupts := sink.interrupts }

def WriterEffect (w : StageWorld I) : (c : Syscall String I (AtomicCall I)) →
    Syscall.Result AtomicCall.Result c → StageWorld I → Prop
  | .inert (.write file bytes), answer, w' => Writes w file bytes answer w'
  | .inert (.writeVectored file buffers), answer, w' => Writes w file buffers.flatten answer w'
  | .createExclusive name, .ok file, w' => w.names slot.parent name = none ∧
      (∀ other, w.names slot.parent other ≠ some file) ∧ w.entry.kind file = .file ∧
      w' = (w.withNames slot.parent ((w.names slot.parent).bind name file)).withContents file []
  | c, answer, w' => ∃ names, (slot.posix w).Effect (w.names slot.parent) c answer names ∧
      w' = w.withNames slot.parent names

/-- A file that is created is empty. -/
def contentsAfter (contents : I → List UInt8) : (c : EntryCall I) → c.Result → I → List UInt8
  | .createFile _ _ _, .ok file => Function.update contents file []
  | .createFilePath _ _, .ok file => Function.update contents file []
  | _, _ => contents

def EntryEffect (w : StageWorld I) (c : EntryCall I) (answer : c.Result) (w' : StageWorld I) :
    Prop :=
  ∃ entry, Private.Effect slot.parent w.entry c answer entry ∧
    w' = { w with entry := entry, contents := contentsAfter w.contents c answer }

def StageEffect (w : StageWorld I) : (c : StageCall I) → c.Result → StageWorld I → Prop
  | .read capacity, answer, w' => ∃ source, w.source.Reads Transient capacity answer source ∧
      w' = { w with source := source }
  | .writer c, answer, w' => WriterEffect slot w c answer w'
  | .entry c, answer, w' => EntryEffect slot w c answer w'
  | .step _, _, w' => w' = w
  | .observeEntry, .error _, w' => w' = w
  | .observeEntry, .ok observation, w' => w' = w ∧ ∃ file,
      w.names slot.parent slot.name = some file ∧ observation.identity = some file

/-! ## 3. How a new file is settled -/

section Settled

variable {α : Type} (w w' : StageWorld I)

/-- What the name led to is still there, with the same bytes. -/
def Spared : Prop := ∀ file, w.names slot.parent slot.name = some file →
  w'.names slot.parent slot.name = some file ∧ w'.contents file = w.contents file

/-- The name was free and leads to a file with the whole input, which is not too long. -/
structure Complete (maximum : UInt64) (file : I) : Prop where
  free : w.names slot.parent slot.name = none
  name : w'.names slot.parent slot.name = some file
  contents : w'.contents file = w.source.unread
  fits : w.source.unread.length ≤ maximum.toNat

/-- The name leads to a new file that the error hands over: its removal has failed, or it was
    refused right after its creation, before anything was read. -/
def HandedOver (error : OwningError I) : Prop :=
  w.names slot.parent slot.name = none ∧ ∃ file identity owner,
    w'.names slot.parent slot.name = some file ∧ error.recovery = some owner ∧
    owner.entries = [⟨slot.parent, slot.name, some file, identity, false⟩] ∧
    (error.cleanupErrors ≠ [] ∨ w'.contents file = [] ∧ w'.source = w.source)

/-- How a run ends that started in `w`; only an `exclusive` route hands a file over. -/
structure Finishes (maximum : UInt64) (exclusive : Prop) (done : α → StageWorld I → Prop)
    (r : TempResult I α) : Prop where
  spared : Spared slot w w'
  settled : match r with
    | .ok a => done a w'
    | .error (.failed error) => w'.names slot.parent slot.name = w.names slot.parent slot.name ∨
        (∃ file, Complete slot w w' maximum file) ∨ exclusive ∧ HandedOver slot w w' error
    | .error (.panicked _) => False
    | .error .unfinished => True

end Settled

/-! ## 4. Runs without failures -/

/-- Only an interruption is allowed, and a write that accepts something. -/
def SmoothWrite (bytes : List UInt8) : IoResult Nat → Prop
  | .ok count => bytes ≠ [] → count ≠ 0
  | .error error => Transient error

/-- A free name is no failure, and a random name is new. -/
def SmoothWriter (w : StageWorld I) : (c : Syscall String I (AtomicCall I)) →
    Syscall.Result AtomicCall.Result c → Prop
  | .inert o, answer => match o, answer with
    | .write _ bytes, answer => SmoothWrite bytes answer
    | .writeVectored _ buffers, answer => SmoothWrite buffers.flatten answer
    | .isSymlink _, _ => True
    | .panic _, answer => answer.elim
    | .flush _, answer | .syncFile _, answer | .syncParent, answer | .syncDirectory _, answer
    | .prepareParent, answer | .preserveMetadata _ _, answer | .setPermissions _, answer
    | .clearNonblocking _, answer | .representable _, answer => Except.isOk answer = true
  | .stat _, answer => ∀ error, answer = .error error → error.kind = .notFound
  | .randomName, answer => ∃ name, answer = .ok name ∧ w.names slot.parent name = none
  | .openRead _, answer | .createExclusive _, answer | .rename _ _, answer
  | .renameNoReplace _ _, answer | .renameExchange _ _, answer | .link _ _, answer
  | .unlink _, answer | .fileStat _, answer => Except.isOk answer = true

/-- Owner, mode and attributes of the new file are as they should be. -/
def SmoothEntry (fits : Nat → Prop) : (c : EntryCall I) → c.Result → Prop
  | .metadata _, answer => ∃ metadata, answer = .ok metadata ∧ metadata.owned = true ∧ fits metadata.mode
  | .fileStat _, answer => ∃ stat, answer = .ok stat ∧ stat.timesValid = true
  | .hasAcl _ _, answer => answer = .ok false
  | .clone _, answer | .nameStat _ _, answer | .createFile _ _ _, answer
  | .makeDirectory _ _ _, answer | .openDirectory _ _, answer | .changeMode _ _, answer
  | .unlink _ _ _, answer | .prepareParent, answer | .openPath _, answer
  | .createFilePath _ _, answer | .makeDirectoryPath _ _, answer | .pathMetadata _, answer
  | .randomName, answer => Except.isOk answer = true

def Smooth (fits : Nat → Prop) (w : StageWorld I) : (c : StageCall I) → c.Result → Prop
  | .read _, answer => ∀ error, answer = .error error → Transient error
  | .writer c, answer => SmoothWriter slot w c answer
  | .entry c, answer => SmoothEntry fits c answer
  | .step _, answer => answer = .ok ()
  | .observeEntry, answer => Except.isOk answer = true

/-- Nothing fails before more than `maximum` bytes of an input of this length were read. -/
def SmoothUntil (fits : Nat → Prop) (length maximum : Nat) (w : StageWorld I) (c : StageCall I)
    (answer : c.Result) (w' : StageWorld I) : Prop :=
  StageEffect slot w c answer w' ∧
    (length ≤ w.source.unread.length + maximum → Smooth slot fits w c answer)

end LocalFiles.Staged
