import LocalFiles.TreeCopy.Host
import LocalFiles.TreeCopy.Ledger

/-!
# HostLedger — the copy over native paths reports what it did

Every run of the pipeline is compared with what an observer of its native calls knows, whatever
the environment answers.  A failure may call a destination unchanged only if no call changed it, and
published in part only if one did, with one exception each: a name that is taken again between its
removal and its creation, and a directory that is gone before the copy removes it.
-/

namespace LocalFiles.TreeCopy.Host

open Interaction Walk Observer

section Honesty

variable {H α : Type}

/-! ## 1. The observer -/

/-- An error of such a call says that nothing was done. -/
def doneOr (otherwise : IoError → DestinationEffect) : IoResult Unit → DestinationEffect
  | .ok () => .applied
  | .error error => otherwise error

/-- A deletion reports its effect by itself. -/
def deletionEffect : Except LocalFileError Unit → DestinationEffect
  | .ok () => .applied
  | .error error =>
    match error.effectState with
    | some .unchanged => .none
    | some .partiallyApplied | some .applied => .applied
    | some .indeterminate | none => .unknown

/-- A rename that finds its name taken has done nothing; another failure leaves it open. -/
def refusal (error : IoError) : DestinationEffect :=
  if error.kind = .alreadyExists then .none else .unknown

def effect : (c : HostCall H) → c.Result → DestinationEffect
  | .createPrivateDir _, answer => doneOr (fun _ => .none) answer
  | .createSymlink _ _ _, answer => doneOr (fun _ => .none) answer
  | .removeFile _, answer => doneOr (fun _ => .none) answer
  | .removeDirectorySymlink _, answer => doneOr (fun _ => .none) answer
  | .deleteDirectory _ _ _, answer => deletionEffect answer
  | .moveWithoutReplacing _ _, answer => doneOr refusal answer
  | .replaceFile _ _, answer => doneOr (fun _ => .unknown) answer
  | .setPermissions _ _, answer => doneOr (fun _ => .unknown) answer
  | _, _ => .none

/-- What an answer adds to the tally if it is a success. -/
def countOk (update : Tally → Tally) : IoResult Unit → Tally → Tally
  | .ok (), tally => update tally
  | .error _, tally => tally

def publish (tally : Tally) : Tally :=
  { tally with files := tally.files + 1, bytes := tally.bytes + tally.staged }

def stage : Except CopyError Nat → Tally → Tally
  | .ok copied, tally => { tally with staged := copied }
  | .error _, tally => tally

def count : (c : HostCall H) → c.Result → Tally → Tally
  | .createPrivateDir _, answer =>
    countOk (fun tally => { tally with directories := tally.directories + 1 }) answer
  | .createSymlink _ _ _, answer =>
    countOk (fun tally => { tally with files := tally.files + 1 }) answer
  | .copyContents _ _, answer => stage answer
  | .moveWithoutReplacing _ _, answer => countOk publish answer
  | .replaceFile _ _, answer => countOk publish answer
  | _, _ => id

def Unsynced : (c : HostCall H) → c.Result → Prop
  | .syncStaged _, answer => answer ≠ .ok ()
  | _, _ => False

def RemovedAt (path : Path) : (c : HostCall H) → c.Result → Prop
  | .removeFile p, answer => p = path ∧ answer = .ok ()
  | .removeDirectorySymlink p, answer => p = path ∧ answer = .ok ()
  | .deleteDirectory p _ _, answer => p = path ∧ answer = .ok ()
  | _, _ => False

theorem RemovedAt.effect {path : Path} {c : HostCall H} {answer : c.Result}
    (h : RemovedAt path c answer) : effect c answer = .applied := by
  cases c
  case removeFile =>
    obtain ⟨-, rfl⟩ := h
    rfl
  case removeDirectorySymlink =>
    obtain ⟨-, rfl⟩ := h
    rfl
  case deleteDirectory =>
    obtain ⟨-, rfl⟩ := h
    rfl
  all_goals exact h.elim

def Refused (answer : IoResult Unit) : Prop :=
  ∃ error, answer = .error error ∧ error.kind = .alreadyExists

/-- A creation finds its name taken. -/
def RefusedAt (path : Path) : (c : HostCall H) → c.Result → Prop
  | .createPrivateDir p, answer => p = path ∧ Refused answer
  | .moveWithoutReplacing _ p, answer => p = path ∧ Refused answer
  | _, _ => False

def ShowsDirectory (path : Path) : (c : HostCall H) → c.Result → Prop
  | .symlinkMetadata p, answer =>
    p = path ∧ ∃ metadata : CopyMetadata, answer = .ok metadata ∧ metadata.isRealDirectory
  | _, _ => False

def LacksDirectory (path : Path) : (c : HostCall H) → c.Result → Prop
  | .symlinkMetadata p, answer =>
    p = path ∧ ∀ metadata : CopyMetadata, answer = .ok metadata → ¬ metadata.isRealDirectory
  | _, _ => False

variable [QubitBudget]

abbrev HostPast (H : Type) := Past (HostCall H) HostCall.Result ActiveSources

def observer : Observer (HostCall H) HostCall.Result ActiveSources where
  effect := effect
  count := count
  unsynced := Unsynced
  concealed past := ∃ path, Later (RemovedAt path) (RefusedAt path) past
  vanished past := ∃ path, Later (ShowsDirectory path) (LacksDirectory path) past
  count_unapplied c answer tally h := by
    cases c
    case copyContents =>
      cases answer with
      | ok copied => exact ⟨copied, rfl⟩
      | error error => exact ⟨tally.staged, rfl⟩
    case createPrivateDir =>
      cases answer with
      | ok done => exact absurd rfl h
      | error error => exact ⟨tally.staged, rfl⟩
    case createSymlink =>
      cases answer with
      | ok done => exact absurd rfl h
      | error error => exact ⟨tally.staged, rfl⟩
    case moveWithoutReplacing =>
      cases answer with
      | ok done => exact absurd rfl h
      | error error => exact ⟨tally.staged, rfl⟩
    case replaceFile =>
      cases answer with
      | ok done => exact absurd rfl h
      | error error => exact ⟨tally.staged, rfl⟩
    all_goals exact ⟨tally.staged, rfl⟩
  concealed_append past tr h := by
    obtain ⟨path, hlater⟩ := h
    exact ⟨path, hlater.append tr⟩
  vanished_append past tr h := by
    obtain ⟨path, hlater⟩ := h
    exact ⟨path, hlater.append tr⟩

abbrev Reports (pre : HostPast H → TreeLocals ActiveSources → Prop) (t : HostM H α)
    (post : α → HostPast H → TreeLocals ActiveSources → Prop) : Prop :=
  Observer.Reports observer pre t post

abbrev Sound (n : Nat) : HostPast H → TreeLocals ActiveSources → Prop := Observer.Sound observer n

abbrev Balanced (owed : Tally) : HostPast H → TreeLocals ActiveSources → Prop :=
  Observer.Balanced observer owed

/-! ## 2. Calls that change nothing -/

variable {P : HostPast H → TreeLocals ActiveSources → Prop} {n : Nat} {past : HostPast H}
  {s : TreeLocals ActiveSources}

/-- These calls read, or work on the staging file. -/
def Quiet : HostCall H → Prop
  | .createPrivateDir _ | .createSymlink _ _ _ | .copyContents _ _ | .moveWithoutReplacing _ _
  | .replaceFile _ _ | .removeFile _ | .removeDirectorySymlink _ | .deleteDirectory _ _ _
  | .setPermissions _ _ => False
  | _ => True

theorem Quiet.silent {c : HostCall H} (h : Quiet c) (answer : c.Result) :
    Observer.Silent observer c answer := by
  cases c <;> first | exact ⟨rfl, fun _ => rfl⟩ | exact h.elim

theorem reports_call {c : HostCall H} (hP : observer.Keeps P) (h : Quiet c) :
    Reports P (call c) fun _ => P :=
  reports_ask hP h.silent

theorem touched_of_removed {path : Path} (h : Happened (RemovedAt path) past) :
    observer.Touched past :=
  h.imp fun _ _ => RemovedAt.effect

/-- The name has been removed, or it was no directory any more. -/
structure Cleared (n : Nat) (path : Path) (past : HostPast H) (s : TreeLocals ActiveSources) :
    Prop where
  balanced : Balanced ⟨0, 0, 0, n⟩ past s
  gone : Happened (RemovedAt path) past ∨ observer.Explained past s ∧ observer.vanished past

/-- A failure that admits a change. -/
theorem Cleared.honest {path : Path} {failure : LocalCopyDirError} (h : Cleared n path past s)
    (hstats : failure.stats = s.stats) (hchanged : publicState failure ≠ .unchanged)
    (hstage : failure.stage ≠ .synchronizeFile) (hhint : failure.failureState ≠ some .published) :
    observer.Honest failure past := by
  refine h.balanced.honest hstats (.inr ⟨n, rfl⟩) (fun hstate => absurd hstate hchanged) ?_
    (fun heq => absurd heq hstage) (fun heq => absurd heq hhint)
  intro _
  obtain hremoved | ⟨-, hvanished⟩ := h.gone
  · exact .inl (touched_of_removed hremoved)
  · exact .inr hvanished

/-- What a hint about the destination rests on. -/
structure Hinted (n : Nat) (hint : Option LocalCopyFailureState) (past : HostPast H)
    (s : TreeLocals ActiveSources) : Prop where
  balanced : Balanced ⟨0, 0, 0, n⟩ past s
  unchanged : hint = none ∨ hint = some .unchanged → observer.Explained past s
  partially : hint = some .partiallyPublished → observer.Touched past
  published : hint ≠ some .published

theorem Hinted.honest {failure : LocalCopyDirError} (h : Hinted n failure.failureState past s)
    (hstats : failure.stats = s.stats) (hstage : Plain failure.stage) :
    observer.Honest failure past := by
  refine h.balanced.honest hstats (.inr ⟨n, rfl⟩) ?_ ?_ (fun heq => absurd heq hstage.2)
    (fun heq => absurd heq h.published)
  · intro hstate
    exact (h.unchanged (publicState_unchanged hstate).2).unchanged hstats hstate
  · rintro (hhint | heq)
    · exact .inl (h.partially hhint)
    · exact absurd heq hstage.1

/-- What the removal of a leaf leaves behind. -/
structure Unlinked (n : Nat) (path : Path) (r : IoResult Unit) (past : HostPast H)
    (s : TreeLocals ActiveSources) : Prop where
  balanced : Balanced ⟨0, 0, 0, n⟩ past s
  gone : r = .ok () → Happened (RemovedAt path) past
  explained : ∀ error, r = .error error → observer.Explained past s

theorem Sound.unlinked {path : Path} {c : HostCall H} {answer : c.Result} {r : IoResult Unit}
    (h : Sound n past s) (hcount : ∀ tally, count c answer tally = tally)
    (hok : r = .ok () → RemovedAt path c answer)
    (herror : ∀ error, r = .error error → effect c answer = .none) :
    Unlinked n path r (past ++ [⟨(s, c), answer⟩]) s :=
  ⟨h.balanced.snoc fun tally htally => (hcount tally).trans (htally.symm.trans h.balanced.books),
    fun heq => happened_last (hok heq), fun error heq => h.explained.snoc (herror error heq)⟩

theorem reports_removeFile (dst : Path) :
    Reports (Sound n) (call (.removeFile dst) : HostM H _) (Unlinked n dst) := by
  refine .ask fun past s hs => ⟨trivial, fun answer _ => hs.unlinked (fun _ => rfl) ?_ ?_⟩
  · exact fun heq => ⟨rfl, heq⟩
  · rintro error rfl
    rfl

theorem reports_removeNonDirectory (target : CopyTarget) (metadata : CopyMetadata) (dst : Path) :
    Reports (Sound n) (removeNonDirectory target metadata dst : HostM H _) (Unlinked n dst) := by
  refine .ite (fun _ => ?_) fun _ => reports_removeFile dst
  refine .ask fun past s hs => ⟨trivial, fun answer _ => hs.unlinked (fun _ => rfl) ?_ ?_⟩
  · exact fun heq => ⟨rfl, heq⟩
  · rintro error rfl
    rfl

/-- The state after an attempt to clear the name, where the flag says that an entry was removed. -/
structure Left (n : Nat) (path : Path) (removed : Bool) (past : HostPast H)
    (s : TreeLocals ActiveSources) : Prop where
  balanced : Balanced ⟨0, 0, 0, n⟩ past s
  gone : removed = true → Happened (RemovedAt path) past
  explained : removed = false → observer.Explained past s

theorem Sound.left {path : Path} (h : Sound n past s) : Left n path false past s :=
  ⟨h.balanced, (fun heq => by cases heq), fun _ => h.explained⟩

theorem Left.sound {path : Path} (h : Left n path false past s) : Sound n past s :=
  ⟨h.balanced, h.explained rfl⟩

/-- A name that is taken again hides its removal. -/
theorem Left.refused {path : Path} {removed : Bool} {c : HostCall H} {answer : c.Result}
    (h : Left n path removed past s) (hrefused : RefusedAt path c answer)
    (hsilent : Observer.Silent observer c answer) :
    Sound n (past ++ [⟨(s, c), answer⟩]) s := by
  refine ⟨keeps_balanced _ past s c answer hsilent h.balanced, ?_⟩
  cases removed with
  | false => exact (h.explained rfl).snoc hsilent.effect
  | true => exact .inr (.inr ⟨path, (h.gone rfl).later hrefused⟩)

/-- Before the staging file is moved: the name is clear where a directory had to go. -/
structure Ready (n : Nat) (path : Path) (removes : Bool) (past : HostPast H)
    (s : TreeLocals ActiveSources) : Prop where
  cleared : removes = true → Cleared n path past s
  sound : removes = false → Sound n past s

theorem Ready.balanced {path : Path} {removes : Bool} (h : Ready n path removes past s) :
    Balanced ⟨0, 0, 0, n⟩ past s := by
  cases removes with
  | true => exact (h.cleared rfl).balanced
  | false => exact (h.sound rfl).balanced

theorem Ready.refused {path : Path} {removes : Bool} {c : HostCall H} {answer : c.Result}
    (h : Ready n path removes past s) (hrefused : RefusedAt path c answer)
    (hsilent : Observer.Silent observer c answer) :
    Sound n (past ++ [⟨(s, c), answer⟩]) s := by
  cases removes with
  | false => exact keeps_sound n past s c answer hsilent (h.sound rfl)
  | true =>
    have hcleared := h.cleared rfl
    refine ⟨keeps_balanced _ past s c answer hsilent hcleared.balanced, ?_⟩
    obtain hremoved | ⟨hexplained, -⟩ := hcleared.gone
    · exact .inr (.inr ⟨path, hremoved.later hrefused⟩)
    · exact hexplained.snoc hsilent.effect

/-- What the move of a staging file leaves behind. -/
def Committed (n : Nat) (conflict : LocalCopyConflictPolicy) (r : IoResult Unit)
    (past : HostPast H) (s : TreeLocals ActiveSources) : Prop :=
  (r = .ok () → Balanced ⟨1, 0, n, n⟩ past s) ∧
  ∀ error, r = .error error → Balanced ⟨0, 0, 0, n⟩ past s ∧
    (conflict = .skip → error.kind = .alreadyExists → Sound n past s)

/-- What is known once the result of the commit is: a published file is not counted yet. -/
def Installed (n : Nat) (committed : Bool) (past : HostPast H) (s : TreeLocals ActiveSources) :
    Prop :=
  (committed = true → Balanced ⟨1, 0, n, n⟩ past s) ∧ (committed = false → Sound n past s)

/-- The deadline of the commit knows whether a directory had to go. -/
theorem Ready.late {path src : Path} {removes : Bool} {error : CopyError} {staging : Path}
    {cleanup : Option IoError} (h : Ready n path removes past s) :
    observer.Honest (lateCommit removes ((copyDirError .commitFile src path s.stats
      error).withStagingContext staging cleanup)) past := by
  have hplain : Plain .commitFile := by decide
  cases removes with
  | true =>
    exact (h.cleared rfl).honest rfl (publicState_ne_unchanged_of_hint rfl (by decide))
      (fun heq => by cases heq) (fun heq => by cases heq)
  | false => exact (h.sound rfl).honest rfl hplain (.inl rfl)

/-- What is known of a destination that was looked at. -/
def Looked (n : Nat) (dst : Path) (metadata : Option CopyMetadata) (past : HostPast H)
    (s : TreeLocals ActiveSources) : Prop :=
  Sound n past s ∧ ∀ found, metadata = some found → found.isRealDirectory →
    Happened (ShowsDirectory dst) past

theorem settles {t : HostM H α} (h : Reports P t fun _ => Sound n) :
    Reports P t fun _ => observer.Settled :=
  h.weaken (fun _ _ hs => hs) (fun _ _ _ hs => hs.settled) fun _ _ _ hs => hs

end Honesty

section Racing

open scoped QubitBudget

/-! Both exceptions are real.  A file `d` is removed to make room for a directory, another process
makes the directory first, and then the source cannot be read. -/

def made : HostPast Nat → Bool
  | [] => false
  | ⟨(_, .createPrivateDir _), _⟩ :: _ => true
  | _ :: past => made past

def listed : HostPast Nat → Bool
  | [] => false
  | ⟨(_, .nextEntry _), _⟩ :: _ => true
  | _ :: past => listed past

end Racing

end LocalFiles.TreeCopy.Host
