import LocalFiles.Writer.Sessions
import LocalFiles.Atomic.Durability

/-!
# Writer.FileSessions — sessions with a file writer

Any operations in any order, commits through retained writers included, over a staging backend by
path or below a root, or over an appended file.
-/

namespace LocalFiles.Writer

open Interaction Atomic

/-! ## 1. Operations -/

inductive Operation where
  | write (buffer : List UInt8)
  | writeVectored (buffers : List (List UInt8))
  | writeIoSlices (reserved : IoResult Unit) (buffers : List (List UInt8))
  | flush
  | abort
  | commit

abbrev FileReport := Report (LocalFileError × LocalWriteFailureState)

section Sessions

variable {I : Type}

/-- A commit consumes the writer unless its error retains it. -/
def committed : Except (LocalFileCommitError I) LocalWriteOutcome →
    FileReport × Option (LocalFileWriter I)
  | .ok outcome => (.committed (.ok outcome), none)
  | .error ⟨error, state, writer⟩ => (.committed (.error (error, state)), writer)

/-- An operation with its report and the writer that it leaves. -/
def LocalFileWriter.perform [DecidableEq I] (system : UnixTarget) (w : LocalFileWriter I) :
    Operation → AtomicM I (FileReport × Option (LocalFileWriter I))
  | .write buffer => do
    let (result, w) ← w.writeOnce buffer
    pure (.stream result, some w)
  | .writeVectored buffers => do
    let (result, w) ← w.writeVectored buffers
    pure (.stream result, some w)
  | .writeIoSlices reserved buffers => do
    let (result, w) ← w.writeIoSlices reserved buffers
    pure (.stream result, some w)
  | .flush => do
    let (result, w) ← w.flush
    pure (.flushed result, some w)
  | .abort => do
    let (result, w) ← w.abort
    pure (.aborted result, some w)
  | .commit => do pure (committed (← w.commit system))

/-- The bytes that an answer accepts. -/
def acceptedBytes : (c : Syscall String I (AtomicCall I)) → c.Result AtomicCall.Result → Nat
  | .inert (.write _ _), .ok written => written
  | .inert (.writeVectored _ _), .ok written => written
  | _, _ => 0

def requestedBytes : Syscall String I (AtomicCall I) → Option Nat
  | .inert (.write _ bytes) => some bytes.length
  | .inert (.writeVectored _ buffers) => some buffers.flatten.length
  | _ => none

/-- `staging` is the staging name of the backend, which an append backend does not have. -/
def fileView (staging : Option String) :
    SessionView (Syscall String I (AtomicCall I)) (Syscall.Result AtomicCall.Result) where
  accepted ev := acceptedBytes ev.call ev.answer
  requested := requestedBytes
  cleansUp c := ∃ name, staging = some name ∧ (c = .stat name ∨ c = .unlink name)
  staged := staging.isSome

abbrev FileExchange (I : Type) :=
  Exchange Operation FileReport (Syscall String I (AtomicCall I)) (Syscall.Result AtomicCall.Result)

abbrev FileLifetime [DecidableEq I] (system : UnixTarget) (staging : Option String) (start : LocalFileWriter I) :=
  Lifetime (fun w op => LocalFileWriter.perform system w op) (fileView (I := I) staging).fair start

end Sessions

/-! ## 2. Backends -/

section Backends

variable {I : Type}

namespace LocalFileWriterBackend

/-- The handle that stream calls go to. -/
def handle? : LocalFileWriterBackend I → Option I
  | .staged writer => writer.stagedFile.file
  | .rooted writer => writer.stagedFile.file
  | .append file => some file

def staging? : LocalFileWriterBackend I → Option String
  | .staged writer => writer.stagedFile.name
  | .rooted writer => writer.stagedFile.name
  | .append _ => none

/-- The staging file is still to be published or removed. -/
def Armed (staging : Option String) : LocalFileWriterBackend I → Prop
  | .staged writer => staging.isSome ∧ writer.stagedFile.name = staging
  | .rooted writer => staging.isSome ∧ writer.stagedFile.name = staging
  | .append _ => staging = none

/-- Nothing is left to clean up. -/
def Released (staging : Option String) : LocalFileWriterBackend I → Prop
  | .staged writer => staging.isSome ∧ writer.stagedFile.name = none
  | .rooted writer => staging.isSome ∧ writer.stagedFile.name = none
  | .append _ => staging = none

variable {backend : LocalFileWriterBackend I} {file : I}

theorem handle_eq {scope : Scope} {staged : StagedFile I} (h : staged.file = some file) :
    staged.handle scope = pure file := by
  cases scope <;> simp only [StagedFile.handle, h, expectSome]

theorem write_eq (h : backend.handle? = some file) (buffer : List UInt8) :
    backend.write buffer = writeFile file buffer := by
  cases backend with
  | staged writer => simp only [write, UnixAtomicWriter.write, handle_eq h]; rfl
  | rooted writer => simp only [write, UnixAtomicWriter.write, handle_eq h]; rfl
  | append file => cases h; rfl

theorem writeVectored_eq (h : backend.handle? = some file) (buffers : List (List UInt8)) :
    backend.writeVectored buffers = writeFileVectored file buffers := by
  cases backend with
  | staged writer => simp only [writeVectored, UnixAtomicWriter.writeVectored, handle_eq h]; rfl
  | rooted writer => simp only [writeVectored, UnixAtomicWriter.writeVectored, handle_eq h]; rfl
  | append file => cases h; rfl

theorem flush_eq (h : backend.handle? = some file) : backend.flush = flushFile file := by
  cases backend with
  | staged writer => simp only [flush, UnixAtomicWriter.flush, handle_eq h]; rfl
  | rooted writer => simp only [flush, UnixAtomicWriter.flush, handle_eq h]; rfl
  | append file => cases h; rfl

end LocalFileWriterBackend

/-- A backend as the file systems open it. -/
inductive OpenedBackend : LocalFileWriterBackend I → Prop
  | staged {options : LocalAtomicWriteOptions} {path parent : Path} {name : String}
      {dirs : List Path} {attempts : Nat} {tr : AtomicTrace I} {writer : UnixAtomicWriter I}
      (hrun : (UnixAtomicWriter.new .host options false path parent name dirs attempts).Runs tr
        (some (.ok writer))) : OpenedBackend (.staged writer)
  | rooted {options : LocalAtomicWriteOptions} {deferDestinationCheck : Bool} {path parent : Path}
      {name : String} {dirs : List Path} {attempts : Nat} {tr : AtomicTrace I}
      {writer : UnixAtomicWriter I}
      (hrun : (UnixAtomicWriter.new .rooted options deferDestinationCheck path parent name dirs
        attempts).Runs tr (some (.ok writer))) : OpenedBackend (.rooted writer)
  | append (file : I) : OpenedBackend (.append file)

/-- A new staging guard has its name and its file. -/
theorem opened_guard {scope : Scope} {options : LocalAtomicWriteOptions}
    {deferDestinationCheck : Bool} {path parent : Path} {name : String} {dirs : List Path}
    {attempts : Nat} {tr : AtomicTrace I} {writer : UnixAtomicWriter I}
    (h : (UnixAtomicWriter.new scope options deferDestinationCheck path parent name dirs
      attempts).Runs tr (some (.ok writer))) :
    ∃ staging file, writer.stagedFile.name = some staging ∧ writer.stagedFile.file = some file := by
  obtain ⟨tr₁, tr₂, destination, rfl, -, hrest⟩ := Prog.runs_bind.mp h
  cases destination with
  | error error => cases hrest.2
  | ok destination =>
    obtain ⟨tr₃, tr₄, created, rfl, -, hstage⟩ := Prog.runs_bind.mp hrest
    match created with
    | none => cases hstage.2
    | some (.error error) => cases hstage.2
    | some (.ok (staging, file)) =>
      obtain ⟨tr₅, tr₆, staged, rfl, hguard, hend⟩ := Prog.runs_bind.mp hstage
      obtain ⟨rfl, heq⟩ := hend
      cases heq
      obtain ⟨tr₇, tr₈, status, rfl, -, hend⟩ := Prog.runs_bind.mp hguard
      obtain ⟨rfl, rfl⟩ := hend
      exact ⟨staging, file, rfl, rfl⟩

theorem OpenedBackend.armed {backend : LocalFileWriterBackend I} (h : OpenedBackend backend) :
    backend.Armed backend.staging? ∧ ∃ file, backend.handle? = some file := by
  cases h with
  | staged hrun =>
    obtain ⟨staging, file, hname, hfile⟩ := opened_guard hrun
    exact ⟨⟨by rw [LocalFileWriterBackend.staging?, hname]; rfl, rfl⟩, file, hfile⟩
  | rooted hrun =>
    obtain ⟨staging, file, hname, hfile⟩ := opened_guard hrun
    exact ⟨⟨by rw [LocalFileWriterBackend.staging?, hname]; rfl, rfl⟩, file, hfile⟩
  | append file => exact ⟨rfl, file, rfl⟩

end Backends

/-! ## 3. Staging guards -/

section Guards

variable {I α : Type}

/-- Neither a write of the stream nor a panic. -/
def Tame : Syscall String I (AtomicCall I) → Prop
  | .inert (.write _ _) => False
  | .inert (.writeVectored _ _) => False
  | .inert (.panic _) => False
  | _ => True

def TidiesUp (staging : String) (c : Syscall String I (AtomicCall I)) : Prop :=
  c = .stat staging ∨ c = .unlink staging

theorem TidiesUp.tame {staging : String} {c : Syscall String I (AtomicCall I)}
    (h : TidiesUp staging c) : Tame c := by
  rcases h with rfl | rfl <;> trivial

theorem tame_native {c : Syscall String I (AtomicCall I)} (h : Tame c) :
    (native c : AtomicM I (c.Result AtomicCall.Result)).Makes Tame :=
  ⟨h, fun _ => trivial⟩

variable {scope : Scope} {staged : StagedFile I} {staging : String}

theorem makes_remove : (staged.remove staging).Makes (TidiesUp staging) := by
  refine Prog.Makes.bind ⟨.inr rfl, fun _ => trivial⟩ fun answer => ?_
  cases answer <;> trivial

theorem remove_leaves {closed : StagedFile I} {tr : AtomicTrace I} {r : IoResult Unit × StagedFile I}
    (h : (closed.remove staging).Runs tr r) :
    r = (.ok (), { closed with name := none }) ∨ ∃ error, r = (.error error, closed) := by
  obtain ⟨answer, rest, rfl, hrest⟩ := h
  cases answer with
  | ok _ => exact .inl hrest.2
  | error error => exact .inr ⟨error, hrest.2⟩

variable [DecidableEq I]

/-- A cleanup calls nothing but a look at the staging name and its removal. -/
theorem makes_cleanup (hname : staged.name = some staging) :
    (scope.cleanup staged).Makes (TidiesUp staging) := by
  have hclosed : staged.close.name = some staging := hname
  cases scope with
  | host =>
    simp only [Scope.cleanup, StagedFile.cleanup, StagedFile.cleanupBy, hclosed]
    refine Prog.Makes.bind (Prog.Makes.bind ⟨.inl rfl, fun _ => trivial⟩ fun answer => ?_)
      fun identity => ?_
    · cases answer with
      | ok status => trivial
      | error error =>
        dsimp only
        split <;> trivial
    · cases identity with
      | error error => trivial
      | ok found =>
        cases found with
        | none => trivial
        | some current =>
          dsimp only
          split
          · trivial
          · exact makes_remove
  | rooted =>
    simp only [Scope.cleanup, RootedStagedFile.cleanup, hclosed]
    split
    · trivial
    · refine Prog.Makes.bind ⟨.inl rfl, fun _ => trivial⟩ fun answer => ?_
      cases answer with
      | error error =>
        dsimp only
        split <;> trivial
      | ok status =>
        dsimp only
        split
        · trivial
        · exact makes_remove

/-- What a cleanup leaves of the guard: it gives up its name, or keeps it with its error. -/
def CleanupLeaves (staged : StagedFile I) (r : IoResult Unit × StagedFile I) : Prop :=
  r = (.ok (), { staged.close with name := none }) ∨ ∃ error, r = (.error error, staged.close)

theorem cleanup_leaves (hname : staged.name = some staging) {tr : AtomicTrace I}
    {r : IoResult Unit × StagedFile I} (h : (scope.cleanup staged).Runs tr r) :
    CleanupLeaves staged r := by
  have hclosed : staged.close.name = some staging := hname
  cases scope with
  | host =>
    simp only [Scope.cleanup, StagedFile.cleanup, StagedFile.cleanupBy, hclosed] at h
    obtain ⟨tr₁, tr₂, identity, rfl, -, hrest⟩ := Prog.runs_bind.mp h
    cases identity with
    | error error => exact .inr ⟨error, hrest.2⟩
    | ok found =>
      cases found with
      | none => exact .inl hrest.2
      | some current =>
        dsimp only at hrest
        split at hrest
        · exact .inr ⟨_, hrest.2⟩
        · exact remove_leaves hrest
  | rooted =>
    simp only [Scope.cleanup, RootedStagedFile.cleanup, hclosed] at h
    split at h
    next => exact .inr ⟨_, h.2⟩
    next =>
      obtain ⟨answer, rest, rfl, hrest⟩ := h
      cases answer with
      | error error =>
        dsimp only [Prog.bind] at hrest
        split at hrest
        · exact .inl hrest.2
        · exact .inr ⟨error, hrest.2⟩
      | ok status =>
        dsimp only [Prog.bind] at hrest
        split at hrest
        · exact .inr ⟨_, hrest.2⟩
        · exact remove_leaves hrest

/-- Without a name there is nothing to clean up. -/
theorem cleanup_of_none (hname : staged.name = none) :
    scope.cleanup staged = pure (.ok (), staged.close) := by
  have hclosed : staged.close.name = none := hname
  cases scope with
  | host => simp only [Scope.cleanup, StagedFile.cleanup, StagedFile.cleanupBy, hclosed]
  | rooted => simp only [Scope.cleanup, RootedStagedFile.cleanup, hclosed]

theorem makes_drop (hname : staged.name = some staging) :
    (scope.drop staged).Makes (TidiesUp staging) :=
  Prog.Makes.bind (makes_cleanup hname) fun _ => trivial

theorem drop_of_none (hname : staged.name = none) : scope.drop staged = pure () := by
  rw [Scope.drop, cleanup_of_none hname]
  rfl

theorem tame_drop : (scope.drop staged).Makes Tame := by
  cases hname : staged.name with
  | none =>
    rw [drop_of_none hname]
    trivial
  | some staging => exact (makes_drop hname).mono fun _ hc => hc.tame

end Guards

/-! ## 4. Commits -/

section Commits

variable {I : Type} {scope : Scope} {w : UnixAtomicWriter I} {staging : String} {file : I}

theorem tame_of_looksAt {c : Syscall String I (AtomicCall I)} (h : looksAt c = true) : Tame c := by
  unfold looksAt at h
  split at h
  · trivial
  · trivial
  · trivial
  · split at h
    · trivial
    · trivial
    · trivial
    · cases h
  · cases h

theorem tame_of_looks {α : Type} {p : AtomicM I α} (h : Looks p) : p.Makes Tame :=
  Prog.Makes.mono h fun _ => tame_of_looksAt

theorem temporaryPath_eq {staged : StagedFile I} (hname : staged.name = some staging) :
    staged.temporaryPath scope = pure staged.diagnosticPath := by
  cases scope with
  | host =>
    simp only [StagedFile.temporaryPath, StagedFile.armedName, hname, expectSome]
    rfl
  | rooted => rfl

theorem tame_openDestinationForCommit (hname : w.stagedFile.name = some staging) :
    (w.openDestinationForCommit scope).Makes Tame := by
  unfold UnixAtomicWriter.openDestinationForCommit
  split
  · trivial
  · rw [temporaryPath_eq hname]
    refine Prog.Makes.bind trivial fun temporaryPath => ?_
    refine Prog.Makes.bind (tame_of_looks (looks_openAtomicDestination scope _ _ _))
      fun answer => ?_
    match answer with
    | .error error => trivial
    | .ok none => trivial
    | .ok (some destination) => trivial

theorem tame_applyDestinationMetadata (hname : w.stagedFile.name = some staging)
    (hfile : w.stagedFile.file = some file) (destination : Option (OpenedAtomicDestination I)) :
    (w.applyDestinationMetadata scope destination).Makes Tame := by
  unfold UnixAtomicWriter.applyDestinationMetadata
  rw [LocalFileWriterBackend.handle_eq hfile, temporaryPath_eq hname]
  split
  · trivial
  · refine Prog.Makes.bind trivial fun staging => ?_
    exact Prog.Makes.bind (tame_native trivial) fun _ => trivial

theorem tame_applyCopyPermissions (hfile : w.stagedFile.file = some file) :
    (w.applyCopyPermissions scope).Makes Tame := by
  unfold UnixAtomicWriter.applyCopyPermissions
  rw [LocalFileWriterBackend.handle_eq hfile]
  split
  · trivial
  · split
    · trivial
    · refine Prog.Makes.bind trivial fun staging => ?_
      exact Prog.Makes.bind (tame_native trivial) fun _ => trivial

theorem tame_syncTemporaryFile (hname : w.stagedFile.name = some staging)
    (hfile : w.stagedFile.file = some file) : (w.syncTemporaryFile scope).Makes Tame := by
  unfold UnixAtomicWriter.syncTemporaryFile synchronizeStagingFile
  rw [LocalFileWriterBackend.handle_eq hfile, temporaryPath_eq hname]
  refine Prog.Makes.bind trivial fun temporaryPath => Prog.Makes.bind trivial fun handle => ?_
  split
  · trivial
  · refine Prog.Makes.bind (tame_native trivial) fun answer => ?_
    cases answer <;> trivial
  · refine Prog.Makes.bind (tame_native trivial) fun answer => ?_
    cases answer <;> trivial

theorem tame_syncParentChain (dirs : List Path) :
    (syncParentChain dirs : AtomicM I (IoResult Unit)).Makes Tame := by
  have hdirs (dirs : List Path) :
      (syncDirectories dirs : AtomicM I (IoResult Unit)).Makes Tame := by
    induction dirs with
    | nil => trivial
    | cons directory rest ih => exact Prog.Makes.andThen (tame_native trivial) fun _ => ih
  exact Prog.Makes.andThen (tame_native trivial) fun _ => hdirs _

theorem tame_syncAsRequired (durability : LocalDurabilityRequirement) (dirs : List Path)
    (failure : IoError → LocalAtomicWriteError) :
    (UnixAtomicWriter.syncAsRequired durability (syncParentChain dirs) failure :
      AtomicM I _).Makes Tame := by
  cases durability with
  | notRequired => trivial
  | preferred =>
    refine Prog.Makes.bind (tame_syncParentChain dirs) fun answer => ?_
    cases answer <;> trivial
  | required =>
    refine Prog.Makes.bind (tame_syncParentChain dirs) fun answer => ?_
    cases answer <;> trivial

theorem tame_linkThenUnlink (source destination : String) :
    (linkThenUnlink source destination : AtomicM I _).Makes Tame := by
  have hunlink (more : Nat) :
      (unlinkAttempts source more : AtomicM I (IoResult Unit)).Makes Tame := by
    induction more with
    | zero =>
      refine Prog.Makes.bind (tame_native trivial) fun answer => ?_
      cases answer with
      | ok _ => trivial
      | error error =>
        dsimp only
        split <;> trivial
    | succ more ih =>
      refine Prog.Makes.bind (tame_native trivial) fun answer => ?_
      cases answer with
      | ok _ => trivial
      | error error =>
        dsimp only
        split
        · trivial
        · exact ih
  refine Prog.Makes.bind (tame_native trivial) fun answer => ?_
  cases answer with
  | error error => trivial
  | ok _ =>
    refine Prog.Makes.bind (hunlink _) fun answer => ?_
    cases answer <;> trivial

theorem tame_installNewAtomicFileAt (system : UnixTarget) (source destination : String) :
    (installNewAtomicFileAt system source destination : AtomicM I _).Makes Tame := by
  cases system with
  | linux =>
    refine Prog.Makes.bind (tame_native trivial) fun answer => ?_
    cases answer with
    | ok _ => trivial
    | error error =>
      dsimp only
      split
      · exact tame_linkThenUnlink source destination
      · trivial
  | macos =>
    refine Prog.Makes.bind (tame_native trivial) fun answer => ?_
    cases answer <;> trivial
  | freebsd => exact tame_linkThenUnlink source destination
  | other => trivial

theorem tame_install (system : UnixTarget) (source destination : String) (existed : Bool) :
    (scope.install system source destination existed : AtomicM I _).Makes Tame := by
  have hreplace : (replaceExisting source destination : AtomicM I _).Makes Tame := by
    refine Prog.Makes.bind (tame_native trivial) fun answer => ?_
    cases answer <;> trivial
  cases scope with
  | host =>
    simp only [Scope.install, installAtomicFile]
    split
    · exact hreplace
    · unfold installNewAtomicFile
      split
      · trivial
      · trivial
      · exact tame_installNewAtomicFileAt system _ _
  | rooted =>
    simp only [Scope.install, installRootedAtomicFile]
    split
    · exact hreplace
    · exact tame_installNewAtomicFileAt system _ _

variable [DecidableEq I]

theorem tame_recover {context : AtomicInstallRecovery} {staged : StagedFile I}
    {durability : LocalDurabilityRequirement} {dirs : List Path}
    (hname : staged.name = some staging) :
    (recoverAtomicInstallError context staged durability scope.cleanup StagedFile.disarm
      (syncParentChain dirs)).Makes Tame := by
  have hreport (cleanupError : Option IoError) :
      (context.reportFailure durability (syncParentChain dirs) cleanupError :
        AtomicM I _).Makes Tame := by
    refine Prog.Makes.bind ?_ fun _ => trivial
    unfold AtomicInstallRecovery.parentSyncError
    split
    · refine Prog.Makes.bind (tame_syncParentChain dirs) fun answer => ?_
      cases answer <;> trivial
    · trivial
  unfold recoverAtomicInstallError
  split
  · refine Prog.Makes.bind ((makes_cleanup hname).mono fun _ hc => hc.tame) fun r => ?_
    obtain ⟨_ | _, staged'⟩ := r
    · exact Prog.Makes.bind (hreport _) fun _ => trivial
    · dsimp only
      split
      · rw [UnixAtomicWriter.finishPublished_eq]
        exact Prog.Makes.bind (tame_syncAsRequired durability dirs _) fun _ => trivial
      · exact Prog.Makes.bind (hreport _) fun _ => trivial
  · exact Prog.Makes.bind (hreport _) fun _ => trivial

theorem tame_installAndSyncParent (system : UnixTarget) (hname : w.stagedFile.name = some staging) :
    (w.installAndSyncParent scope system).Makes Tame := by
  have hclosed : w.stagedFile.close.name = some staging := hname
  have harmed : w.stagedFile.close.armedName scope = pure staging := by
    cases scope <;> simp only [StagedFile.armedName, hclosed, expectSome]
  refine Prog.Makes.bind ?_ fun source => ?_
  · rw [harmed]
    trivial
  · refine Prog.Makes.bind (tame_install system source w.name _) fun answer => ?_
    match answer with
    | .ok _ =>
      refine Prog.Makes.bind ?_ fun _ => trivial
      rw [UnixAtomicWriter.finishInstalled_eq]
      exact tame_syncAsRequired _ _ _
    | .error (error, state, stagingState) =>
      exact Prog.Makes.bind (tame_recover hclosed) fun _ => trivial

/-- A commit of a writer whose staging file is open neither writes to it nor panics. -/
theorem tame_commit (system : UnixTarget) (hname : w.stagedFile.name = some staging)
    (hfile : w.stagedFile.file = some file) :
    (w.commitRecoverableWithSync scope system).Makes Tame := by
  have hprepare : (w.prepareCommit scope).Makes Tame := by
    refine Prog.Makes.andThen (tame_openDestinationForCommit hname) fun destination => ?_
    refine Prog.Makes.andThen (tame_applyDestinationMetadata hname hfile destination) fun _ => ?_
    refine Prog.Makes.andThen (tame_applyCopyPermissions hfile) fun _ => ?_
    refine Prog.Makes.andThen (tame_syncTemporaryFile hname hfile) fun fileSynced => ?_
    refine Prog.Makes.andThen ?_ fun _ => trivial
    unfold UnixAtomicWriter.verifyDestinationForCommit
    rw [temporaryPath_eq hname]
    split
    · trivial
    · exact tame_of_looks (looks_verifyAtomicDestinationIdentity scope _ _ _ _)
  have hattempt : (w.commitAttempt scope system).Makes Tame := by
    refine Prog.Makes.bind hprepare fun prepared => ?_
    cases prepared with
    | error error => trivial
    | ok fileSynced =>
      refine Prog.Makes.bind (tame_installAndSyncParent system hname) fun r => ?_
      obtain ⟨_ | _, w'⟩ := r <;> trivial
  refine Prog.Makes.bind hattempt fun r => ?_
  obtain ⟨_ | _, w'⟩ := r
  · dsimp only
    split
    · trivial
    · exact Prog.Makes.bind tame_drop fun _ => trivial
  · exact Prog.Makes.bind tame_drop fun _ => trivial

end Commits

/-! ## 5. The invariant of a session -/

section Invariant

variable {I : Type}

/-- What a failure state of an append session says about the bytes accepted so far. -/
def Honest (state : LocalWriteFailureState) (total : Nat) : Prop :=
  (state = .notPublished → total = 0) ∧ (state = .published → 0 < total)

def reportedState : FileReport → Option LocalWriteFailureState
  | .aborted (.ok outcome) => outcome.failureState
  | .committed (.ok outcome) => outcome.failureState
  | .committed (.error (_, state)) => some state
  | _ => none

structure FileGuarantee (staging : Option String) (before : List (FileExchange I))
    (e : FileExchange I) : Prop extends Guarantee (fileView staging) e before where
  honest : staging = none → ∀ state, reportedState e.report = some state →
    Honest state ((fileView staging).total before)

/-- How far a writer can still be used, after `total` bytes. -/
inductive Standing (staging : Option String) (total : Nat) (fatal ended : Prop) :
    LocalFileWriter I → Prop
  | usable {w : LocalFileWriter I} {backend : LocalFileWriterBackend I} {file : I}
      (hstate : w.state = .opened) (hfailure : w.failureState = none)
      (hbackend : w.backend = some backend) (harmed : backend.Armed staging)
      (hhandle : backend.handle? = some file) (hfatal : ¬ fatal) (hended : ¬ ended) :
      Standing staging total fatal ended w
  | failed {w : LocalFileWriter I} {backend : LocalFileWriterBackend I}
      {state : LocalWriteFailureState} (hstate : w.state = .opened)
      (hfailure : w.failureState = some state) (hbackend : w.backend = some backend)
      (harmed : backend.Armed staging) (hended : ¬ ended) : Standing staging total fatal ended w
  | aborted {w : LocalFileWriter I} {backend : LocalFileWriterBackend I}
      (hstate : w.state = .aborted) (hbackend : w.backend = some backend)
      (hreleased : backend.Released staging)
      (hunfailed : staging = none → w.failureState = none → total = 0) (hended : ended) :
      Standing staging total fatal ended w

structure Sound (staging : Option String) (past : List (FileExchange I)) (w : LocalFileWriter I) :
    Prop where
  count : w.bytesWritten.value.toNat = (fileView staging).total past
  honest : staging = none → ∀ state, w.failureState = some state →
    Honest state ((fileView staging).total past)
  standing : Standing staging ((fileView staging).total past)
    (∃ f ∈ past, Fatal (fileView staging) f) (∃ f ∈ past, Ended f) w

variable {staging : Option String} {past : List (FileExchange I)} {w : LocalFileWriter I}
  {e : FileExchange I}

/-- An operation that wrote nothing and leaves the writer as it was. -/
theorem Sound.idle (h : Sound staging past w) (hcalls : (fileView staging).acceptedBy e.calls = 0)
    (hfatal : w.state = .opened → w.failureState = none → ¬ Fatal (fileView staging) e)
    (hended : w.state = .opened → ¬ Ended e) : Sound staging (past ++ [e]) w := by
  have htotal : (fileView staging).total (past ++ [e]) = (fileView staging).total past := by
    rw [SessionView.total_concat, hcalls, Nat.add_zero]
  obtain ⟨hcount, hhonest, hstanding⟩ := h
  refine ⟨by rw [htotal, hcount], by rwa [htotal], ?_⟩
  rw [htotal]
  cases hstanding with
  | usable hstate hfailure hbackend harmed hhandle hnone hopen =>
    refine .usable hstate hfailure hbackend harmed hhandle ?_ ?_
    · rw [exists_concat]
      exact not_or.mpr ⟨hnone, hfatal hstate hfailure⟩
    · rw [exists_concat]
      exact not_or.mpr ⟨hopen, hended hstate⟩
  | failed hstate hfailure hbackend harmed hopen =>
    refine .failed hstate hfailure hbackend harmed ?_
    rw [exists_concat]
    exact not_or.mpr ⟨hopen, hended hstate⟩
  | aborted hstate hbackend hreleased hunfailed hover =>
    refine .aborted hstate hbackend hreleased hunfailed ?_
    rw [exists_concat]
    exact .inl hover

/-- The guarantee of an operation that was refused without a call. -/
theorem fileGuarantee_refused (hcalls : e.calls = []) (hfailed : e.report.failed = true)
    (hstate : reportedState e.report = none) : FileGuarantee staging past e := by
  refine ⟨.refused hcalls hfailed, fun _ state hreported => ?_⟩
  rw [hstate] at hreported
  cases hreported

end Invariant

/-! ## 6. Operations of the stream -/

section Streams

variable {I : Type} {staging : Option String} {past : List (FileExchange I)}
  {w : LocalFileWriter I} {e : FileExchange I} {op : Operation}

abbrev FairCalls (staging : Option String) :=
  FairRecording (fileView (I := I) staging).fair

/-- An operation keeps its guarantee and leaves a sound writer. -/
def Leaves (staging : Option String) (past : List (FileExchange I)) (op : Operation)
    (r : FileReport × LocalFileWriter I) (calls : AtomicTrace I) : Prop :=
  FileGuarantee staging past ⟨op, calls, r.1⟩ ∧ Sound staging (past ++ [⟨op, calls, r.1⟩]) r.2

/-- A call of the stream that the writer refuses itself. -/
theorem leaves_refused (h : Sound staging past w) {report : FileReport} {error : IoError}
    (hreport : report.streamError? = some error) : Leaves staging past op (report, w) [] := by
  refine ⟨fileGuarantee_refused rfl ?_ ?_, h.idle rfl (fun _ _ => not_fatal_of_nil hreport)
    fun _ => not_ended_of_streamError hreport⟩
  · unfold Report.streamError? at hreport
    split at hreport
    · rfl
    · rfl
    · cases hreport
  · unfold Report.streamError? at hreport
    split at hreport
    · rfl
    · rfl
    · cases hreport

/-- What the rest of a call of the stream is about: the writer was usable, and the backend got one
    call. -/
structure Called (staging : Option String) (past : List (FileExchange I)) (w : LocalFileWriter I)
    (ev : AtomicEvent I) : Prop where
  sound : Sound staging past w
  state : w.state = .opened
  failure : w.failureState = none
  backend : ∃ backend file, w.backend = some backend ∧ backend.Armed staging ∧
    backend.handle? = some file
  fatal : ¬ ∃ f ∈ past, Fatal (fileView staging) f
  ended : ¬ ∃ f ∈ past, Ended f
  fits : ∀ n, requestedBytes ev.call = some n → (fileView staging).total past + n < wordSize

variable {ev : AtomicEvent I}

theorem Called.guarantee (h : Called staging past w ev) {report : FileReport}
    (houtcome : report.outcome? = none) (hstate : reportedState report = none) :
    FileGuarantee staging past ⟨op, [ev], report⟩ := by
  refine ⟨.going h.ended ?_ ?_ fun hfatal => absurd hfatal h.fatal, ?_⟩
  · intro outcome heq
    rw [houtcome] at heq
    cases heq
  · intro ev' hev'
    obtain rfl := List.mem_singleton.mp hev'
    exact h.fits
  · intro _ state heq
    rw [hstate] at heq
    cases heq

/-- A failed call of the stream. -/
theorem Called.failed (α : Type) (h : Called staging past w ev) {error : IoError}
    {report : FileReport} (hreport : report.streamError? = some error)
    (haccepted : (fileView staging).accepted ev = 0) :
    Leaves staging past op (report, w.observeStreamResult (.error error : IoResult α)) [ev] := by
  have hnothing : (fileView staging).acceptedBy [ev] = 0 := by
    rw [SessionView.acceptedBy_singleton, haccepted]
  have houtcome : report.outcome? = none := by
    unfold Report.streamError? at hreport
    split at hreport
    · rfl
    · rfl
    · cases hreport
  have hstate : reportedState report = none := by
    unfold Report.streamError? at hreport
    split at hreport
    · rfl
    · rfl
    · cases hreport
  refine ⟨h.guarantee houtcome hstate, ?_⟩
  unfold LocalFileWriter.observeStreamResult
  dsimp only
  split
  next htransient =>
    exact h.sound.idle hnothing (fun _ _ => not_fatal_of_transient hreport htransient)
      fun _ => not_ended_of_streamError hreport
  next =>
    have htotal : (fileView staging).total (past ++ [⟨op, [ev], report⟩]) =
        (fileView staging).total past := by rw [SessionView.total_concat, hnothing, Nat.add_zero]
    obtain ⟨backend, file, hbackend, harmed, -⟩ := h.backend
    refine ⟨by rw [htotal]; exact h.sound.count, ?_, ?_⟩
    · rintro rfl state hfailed
      rw [htotal]
      rw [hbackend] at hfailed
      -- Only an append backend has no staging name.
      cases backend with
      | staged writer => exact absurd harmed.1 nofun
      | rooted writer => exact absurd harmed.1 nofun
      | append file =>
        obtain rfl := Option.some.inj hfailed
        show Honest (if 0 < w.bytesWritten.value then .published else .notPublished) _
        rw [← h.sound.count]
        split
        next hpos => exact ⟨nofun, fun _ => UInt64.lt_iff_toNat_lt.mp hpos⟩
        next hzero =>
          refine ⟨fun _ => ?_, nofun⟩
          rw [UInt64.lt_iff_toNat_lt] at hzero
          exact Nat.eq_zero_of_not_pos hzero
    · refine .failed h.state rfl hbackend harmed ?_
      rw [exists_concat]
      exact not_or.mpr ⟨h.ended, not_ended_of_streamError hreport⟩

/-- Accepted bytes are counted. -/
theorem Called.accepted (h : Called staging past w ev) {written : Nat} {count : WriterByteCount}
    (haccepted : (fileView staging).accepted ev = written)
    (hcount : count.value.toNat = w.bytesWritten.value.toNat + written) :
    Leaves staging past op (.stream (.ok written), { w with bytesWritten := count }) [ev] := by
  refine ⟨h.guarantee rfl rfl, ?_⟩
  have htotal : (fileView staging).total (past ++ [⟨op, [ev], .stream (.ok written)⟩]) =
      (fileView staging).total past + written := by
    rw [SessionView.total_concat, SessionView.acceptedBy_singleton, haccepted]
  obtain ⟨backend, file, hbackend, harmed, hhandle⟩ := h.backend
  refine ⟨by rw [htotal, hcount, h.sound.count], ?_, ?_⟩
  · intro _ state hfailed
    rw [h.failure] at hfailed
    cases hfailed
  · refine .usable h.state h.failure hbackend harmed hhandle ?_ ?_
    · rw [exists_concat]
      exact not_or.mpr ⟨h.fatal, not_fatal_of_ok⟩
    · rw [exists_concat]
      refine not_or.mpr ⟨h.ended, ?_⟩
      rintro ⟨outcome, heq⟩
      cases heq

/-- A writer that refuses nothing is usable. -/
theorem Sound.called (h : Sound staging past w)
    (hopen : ¬ (w.state ≠ .opened ∨ w.failureState.isSome)) :
    ∃ backend file, w.backend = some backend ∧ backend.Armed staging ∧
      backend.handle? = some file ∧ ∀ ev : AtomicEvent I, (∀ n, requestedBytes ev.call = some n →
        w.bytesWritten.value.toNat + n < wordSize) → Called staging past w ev := by
  obtain ⟨hstate, hfailure⟩ := not_or.mp hopen
  cases h.standing with
  | usable hstate hfailure hbackend harmed hhandle hfatal hended =>
    refine ⟨_, _, hbackend, harmed, hhandle, fun ev hfits => ?_⟩
    refine ⟨h, hstate, hfailure, ⟨_, _, hbackend, harmed, hhandle⟩, hfatal, hended, ?_⟩
    rw [← h.count]
    exact hfits
  | failed _ hfailed => exact absurd (by rw [hfailed]; rfl) hfailure
  | aborted haborted => exact absurd (by rw [haborted]; decide) hstate

/-- The result of a write is settled without a panic. -/
theorem ensures_settleWrite {ev : AtomicEvent I} (h : Called staging past w ev) {n : Nat}
    {answer : IoResult Nat} (hrequested : requestedBytes ev.call = some n)
    (haccepted : (fileView staging).accepted ev = match answer with
      | .ok written => written
      | .error _ => 0)
    (hfair : (fileView staging).fair ev) :
    (w.settleWrite answer).Ensures (FairCalls staging)
      (fun r calls => Leaves staging past op (.stream r.1, r.2) calls) [ev] := by
  cases answer with
  | error error => exact h.failed Nat rfl haccepted
  | ok written =>
    have hle : written ≤ n := by
      rw [← show (fileView staging).accepted ev = written from haccepted]
      exact hfair n hrequested
    have hfits := h.fits n hrequested
    rw [← h.sound.count] at hfits
    obtain ⟨count, hsettled, hcount⟩ := w.settleWrite_of_fits
      (show w.bytesWritten.value.toNat + written < wordSize by omega)
    rw [hsettled]
    exact h.accepted haccepted hcount

/-- Both calls of a handle ask for the bytes that they are called with. -/
theorem writes_handle (staging : Option String) (file : I) :
    (∀ bytes, (fileView staging).Writes bytes.length (writeFile file bytes)) ∧
    ∀ buffers, (fileView staging).Writes buffers.flatten.length (writeFileVectored file buffers) := by
  refine ⟨fun _ => ?_, fun _ => ?_⟩ <;>
  · refine ⟨⟨.error ioFailed, _, fun _ _ => Nat.zero_le _, rfl⟩, ?_⟩
    rintro answer _ ⟨hfair, rfl⟩
    exact ⟨_, rfl, rfl, hfair, by cases answer <;> rfl⟩

/-- A write of an open writer: a request that is refused does not reach the backend, and the result
    of any other one is settled. -/
theorem ensures_transfer (h : Sound staging past w) {checked : IoResult Unit} {n : Nat}
    (hfits : checked = .ok () → w.bytesWritten.value.toNat + n < wordSize)
    {transfer : LocalFileWriterBackend I → AtomicM I (IoResult Nat)}
    (htransfer : ∀ backend file, backend.handle? = some file →
      (fileView staging).Writes n (transfer backend)) :
    (if w.state ≠ .opened ∨ w.failureState.isSome then pure (.error notOpen, w)
      else match checked with
        | .error error => pure (.error error, w)
        | .ok () => match w.backend with
          | none => Atomic.panic "open writer must retain one backend"
          | some backend => do w.settleWrite (← transfer backend) :
        AtomicM I (IoResult Nat × LocalFileWriter I)).Ensures (FairCalls staging)
      (fun r calls => Leaves staging past op (.stream r.1, r.2) calls) [] := by
  split
  next => exact leaves_refused h rfl
  next hopen =>
    split
    next => exact leaves_refused h rfl
    next =>
      obtain ⟨backend, file, hbackend, -, hhandle, hcalled⟩ := h.called hopen
      rw [hbackend]
      refine .bind ((htransfer backend file hhandle).mono fun answer calls hanswer => ?_)
      obtain ⟨ev, rfl, hrequested, hfair, haccepted⟩ := hanswer
      refine ensures_settleWrite (hcalled ev fun m hm => ?_) hrequested haccepted hfair
      cases hrequested.symm.trans hm
      exact hfits rfl

theorem ensures_writeOnce (h : Sound staging past w) (buffer : List UInt8) :
    (w.writeOnce buffer).Ensures (FairCalls staging)
      (fun r calls => Leaves staging past op (.stream r.1, r.2) calls) [] := by
  refine ensures_transfer h WriterByteCount.fits_of_checkRequest fun backend file hhandle => ?_
  rw [LocalFileWriterBackend.write_eq hhandle]
  exact (writes_handle staging file).1 buffer

theorem ensures_writeVectored (h : Sound staging past w) (buffers : List (List UInt8)) :
    (w.writeVectored buffers).Ensures (FairCalls staging)
      (fun r calls => Leaves staging past op (.stream r.1, r.2) calls) [] := by
  refine ensures_transfer h WriterByteCount.fits_of_checkVectoredRequest
    fun backend file hhandle => ?_
  rw [LocalFileWriterBackend.writeVectored_eq hhandle]
  exact (writes_handle staging file).2 buffers

theorem ensures_writeIoSlices (h : Sound staging past w) (reserved : IoResult Unit)
    (buffers : List (List UInt8)) : (w.writeIoSlices reserved buffers).Ensures (FairCalls staging)
      (fun r calls => Leaves staging past op (.stream r.1, r.2) calls) [] := by
  unfold LocalFileWriter.writeIoSlices
  split
  next => exact leaves_refused h rfl
  next =>
    split
    next => exact leaves_refused h rfl
    next => exact ensures_writeVectored h buffers

theorem ensures_flush (h : Sound staging past w) :
    w.flush.Ensures (FairCalls staging)
      (fun r calls => Leaves staging past op (.flushed r.1, r.2) calls) [] := by
  unfold LocalFileWriter.flush
  split
  next => exact leaves_refused h rfl
  next hopen =>
    obtain ⟨backend, file, hbackend, -, hhandle, hcalled⟩ := h.called hopen
    rw [hbackend]
    dsimp only
    rw [LocalFileWriterBackend.flush_eq hhandle]
    refine ⟨⟨.error ioFailed, _, nofun, rfl⟩, ?_⟩
    rintro answer _ ⟨-, rfl⟩
    have hcalled : Called staging past w ⟨.inert (.flush file), answer⟩ := hcalled _ nofun
    cases answer with
    | error error => exact hcalled.failed Unit rfl rfl
    | ok _ =>
      refine ⟨hcalled.guarantee rfl rfl, h.idle rfl (fun _ _ => ?_) fun _ => ?_⟩
      · rintro (⟨error, heq, -⟩ | ⟨-, error, heq⟩) <;> cases heq
      · rintro ⟨outcome, heq⟩
        cases heq

end Streams

/-! ## 7. Abort and commit -/

section Terminal

variable {I : Type} {staging : Option String} {past : List (FileExchange I)}
  {w : LocalFileWriter I} {e : FileExchange I} {op : Operation}

theorem acceptedBytes_of_tame {c : Syscall String I (AtomicCall I)}
    (h : Tame c) (answer : c.Result AtomicCall.Result) : acceptedBytes c answer = 0 := by
  cases c with
  | inert o =>
    cases o with
    | write file bytes => cases h
    | writeVectored file buffers => cases h
    | _ => rfl
  | _ => rfl

theorem requestedBytes_of_tame {c : Syscall String I (AtomicCall I)} (h : Tame c) :
    requestedBytes c = none := by
  cases c with
  | inert o =>
    cases o with
    | write file bytes => cases h
    | writeVectored file buffers => cases h
    | _ => rfl
  | _ => rfl

theorem exists_answer {c : Syscall String I (AtomicCall I)} (h : Tame c) :
    ∃ answer : c.Result AtomicCall.Result, (fileView staging).fair ⟨c, answer⟩ := by
  have hfair (answer : c.Result AtomicCall.Result) : (fileView staging).fair ⟨c, answer⟩ := by
    intro n hn
    rw [show (fileView staging).requested c = none from requestedBytes_of_tame h] at hn
    cases hn
  cases c with
  | inert o =>
    cases o with
    | isSymlink file => exact ⟨false, hfair _⟩
    | panic message => cases h
    | _ => exact ⟨.error ioFailed, hfair _⟩
  | _ => exact ⟨.error ioFailed, hfair _⟩

/-- A tame program always gets on, and its runs write nothing. -/
theorem ensures_tame {α : Type} {P : Syscall String I (AtomicCall I) → Prop} {p : AtomicM I α}
    {post : α → AtomicTrace I → Prop} (hp : p.Makes P) (htame : ∀ c, P c → Tame c)
    (hruns : ∀ tr a, p.Runs tr a → (∀ ev ∈ tr, P ev.call) → post a tr) :
    p.Ensures (FairCalls staging) post [] :=
  hp.fairEnsures (fun c hc => exists_answer (htame c hc)) hruns

theorem acceptedBy_of_tame {calls : AtomicTrace I} (h : ∀ ev ∈ calls, Tame ev.call) :
    (fileView staging).acceptedBy calls = 0 :=
  SessionView.acceptedBy_eq_zero fun ev hev => acceptedBytes_of_tame (h ev hev) ev.answer

/-- The guarantee of an abort, or of a commit of a usable writer. -/
theorem fileGuarantee_terminal (hcalls : ∀ ev ∈ e.calls, Tame ev.call)
    (hsilent : (∃ f ∈ past, Fatal (fileView staging) f) → Silent (fileView staging) e)
    (hended : ¬ ∃ f ∈ past, Ended f)
    (hcounted : ∀ outcome, e.report.outcome? = some outcome →
      outcome.bytesWritten.toNat = (fileView staging).total past)
    (hhonest : staging = none → ∀ state, reportedState e.report = some state →
      Honest state ((fileView staging).total past)) : FileGuarantee staging past e := by
  refine ⟨.going hended hcounted (fun ev hev n hn => ?_) hsilent, hhonest⟩
  rw [show (fileView staging).requested ev.call = none from
    requestedBytes_of_tame (hcalls ev hev)] at hn
  cases hn

namespace LocalFileWriterBackend

/-- The staging backend of a scope. -/
def ofScope : Scope → UnixAtomicWriter I → LocalFileWriterBackend I
  | .host => .staged
  | .rooted => .rooted

theorem armed_ofScope {scope : Scope} {writer : UnixAtomicWriter I} :
    (ofScope scope writer).Armed staging ↔ staging.isSome ∧ writer.stagedFile.name = staging := by
  cases scope <;> exact Iff.rfl

theorem released_ofScope {scope : Scope} {writer : UnixAtomicWriter I} :
    (ofScope scope writer).Released staging ↔
      staging.isSome ∧ writer.stagedFile.name = none := by
  cases scope <;> exact Iff.rfl

theorem handle_ofScope {scope : Scope} {writer : UnixAtomicWriter I} :
    (ofScope scope writer).handle? = writer.stagedFile.file := by
  cases scope <;> rfl

end LocalFileWriterBackend

/-- The counts of a sound writer whose failure state and backend may have changed. -/
theorem Sound.settled (h : Sound staging past w) (hstaging : staging.isSome)
    (hcalls : ∀ ev ∈ e.calls, Tame ev.call) {w' : LocalFileWriter I}
    (hcount : w'.bytesWritten = w.bytesWritten)
    (hstanding : Standing staging ((fileView staging).total (past ++ [e]))
      (∃ f ∈ past ++ [e], Fatal (fileView staging) f) (∃ f ∈ past ++ [e], Ended f) w') :
    Sound staging (past ++ [e]) w' := by
  refine ⟨?_, ?_, hstanding⟩
  · rw [hcount, h.count, SessionView.total_concat, acceptedBy_of_tame hcalls, Nat.add_zero]
  · rintro rfl
    cases hstaging

variable [DecidableEq I]

/-- The abort of a staging writer, and what it leaves of its guard. -/
theorem makes_abort {scope : Scope} {writer : UnixAtomicWriter I} {name : String}
    (hname : writer.stagedFile.name = some name) :
    (writer.abort scope).Makes (TidiesUp name) := by
  unfold UnixAtomicWriter.abort
  rw [temporaryPath_eq hname]
  refine Prog.Makes.bind trivial fun _ => Prog.Makes.bind ?_ fun _ => trivial
  exact Prog.Makes.bind (makes_cleanup hname) fun _ => trivial

theorem abort_leaves {scope : Scope} {writer : UnixAtomicWriter I} {name : String}
    (hname : writer.stagedFile.name = some name) {tr : AtomicTrace I}
    {r : Except LocalAtomicWriteError Unit × UnixAtomicWriter I}
    (h : (writer.abort scope).Runs tr r) :
    (r.1 = .ok () ∧ r.2.stagedFile.name = none) ∨
      (∃ error, r.1 = .error error) ∧ r.2.stagedFile.name = some name := by
  unfold UnixAtomicWriter.abort at h
  rw [temporaryPath_eq hname] at h
  obtain ⟨tr₀, rest, path, rfl, ⟨rfl, rfl⟩, h⟩ := Prog.runs_bind.mp h
  obtain ⟨tr₁, tr₂, ⟨result, writer'⟩, rfl, hcleanup, rfl, rfl⟩ := Prog.runs_bind.mp h
  obtain ⟨tr₃, tr₄, cleaned, rfl, hcleaned, hend⟩ := Prog.runs_bind.mp hcleanup
  obtain ⟨rfl, heq⟩ := hend
  cases heq
  rcases cleanup_leaves hname hcleaned with rfl | ⟨error, rfl⟩
  · exact .inl ⟨rfl, rfl⟩
  · exact .inr ⟨⟨_, rfl⟩, hname⟩

theorem abortStaged_ofScope (scope : Scope) (writer : UnixAtomicWriter I) :
    (LocalFileWriterBackend.ofScope scope writer).abortStaged = (do
      let (result, writer) ← writer.abort scope
      pure (result, .ofScope scope writer)) := by
  cases scope <;> rfl

/-- An abort of a staging backend that is still armed. -/
theorem ensures_abortStaged (h : Sound staging past w) (hended : ¬ ∃ f ∈ past, Ended f)
    (hopened : w.state = .opened) (scope : Scope) {writer : UnixAtomicWriter I}
    (harmed : (LocalFileWriterBackend.ofScope scope writer).Armed staging) :
    (w.abortStagedBackend (.ofScope scope writer)).Ensures (FairCalls staging)
      (fun r calls => Leaves staging past op (.aborted r.1, r.2) calls) [] := by
  obtain ⟨hstaging, hname⟩ := LocalFileWriterBackend.armed_ofScope.mp harmed
  obtain ⟨name, rfl⟩ := Option.isSome_iff_exists.mp hstaging
  unfold LocalFileWriter.abortStagedBackend
  rw [abortStaged_ofScope]
  refine ensures_tame (P := TidiesUp name) ?_ (fun c hc => hc.tame) fun tr r hrun hcalls => ?_
  · refine Prog.Makes.bind (Prog.Makes.bind (makes_abort hname) fun _ => trivial) fun aborted => ?_
    obtain ⟨_ | _, backend⟩ := aborted <;> trivial
  have hquiet : ∀ ev ∈ tr, Tame ev.call := fun ev hev => (hcalls ev hev).tame
  obtain ⟨tr₁, tr₂, ⟨result, backend⟩, rfl, haborted, hend⟩ := Prog.runs_bind.mp hrun
  obtain ⟨tr₃, tr₄, ⟨result', writer'⟩, rfl, hleaves, rfl, heq⟩ := Prog.runs_bind.mp haborted
  cases heq
  rcases abort_leaves hname hleaves with ⟨rfl, hgone⟩ | ⟨⟨error, rfl⟩, hkept⟩
  · obtain ⟨rfl, rfl⟩ := hend
    refine ⟨fileGuarantee_terminal hquiet (fun _ => trivial) hended ?_ nofun, ?_⟩
    · rintro outcome ⟨⟩
      exact h.count
    · refine h.settled hstaging hquiet rfl (.aborted rfl rfl ?_ nofun ?_)
      · exact LocalFileWriterBackend.released_ofScope.mpr ⟨hstaging, hgone⟩
      · rw [exists_concat]
        exact .inr ⟨_, rfl⟩
  · obtain ⟨rfl, rfl⟩ := hend
    refine ⟨fileGuarantee_terminal hquiet (fun _ => trivial) hended nofun nofun, ?_⟩
    refine h.settled hstaging hquiet rfl (.failed hopened rfl rfl ?_ ?_)
    · exact LocalFileWriterBackend.armed_ofScope.mpr ⟨hstaging, hkept⟩
    · rw [exists_concat]
      refine not_or.mpr ⟨hended, ?_⟩
      rintro ⟨outcome, heq⟩
      cases heq

omit [DecidableEq I] in
theorem honest_of_count {n : UInt64} {total : Nat} (h : n.toNat = total) :
    Honest (if n = 0 then .notPublished else .published) total := by
  split
  next hzero =>
    subst hzero
    exact ⟨fun _ => h.symm, nofun⟩
  next hne =>
    refine ⟨nofun, fun _ => ?_⟩
    rw [← h]
    exact Nat.pos_of_ne_zero fun hzero => hne (UInt64.toNat_inj.mp hzero)

omit [DecidableEq I] in
/-- The abort of an append session keeps what is known about the appended bytes. -/
theorem ensures_abortAppended (h : Sound none past w) (hended : ¬ ∃ f ∈ past, Ended f) {file : I}
    (hbackend : w.backend = some (.append file)) :
    (w.abortAppended file).Ensures (FairCalls none)
      (fun r calls => Leaves none past op (.aborted r.1, r.2) calls) [] := by
  unfold LocalFileWriter.abortAppended
  refine ⟨⟨.error ioFailed, _, nofun, rfl⟩, ?_⟩
  rintro answer _ ⟨-, rfl⟩
  have hquiet : ∀ ev ∈ [(⟨.inert (.flush file), answer⟩ : AtomicEvent I)], Tame ev.call :=
    List.forall_mem_singleton.mpr trivial
  match answer with
  | .error error =>
    refine ⟨fileGuarantee_terminal hquiet (fun _ => trivial) hended nofun nofun, ?_⟩
    refine h.idle (acceptedBy_of_tame hquiet) (fun _ _ => ?_) fun _ => ?_
    · rintro (⟨error, heq, -⟩ | ⟨hstaged, -⟩)
      · cases heq
      · cases hstaged
    · rintro ⟨outcome, heq⟩
      cases heq
  | .ok () =>
    -- the state was known before, or it follows from the bytes written
    have hstate : ∀ state, w.failureState.or (if 0 < w.bytesWritten.value then
        some LocalWriteFailureState.published else none) = some state →
        Honest state ((fileView (I := I) none).total past) := by
      intro state hstate
      cases hfailure : w.failureState with
      | some known =>
        rw [hfailure] at hstate
        cases hstate
        exact h.honest rfl _ hfailure
      | none =>
        rw [hfailure, Option.none_or] at hstate
        split at hstate
        next hpos =>
          cases hstate
          refine ⟨nofun, fun _ => ?_⟩
          rw [← h.count]
          exact UInt64.lt_iff_toNat_lt.mp hpos
        next => cases hstate
    have htotal (report : FileReport) : (fileView none).total
        (past ++ [⟨op, [⟨.inert (.flush file), .ok ()⟩], report⟩]) =
          (fileView (I := I) none).total past := by
      rw [SessionView.total_concat, acceptedBy_of_tame hquiet, Nat.add_zero]
    refine ⟨fileGuarantee_terminal hquiet (fun _ => trivial) hended ?_ fun _ => hstate, ?_⟩
    · rintro outcome ⟨⟩
      exact h.count
    · refine ⟨h.count.trans (htotal _).symm, ?_, ?_⟩
      · intro _ state hfailed
        exact (htotal _).symm ▸ hstate state hfailed
      · refine .aborted rfl hbackend rfl (fun _ hnone => (htotal _).trans ?_)
          (exists_concat.mpr (.inr ⟨_, rfl⟩))
        rw [← h.count]
        replace hnone : w.failureState.or (if 0 < w.bytesWritten.value then
          some LocalWriteFailureState.published else none) = none := hnone
        rw [Option.or_eq_none_iff] at hnone
        refine Nat.eq_zero_of_not_pos fun hpos => ?_
        have hwritten := hnone.2
        rw [if_pos (show 0 < w.bytesWritten.value from UInt64.lt_iff_toNat_lt.mpr hpos)] at hwritten
        cases hwritten

theorem ensures_abort (h : Sound staging past w) :
    w.abort.Ensures (FairCalls staging)
      (fun r calls => Leaves staging past op (.aborted r.1, r.2) calls) [] := by
  unfold LocalFileWriter.abort
  split
  next hclosed =>
    refine ⟨fileGuarantee_refused rfl rfl rfl, h.idle rfl (fun hopened => ?_) fun hopened => ?_⟩
    · exact absurd hopened hclosed
    · exact absurd hopened hclosed
  next hopened =>
    have hopened : w.state = .opened := not_not.mp hopened
    obtain ⟨backend, hbackend, harmed, hended⟩ : ∃ backend, w.backend = some backend ∧
        backend.Armed staging ∧ ¬ ∃ f ∈ past, Ended f := by
      cases h.standing with
      | usable _ _ hbackend harmed _ _ hended => exact ⟨_, hbackend, harmed, hended⟩
      | failed _ _ hbackend harmed hended => exact ⟨_, hbackend, harmed, hended⟩
      | aborted haborted =>
        rw [haborted] at hopened
        cases hopened
    rw [hbackend]
    cases backend with
    | staged writer => exact ensures_abortStaged h hended hopened .host harmed
    | rooted writer => exact ensures_abortStaged h hended hopened .rooted harmed
    | append file =>
      obtain rfl : staging = none := harmed
      exact ensures_abortAppended h hended hbackend

/-- What a commit owes: its guarantee, and a sound writer where it retains one. -/
def Owes (staging : Option String) (past : List (FileExchange I)) (op : Operation)
    (r : FileReport × Option (LocalFileWriter I)) (calls : AtomicTrace I) : Prop :=
  FileGuarantee staging past ⟨op, calls, r.1⟩ ∧
    ∀ w, r.2 = some w → Sound staging (past ++ [⟨op, calls, r.1⟩]) w

omit [DecidableEq I] in
theorem owes_consumed {r : FileReport × Option (LocalFileWriter I)} {calls : AtomicTrace I}
    (h : FileGuarantee staging past ⟨op, calls, r.1⟩) (hconsumed : r.2 = none) :
    Owes staging past op r calls := by
  refine ⟨h, fun w hleft => ?_⟩
  rw [hconsumed] at hleft
  cases hleft

theorem makes_drop_armed {backend : LocalFileWriterBackend I} (h : backend.Armed staging) :
    backend.drop.Makes (fileView staging).cleansUp := by
  cases backend with
  | append file => trivial
  | staged writer =>
    obtain ⟨hstaging, hname⟩ := h
    obtain ⟨name, rfl⟩ := Option.isSome_iff_exists.mp hstaging
    exact (makes_drop hname).mono fun c hc => ⟨name, rfl, hc⟩
  | rooted writer =>
    obtain ⟨hstaging, hname⟩ := h
    obtain ⟨name, rfl⟩ := Option.isSome_iff_exists.mp hstaging
    exact (makes_drop hname).mono fun c hc => ⟨name, rfl, hc⟩

theorem drop_released {backend : LocalFileWriterBackend I} (h : backend.Released staging) :
    backend.drop = pure () := by
  cases backend with
  | append file => rfl
  | staged writer => exact drop_of_none h.2
  | rooted writer => exact drop_of_none h.2

/-- A commit that the writer refuses drops the backend. -/
theorem ensures_refusedCommit (h : Sound staging past w) (system : UnixTarget)
    (hclosed : w.state ≠ .opened ∨ w.failureState.isSome) :
    (w.commit system).Ensures (FairCalls staging)
      (fun r calls => Owes staging past op (committed r) calls) [] := by
  rw [LocalFileWriter.commit, if_pos hclosed, LocalFileWriter.drop]
  cases h.standing with
  | usable hstate hfailure =>
    rw [hstate, hfailure] at hclosed
    exact absurd hclosed (by decide)
  | failed hstate hfailure hbackend harmed hended =>
    rw [hbackend]
    refine ensures_tame (P := (fileView staging).cleansUp)
      (Prog.Makes.bind (makes_drop_armed harmed) fun _ => trivial) ?_ fun tr r hrun hcalls => ?_
    · rintro c ⟨name, -, hc⟩
      exact TidiesUp.tame hc
    obtain ⟨tr₁, tr₂, u, rfl, -, rfl, rfl⟩ := Prog.runs_bind.mp hrun
    have hquiet : ∀ ev ∈ tr₁ ++ [], Tame ev.call := by
      intro ev hev
      obtain ⟨name, -, hc⟩ := hcalls ev hev
      exact TidiesUp.tame hc
    refine owes_consumed (fileGuarantee_terminal hquiet (fun _ => hcalls) hended nofun ?_) rfl
    rintro hnone state ⟨⟩
    rw [hfailure]
    exact h.honest hnone _ hfailure
  | aborted hstate hbackend hreleased hunfailed =>
    rw [hbackend]
    dsimp only
    rw [drop_released hreleased]
    refine owes_consumed ⟨.refused rfl rfl, ?_⟩ rfl
    rintro hnone state ⟨⟩
    cases hfailure : w.failureState with
    | some known => exact h.honest hnone _ hfailure
    | none => exact ⟨fun _ => hunfailed hnone hfailure, nofun⟩

theorem commitStaged_ofScope (system : UnixTarget) (scope : Scope) (writer : UnixAtomicWriter I) :
    (LocalFileWriterBackend.ofScope scope writer).commitStaged system = (do
      match ← writer.commitRecoverableWithSync scope system with
      | .ok outcome => pure (.ok outcome)
      | .error ⟨error, retained⟩ =>
        pure (.error (error, retained.map (LocalFileWriterBackend.ofScope scope)))) := by
  cases scope <;> rfl

/-- A commit of a staging backend, whose writer may be retained as it was. -/
theorem ensures_commitStaged (h : Sound staging past w) (hended : ¬ ∃ f ∈ past, Ended f)
    (hfatal : ¬ ∃ f ∈ past, Fatal (fileView staging) f) (system : UnixTarget) (scope : Scope)
    {writer : UnixAtomicWriter I} {file : I}
    (hbackend : w.backend = some (.ofScope scope writer))
    (harmed : (LocalFileWriterBackend.ofScope scope writer).Armed staging)
    (hhandle : (LocalFileWriterBackend.ofScope scope writer).handle? = some file) :
    (w.commitStagedBackend system (.ofScope scope writer)).Ensures (FairCalls staging)
      (fun r calls => Owes staging past op (committed r) calls) [] := by
  obtain ⟨hstaging, hname⟩ := LocalFileWriterBackend.armed_ofScope.mp harmed
  obtain ⟨name, rfl⟩ := Option.isSome_iff_exists.mp hstaging
  have hfile := LocalFileWriterBackend.handle_ofScope.symm.trans hhandle
  unfold LocalFileWriter.commitStagedBackend
  rw [commitStaged_ofScope]
  refine ensures_tame (P := Tame) ?_ (fun _ hc => hc) fun tr r hrun hquiet => ?_
  · refine Prog.Makes.bind (Prog.Makes.bind (tame_commit system hname hfile) fun answer => ?_)
      fun answer => ?_
    · obtain ⟨_, _⟩ | _ := answer <;> trivial
    · obtain ⟨_, _⟩ | _ := answer <;> trivial
  obtain ⟨tr₁, tr₂, result, rfl, hcommit, hend⟩ := Prog.runs_bind.mp hrun
  obtain ⟨tr₃, tr₄, answer, rfl, hattempt, hanswer⟩ := Prog.runs_bind.mp hcommit
  match answer with
  | .ok sync =>
    obtain ⟨rfl, rfl⟩ := hanswer
    obtain ⟨rfl, rfl⟩ := hend
    refine owes_consumed
      (fileGuarantee_terminal hquiet (fun hf => absurd hf hfatal) hended ?_ nofun) rfl
    rintro outcome ⟨⟩
    exact h.count
  | .error ⟨error, retained⟩ =>
    obtain ⟨rfl, rfl⟩ := hanswer
    obtain ⟨rfl, rfl⟩ := hend
    refine ⟨fileGuarantee_terminal hquiet (fun hf => absurd hf hfatal) hended nofun nofun, ?_⟩
    intro w' hretained
    cases retained with
    | none => cases hretained
    | some writer' =>
      obtain ⟨rfl, -⟩ := UnixAtomicWriter.commit_retains hattempt
      obtain rfl : w = w' := by
        cases w
        cases hbackend
        exact Option.some.inj hretained
      exact h.idle (acceptedBy_of_tame hquiet) (fun _ _ => not_fatal_of_committed)
        fun _ => not_ended_of_committed

omit [DecidableEq I] in
theorem syncAppended_honest (h : Sound staging past w) {file : I} {tr : AtomicTrace I}
    {error : LocalFileCommitError I} (hrun : (w.syncAppended file).Runs tr (.error error)) :
    error.writer = none ∧ Honest error.failureState ((fileView staging).total past) := by
  unfold LocalFileWriter.syncAppended at hrun
  split at hrun
  next => cases hrun.2
  next =>
    obtain ⟨answer, rest, rfl, hend⟩ := hrun
    cases hend.2
  next =>
    obtain ⟨answer, rest, rfl, hend⟩ := hrun
    cases answer with
    | ok _ => cases hend.2
    | error _ =>
      cases hend.2
      exact ⟨rfl, honest_of_count h.count⟩

omit [DecidableEq I] in
/-- The commit of an append session that did not fail before. -/
theorem ensures_commitAppended (h : Sound none past w) (hended : ¬ ∃ f ∈ past, Ended f)
    (hfatal : ¬ ∃ f ∈ past, Fatal (fileView none) f) (hfailure : w.failureState = none)
    (file : I) : (w.commitAppended file).Ensures (FairCalls none)
      (fun r calls => Owes none past op (committed r) calls) [] := by
  unfold LocalFileWriter.commitAppended
  refine ensures_tame (P := Tame) ?_ (fun _ hc => hc) fun tr r hrun hquiet => ?_
  · refine Prog.Makes.bind (tame_native trivial) fun flushed => ?_
    cases flushed with
    | error error => trivial
    | ok _ =>
      refine Prog.Makes.bind ?_ fun synced => ?_
      · unfold LocalFileWriter.syncAppended
        split
        · trivial
        · exact Prog.Makes.bind (tame_native trivial) fun _ => trivial
        · refine Prog.Makes.bind (tame_native trivial) fun answer => ?_
          cases answer <;> trivial
      · obtain _ | ⟨_, _⟩ := synced <;> trivial
  -- nothing is written by a commit, so only its report matters
  have hguarantee {report} (hcounted) (hhonest) : FileGuarantee none past ⟨op, tr, report⟩ :=
    fileGuarantee_terminal hquiet (fun hf => absurd hf hfatal) hended hcounted fun _ => hhonest
  obtain ⟨tr₁, tr₂, flushed, rfl, -, hrest⟩ := Prog.runs_bind.mp hrun
  cases flushed with
  | error error =>
    obtain ⟨rfl, rfl⟩ := hrest
    refine owes_consumed (hguarantee nofun ?_) rfl
    rintro state ⟨⟩
    exact ⟨nofun, nofun⟩
  | ok _ =>
    obtain ⟨tr₃, tr₄, synced, rfl, hsync, hend⟩ := Prog.runs_bind.mp hrest
    cases synced with
    | error error =>
      obtain ⟨rfl, rfl⟩ := hend
      obtain ⟨hwriter, hhonest⟩ := syncAppended_honest h hsync
      refine owes_consumed (hguarantee nofun ?_) hwriter
      rintro state ⟨⟩
      exact hhonest
    | ok achieved =>
      obtain ⟨rfl, rfl⟩ := hend
      refine owes_consumed (hguarantee ?_ ?_) rfl
      · rintro outcome ⟨⟩
        exact h.count
      · intro state hstate
        rw [show reportedState _ = w.failureState from rfl, hfailure] at hstate
        cases hstate

theorem ensures_commit (h : Sound staging past w) (system : UnixTarget) :
    (w.commit system).Ensures (FairCalls staging)
      (fun r calls => Owes staging past op (committed r) calls) [] := by
  by_cases hclosed : w.state ≠ .opened ∨ w.failureState.isSome
  · exact ensures_refusedCommit h system hclosed
  rw [LocalFileWriter.commit, if_neg hclosed]
  obtain ⟨hstate, hnone⟩ := not_or.mp hclosed
  cases h.standing with
  | @usable backend file _ hfailure hbackend harmed hhandle hfatal hended =>
    rw [hbackend]
    cases backend with
    | staged writer => exact ensures_commitStaged h hended hfatal system .host hbackend harmed hhandle
    | rooted writer =>
      exact ensures_commitStaged h hended hfatal system .rooted hbackend harmed hhandle
    | append file' =>
      obtain rfl : staging = none := harmed
      exact ensures_commitAppended h hended hfatal hfailure file'
  | failed _ hfailed => exact absurd (by rw [hfailed]; rfl) hnone
  | aborted haborted => exact absurd (by rw [haborted]; decide) hstate

end Terminal

/-! ## 8. Sessions -/

section Runs

variable {I : Type} {staging : Option String} {past : List (FileExchange I)}
  {w : LocalFileWriter I}

/-- A writer over a backend that was just opened. -/
theorem sound_new {backend : LocalFileWriterBackend I} (h : OpenedBackend backend) (path : Path)
    (options : LocalWriteOptions) (publicPath : Path) (currentDirectory : Option Path) :
    Sound backend.staging? []
      ((LocalFileWriter.new path backend options).bindNamespace publicPath currentDirectory) := by
  obtain ⟨harmed, file, hhandle⟩ := h.armed
  refine ⟨rfl, nofun, .usable rfl rfl rfl harmed hhandle ?_ ?_⟩
  · rintro ⟨f, hf, -⟩
    cases hf
  · rintro ⟨f, hf, -⟩
    cases hf

variable [DecidableEq I]

/-- One step of a session: no operation panics, and each keeps its guarantee. -/
theorem operates (h : Sound staging past w) (system : UnixTarget) (op : Operation) :
    Operates (fun w op => LocalFileWriter.perform system w op) (fileView (I := I) staging).fair
      (Sound staging) (FileGuarantee staging) past w op := by
  have hkept {r : FileReport × LocalFileWriter I} {calls : AtomicTrace I}
      (hr : Leaves staging past op r calls) : Owes staging past op (r.1, some r.2) calls := by
    refine ⟨hr.1, ?_⟩
    rintro w' ⟨⟩
    exact hr.2
  cases op with
  | write buffer => exact .bind ((ensures_writeOnce h buffer).mono fun r calls hr => hkept hr)
  | writeVectored buffers =>
    exact .bind ((ensures_writeVectored h buffers).mono fun r calls hr => hkept hr)
  | writeIoSlices reserved buffers =>
    exact .bind ((ensures_writeIoSlices h reserved buffers).mono fun r calls hr => hkept hr)
  | flush => exact .bind ((ensures_flush h).mono fun r calls hr => hkept hr)
  | abort => exact .bind ((ensures_abort h).mono fun r calls hr => hkept hr)
  | commit => exact .bind ((ensures_commit h system).mono fun r calls hr => hr)

omit [DecidableEq I] in
/-- A session that no abort ended can still be aborted. -/
theorem Sound.abortable (h : Sound staging past w) (hended : ¬ ∃ f ∈ past, Ended f) :
    w.state = .opened ∧ ∃ backend, w.backend = some backend ∧ backend.Armed staging := by
  cases h.standing with
  | usable hstate _ hbackend harmed => exact ⟨hstate, _, hbackend, harmed⟩
  | failed hstate _ hbackend harmed => exact ⟨hstate, _, hbackend, harmed⟩
  | aborted _ _ _ _ habort => exact absurd habort hended

end Runs

end LocalFiles.Writer
