import LocalFiles.Atomic.Parents

/-!
# Durability — what a committed atomic write has synchronized

The order of the calls of a commit decides what a crash can take back: the staging file is
synchronized behind the last change of it and before it gets its final name, the directories behind
the last change of an entry.
-/

namespace LocalFiles.Atomic

open Interaction

/-! ## 1. Kinds of calls -/

inductive CallKind where
  | observes | alters | syncsFile | syncsParents | mutates
  deriving DecidableEq, Repr

section Kinds

variable {I : Type}

/-- What a call does to the staging file and to the entries of the directory. -/
def callKind : Syscall String I (AtomicCall I) → CallKind
  | .stat _ | .openRead _ | .fileStat _ | .randomName => .observes
  | .createExclusive _ | .rename _ _ | .renameNoReplace _ _ | .renameExchange _ _ | .link _ _
  | .unlink _ => .mutates
  | .inert o => match o with
    | .write _ _ | .writeVectored _ _ | .preserveMetadata _ _ | .setPermissions _ => .alters
    | .syncFile _ => .syncsFile
    | .syncParent | .syncDirectory _ => .syncsParents
    | .flush _ | .prepareParent | .clearNonblocking _ | .representable _ | .isSymlink _
    | .panic _ => .observes

abbrev AtomicTrace (I : Type) := List (AtomicEvent I)

/-- Every call of the trace is of one of the kinds. -/
def OfKinds (kinds : List CallKind) (tr : AtomicTrace I) : Prop :=
  ∀ ev ∈ tr, callKind ev.call ∈ kinds

theorem ofKinds_nil (kinds : List CallKind) : OfKinds kinds ([] : AtomicTrace I) :=
  fun _ h => absurd h List.not_mem_nil

theorem ofKinds_append {kinds : List CallKind} {tr more : AtomicTrace I} :
    OfKinds kinds (tr ++ more) ↔ OfKinds kinds tr ∧ OfKinds kinds more :=
  List.forall_mem_append

theorem ofKinds_singleton {kinds : List CallKind} {ev : AtomicEvent I}
    (h : callKind ev.call ∈ kinds) : OfKinds kinds [ev] := by
  intro ev' hev
  rwa [List.mem_singleton.mp hev]

theorem OfKinds.mono {kinds kinds' : List CallKind} {tr : AtomicTrace I} (h : OfKinds kinds tr)
    (hsub : kinds ⊆ kinds') : OfKinds kinds' tr := fun ev hev => hsub (h ev hev)

/-- A program that only makes calls of the kinds. -/
def Confined {α : Type} (kinds : List CallKind) (p : AtomicM I α) : Prop :=
  p.Makes fun c => callKind c ∈ kinds

theorem Confined.ofKinds {α : Type} {kinds : List CallKind} {p : AtomicM I α}
    {tr : AtomicTrace I} {a : α} (h : Confined kinds p) (hrun : p.Runs tr a) : OfKinds kinds tr :=
  h.calls hrun

theorem Confined.mono {α : Type} {kinds kinds' : List CallKind} {p : AtomicM I α}
    (h : Confined kinds p) (hsub : kinds ⊆ kinds') : Confined kinds' p :=
  Prog.Makes.mono h fun _ hc => hsub hc

theorem confined_native {kinds : List CallKind} {c : Syscall String I (AtomicCall I)}
    (h : kinds.contains (callKind c) = true) :
    Confined kinds (native c : AtomicM I (c.Result AtomicCall.Result)) :=
  ⟨List.mem_of_elem_eq_true h, fun _ => trivial⟩

/-- A program that only looks. -/
abbrev Observes {α : Type} (p : AtomicM I α) : Prop := Confined [.observes] p

theorem observes_expectSome {α : Type} (value : Option α) (message : String) :
    Observes (expectSome value message : AtomicM I α) := by
  cases value with
  | some a => trivial
  | none => exact ⟨List.mem_cons_self, nofun⟩

theorem observes_handle (scope : Scope) (staged : StagedFile I) :
    Observes (staged.handle scope) := by
  cases scope <;> exact observes_expectSome _ _

theorem observes_armedName (scope : Scope) (staged : StagedFile I) :
    Observes (staged.armedName scope) := by
  cases scope <;> exact observes_expectSome _ _

theorem observes_temporaryPath (scope : Scope) (staged : StagedFile I) :
    Observes (staged.temporaryPath scope) := by
  cases scope with
  | host => exact Prog.Makes.bind (observes_armedName .host staged) fun _ => trivial
  | rooted => trivial

/-! ## 2. The looks at the destination -/

/-- A call that looks at an entry or at an open file. -/
def looksAt : Syscall String I (AtomicCall I) → Bool
  | .stat _ | .openRead _ | .fileStat _ => true
  | .inert o => match o with
    | .clearNonblocking _ | .representable _ | .isSymlink _ => true
    | _ => false
  | _ => false

abbrev Looks {α : Type} (p : AtomicM I α) : Prop := p.Makes fun c => looksAt c = true

theorem looks_native {c : Syscall String I (AtomicCall I)} (h : looksAt c = true) :
    Looks (native c : AtomicM I (c.Result AtomicCall.Result)) :=
  ⟨h, fun _ => trivial⟩

theorem callKind_of_looksAt {c : Syscall String I (AtomicCall I)} (h : looksAt c = true) :
    callKind c = .observes := by
  unfold looksAt at h
  split at h
  · rfl
  · rfl
  · rfl
  · split at h
    · rfl
    · rfl
    · rfl
    · cases h
  · cases h

theorem Looks.observes {α : Type} {p : AtomicM I α} (h : Looks p) : Observes p :=
  Prog.Makes.mono h fun _ hc => List.mem_singleton.mpr (callKind_of_looksAt hc)

theorem looks_openRetries (name : String) (timeout attempts : Nat) :
    Looks (openRetries name timeout attempts : AtomicM I (IoResult I)) := by
  induction attempts with
  | zero => trivial
  | succ more ih =>
    unfold openRetries
    refine Prog.Makes.bind (looks_native rfl) fun answer => ?_
    cases answer with
    | ok file => trivial
    | error error =>
      dsimp only
      split
      · exact ih
      · trivial

theorem looks_openWithNonblockingRetry (retry : Option OpenRetryTimeout) (name : String) :
    Looks (openWithNonblockingRetry retry name : AtomicM I (IoResult I)) := by
  unfold openWithNonblockingRetry
  refine Prog.Makes.bind (looks_native rfl) fun answer => ?_
  cases answer with
  | ok file => trivial
  | error error =>
    dsimp only
    split
    · cases retry with
      | none => trivial
      | some retry => exact looks_openRetries name retry.timeout retry.attempts
    · trivial

theorem looks_fromFile (file : I) : Looks (OpenedAtomicDestination.fromFile file) := by
  refine Prog.Makes.andThen (looks_native rfl) fun status => ?_
  split
  · trivial
  · exact Prog.Makes.andThen (looks_native rfl) fun _ => trivial

theorem looks_openDestinationWithRetry (retry : Option OpenRetryTimeout) (name : String) :
    Looks (openDestinationWithRetry retry name :
      AtomicM I (IoResult (Option (OpenedAtomicDestination I)))) := by
  refine Prog.Makes.bind (looks_openWithNonblockingRetry retry name) fun answer => ?_
  cases answer with
  | ok file => exact Prog.Makes.andThen (looks_fromFile file) fun _ => trivial
  | error error =>
    dsimp only
    split
    · trivial
    split <;> trivial

theorem looks_destinationStatus (name : String) :
    Looks (destinationStatus name : AtomicM I (IoResult (Option (Status I)))) := by
  refine Prog.Makes.bind (looks_native rfl) fun answer => ?_
  cases answer with
  | ok status => trivial
  | error error =>
    dsimp only
    split <;> trivial

theorem looks_nativeIdentity (scope : Scope) (identity : I) :
    Looks (nativeIdentity scope identity) := by
  cases scope with
  | host => trivial
  | rooted => exact looks_native rfl

/-- What follows the status of the destination looks only, when it does so for an entry. -/
theorem looks_withStatus {α : Type} (name : String)
    {continuation : Option (Status I) → AtomicM I (IoResult α)}
    (hnone : Looks (continuation none)) (hsome : ∀ status, Looks (continuation (some status))) :
    Looks ((destinationStatus name).andThen continuation) := by
  refine Prog.Makes.andThen (looks_destinationStatus name) fun status => ?_
  cases status with
  | none => exact hnone
  | some status => exact hsome status

/-- An entry that is refused is not asked for its identity. -/
theorem looks_identityUnless {α : Type} {refused : Prop} [Decidable refused] (scope : Scope)
    (identity : I) (refusal found : IoResult α) :
    Looks (if refused then pure refusal
      else (nativeIdentity scope identity).andThen fun _ => pure found) := by
  split
  · trivial
  · exact Prog.Makes.andThen (looks_nativeIdentity scope identity) fun _ => trivial

theorem looks_statDestination (scope : Scope) (name : String) :
    Looks (statDestination scope name :
      AtomicM I (IoResult (Option (OpenedAtomicDestination I)))) := by
  unfold statDestination
  exact looks_withStatus name trivial fun _ => looks_identityUnless scope _ _ _

theorem looks_openAtomicDestination (scope : Scope) (retry : Option OpenRetryTimeout)
    (policy : LocalWriteMetadataPolicy) (name : String) :
    Looks (openAtomicDestination scope retry policy name :
      AtomicM I (IoResult (Option (OpenedAtomicDestination I)))) := by
  cases policy with
  | useStaging => exact looks_statDestination scope name
  | preserveExisting => exact looks_openDestinationWithRetry retry name

theorem looks_inspectDestination (refused : IoError) (replaceTargetSymlink : Bool)
    (name : String) :
    Looks (inspectDestination refused replaceTargetSymlink name :
      AtomicM I (IoResult (Bool × Bool))) := by
  unfold inspectDestination
  refine looks_withStatus name trivial fun status => ?_
  dsimp only
  split
  · trivial
  split
  · trivial
  · refine Prog.Makes.bind (looks_native rfl) fun isSymlink => ?_
    split <;> trivial

theorem looks_mismatchState (scope : Scope) (name : String) :
    Looks (mismatchState scope name : AtomicM I LocalAtomicDestinationState) := by
  cases scope with
  | host =>
    refine Prog.Makes.bind (looks_destinationStatus name) fun answer => ?_
    split <;> trivial
  | rooted =>
    refine Prog.Makes.bind (looks_inspectDestination _ _ name) fun answer => ?_
    split <;> trivial

variable [DecidableEq I]

theorem looks_destinationIdentityMatches (scope : Scope) (name : String)
    (destination : OpenedAtomicDestination I) :
    Looks (destinationIdentityMatches scope name destination) := by
  unfold destinationIdentityMatches
  exact looks_withStatus name trivial fun _ => looks_identityUnless scope _ _ _

theorem looks_verifyAtomicDestinationIdentity (scope : Scope) (name : String)
    (destination : OpenedAtomicDestination I) (path temporaryPath : Path) :
    Looks (verifyAtomicDestinationIdentity scope name destination path temporaryPath) := by
  refine Prog.Makes.bind (looks_destinationIdentityMatches scope name destination)
    fun answer => ?_
  cases answer with
  | error error => trivial
  | ok same =>
    cases same with
    | true => trivial
    | false => exact Prog.Makes.bind (looks_mismatchState scope name) fun _ => trivial

end Kinds

/-! ## 3. The steps of an attempt -/

namespace UnixAtomicWriter

variable {I : Type} (scope : Scope) (w : UnixAtomicWriter I)

theorem observes_openDestinationForCommit : Observes (w.openDestinationForCommit scope) := by
  unfold openDestinationForCommit
  split
  · trivial
  · refine Prog.Makes.bind (observes_temporaryPath scope _) fun temporaryPath => ?_
    refine Prog.Makes.bind (looks_openAtomicDestination scope _ _ _).observes fun answer => ?_
    cases answer with
    | error error => trivial
    | ok destination => cases destination <;> trivial

theorem confined_applyDestinationMetadata (destination : Option (OpenedAtomicDestination I)) :
    Confined [.observes, .alters] (w.applyDestinationMetadata scope destination) := by
  unfold applyDestinationMetadata
  split
  · trivial
  · refine Prog.Makes.bind ((observes_handle scope _).mono (by decide)) fun staging => ?_
    refine Prog.Makes.bind (confined_native rfl) fun result => ?_
    exact Prog.Makes.bind ((observes_temporaryPath scope _).mono (by decide)) fun _ => trivial

theorem confined_applyCopyPermissions :
    Confined [.observes, .alters] (w.applyCopyPermissions scope) := by
  cases scope with
  | host => trivial
  | rooted =>
    unfold applyCopyPermissions
    dsimp only
    split
    · trivial
    · refine Prog.Makes.bind ((observes_handle .rooted _).mono (by decide)) fun staging => ?_
      exact Prog.Makes.bind (confined_native rfl) fun _ => trivial

/-- The one synchronization of the staging file: not asked for, done, or failed where a failure is
    tolerated. -/
inductive FileSyncRun (w : UnixAtomicWriter I) (file : I) : AtomicTrace I → Bool → Prop where
  | notRequired (h : stagingRequirement w.durability w.fileSync = .notRequired) :
      FileSyncRun w file [] false
  | synced (h : stagingRequirement w.durability w.fileSync ≠ .notRequired) :
      FileSyncRun w file [⟨.inert (.syncFile file), (.ok () : IoResult Unit)⟩] true
  | failed (error : IoError) (h : stagingRequirement w.durability w.fileSync = .preferred) :
      FileSyncRun w file [⟨.inert (.syncFile file), (.error error : IoResult Unit)⟩] false

variable {scope w}

theorem FileSyncRun.kinds {file : I} {tr : AtomicTrace I} {fileSynced : Bool}
    (h : FileSyncRun w file tr fileSynced) : OfKinds [.syncsFile] tr := by
  cases h with
  | notRequired _ => exact ofKinds_nil _
  | synced _ => exact ofKinds_singleton List.mem_cons_self
  | failed _ _ => exact ofKinds_singleton List.mem_cons_self

theorem runs_expectSome {α : Type} {value : Option α} {message : String} {tr : AtomicTrace I}
    {a : α} (h : (expectSome value message : AtomicM I α).Runs tr a) : tr = [] ∧ value = some a := by
  cases value with
  | none =>
    obtain ⟨answer, -⟩ := h
    cases answer
  | some b =>
    obtain ⟨rfl, rfl⟩ := h
    exact ⟨rfl, rfl⟩

theorem runs_handle {staged : StagedFile I} {tr : AtomicTrace I} {file : I}
    (h : (staged.handle scope).Runs tr file) : tr = [] ∧ staged.file = some file := by
  cases scope <;> exact runs_expectSome h

theorem runs_armedName {staged : StagedFile I} {tr : AtomicTrace I} {name : String}
    (h : (staged.armedName scope).Runs tr name) : tr = [] ∧ staged.name = some name := by
  cases scope <;> exact runs_expectSome h

theorem runs_temporaryPath {staged : StagedFile I} {tr : AtomicTrace I} {path : Path}
    (h : (staged.temporaryPath scope).Runs tr path) : tr = [] := by
  cases scope with
  | host =>
    obtain ⟨tr₁, tr₂, name, rfl, hname, rfl, -⟩ := Prog.runs_bind.mp h
    rw [(runs_armedName hname).1]
    rfl
  | rooted => exact h.1

theorem syncTemporaryFile_runs {file : I} (hfile : w.stagedFile.file = some file)
    {tr : AtomicTrace I} {fileSynced : Bool}
    (h : (w.syncTemporaryFile scope).Runs tr (.ok fileSynced)) :
    FileSyncRun w file tr fileSynced := by
  obtain ⟨tr₁, tr₂, temporaryPath, rfl, hpath, hsync⟩ := Prog.runs_bind.mp h
  obtain ⟨tr₃, tr₄, handle, rfl, hhandle, hbody⟩ := Prog.runs_bind.mp hsync
  obtain ⟨rfl, hsome⟩ := runs_handle hhandle
  rw [hfile] at hsome
  obtain rfl := Option.some.inj hsome
  rw [runs_temporaryPath hpath, List.nil_append, List.nil_append]
  cases hrequirement : stagingRequirement w.durability w.fileSync with
  | notRequired =>
    rw [hrequirement] at hbody
    obtain ⟨rfl, ⟨⟩⟩ := hbody
    exact .notRequired hrequirement
  | preferred =>
    rw [hrequirement] at hbody
    obtain ⟨answer, rest, rfl, hrest⟩ := hbody
    cases answer with
    | ok _ =>
      obtain ⟨rfl, ⟨⟩⟩ := hrest
      exact .synced (by rw [hrequirement]; decide)
    | error error =>
      obtain ⟨rfl, ⟨⟩⟩ := hrest
      exact .failed error hrequirement
  | required =>
    rw [hrequirement] at hbody
    obtain ⟨answer, rest, rfl, hrest⟩ := hbody
    cases answer with
    | ok _ =>
      obtain ⟨rfl, ⟨⟩⟩ := hrest
      exact .synced (by rw [hrequirement]; decide)
    | error error => cases hrest.2

theorem confined_syncTemporaryFile :
    Confined [.observes, .syncsFile] (w.syncTemporaryFile scope) := by
  unfold syncTemporaryFile synchronizeStagingFile
  refine Prog.Makes.bind ((observes_temporaryPath scope _).mono (by decide)) fun temporaryPath => ?_
  refine Prog.Makes.bind ((observes_handle scope _).mono (by decide)) fun handle => ?_
  split
  · trivial
  · refine Prog.Makes.bind (confined_native rfl) fun answer => ?_
    cases answer <;> trivial
  · refine Prog.Makes.bind (confined_native rfl) fun answer => ?_
    cases answer <;> trivial

variable [DecidableEq I]

theorem observes_verifyDestinationForCommit (destination : Option (OpenedAtomicDestination I)) :
    Observes (w.verifyDestinationForCommit scope destination) := by
  cases destination with
  | none => trivial
  | some destination =>
    refine Prog.Makes.bind (observes_temporaryPath scope _) fun temporaryPath => ?_
    exact (looks_verifyAtomicDestinationIdentity scope _ destination _ _).observes

/-- Before the installation an attempt changes no entry. -/
theorem confined_prepareCommit :
    Confined [.observes, .alters, .syncsFile] (w.prepareCommit scope) := by
  refine Prog.Makes.andThen
    ((observes_openDestinationForCommit scope w).mono (by decide)) fun destination => ?_
  refine Prog.Makes.andThen
    ((confined_applyDestinationMetadata scope w destination).mono (by decide)) fun _ => ?_
  refine Prog.Makes.andThen
    ((confined_applyCopyPermissions scope w).mono (by decide)) fun _ => ?_
  refine Prog.Makes.andThen (confined_syncTemporaryFile.mono (by decide)) fun fileSynced => ?_
  exact Prog.Makes.andThen
    ((observes_verifyDestinationForCommit destination).mono (by decide)) fun _ => trivial

/-- The staging file is synchronized behind its last change. -/
theorem prepareCommit_runs {file : I} (hfile : w.stagedFile.file = some file)
    {tr : AtomicTrace I} {fileSynced : Bool}
    (h : (w.prepareCommit scope).Runs tr (.ok fileSynced)) :
    ∃ before sync after, tr = before ++ (sync ++ after) ∧ OfKinds [.observes, .alters] before ∧
      FileSyncRun w file sync fileSynced ∧ OfKinds [.observes] after := by
  rcases Prog.runs_andThen.mp h with ⟨e, ⟨⟩, -⟩ | ⟨tr₁, rest₁, destination, rfl, hopen, h₁⟩
  rcases Prog.runs_andThen.mp h₁ with ⟨e, ⟨⟩, -⟩ | ⟨tr₂, rest₂, a, rfl, hmetadata, h₂⟩
  rcases Prog.runs_andThen.mp h₂ with ⟨e, ⟨⟩, -⟩ | ⟨tr₃, rest₃, b, rfl, hpermissions, h₃⟩
  rcases Prog.runs_andThen.mp h₃ with ⟨e, ⟨⟩, -⟩ | ⟨tr₄, rest₄, c, rfl, hsync, h₄⟩
  rcases Prog.runs_andThen.mp h₄ with ⟨e, ⟨⟩, -⟩ | ⟨tr₅, rest₅, d, rfl, hverify, hend⟩
  obtain ⟨rfl, ⟨⟩⟩ := hend
  refine ⟨tr₁ ++ (tr₂ ++ tr₃), tr₄, tr₅ ++ [], ?_, ?_, syncTemporaryFile_runs hfile hsync, ?_⟩
  · simp only [List.append_assoc]
  · rw [ofKinds_append, ofKinds_append]
    have hopened := (observes_openDestinationForCommit scope w).ofKinds hopen
    exact ⟨hopened.mono (by decide),
      (confined_applyDestinationMetadata scope w destination).ofKinds hmetadata,
      (confined_applyCopyPermissions scope w).ofKinds hpermissions⟩
  · rw [List.append_nil]
    exact (observes_verifyDestinationForCommit destination).ofKinds hverify

end UnixAtomicWriter

/-! ## 4. The synchronization of the directories -/

section Chain

variable {I : Type}

/-- The destination's parent was synchronized. -/
def parentSynced : AtomicEvent I := ⟨.inert .syncParent, (.ok () : IoResult Unit)⟩

/-- The directory that the writer keeps as `directory` was synchronized. -/
def directorySynced (directory : Path) : AtomicEvent I :=
  ⟨.inert (.syncDirectory directory), (.ok () : IoResult Unit)⟩

theorem directorySynced_injective {d d' : Path}
    (h : (directorySynced d : AtomicEvent I) = directorySynced d') : d = d' := by
  cases h
  rfl

/-- The directories are synchronized one after the other up to the first failure. -/
theorem syncDirectories_runs {dirs : List Path} {tr : AtomicTrace I} {r : IoResult Unit}
    (h : (syncDirectories dirs).Runs tr r) :
    OfKinds [.syncsParents] tr ∧ (∀ d, directorySynced d ∈ tr → d ∈ dirs) ∧
      (r = .ok () → ∀ d ∈ dirs, directorySynced d ∈ tr) ∧
      ((∃ e, r = .error e) → dirs.Nodup → ∃ d ∈ dirs, directorySynced d ∉ tr) := by
  induction dirs generalizing tr with
  | nil =>
    obtain ⟨rfl, rfl⟩ := h
    exact ⟨ofKinds_nil _, nofun, fun _ => nofun, nofun⟩
  | cons directory rest ih =>
    rcases Prog.runs_andThen.mp h with ⟨e, rfl, hsync⟩ | ⟨tr₁, tr₂, a, rfl, hsync, hrest⟩
    · obtain rfl := Prog.runs_request.mp hsync
      refine ⟨ofKinds_singleton List.mem_cons_self, ?_, nofun,
        fun _ _ => ⟨directory, List.mem_cons_self, ?_⟩⟩
      · intro d hmem
        cases List.mem_singleton.mp hmem
      · intro hmem
        cases List.mem_singleton.mp hmem
    · obtain rfl := Prog.runs_request.mp hsync
      obtain ⟨hkinds, hof, hok, herror⟩ := ih hrest
      refine ⟨?_, ?_, ?_, ?_⟩
      · rw [ofKinds_append]
        exact ⟨ofKinds_singleton List.mem_cons_self, hkinds⟩
      · intro d hmem
        rcases List.mem_append.mp hmem with hmem | hmem
        · rw [directorySynced_injective (List.mem_singleton.mp hmem)]
          exact List.mem_cons_self
        · exact List.mem_cons_of_mem _ (hof d hmem)
      · intro hr d hd
        rcases List.mem_cons.mp hd with rfl | hd
        · exact List.mem_cons_self
        · exact List.mem_append_right _ (hok hr d hd)
      · intro hr hnodup
        rw [List.nodup_cons] at hnodup
        obtain ⟨d, hd, hnot⟩ := herror hr hnodup.2
        refine ⟨d, List.mem_cons_of_mem _ hd, ?_⟩
        intro hmem
        rcases List.mem_append.mp hmem with hmem | hmem
        · obtain rfl := directorySynced_injective (List.mem_singleton.mp hmem)
          exact hnodup.1 hd
        · exact hnot hmem

/-- The chain succeeds exactly when each of its directories was synchronized. -/
theorem syncParentChain_runs {dirs : List Path} (hnodup : dirs.Nodup) {tr : AtomicTrace I}
    {r : IoResult Unit} (h : (syncParentChain dirs).Runs tr r) :
    OfKinds [.syncsParents] tr ∧ (∀ d, directorySynced d ∈ tr → d ∈ dirs) ∧
      (r = .ok () ↔ parentSynced ∈ tr ∧ ∀ d ∈ dirs, directorySynced d ∈ tr) := by
  rcases Prog.runs_andThen.mp h with ⟨e, rfl, hsync⟩ | ⟨tr₁, tr₂, a, rfl, hsync, hrest⟩
  · obtain rfl := Prog.runs_request.mp hsync
    refine ⟨ofKinds_singleton List.mem_cons_self, ?_, nofun, ?_⟩
    · intro d hmem
      cases List.mem_singleton.mp hmem
    · rintro ⟨hmem, -⟩
      cases List.mem_singleton.mp hmem
  · obtain rfl := Prog.runs_request.mp hsync
    obtain ⟨hkinds, hof, hok, herror⟩ := syncDirectories_runs hrest
    refine ⟨?_, ?_, ?_, ?_⟩
    · rw [ofKinds_append]
      exact ⟨ofKinds_singleton List.mem_cons_self, hkinds⟩
    · intro d hmem
      rcases List.mem_append.mp hmem with hmem | hmem
      · cases List.mem_singleton.mp hmem
      · exact List.mem_reverse.mp (hof d hmem)
    · intro hr
      exact ⟨List.mem_cons_self, fun d hd =>
        List.mem_append_right _ (hok hr d (List.mem_reverse.mpr hd))⟩
    · rintro ⟨-, hall⟩
      cases r with
      | ok _ => rfl
      | error e =>
        obtain ⟨d, hd, hnot⟩ := herror ⟨e, rfl⟩ (List.nodup_reverse.mpr hnodup)
        rcases List.mem_append.mp (hall d (List.mem_reverse.mp hd)) with hmem | hmem
        · cases List.mem_singleton.mp hmem
        · exact absurd hmem hnot

end Chain

namespace UnixAtomicWriter

variable {I : Type} {scope : Scope} {w : UnixAtomicWriter I}

/-- The synchronization of the directories behind an installation: not asked for, done, or failed
    where a failure is tolerated. -/
inductive ChainRun (durability : LocalDurabilityRequirement) (dirs : List Path) :
    AtomicTrace I → Bool → Prop where
  | notRequired (h : durability = .notRequired) : ChainRun durability dirs [] false
  | synced {tr : AtomicTrace I} (h : durability ≠ .notRequired)
      (hrun : (syncParentChain dirs).Runs tr (.ok ())) : ChainRun durability dirs tr true
  | failed {tr : AtomicTrace I} (error : IoError) (h : durability = .preferred)
      (hrun : (syncParentChain dirs).Runs tr (.error error)) : ChainRun durability dirs tr false

/-- The shape that both ends of an installation share. -/
def syncAsRequired (durability : LocalDurabilityRequirement) (sync : AtomicM I (IoResult Unit))
    (failure : IoError → LocalAtomicWriteError) : AtomicM I (Except LocalAtomicWriteError Bool) :=
  match durability with
  | .notRequired => pure (.ok false)
  | .preferred => do
    match ← sync with
    | .ok () => pure (.ok true)
    | .error _ => pure (.ok false)
  | .required => do
    match ← sync with
    | .ok () => pure (.ok true)
    | .error error => pure (.error (failure error))

theorem finishPublished_eq (context : AtomicInstallRecovery)
    (durability : LocalDurabilityRequirement) (sync : AtomicM I (IoResult Unit)) :
    context.finishPublished durability sync = syncAsRequired durability sync fun error =>
      ⟨.syncParent, context.path, some context.temporaryPath, context.destinationState, error,
        none, none⟩ := by
  cases durability <;> rfl

theorem finishInstalled_eq (temporaryPath : Path) :
    w.finishInstalled temporaryPath =
      syncAsRequired w.durability (syncParentChain w.parentDirsToSync) fun error =>
        ⟨.syncParent, w.path, some temporaryPath, .replaced, error, none, none⟩ := by
  unfold finishInstalled
  cases w.durability <;> rfl

theorem syncAsRequired_runs {durability : LocalDurabilityRequirement} {dirs : List Path}
    {failure : IoError → LocalAtomicWriteError} {tr : AtomicTrace I} {durable : Bool}
    (h : (syncAsRequired durability (syncParentChain dirs) failure).Runs tr (.ok durable)) :
    ChainRun durability dirs tr durable := by
  cases durability with
  | notRequired =>
    obtain ⟨rfl, ⟨⟩⟩ := h
    exact .notRequired rfl
  | preferred =>
    obtain ⟨tr₁, tr₂, answer, rfl, hchain, hend⟩ := Prog.runs_bind.mp h
    cases answer with
    | ok _ =>
      obtain ⟨rfl, ⟨⟩⟩ := hend
      rw [List.append_nil]
      exact .synced (by decide) hchain
    | error error =>
      obtain ⟨rfl, ⟨⟩⟩ := hend
      rw [List.append_nil]
      exact .failed error rfl hchain
  | required =>
    obtain ⟨tr₁, tr₂, answer, rfl, hchain, hend⟩ := Prog.runs_bind.mp h
    cases answer with
    | ok _ =>
      obtain ⟨rfl, ⟨⟩⟩ := hend
      rw [List.append_nil]
      exact .synced (by decide) hchain
    | error error => cases hend.2

end UnixAtomicWriter

/-! ## 5. The installation -/

section Installation

variable {I : Type}

/-- The event gave a file the final name. -/
def Installs (name : String) (ev : AtomicEvent I) : Prop :=
  ∃ staging, ev = ⟨.rename staging name, (.ok () : IoResult Unit)⟩ ∨
    ev = ⟨.renameNoReplace staging name, (.ok () : IoResult Unit)⟩ ∨
    ev = ⟨.link staging name, (.ok () : IoResult Unit)⟩

/-- Where the destination was reached, the final name was given; and a failed installation never
    leaves the staging name in doubt. -/
structure InstallRun (name : String) (tr : AtomicTrace I) (r : Except InstallFailure Unit) :
    Prop where
  kinds : OfKinds [.mutates] tr
  installs : (r = .ok () ∨ ∃ source staging, r = .error (source, .replaced, staging)) →
    ∃ ev ∈ tr, Installs name ev
  present : ∀ source state staging, r = .error (source, state, staging) → staging = .present

theorem installRun_unchanged {name : String} {tr : AtomicTrace I} {error : IoError}
    (h : OfKinds [.mutates] tr) : InstallRun name tr (.error (unchangedError error)) where
  kinds := h
  installs := by
    rintro (⟨⟨⟩⟩ | ⟨source, staging, ⟨⟩⟩)
  present := by
    rintro source state staging ⟨⟩
    rfl

theorem confined_unlinkAttempts (staging : String) (more : Nat) :
    Confined [.mutates] (unlinkAttempts staging more : AtomicM I (IoResult Unit)) := by
  induction more with
  | zero =>
    refine Prog.Makes.bind (confined_native rfl) fun answer => ?_
    cases answer with
    | ok _ => trivial
    | error error =>
      dsimp only
      split <;> trivial
  | succ more ih =>
    refine Prog.Makes.bind (confined_native rfl) fun answer => ?_
    cases answer with
    | ok _ => trivial
    | error error =>
      dsimp only
      split
      · trivial
      · exact ih

theorem linkThenUnlink_runs {staging name : String} {tr : AtomicTrace I}
    {r : Except InstallFailure Unit} (h : (linkThenUnlink staging name).Runs tr r) :
    InstallRun name tr r := by
  obtain ⟨answer, rest, rfl, hrest⟩ := h
  cases answer with
  | error error =>
    obtain ⟨rfl, rfl⟩ := hrest
    exact installRun_unchanged (ofKinds_singleton List.mem_cons_self)
  | ok _ =>
    dsimp only [Prog.bind] at hrest
    obtain ⟨tr₁, tr₂, unlinked, rfl, hunlink, hend⟩ := Prog.runs_bind.mp hrest
    have hkinds := (confined_unlinkAttempts staging _).ofKinds hunlink
    have hnil : tr₂ = [] := by
      cases unlinked <;> exact hend.1
    obtain rfl := hnil
    refine ⟨?_, ?_, ?_⟩
    · rw [List.append_nil]
      exact List.forall_mem_cons.mpr ⟨List.mem_cons_self, hkinds⟩
    · exact fun _ => ⟨_, List.mem_cons_self, staging, .inr (.inr rfl)⟩
    · intro source state stagingState hr
      cases unlinked with
      | ok _ => rw [hend.2] at hr; cases hr
      | error error =>
        rw [hend.2] at hr
        cases hr
        rfl

/-- A call that alone gives the final name. -/
theorem installRun_named {name : String} {ev : AtomicEvent I} (h : Installs name ev) :
    InstallRun name [ev] (.ok ()) where
  kinds := by
    obtain ⟨staging, rfl | rfl | rfl⟩ := h <;> exact ofKinds_singleton List.mem_cons_self
  installs := fun _ => ⟨ev, List.mem_cons_self, h⟩
  present := nofun

theorem InstallRun.cons {name : String} {ev : AtomicEvent I} {tr : AtomicTrace I}
    {r : Except InstallFailure Unit} (hev : callKind ev.call = .mutates) (h : InstallRun name tr r) :
    InstallRun name (ev :: tr) r where
  kinds := List.forall_mem_cons.mpr ⟨List.mem_singleton.mpr hev, h.kinds⟩
  installs := by
    intro hr
    obtain ⟨ev', hmem, hinstalls⟩ := h.installs hr
    exact ⟨ev', List.mem_cons_of_mem _ hmem, hinstalls⟩
  present := h.present

theorem installNewAtomicFileAt_runs {system : UnixTarget} {staging name : String}
    {tr : AtomicTrace I} {r : Except InstallFailure Unit}
    (h : (installNewAtomicFileAt system staging name).Runs tr r) : InstallRun name tr r := by
  cases system with
  | linux =>
    obtain ⟨answer, rest, rfl, hrest⟩ := h
    cases answer with
    | ok _ =>
      obtain ⟨rfl, rfl⟩ := hrest
      exact installRun_named ⟨staging, .inr (.inl rfl)⟩
    | error error =>
      dsimp only [Prog.bind] at hrest
      split at hrest
      · exact (linkThenUnlink_runs hrest).cons rfl
      · obtain ⟨rfl, rfl⟩ := hrest
        exact installRun_unchanged (ofKinds_singleton List.mem_cons_self)
  | macos =>
    obtain ⟨answer, rest, rfl, hrest⟩ := h
    cases answer with
    | ok _ =>
      obtain ⟨rfl, rfl⟩ := hrest
      exact installRun_named ⟨staging, .inr (.inl rfl)⟩
    | error error =>
      obtain ⟨rfl, rfl⟩ := hrest
      exact installRun_unchanged (ofKinds_singleton List.mem_cons_self)
  | freebsd => exact linkThenUnlink_runs h
  | other =>
    obtain ⟨rfl, rfl⟩ := h
    exact installRun_unchanged (ofKinds_nil _)

theorem replaceExisting_runs {staging name : String} {tr : AtomicTrace I}
    {r : Except InstallFailure Unit} (h : (replaceExisting staging name).Runs tr r) :
    InstallRun name tr r := by
  obtain ⟨answer, rest, rfl, hrest⟩ := h
  cases answer with
  | ok _ =>
    obtain ⟨rfl, rfl⟩ := hrest
    exact installRun_named ⟨staging, .inl rfl⟩
  | error error =>
    obtain ⟨rfl, rfl⟩ := hrest
    exact installRun_unchanged (ofKinds_singleton List.mem_cons_self)

theorem nativePath_ok {name path : String} (h : nativePath name = .ok path) : path = name := by
  unfold nativePath at h
  split at h
  · cases h
  · cases h
    rfl

theorem installNewAtomicFile_runs {system : UnixTarget} {staging name : String}
    {tr : AtomicTrace I} {r : Except InstallFailure Unit}
    (h : (installNewAtomicFile system staging name).Runs tr r) : InstallRun name tr r := by
  unfold installNewAtomicFile at h
  split at h
  · obtain ⟨rfl, rfl⟩ := h
    exact installRun_unchanged (ofKinds_nil _)
  · obtain ⟨rfl, rfl⟩ := h
    exact installRun_unchanged (ofKinds_nil _)
  next hname =>
    rw [nativePath_ok hname] at h
    exact installNewAtomicFileAt_runs h

theorem install_runs {scope : Scope} {system : UnixTarget} {staging name : String}
    {destinationExisted : Bool} {tr : AtomicTrace I} {r : Except InstallFailure Unit}
    (h : (scope.install system staging name destinationExisted).Runs tr r) :
    InstallRun name tr r := by
  cases scope with
  | host =>
    simp only [Scope.install, installAtomicFile] at h
    split at h
    · exact replaceExisting_runs h
    · exact installNewAtomicFile_runs h
  | rooted =>
    simp only [Scope.install, installRootedAtomicFile] at h
    split at h
    · exact replaceExisting_runs h
    · exact installNewAtomicFileAt_runs h

/-! ## 6. The recovery of an installation -/

theorem observes_pathIdentity (name : String) :
    Observes (pathIdentity name : AtomicM I (IoResult (Option I))) := by
  refine Prog.Makes.bind (confined_native rfl) fun answer => ?_
  cases answer with
  | ok status => trivial
  | error error =>
    dsimp only
    split <;> trivial

theorem reportFailure_ne_ok {context : AtomicInstallRecovery}
    {durability : LocalDurabilityRequirement} {sync : AtomicM I (IoResult Unit)}
    {cleanupError : Option IoError} {tr : AtomicTrace I} {durable : Bool} :
    ¬ (context.reportFailure durability sync cleanupError).Runs tr (.ok durable) := by
  intro h
  obtain ⟨tr₁, tr₂, a, rfl, -, hend⟩ := Prog.runs_bind.mp h
  cases hend.2

/-- A cleanup closes the file, and without error it gives the staging name up. -/
structure CleanupRun (tr : AtomicTrace I) (r : IoResult Unit) (staged' : StagedFile I) : Prop where
  kinds : OfKinds [.observes, .mutates] tr
  closed : staged'.file = none
  gone : r = .ok () → staged'.name = none

theorem CleanupRun.cons {ev : AtomicEvent I} {tr : AtomicTrace I} {r : IoResult Unit}
    {staged' : StagedFile I} (hev : callKind ev.call = .observes) (h : CleanupRun tr r staged') :
    CleanupRun (ev :: tr) r staged' where
  kinds := List.forall_mem_cons.mpr ⟨by rw [hev]; decide, h.kinds⟩
  closed := h.closed
  gone := h.gone

theorem cleanupRun_nil {r : IoResult Unit} {staged' : StagedFile I} (hfile : staged'.file = none)
    (hname : r = .ok () → staged'.name = none) : CleanupRun [] r staged' :=
  ⟨ofKinds_nil _, hfile, hname⟩

theorem remove_runs {staged staged' : StagedFile I} {name : String} {tr : AtomicTrace I}
    {r : IoResult Unit} (hfile : staged.file = none)
    (h : (staged.remove name).Runs tr (r, staged')) : CleanupRun tr r staged' := by
  obtain ⟨answer, rest, rfl, hrest⟩ := h
  cases answer with
  | ok _ =>
    obtain ⟨rfl, heq⟩ := hrest
    cases heq
    exact ⟨ofKinds_singleton (List.mem_of_elem_eq_true rfl), hfile, fun _ => rfl⟩
  | error error =>
    obtain ⟨rfl, heq⟩ := hrest
    cases heq
    exact ⟨ofKinds_singleton (List.mem_of_elem_eq_true rfl), hfile, nofun⟩

variable [DecidableEq I]

theorem hostCleanup_runs {staged staged' : StagedFile I} {tr : AtomicTrace I} {r : IoResult Unit}
    (h : staged.cleanup.Runs tr (r, staged')) : CleanupRun tr r staged' := by
  unfold StagedFile.cleanup StagedFile.cleanupBy at h
  dsimp only at h
  split at h
  next hname =>
    obtain ⟨rfl, heq⟩ := h
    cases heq
    exact cleanupRun_nil rfl fun _ => hname
  next name hname =>
    obtain ⟨tr₁, tr₂, identity, rfl, hidentity, hrest⟩ := Prog.runs_bind.mp h
    have hlook := (observes_pathIdentity name).ofKinds hidentity
    have hbehind : CleanupRun tr₂ r staged' := by
      split at hrest
      next =>
        obtain ⟨rfl, heq⟩ := hrest
        cases heq
        exact cleanupRun_nil rfl nofun
      next =>
        obtain ⟨rfl, heq⟩ := hrest
        cases heq
        exact cleanupRun_nil rfl fun _ => rfl
      next =>
        split at hrest
        · obtain ⟨rfl, heq⟩ := hrest
          cases heq
          exact cleanupRun_nil rfl nofun
        · exact remove_runs rfl hrest
    exact ⟨ofKinds_append.mpr ⟨hlook.mono (by decide), hbehind.kinds⟩, hbehind.closed,
      hbehind.gone⟩

theorem rootedCleanup_runs {staged staged' : StagedFile I} {tr : AtomicTrace I} {r : IoResult Unit}
    (h : (RootedStagedFile.cleanup staged).Runs tr (r, staged')) : CleanupRun tr r staged' := by
  unfold RootedStagedFile.cleanup at h
  dsimp only at h
  split at h
  next hname =>
    obtain ⟨rfl, heq⟩ := h
    cases heq
    exact cleanupRun_nil rfl fun _ => hname
  next name hname =>
    split at h
    next =>
      obtain ⟨rfl, heq⟩ := h
      cases heq
      exact cleanupRun_nil rfl nofun
    next identity hidentity =>
      obtain ⟨answer, rest, rfl, hrest⟩ := h
      apply CleanupRun.cons rfl
      cases answer with
      | error error =>
        dsimp only [Prog.bind] at hrest
        split at hrest
        · obtain ⟨rfl, heq⟩ := hrest
          cases heq
          exact cleanupRun_nil rfl fun _ => rfl
        · obtain ⟨rfl, heq⟩ := hrest
          cases heq
          exact cleanupRun_nil rfl nofun
      | ok status =>
        dsimp only [Prog.bind] at hrest
        split at hrest
        · obtain ⟨rfl, heq⟩ := hrest
          cases heq
          exact cleanupRun_nil rfl nofun
        · exact remove_runs rfl hrest

theorem cleanup_runs {scope : Scope} {staged staged' : StagedFile I} {tr : AtomicTrace I}
    {r : IoResult Unit} (h : (scope.cleanup staged).Runs tr (r, staged')) :
    CleanupRun tr r staged' := by
  cases scope with
  | host => exact hostCleanup_runs h
  | rooted => exact rootedCleanup_runs h

/-- A guard that has given its name up drops without a call. -/
theorem drop_runs {scope : Scope} {staged : StagedFile I} (hname : staged.name = none)
    {tr : AtomicTrace I} {u : Unit} (h : (scope.drop staged).Runs tr u) : tr = [] := by
  obtain ⟨tr₁, tr₂, a, rfl, hcleanup, hend⟩ := Prog.runs_bind.mp h
  obtain ⟨rfl, -⟩ := hend
  have hclosed : staged.close.name = none := hname
  cases scope with
  | host =>
    simp only [Scope.cleanup, StagedFile.cleanup, StagedFile.cleanupBy, hclosed] at hcleanup
    rw [hcleanup.1]
    rfl
  | rooted =>
    simp only [Scope.cleanup, RootedStagedFile.cleanup, hclosed] at hcleanup
    rw [hcleanup.1]
    rfl

end Installation

namespace UnixAtomicWriter

variable {I : Type} [DecidableEq I] {scope : Scope} {w : UnixAtomicWriter I}

/-- A recovery without error: the destination was reached, the staging name given up, and then the
    directories synchronized. -/
theorem recover_runs {context : AtomicInstallRecovery} {staged staged' : StagedFile I}
    {durability : LocalDurabilityRequirement} {dirs : List Path} {tr : AtomicTrace I}
    {durable : Bool} (hpresent : context.stagingState = .present)
    (h : (recoverAtomicInstallError context staged durability scope.cleanup StagedFile.disarm
      (syncParentChain dirs)).Runs tr (.ok durable, staged')) :
    ∃ clean chain, tr = clean ++ chain ∧ context.destinationState = .replaced ∧
      OfKinds [.observes, .mutates] clean ∧ staged'.name = none ∧
      ChainRun durability dirs chain durable := by
  unfold recoverAtomicInstallError at h
  rw [hpresent] at h
  obtain ⟨tr₁, tr₂, ⟨r, cleaned⟩, rfl, hcleanup, hrest⟩ := Prog.runs_bind.mp h
  have hrun := cleanup_runs hcleanup
  cases r with
  | error error =>
    obtain ⟨tr₃, tr₄, a, rfl, hreport, hend⟩ := Prog.runs_bind.mp hrest
    obtain ⟨rfl, heq⟩ := hend
    cases heq
    exact absurd hreport reportFailure_ne_ok
  | ok _ =>
    dsimp only at hrest
    split at hrest
    next hreplaced =>
      obtain ⟨tr₃, tr₄, a, rfl, hfinish, hend⟩ := Prog.runs_bind.mp hrest
      obtain ⟨rfl, heq⟩ := hend
      cases heq
      rw [finishPublished_eq] at hfinish
      refine ⟨tr₁, tr₃ ++ [], rfl, hreplaced, hrun.kinds, hrun.gone rfl, ?_⟩
      rw [List.append_nil]
      exact syncAsRequired_runs hfinish
    next =>
      obtain ⟨tr₃, tr₄, a, rfl, hreport, hend⟩ := Prog.runs_bind.mp hrest
      obtain ⟨rfl, heq⟩ := hend
      cases heq
      exact absurd hreport reportFailure_ne_ok

/-- The directories are synchronized behind the last change of an entry. -/
theorem installAndSyncParent_runs {system : UnixTarget} {w' : UnixAtomicWriter I}
    {tr : AtomicTrace I} {durable : Bool}
    (h : (w.installAndSyncParent scope system).Runs tr (.ok durable, w')) :
    ∃ install chain, tr = install ++ chain ∧ OfKinds [.observes, .mutates] install ∧
      (∃ ev ∈ install, Installs w.name ev) ∧ w'.stagedFile.name = none ∧
      ChainRun w.durability w.parentDirsToSync chain durable := by
  obtain ⟨tr₁, tr₂, staging, rfl, hname, hrest⟩ := Prog.runs_bind.mp h
  rw [(runs_armedName hname).1, List.nil_append]
  obtain ⟨tr₃, tr₄, r, rfl, hinstall, hfinish⟩ := Prog.runs_bind.mp hrest
  have hrun := install_runs hinstall
  have hkinds := hrun.kinds.mono (show [.mutates] ⊆ [CallKind.observes, .mutates] by decide)
  cases r with
  | ok _ =>
    obtain ⟨tr₅, tr₆, a, rfl, hsync, hend⟩ := Prog.runs_bind.mp hfinish
    obtain ⟨rfl, heq⟩ := hend
    cases heq
    rw [finishInstalled_eq] at hsync
    refine ⟨tr₃, tr₅ ++ [], rfl, hkinds, hrun.installs (.inl rfl), rfl, ?_⟩
    rw [List.append_nil]
    exact syncAsRequired_runs hsync
  | error failure =>
    obtain ⟨source, state, stagingState⟩ := failure
    obtain ⟨tr₅, tr₆, ⟨r, staged⟩, rfl, hrecover, hend⟩ := Prog.runs_bind.mp hfinish
    obtain ⟨rfl, heq⟩ := hend
    cases heq
    obtain ⟨clean, chain, rfl, rfl, hclean, hnone, hchain⟩ :=
      recover_runs (hrun.present _ _ _ rfl) hrecover
    obtain ⟨ev, hmem, hinstalls⟩ := hrun.installs (.inr ⟨source, stagingState, rfl⟩)
    refine ⟨tr₃ ++ clean, chain, ?_, ?_, ⟨ev, List.mem_append_left _ hmem, hinstalls⟩, hnone,
      hchain⟩
    · rw [List.append_nil, List.append_assoc]
    · rw [ofKinds_append]
      exact ⟨hkinds, hclean⟩

/-- From the installation on the staging file is closed. -/
theorem installAndSyncParent_closes {system : UnixTarget} {w' : UnixAtomicWriter I}
    {tr : AtomicTrace I} {r : Except LocalAtomicWriteError Bool}
    (h : (w.installAndSyncParent scope system).Runs tr (r, w')) : w'.stagedFile.file = none := by
  obtain ⟨tr₁, tr₂, staging, rfl, hname, hrest⟩ := Prog.runs_bind.mp h
  obtain ⟨tr₃, tr₄, installed, rfl, hinstall, hfinish⟩ := Prog.runs_bind.mp hrest
  cases installed with
  | ok _ =>
    obtain ⟨tr₅, tr₆, a, rfl, hsync, hend⟩ := Prog.runs_bind.mp hfinish
    obtain ⟨rfl, heq⟩ := hend
    cases heq
    rfl
  | error failure =>
    obtain ⟨tr₅, tr₆, ⟨r', staged⟩, rfl, hrecover, hend⟩ := Prog.runs_bind.mp hfinish
    obtain ⟨rfl, heq⟩ := hend
    cases heq
    unfold recoverAtomicInstallError at hrecover
    split at hrecover
    next =>
      obtain ⟨tr₇, tr₈, ⟨cleaned, staged'⟩, rfl, hcleanup, hreport⟩ := Prog.runs_bind.mp hrecover
      have hclosed := (cleanup_runs hcleanup).closed
      cases cleaned with
      | ok _ =>
        dsimp only at hreport
        split at hreport
        · obtain ⟨tr₉, tr₀, a, rfl, -, hend⟩ := Prog.runs_bind.mp hreport
          obtain ⟨rfl, heq⟩ := hend
          cases heq
          exact hclosed
        · obtain ⟨tr₉, tr₀, a, rfl, -, hend⟩ := Prog.runs_bind.mp hreport
          obtain ⟨rfl, heq⟩ := hend
          cases heq
          exact hclosed
      | error error =>
        obtain ⟨tr₉, tr₀, a, rfl, -, hend⟩ := Prog.runs_bind.mp hreport
        obtain ⟨rfl, heq⟩ := hend
        cases heq
        exact hclosed
    next =>
      obtain ⟨tr₉, tr₀, a, rfl, -, hend⟩ := Prog.runs_bind.mp hrecover
      obtain ⟨rfl, heq⟩ := hend
      cases heq
      rfl

/-! ## 7. Attempts -/

/-- The calls of a commit without error, in their order. -/
structure CommitRun (w : UnixAtomicWriter I) (file : I) (tr : AtomicTrace I)
    (outcome : LocalCommitSyncOutcome) : Prop where
  parts : ∃ before sync after install chain parentDurable,
    tr = before ++ (sync ++ (after ++ (install ++ chain))) ∧
    OfKinds [.observes, .alters] before ∧ FileSyncRun w file sync outcome.fileSynced ∧
    OfKinds [.observes] after ∧ OfKinds [.observes, .mutates] install ∧
    (∃ ev ∈ install, Installs w.name ev) ∧
    ChainRun w.durability w.parentDirsToSync chain parentDurable ∧
    outcome.durable = (w.durability ≠ .notRequired && outcome.fileSynced && parentDurable)

theorem commitAttempt_runs {system : UnixTarget} {file : I} (hfile : w.stagedFile.file = some file)
    {w' : UnixAtomicWriter I} {tr : AtomicTrace I} {outcome : LocalCommitSyncOutcome}
    (h : (w.commitAttempt scope system).Runs tr (.ok outcome, w')) :
    CommitRun w file tr outcome ∧ w'.stagedFile.name = none := by
  obtain ⟨tr₁, tr₂, prepared, rfl, hprepare, hrest⟩ := Prog.runs_bind.mp h
  cases prepared with
  | error error => cases hrest.2
  | ok fileSynced =>
    obtain ⟨tr₃, tr₄, ⟨installed, w''⟩, rfl, hinstall, hend⟩ := Prog.runs_bind.mp hrest
    cases installed with
    | error error => cases hend.2
    | ok parentDurable =>
      obtain ⟨rfl, heq⟩ := hend
      cases heq
      obtain ⟨before, sync, after, rfl, hbefore, hsync, hafter⟩ := prepareCommit_runs hfile hprepare
      obtain ⟨install, chain, rfl, hkinds, hinstalls, hname, hchain⟩ :=
        installAndSyncParent_runs hinstall
      refine ⟨⟨before, sync, after, install, chain, parentDurable, ?_, hbefore, hsync, hafter,
        hkinds, hinstalls, hchain, rfl⟩, hname⟩
      simp only [List.append_assoc, List.append_nil]

theorem commit_runs {system : UnixTarget} {file : I} (hfile : w.stagedFile.file = some file)
    {tr : AtomicTrace I} {outcome : LocalCommitSyncOutcome}
    (h : (w.commitRecoverableWithSync scope system).Runs tr (.ok outcome)) :
    CommitRun w file tr outcome := by
  obtain ⟨tr₁, tr₂, ⟨r, w'⟩, rfl, hattempt, hrest⟩ := Prog.runs_bind.mp h
  cases r with
  | ok outcome' =>
    obtain ⟨tr₃, tr₄, u, rfl, hdrop, hend⟩ := Prog.runs_bind.mp hrest
    obtain ⟨rfl, heq⟩ := hend
    cases heq
    obtain ⟨hrun, hname⟩ := commitAttempt_runs hfile hattempt
    rw [drop_runs hname hdrop, List.append_nil, List.append_nil]
    exact hrun
  | error error =>
    dsimp only at hrest
    split at hrest
    · cases hrest.2
    · obtain ⟨tr₃, tr₄, u, rfl, hdrop, hend⟩ := Prog.runs_bind.mp hrest
      cases hend.2

/-- A writer that is kept after a failure is the one from before it, and no entry was changed. -/
theorem commit_retains {system : UnixTarget} {w' : UnixAtomicWriter I} {tr : AtomicTrace I}
    {error : LocalAtomicWriteError}
    (h : (w.commitRecoverableWithSync scope system).Runs tr (.error ⟨error, some w'⟩)) :
    w' = w ∧ OfKinds [.observes, .alters, .syncsFile] tr := by
  obtain ⟨tr₁, tr₂, ⟨r, kept⟩, rfl, hattempt, hrest⟩ := Prog.runs_bind.mp h
  cases r with
  | ok outcome =>
    obtain ⟨tr₃, tr₄, u, rfl, hdrop, hend⟩ := Prog.runs_bind.mp hrest
    cases hend.2
  | error error' =>
    dsimp only at hrest
    split at hrest
    next hopen =>
      obtain ⟨rfl, heq⟩ := hrest
      cases heq
      obtain ⟨tr₃, tr₄, prepared, rfl, hprepare, hend⟩ := Prog.runs_bind.mp hattempt
      have hkinds := confined_prepareCommit.ofKinds hprepare
      cases prepared with
      | error error =>
        obtain ⟨rfl, heq⟩ := hend
        cases heq
        rw [List.append_nil, List.append_nil]
        exact ⟨rfl, hkinds⟩
      | ok fileSynced =>
        obtain ⟨tr₅, tr₆, ⟨installed, w''⟩, rfl, hinstall, hend⟩ := Prog.runs_bind.mp hend
        have hclosed := installAndSyncParent_closes hinstall
        cases installed with
        | ok parentDurable => cases hend.2
        | error error =>
          obtain ⟨rfl, heq⟩ := hend
          cases heq
          unfold StagedFile.isOpen at hopen
          rw [hclosed] at hopen
          cases hopen
    next =>
      obtain ⟨tr₃, tr₄, u, rfl, hdrop, hend⟩ := Prog.runs_bind.mp hrest
      cases hend.2

end UnixAtomicWriter

/-! ## 8. The life of a writer -/

section Lives

variable {I : Type} [DecidableEq I]

/-- The rooted copy passes the permissions of its source on. -/
def UnixAtomicWriter.setCopyPermissions (w : UnixAtomicWriter I) : UnixAtomicWriter I :=
  { w with copyPermissions := true }

/-- What happens to a writer before the commit that ends its life: output, the permissions of a
    copy, and failed attempts after which it was kept. -/
inductive Session (scope : Scope) (system : UnixTarget) (w : UnixAtomicWriter I) :
    AtomicTrace I → UnixAtomicWriter I → Prop where
  | opened : Session scope system w [] w
  | write {past tr : AtomicTrace I} {w' : UnixAtomicWriter I} {bytes : List UInt8}
      {r : IoResult Nat} (h : Session scope system w past w') (hrun : (w'.write scope bytes).Runs tr r) :
      Session scope system w (past ++ tr) w'
  | writeVectored {past tr : AtomicTrace I} {w' : UnixAtomicWriter I} {buffers : List (List UInt8)}
      {r : IoResult Nat} (h : Session scope system w past w')
      (hrun : (w'.writeVectored scope buffers).Runs tr r) : Session scope system w (past ++ tr) w'
  | flush {past tr : AtomicTrace I} {w' : UnixAtomicWriter I} {r : IoResult Unit}
      (h : Session scope system w past w') (hrun : (w'.flush scope).Runs tr r) :
      Session scope system w (past ++ tr) w'
  | permissions {past : AtomicTrace I} {w' : UnixAtomicWriter I}
      (h : Session scope system w past w') : Session scope system w past w'.setCopyPermissions
  | retry {past tr : AtomicTrace I} {w' w'' : UnixAtomicWriter I} {error : LocalAtomicWriteError}
      (h : Session scope system w past w')
      (hrun : (w'.commitRecoverableWithSync scope system).Runs tr (.error ⟨error, some w''⟩)) :
      Session scope system w (past ++ tr) w''

/-- The fields on which the guarantees of a commit depend. -/
structure SameRequest (w w' : UnixAtomicWriter I) : Prop where
  name : w'.name = w.name
  parentDirsToSync : w'.parentDirsToSync = w.parentDirsToSync
  durability : w'.durability = w.durability
  fileSync : w'.fileSync = w.fileSync
  stagedFile : w'.stagedFile = w.stagedFile

omit [DecidableEq I] in
theorem confined_write (scope : Scope) (w : UnixAtomicWriter I) (bytes : List UInt8) :
    Confined [.observes, .alters] (w.write scope bytes) :=
  Prog.Makes.bind ((observes_handle scope _).mono (by decide)) fun _ => confined_native rfl

omit [DecidableEq I] in
theorem confined_writeVectored (scope : Scope) (w : UnixAtomicWriter I)
    (buffers : List (List UInt8)) :
    Confined [.observes, .alters] (w.writeVectored scope buffers) :=
  Prog.Makes.bind ((observes_handle scope _).mono (by decide)) fun _ => confined_native rfl

omit [DecidableEq I] in
theorem observes_flush (scope : Scope) (w : UnixAtomicWriter I) : Observes (w.flush scope) :=
  Prog.Makes.bind (observes_handle scope _) fun _ => confined_native rfl

/-- Before its last commit a writer stays what it was, and no entry is changed. -/
theorem Session.spec {scope : Scope} {system : UnixTarget} {w w' : UnixAtomicWriter I}
    {past : AtomicTrace I} (h : Session scope system w past w') :
    SameRequest w w' ∧ OfKinds [.observes, .alters, .syncsFile] past := by
  induction h with
  | opened => exact ⟨⟨rfl, rfl, rfl, rfl, rfl⟩, ofKinds_nil _⟩
  | write h hrun ih =>
    refine ⟨ih.1, ofKinds_append.mpr ⟨ih.2, ?_⟩⟩
    exact ((confined_write scope _ _).ofKinds hrun).mono (by decide)
  | writeVectored h hrun ih =>
    refine ⟨ih.1, ofKinds_append.mpr ⟨ih.2, ?_⟩⟩
    exact ((confined_writeVectored scope _ _).ofKinds hrun).mono (by decide)
  | flush h hrun ih =>
    refine ⟨ih.1, ofKinds_append.mpr ⟨ih.2, ?_⟩⟩
    exact ((observes_flush scope _).ofKinds hrun).mono (by decide)
  | permissions h ih =>
    obtain ⟨hname, hdirs, hdurability, hfileSync, hstaged⟩ := ih.1
    exact ⟨⟨hname, hdirs, hdurability, hfileSync, hstaged⟩, ih.2⟩
  | retry h hrun ih =>
    obtain ⟨rfl, hkinds⟩ := UnixAtomicWriter.commit_retains hrun
    exact ⟨ih.1, ofKinds_append.mpr ⟨ih.2, hkinds⟩⟩

/-! ## 9. Durability -/

/-- The parent of the destination was prepared, with no other process at work: `kept` is what the
    writer keeps for the synchronization, `made` the directories that the request created. -/
inductive Prepared : Scope → Bool → Path → List Path → List Path → Prop where
  | host {createParent : Bool} {path : Path} {kept : List Path} {t t' : DirectoryTree}
      {tr : List HostEvent}
      (h : (prepareHostParent createParent path).RunsIn DirectoryTree.HostEffect t tr t' (.ok kept)) :
      Prepared .host createParent path kept (madeByPath tr)
  | rooted {createParent : Bool} {diagnosticRoot path parent : Path} {kept : List Path}
      {t t' : DirectoryTree} {tr : List RootedEvent}
      (h : (prepareRootedParent createParent diagnosticRoot path).RunsIn DirectoryTree.RootedEffect
        t tr t' (.ok (parent, kept))) :
      Prepared .rooted createParent path kept (madeByDescriptor tr)

/-- The directory that is synchronized for what the writer keeps: by path the parent of a
    directory observed as missing, by descriptor the directory itself. -/
def Scope.synchronizes : Scope → Path → Path
  | .host, kept => kept.dropLast
  | .rooted, kept => kept

/-- The call changes the bytes or the metadata of the staging file. -/
def AltersFile (file : I) : Syscall String I (AtomicCall I) → Prop
  | .inert (.write f _) => f = file
  | .inert (.writeVectored f _) => f = file
  | .inert (.preserveMetadata _ staging) => staging = file
  | .inert (.setPermissions f) => f = file
  | _ => False

/-- The staging file was synchronized. -/
def stagingSynced (file : I) : AtomicEvent I := ⟨.inert (.syncFile file), (.ok () : IoResult Unit)⟩

/-- Some synchronization of the staging file succeeded behind its last change and before the
    installation. -/
def SyncedOnce (file : I) (tr : AtomicTrace I) : Prop :=
  ∃ before after, tr = before ++ stagingSynced file :: after ∧
    (∀ ev ∈ after, ¬ AltersFile file ev.call) ∧ ∀ ev ∈ before, callKind ev.call ≠ .mutates

/-- The last synchronization of the staging file succeeded behind its last change and before the
    installation. -/
def SyncedLast (file : I) (tr : AtomicTrace I) : Prop :=
  ∃ before after, tr = before ++ stagingSynced file :: after ∧
    (∀ ev ∈ after, ¬ AltersFile file ev.call ∧ ev.call ≠ .inert (.syncFile file)) ∧
    ∀ ev ∈ before, callKind ev.call ≠ .mutates

/-- The event comes behind the installation, and no entry is changed any more. -/
def BehindInstall (name : String) (ev : AtomicEvent I) (tr : AtomicTrace I) : Prop :=
  ∃ before after, tr = before ++ ev :: after ∧ (∃ e ∈ before, Installs name e) ∧
    ∀ e ∈ after, callKind e.call ≠ .mutates

/-- The directory was synchronized behind the installation. -/
def PlaceSynced (scope : Scope) (name : String) (place : Path) (tr : AtomicTrace I) : Prop :=
  ∃ kept, scope.synchronizes kept = place ∧ BehindInstall name (directorySynced kept) tr

/-- What a crash cannot take back: the content under `staged`, the final name, and the entries in
    the directories of `places`. -/
def CrashProof (scope : Scope) (w : UnixAtomicWriter I) (staged : Prop) (places : List Path)
    (tr : AtomicTrace I) : Prop :=
  w.durability ≠ .notRequired ∧ staged ∧ BehindInstall w.name parentSynced tr ∧
    ∀ place ∈ places, PlaceSynced scope w.name place tr

omit [DecidableEq I] in
theorem not_altersFile_of_kind {file : I} {c : Syscall String I (AtomicCall I)}
    (h : callKind c ≠ .alters) : ¬ AltersFile file c := by
  intro halters
  unfold AltersFile at halters
  split at halters
  all_goals first | exact h rfl | exact halters

/-- Two events behind which no event has the property are the same. -/
theorem last_unique {α : Type} {P : α → Prop} {before before' after after' : List α} {x y : α}
    (h : before ++ x :: after = before' ++ y :: after') (hx : P x) (hy : P y)
    (hafter : ∀ a ∈ after, ¬ P a) (hafter' : ∀ a ∈ after', ¬ P a) : x = y := by
  obtain ⟨mid, rfl, hmid⟩ | ⟨mid, rfl, hmid⟩ := List.append_eq_append_iff.mp h
  · cases mid with
    | nil => exact (List.cons.inj hmid).1
    | cons first rest =>
      obtain ⟨rfl, rfl⟩ := List.cons.inj hmid
      exact absurd hy (hafter y (List.mem_append_right _ List.mem_cons_self))
  · cases mid with
    | nil => exact (List.cons.inj hmid).1.symm
    | cons first rest =>
      obtain ⟨rfl, rfl⟩ := List.cons.inj hmid
      exact absurd hx (hafter' x (List.mem_append_right _ List.mem_cons_self))

omit [DecidableEq I] in
theorem OfKinds.not_altersFile {kinds : List CallKind} {tr : AtomicTrace I} (h : OfKinds kinds tr)
    (hkinds : .alters ∉ kinds) (file : I) {ev : AtomicEvent I} (hev : ev ∈ tr) :
    ¬ AltersFile file ev.call := by
  apply not_altersFile_of_kind
  intro hkind
  exact hkinds (hkind ▸ h ev hev)

omit [DecidableEq I] in
theorem OfKinds.not_syncFile {kinds : List CallKind} {tr : AtomicTrace I} (h : OfKinds kinds tr)
    (hkinds : .syncsFile ∉ kinds) (file : I) {ev : AtomicEvent I} (hev : ev ∈ tr) :
    ev.call ≠ .inert (.syncFile file) := by
  intro hcall
  have hkind := h ev hev
  rw [hcall] at hkind
  exact hkinds hkind

omit [DecidableEq I] in
theorem OfKinds.not_mutates {kinds : List CallKind} {tr : AtomicTrace I} (h : OfKinds kinds tr)
    (hkinds : .mutates ∉ kinds) {ev : AtomicEvent I} (hev : ev ∈ tr) :
    callKind ev.call ≠ .mutates :=
  fun hkind => hkinds (hkind ▸ h ev hev)

namespace UnixAtomicWriter

variable {scope : Scope} {w : UnixAtomicWriter I} {file : I} {past tr : AtomicTrace I}
  {outcome : LocalCommitSyncOutcome}

omit [DecidableEq I] in
theorem ChainRun.spec {durability : LocalDurabilityRequirement} {dirs : List Path}
    (hnodup : dirs.Nodup) {chain : AtomicTrace I} {durable : Bool}
    (h : ChainRun durability dirs chain durable) :
    OfKinds [.syncsParents] chain ∧ (∀ d, directorySynced d ∈ chain → d ∈ dirs) ∧
      (durability ≠ .notRequired →
        (durable = true ↔ parentSynced ∈ chain ∧ ∀ d ∈ dirs, directorySynced d ∈ chain)) ∧
      (durability = .required → durable = true) := by
  cases h with
  | notRequired h =>
    subst h
    exact ⟨ofKinds_nil _, nofun, fun hne => absurd rfl hne, nofun⟩
  | synced h hrun =>
    obtain ⟨hkinds, hof, hiff⟩ := syncParentChain_runs hnodup hrun
    exact ⟨hkinds, hof, fun _ => ⟨fun _ => hiff.mp rfl, fun _ => rfl⟩, fun _ => rfl⟩
  | failed error h hrun =>
    obtain ⟨hkinds, hof, hiff⟩ := syncParentChain_runs hnodup hrun
    subst h
    refine ⟨hkinds, hof, fun _ => ⟨nofun, fun hall => ?_⟩, nofun⟩
    cases hiff.mpr hall

omit [DecidableEq I] in
/-- The file is reported as synchronized exactly when its last synchronization succeeded. -/
theorem CommitRun.fileSynced_iff (h : CommitRun w file tr outcome)
    (hnodup : w.parentDirsToSync.Nodup) (hpast : OfKinds [.observes, .alters, .syncsFile] past) :
    outcome.fileSynced = true ↔ stagingRequirement w.durability w.fileSync ≠ .notRequired ∧
      SyncedLast file (past ++ tr) := by
  obtain ⟨before, sync, after, install, chain, parentDurable, rfl, hbefore, hsync, hafter, hinstall,
    -, hchain, -⟩ := h.parts
  have hlast : OfKinds [.observes, .mutates, .syncsParents] (after ++ (install ++ chain)) :=
    ofKinds_append.mpr ⟨hafter.mono (by decide), ofKinds_append.mpr
      ⟨hinstall.mono (by decide), (hchain.spec hnodup).1.mono (by decide)⟩⟩
  have hfirst : OfKinds [.observes, .alters, .syncsFile] (past ++ before) :=
    ofKinds_append.mpr ⟨hpast, hbefore.mono (by decide)⟩
  generalize hsynced : outcome.fileSynced = synced at hsync
  cases hsync with
  | notRequired hnone =>
    constructor
    · nofun
    · rintro ⟨hne, -⟩
      exact absurd hnone hne
  | synced hne =>
    refine ⟨fun _ => ⟨hne, past ++ before, after ++ (install ++ chain), ?_, ?_, ?_⟩,
      fun _ => rfl⟩
    · rw [List.append_assoc]
      rfl
    · intro ev hev
      exact ⟨hlast.not_altersFile (by decide) file hev, hlast.not_syncFile (by decide) file hev⟩
    · intro ev hev
      exact hfirst.not_mutates (by decide) hev
  | failed error hpreferred =>
    constructor
    · nofun
    · rintro ⟨-, before', after', heq, hafter', -⟩
      -- The failed synchronization is the last one, so the last one did not succeed.
      rw [← List.append_assoc] at heq
      have hsame := last_unique (P := fun ev => ev.call = .inert (.syncFile file)) heq rfl rfl
        (fun ev hev => hlast.not_syncFile (by decide) file hev) fun ev hev => (hafter' ev hev).2
      cases hsame

omit [DecidableEq I] in
/-- A directory is synchronized behind the installation exactly when the chain does it. -/
theorem CommitRun.behindInstall_iff (h : CommitRun w file tr outcome)
    (hnodup : w.parentDirsToSync.Nodup) :
    ∃ chain parentDurable, ChainRun w.durability w.parentDirsToSync chain parentDurable ∧
      outcome.durable = (w.durability ≠ .notRequired && outcome.fileSynced && parentDurable) ∧
      ∀ ev : AtomicEvent I, callKind ev.call = .syncsParents →
        (BehindInstall w.name ev tr ↔ ev ∈ chain) := by
  obtain ⟨before, sync, after, install, chain, parentDurable, rfl, hbefore, hsync, hafter, hinstall,
    ⟨e, he, hinstalls⟩, hchain, hdurable⟩ := h.parts
  refine ⟨chain, parentDurable, hchain, hdurable, fun ev hkind => ?_⟩
  have hhead : OfKinds [.observes, .alters, .syncsFile, .mutates]
      (before ++ (sync ++ (after ++ install))) := by
    simp only [ofKinds_append]
    exact ⟨hbefore.mono (by decide), hsync.kinds.mono (by decide), hafter.mono (by decide),
      hinstall.mono (by decide)⟩
  have hsplit : before ++ (sync ++ (after ++ (install ++ chain))) =
      (before ++ (sync ++ (after ++ install))) ++ chain := by
    simp only [List.append_assoc]
  rw [hsplit]
  constructor
  · rintro ⟨pre, post, heq, -, -⟩
    have hmem : ev ∈ (before ++ (sync ++ (after ++ install))) ++ chain := by
      rw [heq]
      exact List.mem_append_right _ List.mem_cons_self
    rcases List.mem_append.mp hmem with hmem | hmem
    · have hother := hhead ev hmem
      rw [hkind] at hother
      exact absurd hother (by decide)
    · exact hmem
  · intro hmem
    obtain ⟨first, rest, rfl⟩ := List.append_of_mem hmem
    refine ⟨(before ++ (sync ++ (after ++ install))) ++ first, rest, ?_, ⟨e, ?_, hinstalls⟩, ?_⟩
    · simp only [List.append_assoc]
    · simp only [List.mem_append]
      exact .inl (.inr (.inr (.inr he)))
    · intro ev' hev'
      exact (hchain.spec hnodup).1.not_mutates (by decide)
        (List.mem_append_right _ (List.mem_cons_of_mem _ hev'))

omit [DecidableEq I] in
theorem stagingRequirement_ne {durability : LocalDurabilityRequirement}
    {fileSync : LocalFileSyncRequirement} (h : durability ≠ .notRequired) :
    stagingRequirement durability fileSync ≠ .notRequired := by
  cases durability with
  | required => cases fileSync <;> decide
  | preferred => cases fileSync <;> decide
  | notRequired => exact absurd rfl h

omit [DecidableEq I] in
/-- A commit reports durability exactly when the content, the name and all kept directories were
    synchronized in their order. -/
theorem CommitRun.durable_iff (h : CommitRun w file tr outcome)
    (hnodup : w.parentDirsToSync.Nodup) (hpast : OfKinds [.observes, .alters, .syncsFile] past) :
    outcome.durable = true ↔ w.durability ≠ .notRequired ∧ SyncedLast file (past ++ tr) ∧
      BehindInstall w.name parentSynced tr ∧
      ∀ kept ∈ w.parentDirsToSync, BehindInstall w.name (directorySynced kept) tr := by
  obtain ⟨chain, parentDurable, hchain, hdurable, hbehind⟩ := h.behindInstall_iff hnodup
  have hsynced := h.fileSynced_iff hnodup hpast
  rw [hdurable, Bool.and_eq_true, Bool.and_eq_true, decide_eq_true_eq, hsynced,
    hbehind parentSynced rfl]
  constructor
  · rintro ⟨⟨hne, -, hlast⟩, hparents⟩
    obtain ⟨hparent, hdirs⟩ := ((hchain.spec hnodup).2.2.1 hne).mp hparents
    exact ⟨hne, hlast, hparent, fun kept hkept => (hbehind _ rfl).mpr (hdirs kept hkept)⟩
  · rintro ⟨hne, hlast, hparent, hdirs⟩
    refine ⟨⟨hne, stagingRequirement_ne hne, hlast⟩, ?_⟩
    exact ((hchain.spec hnodup).2.2.1 hne).mpr
      ⟨hparent, fun kept hkept => (hbehind _ rfl).mp (hdirs kept hkept)⟩

omit [DecidableEq I] in
/-- Required durability is never given up. -/
theorem CommitRun.durable_of_required (h : CommitRun w file tr outcome)
    (hnodup : w.parentDirsToSync.Nodup) (hrequired : w.durability = .required) :
    outcome.durable = true := by
  obtain ⟨before, sync, after, install, chain, parentDurable, -, -, hsync, -, -, -, hchain,
    hdurable⟩ := h.parts
  have hstaging : stagingRequirement w.durability w.fileSync = .required := by
    rw [hrequired]
    cases w.fileSync <;> rfl
  have hsynced : outcome.fileSynced = true := by
    generalize outcome.fileSynced = synced at hsync
    cases hsync with
    | notRequired hnone => rw [hstaging] at hnone; cases hnone
    | synced _ => rfl
    | failed _ hpreferred => rw [hstaging] at hpreferred; cases hpreferred
  rw [hdurable, hsynced, (hchain.spec hnodup).2.2.2 hrequired, hrequired]
  rfl

omit [DecidableEq I] in
/-- What is synchronized behind the installation is kept by the writer. -/
theorem CommitRun.kept_of_behindInstall (h : CommitRun w file tr outcome)
    (hnodup : w.parentDirsToSync.Nodup) (kept : Path)
    (hkept : BehindInstall w.name (directorySynced kept) tr) : kept ∈ w.parentDirsToSync := by
  obtain ⟨chain, parentDurable, hchain, -, hbehind⟩ := h.behindInstall_iff hnodup
  exact (hchain.spec hnodup).2.1 kept ((hbehind _ rfl).mp hkept)

end UnixAtomicWriter

/-- What the preparation promises to the commit: every directory that got an entry is among those
    the writer keeps, and without `..` these are no others. -/
theorem Prepared.spec {scope : Scope} {createParent : Bool} {path : Path} {kept made : List Path}
    (h : Prepared scope createParent path kept made) :
    kept.Nodup ∧ (∀ d ∈ made, ∃ k ∈ kept, scope.synchronizes k = d.dropLast) ∧
      (scope = .rooted ∨ ".." ∉ path →
        ∀ k ∈ kept, ∃ d ∈ made, scope.synchronizes k = d.dropLast) ∧
      ∀ k ∈ kept, ∀ k' ∈ kept, scope.synchronizes k = scope.synchronizes k' → k = k' := by
  cases h with
  | host h =>
    have hprepared := DirectoryTree.prepareHostParent_prepared h
    refine ⟨hprepared.nodup, fun d hd => ⟨d, hprepared.covers d hd, rfl⟩, ?_, ?_⟩
    · rintro (⟨⟨⟩⟩ | hdots) k hk
      exact ⟨k, hprepared.exact hdots k hk, rfl⟩
    · intro k hk k' hk' heq
      -- Both are on one path, so the length tells them apart.
      obtain ⟨hne, j, rfl⟩ := hprepared.onPath k hk
      obtain ⟨hne', j', rfl⟩ := hprepared.onPath k' hk'
      have hlen := congrArg List.length (show _ = _ from heq)
      simp only [Scope.synchronizes, List.length_dropLast, List.length_take] at hlen
      have hpos := List.length_pos_iff.mpr hne
      have hpos' := List.length_pos_iff.mpr hne'
      rw [List.length_take] at hpos hpos'
      rw [List.take_eq_take_iff]
      omega
  | rooted h =>
    obtain ⟨rfl, hnodup⟩ := DirectoryTree.prepareRootedParent_prepared h
    refine ⟨hnodup, fun d hd => ⟨d.dropLast, List.mem_map_of_mem hd, rfl⟩, ?_, fun _ _ _ _ => id⟩
    intro _ k hk
    obtain ⟨d, hd, rfl⟩ := List.mem_map.mp hk
    exact ⟨d, hd, rfl⟩

/-- The report of a commit without error, over the whole life of the writer: it is durable exactly
    when the last synchronization of the staging file succeeded between its last change and the
    installation and then, with no entry changed any more, the destination's parent and every
    directory the writer keeps were synchronized; these include every directory that got an entry. -/
theorem atomic_commit_durability {scope : Scope} {system : UnixTarget} {createParent : Bool}
    {path : Path} {made : List Path} {w w' : UnixAtomicWriter I} {file : I}
    {past tr : AtomicTrace I} {outcome : LocalCommitSyncOutcome}
    (hprepared : Prepared scope createParent path w.parentDirsToSync made)
    (hfile : w.stagedFile.file = some file) (hsession : Session scope system w past w')
    (hcommit : (w'.commitRecoverableWithSync scope system).Runs tr (.ok outcome)) :
    (outcome.durable = true ↔ w.durability ≠ .notRequired ∧ SyncedLast file (past ++ tr) ∧
      BehindInstall w.name parentSynced tr ∧
      ∀ kept ∈ w.parentDirsToSync, BehindInstall w.name (directorySynced kept) tr) ∧
    (outcome.durable = true →
      CrashProof scope w (SyncedLast file (past ++ tr)) (made.map List.dropLast) tr) ∧
    (scope = .rooted ∨ ".." ∉ path → (outcome.durable = true ↔
      CrashProof scope w (SyncedLast file (past ++ tr)) (made.map List.dropLast) tr)) ∧
    (outcome.fileSynced = true ↔ stagingRequirement w.durability w.fileSync ≠ .notRequired ∧
      SyncedLast file (past ++ tr)) ∧
    (w.durability = .required → outcome.durable = true) := by
  obtain ⟨hsame, hpast⟩ := hsession.spec
  obtain ⟨hnodup, hcovers, hexact, hinjective⟩ := hprepared.spec
  have hrun := UnixAtomicWriter.commit_runs (by rw [hsame.stagedFile, hfile]) hcommit
  have hnodup' : w'.parentDirsToSync.Nodup := by rwa [hsame.parentDirsToSync]
  have hdurable := hrun.durable_iff hnodup' hpast
  have hsynced := hrun.fileSynced_iff hnodup' hpast
  have hrequired := hrun.durable_of_required hnodup'
  have hkept := hrun.kept_of_behindInstall hnodup'
  rw [hsame.durability, hsame.name, hsame.parentDirsToSync] at hdurable
  rw [hsame.durability, hsame.fileSync] at hsynced
  rw [hsame.durability] at hrequired
  rw [hsame.name, hsame.parentDirsToSync] at hkept
  have hforward (h : outcome.durable = true) :
      CrashProof scope w (SyncedLast file (past ++ tr)) (made.map List.dropLast) tr := by
    obtain ⟨hne, hlast, hparent, hdirs⟩ := hdurable.mp h
    refine ⟨hne, hlast, hparent, ?_⟩
    intro place hplace
    obtain ⟨d, hd, rfl⟩ := List.mem_map.mp hplace
    obtain ⟨kept, hmem, heq⟩ := hcovers d hd
    exact ⟨kept, heq, hdirs kept hmem⟩
  refine ⟨hdurable, hforward, fun hplain => ⟨hforward, ?_⟩, hsynced, hrequired⟩
  rintro ⟨hne, hlast, hparent, hplaces⟩
  refine hdurable.mpr ⟨hne, hlast, hparent, fun kept hmem => ?_⟩
  obtain ⟨d, hd, heq⟩ := hexact hplain kept hmem
  obtain ⟨kept', heq', hbehind⟩ := hplaces d.dropLast (List.mem_map_of_mem hd)
  rw [hinjective kept hmem kept' (hkept kept' hbehind) (heq.trans heq'.symm)]
  exact hbehind

def enoent : IoError := ⟨.notFound, "no such file or directory", some 2⟩
def eexist : IoError := ⟨.alreadyExists, "file exists", some 17⟩

/-- A writer whose parent directory was created by the request. -/
def writerBelowNew : UnixAtomicWriter Nat where
  path := ["new", "target"]
  name := "target"
  parentDirsToSync := [["new"]]
  destinationExisted := false
  destinationIsRegular := false
  metadataPolicy := .preserveExisting
  durability := .required
  fileSync := .notRequired
  openRetryTimeout := none
  copyPermissions := false
  stagedFile := ⟨some "staging", some 1, some 1, ["new", "staging"]⟩

def preparationOfNew : List HostEvent :=
  [⟨.metadata ["new"], (.error enoent : IoResult Bool)⟩,
    ⟨.metadata [], (.ok true : IoResult Bool)⟩, ⟨.mkdir ["new"], (.ok () : IoResult Unit)⟩]

theorem prepared_new : Prepared .host true ["new", "target"] [["new"]] [["new"]] := by
  have hruns : (prepareHostParent true ["new", "target"]).Runs preparationOfNew (.ok [["new"]]) :=
    Prog.replay_runs (by decide +kernel)
  have halong : Along DirectoryTree.HostEffect (fun _ => none) preparationOfNew
      (DirectoryTree.create (fun _ => none) ["new"]) :=
    ⟨_, ⟨rfl, fun _ => rfl⟩, _, ⟨rfl, .directory [], rfl, rfl⟩, _,
      ⟨[], "new", [], rfl, by decide, rfl, fun _ => rfl, rfl⟩, rfl⟩
  exact .host (Prog.runsIn_iff.mpr ⟨hruns, halong⟩)

def commitBelowNew : AtomicTrace Nat :=
  [stagingSynced 1, ⟨.renameNoReplace "staging" "target", (.ok () : IoResult Unit)⟩, parentSynced,
    directorySynced ["new"]]

theorem atomic_commit_durability_new : CrashProof .host writerBelowNew
    (SyncedLast 1 ([] ++ commitBelowNew)) [[]] commitBelowNew := by
  have hsession : Session .host .linux writerBelowNew [] writerBelowNew := .opened
  have hcommit : (writerBelowNew.commitRecoverableWithSync .host .linux).Runs commitBelowNew
      (.ok ⟨true, true⟩) := Prog.replay_runs rfl
  exact (atomic_commit_durability prepared_new rfl hsession hcommit).2.1 rfl

/-- A writer over an existing file whose metadata is not copied. -/
def retriedWriter : UnixAtomicWriter Nat where
  path := ["target"]
  name := "target"
  parentDirsToSync := []
  destinationExisted := true
  destinationIsRegular := true
  metadataPolicy := .useStaging
  durability := .preferred
  fileSync := .notRequired
  openRetryTimeout := none
  copyPermissions := false
  stagedFile := ⟨some "staging", some 1, some 1, ["staging"]⟩

def failedIo : IoError := ⟨.uncategorized, "input/output error", some 5⟩

/-- The staging file is synchronized, and the check of the destination fails. -/
def firstAttempt : AtomicTrace Nat :=
  [⟨.stat "target", (.ok ⟨true, 7⟩ : IoResult (Status Nat))⟩, stagingSynced 1,
    ⟨.stat "target", (.error failedIo : IoResult (Status Nat))⟩]

/-- The staging file cannot be synchronized again; everything else succeeds. -/
def secondAttempt : AtomicTrace Nat :=
  [⟨.stat "target", (.ok ⟨true, 7⟩ : IoResult (Status Nat))⟩,
    ⟨.inert (.syncFile 1), (.error failedIo : IoResult Unit)⟩,
    ⟨.stat "target", (.ok ⟨true, 7⟩ : IoResult (Status Nat))⟩,
    ⟨.rename "staging" "target", (.ok () : IoResult Unit)⟩, parentSynced]

theorem prepared_existing : Prepared .host false ["target"] [] [] := by
  have hruns : (prepareHostParent false ["target"]).Runs
      [⟨.metadata [], (.ok true : IoResult Bool)⟩] (.ok []) := Prog.replay_runs rfl
  have halong : Along DirectoryTree.HostEffect (fun _ => none)
      [⟨.metadata [], (.ok true : IoResult Bool)⟩] (fun _ => none) :=
    ⟨_, ⟨rfl, .directory [], rfl, rfl⟩, rfl⟩
  exact .host (Prog.runsIn_iff.mpr ⟨hruns, halong⟩)

/-- A writer of `missing/../b`, whose preparation observes two directories as missing. -/
def writerBehindDots : UnixAtomicWriter Nat where
  path := ["missing", "..", "b"]
  name := "b"
  parentDirsToSync := [["missing"], ["missing", ".."]]
  destinationExisted := false
  destinationIsRegular := false
  metadataPolicy := .useStaging
  durability := .preferred
  fileSync := .notRequired
  openRetryTimeout := none
  copyPermissions := false
  stagedFile := ⟨some "staging", some 1, some 1, ["missing", "..", "staging"]⟩

/-- The directory is created on the way to the path that leads back out of it. -/
def preparationBehindDots : List HostEvent :=
  [⟨.metadata ["missing", ".."], (.error enoent : IoResult Bool)⟩,
    ⟨.metadata ["missing"], (.error enoent : IoResult Bool)⟩,
    ⟨.metadata [], (.ok true : IoResult Bool)⟩,
    ⟨.mkdir ["missing", ".."], (.error enoent : IoResult Unit)⟩,
    ⟨.mkdir ["missing"], (.ok () : IoResult Unit)⟩,
    ⟨.mkdir ["missing", ".."], (.error eexist : IoResult Unit)⟩,
    ⟨.isDir ["missing", ".."], true⟩]

/-- The new directory, in which there is no new entry, cannot be synchronized. -/
def commitBehindDots : AtomicTrace Nat :=
  [stagingSynced 1, ⟨.renameNoReplace "staging" "b", (.ok () : IoResult Unit)⟩, parentSynced,
    ⟨.inert (.syncDirectory ["missing", ".."]), (.error failedIo : IoResult Unit)⟩]

theorem prepared_behindDots : (prepareHostParent true ["missing", "..", "b"]).RunsIn
    DirectoryTree.HostEffect (fun _ => none) preparationBehindDots
    (DirectoryTree.create (fun _ => none) ["missing"])
    (.ok [["missing"], ["missing", ".."]]) := by
  have hruns : (prepareHostParent true ["missing", "..", "b"]).Runs preparationBehindDots
      (.ok [["missing"], ["missing", ".."]]) := Prog.replay_runs (by decide +kernel)
  have halong : Along DirectoryTree.HostEffect (fun _ => none) preparationBehindDots
      (DirectoryTree.create (fun _ => none) ["missing"]) :=
    ⟨_, ⟨rfl, fun _ => rfl⟩, _, ⟨rfl, fun _ => rfl⟩, _, ⟨rfl, .directory [], rfl, rfl⟩, _, rfl, _,
      ⟨[], "missing", [], rfl, by decide, rfl, fun _ => rfl, rfl⟩, _, rfl, _,
      ⟨rfl, fun _ => ⟨[], rfl⟩⟩, rfl⟩
  exact Prog.runsIn_iff.mpr ⟨hruns, halong⟩

/-- The directory at the real place was synchronized behind the installation, under whichever path:
    as the destination's parent or as the parent of a path the writer keeps. -/
def RealPlaceSynced (t : DirectoryTree) (w : UnixAtomicWriter I) (place : Path)
    (tr : AtomicTrace I) : Prop :=
  (t.locate w.path.dropLast = some (.directory place) ∧ BehindInstall w.name parentSynced tr) ∨
    ∃ kept, t.locate kept.dropLast = some (.directory place) ∧
      BehindInstall w.name (directorySynced kept) tr

/-- Two ways in which a commit that a crash cannot take back reports not to be durable.  The
    synchronization of an attempt that failed afterwards is not counted: the next attempt
    synchronizes again and reports what it did itself.  And behind `..` the Host keeps the parents of
    paths under which it created nothing, and one of these may fail. -/
theorem atomic_commit_durability_retried :
    (¬ ∀ (scope : Scope) (system : UnixTarget) (createParent : Bool) (path : Path)
      (made : List Path) (w w' : UnixAtomicWriter Nat) (file : Nat) (past tr : AtomicTrace Nat)
      (outcome : LocalCommitSyncOutcome),
      Prepared scope createParent path w.parentDirsToSync made → w.stagedFile.file = some file →
      Session scope system w past w' →
      (w'.commitRecoverableWithSync scope system).Runs tr (.ok outcome) →
      (outcome.durable = true ↔
        CrashProof scope w (SyncedOnce file (past ++ tr)) (made.map List.dropLast) tr)) ∧
    ¬ ∀ (system : UnixTarget) (t t' : DirectoryTree) (preparation : List HostEvent)
      (w : UnixAtomicWriter Nat) (file : Nat) (tr : AtomicTrace Nat)
      (outcome : LocalCommitSyncOutcome),
      (prepareHostParent true w.path).RunsIn DirectoryTree.HostEffect t preparation t'
        (.ok w.parentDirsToSync) →
      w.stagedFile.file = some file →
      (w.commitRecoverableWithSync .host system).Runs tr (.ok outcome) →
      w.durability ≠ .notRequired → SyncedLast file tr → BehindInstall w.name parentSynced tr →
      (∀ d ∈ madeByPath preparation, ∀ place, t'.locate d.dropLast = some (.directory place) →
        RealPlaceSynced t' w place tr) →
      outcome.durable = true := by
  refine ⟨fun h => ?_, fun h => ?_⟩
  · have hfirst : (retriedWriter.commitRecoverableWithSync .host .linux).Runs firstAttempt
        (.error ⟨⟨.replaceDestination, ["target"], some ["staging"], .unchanged, failedIo, none, none⟩,
          some retriedWriter⟩) := Prog.replay_runs rfl
    have hsecond : (retriedWriter.commitRecoverableWithSync .host .linux).Runs secondAttempt
        (.ok ⟨false, false⟩) := Prog.replay_runs rfl
    have hdurable := h .host .linux false ["target"] [] retriedWriter retriedWriter 1 firstAttempt
      secondAttempt ⟨false, false⟩ prepared_existing rfl (.retry .opened hfirst) hsecond
    have honce : SyncedOnce 1 (firstAttempt ++ secondAttempt) := by
      refine ⟨firstAttempt.take 1, firstAttempt.drop 2 ++ secondAttempt, rfl, ?_, ?_⟩
      · have hkinds : OfKinds [.observes, .syncsFile, .mutates, .syncsParents]
            (firstAttempt.drop 2 ++ secondAttempt) := by
          unfold OfKinds
          decide
        exact fun ev hev => hkinds.not_altersFile (by decide) 1 hev
      · have hkinds : OfKinds [.observes] (firstAttempt.take 1) := by
          unfold OfKinds
          decide
        exact fun ev hev => hkinds.not_mutates (by decide) hev
    have hparent : BehindInstall "target" parentSynced secondAttempt := by
      refine ⟨secondAttempt.take 4, [], rfl, ⟨_, ?_, "staging", .inl rfl⟩, ?_⟩
      · exact .tail _ (.tail _ (.tail _ (.head _)))
      · exact fun _ h => absurd h List.not_mem_nil
    have hfalse := hdurable.mpr ⟨by decide, honce, hparent, fun _ h => absurd h List.not_mem_nil⟩
    cases hfalse
  · have hcommit : (writerBehindDots.commitRecoverableWithSync .host .linux).Runs commitBehindDots
        (.ok ⟨false, true⟩) := Prog.replay_runs rfl
    have hlast : SyncedLast 1 commitBehindDots := by
      refine ⟨[], commitBehindDots.drop 1, rfl, ?_, fun _ h => absurd h List.not_mem_nil⟩
      simp [commitBehindDots, AltersFile, parentSynced]
    have hparent : BehindInstall "b" parentSynced commitBehindDots := by
      refine ⟨commitBehindDots.take 2, commitBehindDots.drop 3, rfl, ?_, ?_⟩
      · exact ⟨_, .tail _ (.head _), "staging", .inr (.inl rfl)⟩
      · simp [commitBehindDots, callKind]
    have hdurable := h .linux _ _ _ writerBehindDots 1 commitBehindDots ⟨false, true⟩
      prepared_behindDots rfl hcommit (by decide) hlast hparent ?_
    · cases hdurable
    · intro d hd place hplace
      -- The new directory is in the root, and so is the destination.
      obtain rfl := List.mem_singleton.mp hd
      cases hplace
      exact .inl ⟨rfl, hparent⟩

end Lives

end LocalFiles.Atomic
