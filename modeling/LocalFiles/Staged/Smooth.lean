import LocalFiles.Staged.Exclusive

/-!
# Staged.Smooth — runs without failing calls

Where no call fails, both routes accept an input exactly when it is not too long.  Behind the limit
the calls may do what they like: the error has its cause already.
-/

namespace LocalFiles.Staged

open Interaction Prog Atomic
open Copy (Transient)
open Private (EntryCall EntryM OwningError TempResult LocalFileObservation LocalOwnerAccessPolicy
  LocalObservationRequirement NativePrivateCreateError createPrivateFileAt createOwnerEntryAt
  finishOwnerCreation queryObservation tryClone componentName identityForFile readMetadata fstat
  cleanupNativeEntry cleanupEntries ownerMode)
open Writer (LocalFileWriter LocalFileWriterBackend WriterByteCount)

variable {I : Type} [DecidableEq I] {slot : Slot I} {w w' : StageWorld I} {file : I}
  {staging : String} {stored : List UInt8} {fits : Nat → Prop} {length : Nat} {maximum : UInt64}
  {α : Type}

/-! ## 1. Before and behind the limit -/

/-- The limit has not been passed yet. -/
def BeforeLimit (length maximum : Nat) (w : StageWorld I) : Prop :=
  length ≤ w.source.unread.length + maximum

theorem WriterEffect.source {c : Syscall String I (AtomicCall I)}
    {answer : Syscall.Result AtomicCall.Result c} (h : WriterEffect slot w c answer w') :
    w'.source = w.source := by
  cases c with
  | inert o =>
    cases o with
    | write file bytes | writeVectored file buffers =>
      obtain ⟨sink, -, rfl⟩ := h
      rfl
    | _ =>
      obtain ⟨names, -, rfl⟩ := h
      rfl
  | createExclusive name =>
    cases answer with
    | ok file =>
      obtain ⟨-, -, -, rfl⟩ := h
      rfl
    | error error =>
      obtain ⟨names, -, rfl⟩ := h
      rfl
  | _ =>
    obtain ⟨names, -, rfl⟩ := h
    rfl

theorem WriterEffect.interrupts_le {c : Syscall String I (AtomicCall I)}
    {answer : Syscall.Result AtomicCall.Result c} (h : WriterEffect slot w c answer w') :
    w'.interrupts ≤ w.interrupts := by
  cases c with
  | inert o =>
    cases o with
    | write file bytes | writeVectored file buffers =>
      obtain ⟨sink, haccepts, rfl⟩ := h
      exact haccepts.interrupts_le
    | _ =>
      obtain ⟨names, -, rfl⟩ := h
      exact Nat.le_refl _
  | createExclusive name =>
    cases answer with
    | ok file =>
      obtain ⟨-, -, -, rfl⟩ := h
      exact Nat.le_refl _
    | error error =>
      obtain ⟨names, -, rfl⟩ := h
      exact Nat.le_refl _
  | _ =>
    obtain ⟨names, -, rfl⟩ := h
    exact Nat.le_refl _

theorem EntryEffect.source {c : EntryCall I} {answer : c.Result} (h : EntryEffect slot w c answer w') :
    w'.source = w.source := by
  obtain ⟨entry, -, rfl⟩ := h
  rfl

section Embedded

variable {C : Type} {f : C → StageCall I} {p : Prog C (fun c => (f c).Result) α}
  {post : α → StageWorld I → Prop}

/-- Before the limit, calls that leave the input alone do not fail. -/
theorem ensures_within (hwithin : BeforeLimit length maximum.toNat w)
    (hsource : ∀ w c answer w', StageEffect slot w (f c) answer w' → w'.source = w.source)
    (h : p.Ensures (fun w c answer w' => StageEffect slot w (f c) answer w' ∧
      Smooth slot fits w (f c) answer) post w) :
    (p.embed f).Ensures (SmoothUntil slot fits length maximum.toNat) post w := by
  have hsame (w : StageWorld I) (c : C) (answer : (f c).Result) (w' : StageWorld I)
      (hwithin : BeforeLimit length maximum.toNat w) :
      SmoothUntil slot fits length maximum.toNat w (f c) answer w' ↔
        StageEffect slot w (f c) answer w' ∧ Smooth slot fits w (f c) answer :=
    ⟨fun hE => ⟨hE.1, hE.2 hwithin⟩, fun hE => ⟨hE.1, fun _ => hE.2⟩⟩
  refine ensures_embed.mpr (h.transport hwithin hsame fun w c answer w' hwithin hE => ?_)
  unfold BeforeLimit
  rw [hsource w c answer w' hE.1]
  exact hwithin

/-- Behind the limit they may fail, but have an answer. -/
theorem ensures_beyond {P : C → Prop} (hbeyond : ¬ BeforeLimit length maximum.toNat w) (hp : p.Makes P)
    (hsource : ∀ w c answer w', StageEffect slot w (f c) answer w' → w'.source = w.source)
    (hanswers : ∀ w c, P c → ∃ answer w', StageEffect slot w (f c) answer w')
    (h : p.Wp (fun w c => StageEffect slot w (f c)) post w) :
    (p.embed f).Ensures (SmoothUntil slot fits length maximum.toNat) post w := by
  have hruns : p.Ensures (fun w c => SmoothUntil slot fits length maximum.toNat w (f c))
      (fun _ w' => ¬ BeforeLimit length maximum.toNat w') w := by
    refine hp.ensures (fun w c hc hbeyond => ?_) (fun w c answer w' _ hbeyond hE => ?_) hbeyond
    · obtain ⟨answer, w', hE⟩ := hanswers w c hc
      exact ⟨answer, w', hE, fun hwithin => absurd hwithin hbeyond⟩
    · unfold BeforeLimit
      rw [hsource w c answer w' hE.1]
      exact hbeyond
  refine ensures_embed.mpr ((hruns.and_wp (h.restrict fun _ _ _ _ hE => hE.1)).mono ?_)
  exact fun _ _ hr => hr.2

end Embedded

/-! ## 2. The calls of the writer -/

section Writer

def SmoothlyWrites (slot : Slot I) (w : StageWorld I) (c : Syscall String I (AtomicCall I))
    (answer : Syscall.Result AtomicCall.Result c) (w' : StageWorld I) : Prop :=
  WriterEffect slot w c answer w' ∧ SmoothWriter slot w c answer

theorem ensures_onWriter {p : AtomicM I α} {post : α → StageWorld I → Prop}
    (hwithin : BeforeLimit length maximum.toNat w) (h : p.Ensures (SmoothlyWrites slot) post w) :
    (onWriter p).Ensures (SmoothUntil slot fits length maximum.toNat) post w :=
  ensures_within hwithin (fun _ _ _ _ hE => WriterEffect.source hE) h

/-- Every call but a panic has an answer. -/
def Answers : Syscall String I (AtomicCall I) → Prop
  | .inert (.panic _) => False
  | _ => True

def someFailure : IoError := ⟨.other, "failed", none⟩

theorem exists_failure (w : StageWorld I) {c : Syscall String I (AtomicCall I)} (hc : Answers c) :
    ∃ answer w', WriterEffect slot w c answer w' := by
  cases c with
  | inert o =>
    cases o with
    | write file bytes =>
      obtain ⟨sink, haccepts⟩ := Sink.exists_accepts Transient bytes ⟨w.contents file, w.interrupts⟩
      exact ⟨(.ok bytes.length : IoResult Nat), _, sink, haccepts, rfl⟩
    | writeVectored file buffers =>
      obtain ⟨sink, haccepts⟩ :=
        Sink.exists_accepts Transient buffers.flatten ⟨w.contents file, w.interrupts⟩
      exact ⟨(.ok buffers.flatten.length : IoResult Nat), _, sink, haccepts, rfl⟩
    | isSymlink file => exact ⟨false, _, _, rfl, rfl⟩
    | panic message => cases hc
    | _ => exact ⟨.error someFailure, _, _, rfl, rfl⟩
  | createExclusive name => exact ⟨.error someFailure, _, _, rfl, rfl⟩
  | openRead name => exact ⟨.error someFailure, _, _, rfl, rfl⟩
  | fileStat file => exact ⟨.error someFailure, _, _, rfl, rfl⟩
  | randomName => exact ⟨.error someFailure, _, _, rfl, rfl⟩
  | stat name => exact ⟨.error someFailure, _, _, ⟨rfl, nofun⟩, rfl⟩
  | unlink name =>
    refine ⟨.error someFailure, _, _, ⟨.inl rfl, ?_⟩, rfl⟩
    rintro _ ⟨⟩ ⟨⟩
  | rename a b | renameNoReplace a b | renameExchange a b | link a b =>
    exact ⟨.error someFailure, _, _, .inl rfl, rfl⟩

theorem ensures_onWriter_beyond {p : AtomicM I α} {post : α → StageWorld I → Prop}
    (hbeyond : ¬ BeforeLimit length maximum.toNat w) (hp : p.Makes Answers)
    (h : p.Wp (WriterEffect slot) post w) :
    (onWriter p).Ensures (SmoothUntil slot fits length maximum.toNat) post w :=
  ensures_beyond hbeyond hp (fun _ _ _ _ hE => WriterEffect.source hE)
    (fun w _ hc => exists_failure w hc) h

omit [DecidableEq I] in
theorem answers_remove (staged : StagedFile I) (name : String) :
    (staged.remove name).Makes Answers := by
  unfold StagedFile.remove
  refine Makes.bind ⟨trivial, fun _ => trivial⟩ fun answer => ?_
  cases answer <;> trivial

omit [DecidableEq I] in
theorem answers_pathIdentity (name : String) :
    (pathIdentity name : AtomicM I _).Makes Answers := by
  unfold pathIdentity
  refine Makes.bind ⟨trivial, fun _ => trivial⟩ fun answer => ?_
  cases answer with
  | ok status => trivial
  | error error =>
    dsimp only
    split <;> trivial

theorem answers_cleanup (scope : Scope) (staged : StagedFile I) :
    (scope.cleanup staged).Makes Answers := by
  cases scope with
  | host =>
    show (staged.cleanupBy pathIdentity).Makes Answers
    unfold StagedFile.cleanupBy
    dsimp only
    cases staged.close.name with
    | none => trivial
    | some name =>
      refine Makes.bind (answers_pathIdentity name) fun answer => ?_
      match answer with
      | .error error => trivial
      | .ok none => trivial
      | .ok (some current) =>
        dsimp only
        split
        · trivial
        · exact answers_remove _ name
  | rooted =>
    show (RootedStagedFile.cleanup staged).Makes Answers
    unfold RootedStagedFile.cleanup
    dsimp only
    cases staged.close.name with
    | none => trivial
    | some name =>
      cases staged.close.identity with
      | none => trivial
      | some identity =>
        refine Makes.bind ⟨trivial, fun _ => trivial⟩ fun answer => ?_
        cases answer with
        | error error =>
          dsimp only
          split <;> trivial
        | ok status =>
          dsimp only
          split
          · trivial
          · exact answers_remove _ name

theorem answers_drop (writer : LocalFileWriter I) : writer.drop.Makes Answers := by
  unfold LocalFileWriter.drop
  match writer.backend with
  | none => trivial
  | some (.staged backend) => exact Makes.bind (answers_cleanup .host _) fun _ => trivial
  | some (.rooted backend) => exact Makes.bind (answers_cleanup .rooted _) fun _ => trivial
  | some (.append file) => trivial

theorem answers_abort {writer : LocalFileWriter I} {backend : UnixAtomicWriter I}
    (hbackend : writer.backend = some (.rooted backend)) : writer.abort.Makes Answers := by
  unfold LocalFileWriter.abort
  split
  · trivial
  · rw [hbackend]
    refine Makes.bind (Makes.bind ?_ fun _ => trivial) fun r => ?_
    · exact Makes.bind trivial fun _ =>
        Makes.bind (Makes.bind (answers_cleanup .rooted _) fun _ => trivial) fun _ => trivial
    · obtain ⟨answer, backend'⟩ := r
      cases answer <;> trivial

theorem answers_failAborted {writer : LocalFileWriter I} {backend : UnixAtomicWriter I}
    (hbackend : writer.backend = some (.rooted backend)) (cause : LocalFileError) :
    (failAborted writer cause).Makes Answers := by
  unfold failAborted abortFailedStageWrite
  refine Makes.bind (Makes.bind (answers_abort hbackend) fun r => ?_) fun r =>
    Makes.bind (answers_drop _) fun _ => trivial
  obtain ⟨answer, writer'⟩ := r
  cases answer <;> trivial

end Writer

/-! ## 3. The ordinary route -/

section Ordinary

/-- A call whose smooth answers are all that counts. -/
theorem ensures_writerCall {c : Syscall String I (AtomicCall I)}
    {post : Syscall.Result AtomicCall.Result c → StageWorld I → Prop}
    (hprogress : ∃ answer w', SmoothlyWrites slot w c answer w')
    (h : ∀ answer w', WriterEffect slot w c answer w' → SmoothWriter slot w c answer →
      post answer w') :
    (request c : Prog _ _ _).Ensures (SmoothlyWrites slot) post w :=
  ⟨hprogress, fun answer w' hE => h answer w' hE.1 hE.2⟩

theorem ensures_destinationStatus (hfree : w.names slot.parent slot.name = none) :
    (destinationStatus slot.name).Ensures (SmoothlyWrites slot) (fun r w' => r = .ok none ∧ w' = w)
      w := by
  unfold destinationStatus
  refine .bind (ensures_writerCall ?_ fun answer w' hE hsmooth => ?_)
  · exact ⟨.error ⟨.notFound, "not found", none⟩, _, ⟨_, ⟨rfl, fun _ => hfree⟩, rfl⟩, fun error heq => by
      cases heq
      rfl⟩
  · obtain rfl : w' = w := hE.quiet rfl
    obtain ⟨names, heffect, -⟩ : ∃ names, _ ∧ _ := hE
    match answer, heffect, hsmooth with
    | .ok status, ⟨_, hbound, _⟩, _ =>
      exact absurd (hfree.symm.trans hbound) nofun
    | .error error, _, hsmooth =>
      have hkind : error.kind = .notFound := hsmooth error rfl
      show Prog.Ensures _ _ (if error.kind = .notFound then _ else _) _
      rw [if_pos hkind]
      exact ⟨rfl, rfl⟩

theorem ensures_inspect (hfree : w.names slot.parent slot.name = none) (path : Path) :
    (UnixAtomicWriter.inspect .rooted (atomicOptions createNewOptions) false path slot.name).Ensures
      (SmoothlyWrites slot) (fun r w' => (∃ destination, r = .ok destination) ∧ w' = w) w := by
  unfold UnixAtomicWriter.inspect UnixAtomicWriter.inspectForRooted inspectRootedAtomicDestination
    inspectDestination
  refine .bind (.andThen (.andThen ((ensures_destinationStatus hfree).mono fun r w' hr => ?_)))
  obtain ⟨rfl, rfl⟩ := hr
  exact ⟨none, rfl, (false, false), rfl, ⟨_, rfl⟩, rfl⟩

/-- Names and files that are not used yet. -/
structure Room (slot : Slot I) (w : StageWorld I) : Prop where
  free : w.names slot.parent slot.name = none
  staging : ∃ staging, staging ≠ slot.name ∧ w.names slot.parent staging = none
  file : ∃ file, Private.Fresh slot.parent w.entry.entries file ∧ w.entry.kind file = .file

theorem ensures_createStaging (hroom : Room slot w) {attempts : Nat} (hattempts : 0 < attempts) :
    (createStaging attempts).Ensures (SmoothlyWrites slot)
      (fun r _ => ∃ staged, r = some (.ok staged)) w := by
  obtain ⟨attempts, rfl⟩ := Nat.exists_eq_succ_of_ne_zero (Nat.ne_of_gt hattempts)
  obtain ⟨staging, hne, hstaging⟩ := hroom.staging
  obtain ⟨file, hfresh, hkind⟩ := hroom.file
  unfold createStaging
  refine .bind (ensures_writerCall ⟨.ok staging, _, ⟨_, ⟨rfl, hne⟩, rfl⟩, staging, rfl, hstaging⟩
    fun answer w' hE hsmooth => ?_)
  obtain rfl : w' = w := hE.quiet rfl
  obtain ⟨name, rfl, hname⟩ : ∃ name, answer = .ok name ∧ _ := hsmooth
  refine .bind (ensures_writerCall
    ⟨.ok file, _, ⟨hname, hfresh.unnamed slot.parent, hkind, rfl⟩, rfl⟩ fun answer w'' _ hsmooth => ?_)
  cases answer with
  | error error => cases hsmooth
  | ok file => exact ⟨_, rfl⟩

theorem ensures_new (hroom : Room slot w) (path parent : Path) {attempts : Nat}
    (hattempts : 0 < attempts) :
    (UnixAtomicWriter.new .rooted (atomicOptions createNewOptions) false path parent slot.name [] attempts).Ensures
      (SmoothlyWrites slot) (fun r _ => ∃ backend, r = some (.ok backend)) w := by
  unfold UnixAtomicWriter.new UnixAtomicWriter.prepareParentFor
  refine .bind (.andThen (.bind (ensures_writerCall ⟨.ok (), _, ⟨_, rfl, rfl⟩, rfl⟩
    fun answer w' hE hsmooth => ?_)))
  obtain rfl : w' = w := hE.quiet rfl
  match answer, hsmooth with
  | .ok (), _ =>
    refine ⟨(), rfl, (ensures_inspect hroom.free path).mono fun r w'' hr => ?_⟩
    obtain ⟨⟨destination, rfl⟩, rfl⟩ := hr
    unfold UnixAtomicWriter.stage
    refine .bind ((ensures_createStaging hroom hattempts).mono fun r w₃ hr => ?_)
    obtain ⟨⟨staging, file⟩, rfl⟩ := hr
    refine .bind (.bind (ensures_writerCall ⟨.ok ⟨_, file⟩, _, ⟨_, ⟨rfl, rfl⟩, rfl⟩, rfl⟩
      fun answer w₄ _ _ => ?_))
    exact ⟨_, rfl⟩

/-- The writer has taken all of `stored` and would take more. -/
structure Open (writer : LocalFileWriter I) (stored : List UInt8) : Prop where
  state : writer.state = .opened
  failure : writer.failureState = none
  count : writer.bytesWritten.value.toNat = stored.length

theorem ensures_openWriter (hroom : Room slot w) (path parent : Path) {bound : Nat}
    (hbound : 0 < bound) :
    (openWriter path parent slot.name bound).Ensures (SmoothlyWrites slot)
      (fun r _ => ∃ writer, r = .ok writer ∧ Open writer []) w := by
  unfold openWriter
  refine .bind ((ensures_new hroom path parent hbound).mono fun r w' hr => ?_)
  obtain ⟨backend, rfl⟩ := hr
  exact ⟨_, rfl, rfl, rfl, rfl⟩

/-- The names are as the installation needs them. -/
structure Installable (slot : Slot I) (staging : String) (w : StageWorld I) : Prop where
  ne : staging ≠ slot.name
  bound : (w.names slot.parent staging).isSome
  free : w.names slot.parent slot.name = none

theorem ensures_linkThenUnlink (h : Installable slot staging w) :
    (linkThenUnlink staging slot.name : AtomicM I (Except InstallFailure Unit)).Ensures
      (SmoothlyWrites slot) (fun r _ => r = .ok ()) w := by
  unfold linkThenUnlink
  refine .bind (ensures_writerCall ⟨.ok (), _, ⟨_, ⟨⟨h.bound, h.free⟩, rfl⟩, rfl⟩, rfl⟩
    fun answer w' hE hsmooth => ?_)
  match answer, hE, hsmooth with
  | .ok (), hE, _ =>
    obtain ⟨names, ⟨-, hnames⟩, rfl⟩ : ∃ names, (_ ∧ names = (w.names slot.parent).link staging slot.name) ∧
      w' = w.withNames slot.parent names := hE
    have hbound : ((w.withNames slot.parent names).names slot.parent staging).isSome := by
      rw [StageWorld.names_withNames, hnames]
      unfold Directory.link
      rw [Function.update_of_ne h.ne]
      exact h.bound
    refine .bind ?_
    unfold maxUnlinkAttempts unlinkAttempts
    refine .bind (ensures_writerCall ⟨.ok (), _, ⟨_, ⟨⟨hbound, rfl⟩, nofun⟩, rfl⟩, rfl⟩
      fun answer w'' _ hsmooth => ?_)
    match answer, hsmooth with
    | .ok (), _ => rfl

theorem ensures_installNew {system : UnixTarget} (hsystem : system ≠ .other)
    (h : Installable slot staging w) :
    (installNewAtomicFileAt system staging slot.name : AtomicM I (Except InstallFailure Unit)).Ensures
      (SmoothlyWrites slot) (fun r _ => r = .ok ()) w := by
  have hrename {k : IoResult Unit → AtomicM I (Except InstallFailure Unit)} (hk : k (.ok ()) = pure (.ok ())) :
      ((renameNoReplace staging slot.name : AtomicM I (IoResult Unit)) >>= k).Ensures
        (SmoothlyWrites slot) (fun r _ => r = .ok ()) w := by
    refine .bind (ensures_writerCall ⟨.ok (), _, ⟨_, ⟨⟨h.bound, h.free⟩, rfl⟩, rfl⟩, rfl⟩
      fun answer w' _ hsmooth => ?_)
    match answer, hsmooth with
    | .ok (), _ =>
      rw [hk]
      rfl
  cases system with
  | linux => exact hrename rfl
  | macos => exact hrename rfl
  | freebsd => exact ensures_linkThenUnlink h
  | other => exact absurd rfl hsystem

/-- Behind the installation nothing is left to be removed. -/
theorem ensures_installAndSyncParent {backend : UnixAtomicWriter I} {system : UnixTarget}
    (hsystem : system ≠ .other) (hfresh : Fresh slot staging file backend)
    (h : Installable slot staging w) :
    (backend.installAndSyncParent .rooted system).Ensures (SmoothlyWrites slot) (fun r _ =>
      ∃ durable backend', r = (.ok durable, backend') ∧ backend'.stagedFile.name = none) w := by
  unfold UnixAtomicWriter.installAndSyncParent StagedFile.armedName
  show Prog.Ensures _ _ ((expectSome backend.stagedFile.name _).bind _) _
  rw [hfresh.staging]
  show Prog.Ensures _ _ (installRootedAtomicFile system staging backend.name backend.destinationExisted >>= _) _
  rw [hfresh.name, hfresh.existed]
  refine .bind ((ensures_installNew hsystem h).mono fun r w' hr => ?_)
  subst hr
  unfold UnixAtomicWriter.finishInstalled
  dsimp only
  rw [hfresh.durability]
  exact ⟨_, _, rfl, rfl⟩

theorem ensures_commitRecoverable {backend : UnixAtomicWriter I} {system : UnixTarget}
    (hsystem : system ≠ .other) (hfresh : Fresh slot staging file backend)
    (h : Installable slot staging w) :
    (backend.commitRecoverableWithSync .rooted system).Ensures (SmoothlyWrites slot)
      (fun r _ => ∃ sync, r = .ok sync) w := by
  unfold UnixAtomicWriter.commitRecoverableWithSync commitRecoverably UnixAtomicWriter.commitAttempt
  dsimp only
  rw [hfresh.prepareCommit]
  refine .bind (.bind (.bind ((ensures_installAndSyncParent hsystem hfresh h).mono
    fun r w' hr => ?_)))
  obtain ⟨durable, backend', rfl, hname⟩ := hr
  refine .bind ?_
  have hcleanup : RootedStagedFile.cleanup backend'.stagedFile =
      pure (.ok (), backend'.stagedFile.close) := by
    unfold RootedStagedFile.cleanup StagedFile.close
    dsimp only
    rw [hname]
  unfold UnixAtomicWriter.dropWriter Scope.drop
  show Prog.Ensures _ _ (RootedStagedFile.cleanup backend'.stagedFile >>= _) _
  rw [hcleanup]
  exact ⟨_, rfl⟩

theorem ensures_commit {writer : LocalFileWriter I} {system : UnixTarget} (hsystem : system ≠ .other)
    (hopen : Open writer stored) (hfree : w.names slot.parent slot.name = none)
    (h : Filling slot w writer stored w') :
    (writer.commit system).Ensures (SmoothlyWrites slot) (fun r _ => ∃ outcome, r = .ok outcome)
      w' := by
  obtain ⟨backend, staging, file, hbackend, hfresh, hkept, hname⟩ := h
  have hinstallable : Installable slot staging w' := by
    refine ⟨hkept.ne, ?_, hkept.target.trans hfree⟩
    rw [hname]
    rfl
  unfold LocalFileWriter.commit
  rw [if_neg (by rw [hopen.state, hopen.failure]; decide), hbackend]
  dsimp only
  unfold LocalFileWriter.commitStagedBackend LocalFileWriterBackend.commitStaged
  exact .bind (.bind ((ensures_commitRecoverable hsystem hfresh hinstallable).mono fun r w'' hr => by
    obtain ⟨sync, rfl⟩ := hr
    exact ⟨_, rfl⟩))

theorem ensures_writeFile {more : List UInt8} {post : IoResult Nat → StageWorld I → Prop}
    (h : ∀ answer w', Writes w file more answer w' → SmoothWrite more answer → post answer w') :
    (writeFile file more).Ensures (SmoothlyWrites slot) post w := by
  obtain ⟨sink, haccepts⟩ := Sink.exists_accepts Transient more ⟨w.contents file, w.interrupts⟩
  refine ensures_writerCall ⟨(.ok more.length : IoResult Nat), _, ⟨sink, haccepts, rfl⟩, ?_⟩ h
  exact fun hne hzero => hne (List.eq_nil_of_length_eq_zero hzero)

/-- A write that is not interrupted takes something. -/
theorem Writes.smooth {more : List UInt8} {answer : IoResult Nat} (h : Writes w file more answer w')
    (hsmooth : SmoothWrite more answer) (hne : more ≠ []) : match answer with
      | .error error => Transient error ∧ w.interrupts = w'.interrupts + 1
      | .ok count => 0 < count ∧ count ≤ more.length ∧ w'.interrupts = w.interrupts := by
  obtain ⟨sink, haccepts, rfl⟩ := h
  cases answer with
  | error error => exact ⟨hsmooth, (haccepts.again hsmooth).2⟩
  | ok count =>
    obtain ⟨hcount, -, hinterrupts⟩ := haccepts.accepted
    exact ⟨Nat.pos_of_ne_zero (hsmooth hne), hcount, hinterrupts⟩

omit [DecidableEq I] in
theorem Open.writes {writer : LocalFileWriter I} (h : Open writer stored) {more : List UInt8}
    {count : Nat} (hcount : count ≤ more.length) {total : WriterByteCount}
    (htotal : total.value.toNat = writer.bytesWritten.value.toNat + count) :
    Open { writer with bytesWritten := total } (stored ++ more.take count) := by
  refine ⟨h.state, h.failure, ?_⟩
  rw [List.length_append, List.length_take_of_le hcount, ← h.count]
  exact htotal

theorem drains_blocksToWriter (path : Path) :
    (blocksToWriter path).Drains slot fits length maximum fun writer stored w' =>
      Filling slot w writer stored w' ∧ Open writer stored where
  read source h := ⟨(appends_blocksToWriter path).read source h.1, h.2⟩
  tooLong := rfl
  write {writer stored w'} bytes h hne hfits hwithin := by
    obtain ⟨hfilling, hopen⟩ := h
    -- the write itself, and then what it keeps
    have hruns : ((blocksToWriter path).write writer bytes).Ensures
        (SmoothUntil slot fits length maximum.toNat) (fun r w'' => match r with
          | (.error error, writer') => Transient error ∧ Open writer' stored ∧
              w'.interrupts = w''.interrupts + 1
          | (.ok count, writer') => 0 < count ∧ Open writer' (stored ++ bytes.take count) ∧
              w''.interrupts = w'.interrupts) w' := by
      obtain ⟨backend, staging, file, hbackend, hfresh, -, -⟩ := hfilling
      refine ensures_onWriter hwithin ?_
      have hroom : writer.bytesWritten.value.toNat + bytes.length < Writer.wordSize := by
        have hsize : maximum.toNat < Writer.wordSize := maximum.toNat_lt
        rw [hopen.count]
        omega
      unfold LocalFileWriter.writeOnce
      rw [if_neg (by rw [hopen.state, hopen.failure]; decide),
        WriterByteCount.checkRequest_of_fits hroom, hbackend]
      show Prog.Ensures _ _ (UnixAtomicWriter.write .rooted backend bytes >>= _) _
      unfold UnixAtomicWriter.write StagedFile.handle
      dsimp only
      rw [hfresh.file]
      refine .bind (ensures_writeFile fun answer w'' hwrites hsmooth => ?_)
      have hr := hwrites.smooth hsmooth hne
      cases answer with
      | error error =>
        have hkind : error.kind = .interrupted := hr.1
        have hsame : writer.observeStreamResult (.error error : IoResult Nat) = writer :=
          if_pos (.inl hkind)
        refine ⟨hr.1, ?_, hr.2⟩
        rw [hsame]
        exact hopen
      | ok count =>
        obtain ⟨total, hsettled, htotal⟩ := writer.settleWrite_of_fits
          (show writer.bytesWritten.value.toNat + count < Writer.wordSize by omega)
        rw [hsettled]
        exact ⟨hr.1, hopen.writes hr.2.1 htotal, hr.2.2⟩
    have hkeeps := ((appends_blocksToWriter path).write bytes hfilling).restrict
      fun _ _ _ _ (hE : SmoothUntil slot fits length maximum.toNat _ _ _ _) => hE.1
    refine (hruns.and_wp hkeeps).mono fun r w'' hr => ?_
    obtain ⟨answer, writer'⟩ := r
    obtain ⟨hr, hsource, hfilling'⟩ := hr
    refine ⟨hsource, ?_⟩
    cases answer with
    | error error => exact ⟨hr.1, ⟨hfilling', hr.2.1⟩, hr.2.2⟩
    | ok count => exact ⟨hr.1, hfilling'.1, ⟨hfilling'.2, hr.2.1⟩, hr.2.2⟩

/-- How a run without failing calls ends. -/
def Decided (input : List UInt8) (maximum : UInt64) : TempResult I α → Prop
  | .ok _ => input.length ≤ maximum.toNat
  | .error (.failed error) => maximum.toNat < input.length ∧ error.cause.kind = .resourceLimit
  | .error _ => False

theorem ensures_fillAndCommit {writer : LocalFileWriter I} {system : UnixTarget}
    (hsystem : system ≠ .other) (path : Path) {bound : Nat} (hsource : w'.source = w.source)
    (hfree : w.names slot.parent slot.name = none) (hopen : Open writer [])
    (hfilling : Filling slot w writer [] w') (hwrites : blockSize + w'.interrupts < bound)
    (hbound : w'.source.unread.length + w'.source.interrupts < bound) :
    (fillAndCommit system path maximum bound writer).Ensures
      (SmoothUntil slot fits w.source.unread.length maximum.toNat)
      (fun r _ => Decided w.source.unread maximum r) w' := by
  unfold fillAndCommit
  have hinput : [] ++ w'.source.unread = w.source.unread := by rw [hsource, List.nil_append]
  refine .bind ((ensures_copyInput (drains_blocksToWriter path) bound bound ⟨hfilling, hopen⟩ rfl
    (Nat.zero_le _) hinput hwrites hbound).mono fun r w'' hr => ?_)
  obtain ⟨answer, writer'⟩ := r
  by_cases hfits : w.source.unread.length ≤ maximum.toNat
  · rw [if_pos hfits] at hr
    obtain ⟨rfl, hfilling', hopen'⟩ := hr
    refine .bind (ensures_onWriter (Nat.le_trans hfits (Nat.le_add_left _ _))
      ((ensures_commit hsystem hopen' hfree hfilling').mono fun r w₃ hr => ?_))
    obtain ⟨outcome, rfl⟩ := hr
    exact hfits
  · rw [if_neg hfits] at hr
    obtain ⟨cause, more, rfl, hkind, ⟨hfilling', -⟩, hbeyond⟩ := hr
    obtain ⟨backend, staging, file, hbackend, hfresh, hkept, -⟩ := hfilling'
    refine .bind (ensures_onWriter_beyond (Nat.not_le_of_lt hbeyond)
      (answers_failAborted hbackend cause) ((wp_failAborted cause ⟨backend, hbackend, hfresh.guards⟩
        hkept).mono fun error w₃ hr => ?_))
    refine ⟨Nat.lt_of_not_le hfits, ?_⟩
    rw [hr.1, hkind]

theorem ensures_stageStep (s : StageStep) {post : Except LocalFileError Unit → StageWorld I → Prop}
    (hwithin : BeforeLimit length maximum.toNat w) (h : post (.ok ()) w) :
    (stageStep s).Ensures (SmoothUntil slot fits length maximum.toNat) post w := by
  refine ⟨⟨(.ok () : Except LocalFileError Unit), w, rfl, fun _ => rfl⟩, fun answer w' hE => ?_⟩
  obtain rfl : w' = w := hE.1
  obtain rfl : answer = .ok () := hE.2 hwithin
  exact h

theorem ensures_observeNew (hwithin : BeforeLimit length maximum.toNat w')
    (h : Complete slot w w' maximum file) :
    (observeNew : StageM I _).Ensures (SmoothUntil slot fits length maximum.toNat)
      (fun r _ => ∃ observation, r = .ok observation) w' := by
  unfold observeNew
  refine .bind ⟨?_, fun answer w'' hE => ?_⟩
  · exact ⟨(.ok ⟨.file, some file⟩ : Except LocalFileError (LocalFileObservation I)), w',
      ⟨rfl, file, h.name, rfl⟩, fun _ => rfl⟩
  · have hsmooth : Smooth slot fits w' .observeEntry answer := hE.2 hwithin
    cases answer with
    | ok observation => exact ⟨_, rfl⟩
    | error error => cases hsmooth

/-- Enough for all the loops of a run. -/
def Enough (bound : Nat) (w : StageWorld I) : Prop :=
  w.source.unread.length + w.source.interrupts + w.interrupts + blockSize < bound

omit [DecidableEq I] in
theorem Enough.pos {bound : Nat} (h : Enough bound w) : 0 < bound := by
  unfold Enough at h
  omega

theorem ensures_writeOrdinaryFileNew {system : UnixTarget} (hsystem : system ≠ .other)
    (hroom : Room slot w) {bound : Nat} (henough : Enough bound w) (relative : Path) :
    (writeOrdinaryFileNew system relative slot.name maximum bound).Ensures
      (SmoothUntil slot fits w.source.unread.length maximum.toNat)
      (fun r _ => Decided w.source.unread maximum r) w := by
  have hwithin : BeforeLimit w.source.unread.length maximum.toNat w := Nat.le_add_right _ _
  unfold writeOrdinaryFileNew
  refine .bind (ensures_stageStep _ hwithin ?_)
  have hinterrupts : (openWriter relative relative.dropLast slot.name bound).Wp (WriterEffect slot)
      (fun _ w' => w'.interrupts ≤ w.interrupts) w :=
    Wp.keeps _ (fun _ _ _ _ hle hE => Nat.le_trans hE.interrupts_le hle) (Nat.le_refl _)
  have hopens := (ensures_openWriter hroom relative relative.dropLast henough.pos).and_wp
    (((wp_openWriter maximum False relative relative.dropLast bound).and hinterrupts).restrict
      fun _ _ _ _ hE => hE.1)
  refine .andThen (ensures_onWriter hwithin (hopens.mono fun r w' hr => ?_))
  obtain ⟨⟨writer, rfl, hopen⟩, ⟨-, hsource, hfilling⟩, hle⟩ := hr
  refine ⟨writer, rfl, ?_⟩
  have hwrites : blockSize + w'.interrupts < bound := by
    unfold Enough at henough
    omega
  have hbound : w'.source.unread.length + w'.source.interrupts < bound := by
    rw [hsource]
    unfold Enough at henough
    omega
  have hfills := (ensures_fillAndCommit hsystem relative hsource hroom.free hopen hfilling hwrites
    hbound).and_wp ((wp_fillAndCommit False system relative bound hsource hfilling).restrict
      fun _ _ _ _ (hE : SmoothUntil slot fits w.source.unread.length maximum.toNat _ _ _ _) => hE.1)
  refine .bind (hfills.mono fun r w'' hr => ?_)
  obtain ⟨hdecided, -, hends⟩ := hr
  match r, hdecided, hends with
  | .error exit, hdecided, _ => cases exit <;> exact hdecided
  | .ok (), hfits, ⟨file, hcomplete⟩ =>
    have hwithin : BeforeLimit w.source.unread.length maximum.toNat w'' :=
      Nat.le_trans hfits (Nat.le_add_left _ _)
    refine (ensures_observeNew hwithin hcomplete).mono fun r w₃ hr => ?_
    obtain ⟨observation, rfl⟩ := hr
    exact hfits

end Ordinary

/-! ## 4. The calls on entries -/

section Entry

def SmoothlyEnters (slot : Slot I) (fits : Nat → Prop) (w : StageWorld I) (c : EntryCall I)
    (answer : c.Result) (w' : StageWorld I) : Prop :=
  EntryEffect slot w c answer w' ∧ SmoothEntry fits c answer

theorem ensures_onEntry {p : EntryM I α} {post : α → StageWorld I → Prop}
    (hwithin : BeforeLimit length maximum.toNat w) (h : p.Ensures (SmoothlyEnters slot fits) post w) :
    (onEntry p).Ensures (SmoothUntil slot fits length maximum.toNat) post w :=
  ensures_within hwithin (fun _ _ _ _ hE => EntryEffect.source hE) h

theorem exists_refusal (w : StageWorld I) (c : EntryCall I) :
    ∃ answer w', EntryEffect slot w c answer w' := by
  cases c with
  | prepareParent => exact ⟨(.ok () : Except LocalFileError Unit), _, w.entry, rfl, rfl⟩
  | _ => exact ⟨.error someFailure, _, w.entry, rfl, rfl⟩

theorem ensures_onEntry_beyond {p : EntryM I α} {post : α → StageWorld I → Prop}
    (hbeyond : ¬ BeforeLimit length maximum.toNat w) (h : p.Wp (EntryEffect slot) post w) :
    (onEntry p).Ensures (SmoothUntil slot fits length maximum.toNat) post w := by
  exact ensures_beyond hbeyond (makes_true p) (fun _ _ _ _ hE => EntryEffect.source hE)
    (fun w c _ => exists_refusal w c) h

/-- The permission bits with which the stage accepts a new file. -/
def LocalStagedDirectory.Fits (stage : LocalStagedDirectory) (mode : Nat) : Prop :=
  match stage.ownerAccessPolicy with
  | some policy => ownerMode policy false = .ok (mode &&& 0o7777)
  | none => mode &&& 0o777 &&& 0o077 = 0 ∧ mode &&& 0o777 &&& 0o600 = 0o600

/-- An owner policy is valid, and can be verified on this system. -/
def LocalStagedDirectory.Supported (stage : LocalStagedDirectory) (system : UnixTarget) : Prop :=
  ∀ policy ∈ stage.ownerAccessPolicy, system = .linux ∧ ∃ mode, ownerMode policy false = .ok mode

theorem ownerMode_and {policy : LocalOwnerAccessPolicy} {mode : Nat}
    (h : ownerMode policy false = .ok mode) : mode &&& 0o7777 = mode := by
  unfold ownerMode at h
  split at h
  · cases h
  · next directoryMode fileMode _ =>
    split at h
    · cases h
    · next hmodes =>
      obtain rfl : fileMode = mode := Except.ok.inj h
      have hor : fileMode ||| 0o700 = 0o700 := not_not.mp (not_or.mp hmodes).2
      have hle : fileMode ≤ 0o700 := by
        rw [← hor]
        exact Nat.left_le_or
      rw [show (0o7777 : Nat) = 2 ^ 12 - 1 from rfl, Nat.and_two_pow_sub_one_eq_mod]
      exact Nat.mod_eq_of_lt (by omega)

theorem LocalStagedDirectory.Supported.exists_fits {stage : LocalStagedDirectory}
    {system : UnixTarget} (h : stage.Supported system) : ∃ mode, stage.Fits mode := by
  unfold LocalStagedDirectory.Fits
  cases hpolicy : stage.ownerAccessPolicy with
  | none => exact ⟨0o600, by decide⟩
  | some policy =>
    obtain ⟨-, mode, hmode⟩ := h policy hpolicy
    refine ⟨mode, ?_⟩
    rw [ownerMode_and hmode]
    exact hmode

/-- A call that only looks, and whose smooth answers are all that counts. -/
theorem ensures_look {c : EntryCall I} {post : c.Result → StageWorld I → Prop} (hc : Looks c)
    (hprogress : ∃ answer w', SmoothlyEnters slot fits w c answer w')
    (h : ∀ answer, EntryEffect slot w c answer w → SmoothEntry fits c answer → post answer w) :
    (request c : Prog _ _ _).Ensures (SmoothlyEnters slot fits) post w := by
  refine ⟨hprogress, fun answer w' hE => ?_⟩
  obtain rfl := hE.1.looks hc
  exact h answer hE.1 hE.2

theorem ensures_tryClone {post : IoResult Unit → StageWorld I → Prop} (h : post (.ok ()) w) :
    (tryClone file).Ensures (SmoothlyEnters slot fits) post w := by
  refine ensures_look trivial ⟨.ok (), _, ⟨w.entry, rfl, rfl⟩, rfl⟩ fun answer _ hsmooth => ?_
  cases answer with
  | ok _ => exact h
  | error error => cases hsmooth

theorem ensures_readMetadata (hfits : ∃ mode, fits mode)
    {post : IoResult (Private.FileMetadata I) → StageWorld I → Prop}
    (h : ∀ metadata : Private.FileMetadata I, metadata.kind = w.entry.kind file →
      metadata.owned = true → fits metadata.mode → post (.ok metadata) w) :
    (readMetadata file).Ensures (SmoothlyEnters slot fits) post w := by
  obtain ⟨mode, hmode⟩ := hfits
  refine ensures_look trivial ⟨.ok ⟨file, w.entry.kind file, true, mode⟩, _,
    ⟨w.entry, ⟨rfl, rfl, rfl⟩, rfl⟩, _, rfl, rfl, hmode⟩ fun answer hE hsmooth => ?_
  obtain ⟨metadata, rfl, howned, hfits⟩ : ∃ metadata, answer = .ok metadata ∧ _ := hsmooth
  obtain ⟨entry, ⟨-, -, hkind⟩, -⟩ := hE
  exact h metadata hkind howned hfits

theorem ensures_queryObservation (hfits : ∃ mode, fits mode)
    (requirement : LocalObservationRequirement) :
    (queryObservation file requirement).Ensures (SmoothlyEnters slot fits) (fun r w' =>
      w' = w ∧ ∃ kind, r = .ok ⟨kind, some file⟩) w := by
  unfold queryObservation
  refine .bind (ensures_readMetadata hfits fun metadata hkind _ _ => ?_)
  refine .bind (ensures_look trivial ⟨.ok ⟨file, w.entry.kind file, true⟩, _,
    ⟨w.entry, ⟨rfl, rfl, rfl⟩, rfl⟩, _, rfl, rfl⟩ fun answer hE hsmooth => ?_)
  obtain ⟨stat, rfl, htimes⟩ : ∃ stat, answer = .ok stat ∧ _ := hsmooth
  obtain ⟨entry, ⟨-, hidentity, -⟩, -⟩ := hE
  show Prog.Ensures _ _ (if _ then _ else _) _
  rw [if_neg (by rw [htimes]; exact fun h => nomatch h.2), hidentity]
  exact ⟨rfl, _, rfl⟩

theorem ensures_identityForFile (hfits : ∃ mode, fits mode) :
    (identityForFile file).Ensures (SmoothlyEnters slot fits) (fun _ w' => w' = w) w :=
  .bind (ensures_readMetadata hfits fun _ _ _ _ => rfl)

omit [DecidableEq I] in
theorem nul_of_componentName {name : String} (h : componentName name = .ok ()) :
    name.toList.contains (Char.ofNat 0) = false := by
  unfold componentName at h
  split at h
  · cases h
  · split at h
    · cases h
    · next hnul => exact Bool.eq_false_iff.mpr hnul

theorem ensures_openExclusive (hroom : Room slot w) (hname : componentName slot.name = .ok ())
    {mode : Nat} {post : IoResult I → StageWorld I → Prop}
    (h : ∀ file, Created slot w file → post (.ok file) (w.creates slot file)) :
    (Private.openExclusive slot.parent slot.name mode).Ensures (SmoothlyEnters slot fits) post w := by
  obtain ⟨file, hfresh, -⟩ := hroom.file
  refine ⟨⟨(.ok file : IoResult I), _,
    ⟨_, ⟨nul_of_componentName hname, hroom.free, hfresh, rfl⟩, rfl⟩, rfl⟩, fun answer w' hE => ?_⟩
  have hopens : (Private.openExclusive slot.parent slot.name mode).Wp (EntryEffect slot)
      (fun r w' => Except.isOk r = true → post r w') w :=
    wp_openExclusive (fun _ => nofun) fun file hcreated _ => h file hcreated
  exact hopens answer w' hE.1 hE.2

theorem ensures_createPrivateFileAt (hroom : Room slot w) (hname : componentName slot.name = .ok ())
    (hfits : ∃ mode, fits mode)
    (hprivate : ∀ mode, fits mode →
      mode &&& 0o777 &&& 0o077 = 0 ∧ mode &&& 0o777 &&& 0o600 = 0o600) :
    (createPrivateFileAt slot.parent slot.name).Ensures (SmoothlyEnters slot fits)
      (fun r _ => ∃ file, r = .ok file) w := by
  unfold createPrivateFileAt
  rw [hname]
  refine .bind (ensures_tryClone (.bind (ensures_openExclusive hroom hname fun file hcreated => ?_)))
  refine .bind (ensures_readMetadata hfits fun metadata hkind howned hmode => ?_)
  have hfile : (w.creates slot file).entry.kind file = .file := Function.update_self ..
  refine .bind ((ensures_identityForFile hfits).mono fun identity w' _ => ?_)
  dsimp only
  rw [if_neg (by rw [hkind, hfile, howned]; decide),
    if_neg (fun h => h.elim (fun h => h (hprivate _ hmode).1) fun h => h (hprivate _ hmode).2)]
  exact ⟨file, rfl⟩

theorem ensures_verifyOwnerAccess {policy : LocalOwnerAccessPolicy} {mode : Nat}
    (hpolicy : ownerMode policy false = .ok mode) (hfits : ∃ mode, fits mode)
    (howner : ∀ found, fits found → ownerMode policy false = .ok (found &&& 0o7777))
    (hkind : w.entry.kind file = .file) :
    (Private.verifyOwnerAccess .linux file false policy).Ensures (SmoothlyEnters slot fits)
      (fun r _ => r = .ok ()) w := by
  unfold Private.verifyOwnerAccess
  rw [hpolicy]
  refine .andThen (.bind (ensures_readMetadata hfits fun metadata hfile howned _ => ?_))
  have howned : ¬ (metadata.kind ≠ .file ∨ metadata.owned = false) := by
    rw [hfile, hkind, howned]
    decide
  show Prog.Ensures _ _ (if metadata.kind ≠ .file ∨ metadata.owned = false then _ else _) _
  rw [if_neg howned]
  refine ⟨(), rfl, .andThen (.bind (ensures_readMetadata hfits fun metadata _ _ hmode => ?_))⟩
  have hexact : metadata.mode &&& 0o7777 = mode :=
    (Except.ok.inj (hpolicy.symm.trans (howner _ hmode))).symm
  show Prog.Ensures _ _ (if metadata.mode &&& 0o7777 ≠ mode then _ else _) _
  rw [if_neg (not_not.mpr hexact)]
  refine ⟨(), rfl, .andThen (.bind (ensures_look trivial ⟨(.ok false : IoResult Bool), w,
    ⟨w.entry, rfl, rfl⟩, rfl⟩ fun answer _ hsmooth => ?_))⟩
  obtain rfl : answer = .ok false := hsmooth
  exact ⟨(), rfl, rfl⟩

theorem ensures_createOwnerEntryAt (hroom : Room slot w) (hname : componentName slot.name = .ok ())
    {policy : LocalOwnerAccessPolicy} {mode : Nat} (hpolicy : ownerMode policy false = .ok mode)
    (hfits : ∃ mode, fits mode)
    (howner : ∀ found, fits found → ownerMode policy false = .ok (found &&& 0o7777)) :
    (createOwnerEntryAt .linux slot.parent slot.name false policy).Ensures
      (SmoothlyEnters slot fits) (fun r _ => ∃ file, r = .ok file) w := by
  unfold createOwnerEntryAt
  rw [hpolicy, hname]
  refine .bind (ensures_tryClone (.bind (ensures_openExclusive hroom hname fun file hcreated => ?_)))
  have hfile : (w.creates slot file).entry.kind file = .file := Function.update_self ..
  unfold finishOwnerCreation
  refine .bind ((ensures_identityForFile hfits).mono fun identity w' hw => ?_)
  subst hw
  dsimp only
  rw [hpolicy]
  refine .bind (.andThen (ensures_look trivial ⟨(.ok () : IoResult Unit), _,
    ⟨_, rfl, rfl⟩, rfl⟩ fun answer _ hsmooth => ?_))
  cases answer with
  | error error => cases hsmooth
  | ok _ =>
    refine ⟨(), rfl, .andThen ⟨(), rfl, ?_⟩⟩
    refine (ensures_verifyOwnerAccess hpolicy hfits howner hfile).mono fun r w'' hr => ?_
    subst hr
    exact ⟨file, rfl⟩

theorem ensures_createStageFile {stage : LocalStagedDirectory} {system : UnixTarget}
    (hsupported : stage.Supported system) (hroom : Room slot w)
    (hname : componentName slot.name = .ok ()) :
    (createStageFile system slot.parent slot.name stage.ownerAccessPolicy).Ensures
      (SmoothlyEnters slot stage.Fits) (fun r _ => ∃ file, r = .ok file) w := by
  have hfits := hsupported.exists_fits
  unfold createStageFile
  cases hpolicy : stage.ownerAccessPolicy with
  | none =>
    refine ensures_createPrivateFileAt hroom hname hfits fun mode hmode => ?_
    unfold LocalStagedDirectory.Fits at hmode
    rw [hpolicy] at hmode
    exact hmode
  | some policy =>
    obtain ⟨rfl, mode, hmode⟩ := hsupported policy hpolicy
    refine ensures_createOwnerEntryAt hroom hname hmode hfits fun found hfound => ?_
    unfold LocalStagedDirectory.Fits at hfound
    rw [hpolicy] at hfound
    exact hfound

end Entry

/-! ## 5. The private route -/

section Exclusive

theorem drains_blocksToFile (path : Path) :
    (blocksToFile path file).Drains slot fits length maximum fun _ => Holding slot w file where
  read source h := ⟨h.created, h.entry, h.contents⟩
  tooLong := rfl
  write {state stored w'} bytes h hne hfits hwithin := by
    refine .bind (ensures_onWriter hwithin (ensures_writeFile fun answer w'' hwrites hsmooth => ?_))
    have hr := hwrites.smooth hsmooth hne
    obtain ⟨hsource, hholding⟩ := h.writes hwrites
    cases answer with
    | error error => exact ⟨hsource, hr.1, hholding, hr.2⟩
    | ok count => exact ⟨hsource, hr.1, hholding.1, hholding.2, hr.2.2⟩

theorem ensures_fillCreated (hfits : ∃ mode, fits mode) (path : Path) {bound : Nat}
    (hsource : w'.source = w.source) (hholding : Holding slot w file [] w')
    (hwrites : blockSize + w'.interrupts < bound)
    (hbound : w'.source.unread.length + w'.source.interrupts < bound) :
    (fillCreated path slot.parent slot.name file file maximum bound).Ensures
      (SmoothUntil slot fits w.source.unread.length maximum.toNat)
      (fun r _ => Decided w.source.unread maximum r) w' := by
  unfold fillCreated
  have hinput : [] ++ w'.source.unread = w.source.unread := by rw [hsource, List.nil_append]
  refine .bind ((ensures_copyInput (drains_blocksToFile path) bound bound hholding rfl
    (Nat.zero_le _) hinput hwrites hbound).mono fun r w'' hr => ?_)
  obtain ⟨answer, _⟩ := r
  by_cases hlength : w.source.unread.length ≤ maximum.toNat
  · rw [if_pos hlength] at hr
    obtain ⟨rfl, -⟩ := hr
    refine .bind (ensures_onEntry (Nat.le_trans hlength (Nat.le_add_left _ _))
      ((ensures_queryObservation hfits _).mono fun r w₃ hr => ?_))
    obtain ⟨-, kind, rfl⟩ := hr
    exact hlength
  · rw [if_neg hlength] at hr
    obtain ⟨cause, more, rfl, hkind, hholding', hbeyond⟩ := hr
    refine .bind (ensures_onEntry_beyond (Nat.not_le_of_lt hbeyond)
      ((wp_cleanupPartialPrivateFile cause ?_ path hholding').mono fun error w₃ hr => ?_))
    · rintro _ ⟨⟩
      rfl
    · refine ⟨Nat.lt_of_not_le hlength, ?_⟩
      rw [hr.1, hkind]

theorem ensures_writeCreatedFile {stage : LocalStagedDirectory} {system : UnixTarget}
    (hsupported : stage.Supported system) (hroom : Room slot w)
    (hname : componentName slot.name = .ok ()) (path : Path) {bound : Nat} (henough : Enough bound w) :
    (writeCreatedFile stage system path slot.parent slot.name maximum bound).Ensures
      (SmoothUntil slot stage.Fits w.source.unread.length maximum.toNat)
      (fun r _ => Decided w.source.unread maximum r) w := by
  have hwithin : BeforeLimit w.source.unread.length maximum.toNat w := Nat.le_add_right _ _
  unfold writeCreatedFile
  refine .bind (ensures_onEntry hwithin (ensures_tryClone ?_))
  have hcreates := (ensures_createStageFile hsupported hroom hname).and_wp
    ((wp_createStageFile system stage.ownerAccessPolicy).restrict fun _ _ _ _ hE => hE.1)
  refine .bind (ensures_onEntry hwithin (hcreates.mono fun r w' hr => ?_))
  obtain ⟨⟨file, rfl⟩, hcreated, rfl⟩ := hr
  have hobserve : (observeCreated path file).Ensures (SmoothlyEnters slot stage.Fits)
      (fun r w' => r = .ok file ∧ w' = w.creates slot file) (w.creates slot file) := by
    unfold observeCreated
    refine .bind ((ensures_queryObservation hsupported.exists_fits _).mono fun r w' hr => ?_)
    obtain ⟨rfl, kind, rfl⟩ := hr
    exact ⟨rfl, rfl⟩
  refine .bind (ensures_onEntry hwithin (hobserve.mono fun r w' hr => ?_))
  obtain ⟨rfl, rfl⟩ := hr
  refine ensures_fillCreated hsupported.exists_fits path rfl hcreated.holding ?_ ?_
  · show blockSize + w.interrupts < bound
    unfold Enough at henough
    omega
  · show w.source.unread.length + w.source.interrupts < bound
    unfold Enough at henough
    omega

theorem ensures_writePrivateFileNew {stage : LocalStagedDirectory} {system : UnixTarget}
    (hsupported : stage.Supported system) (hroom : Room slot w)
    (hname : componentName slot.name = .ok ()) (relative : Path) {bound : Nat}
    (henough : Enough bound w) :
    (writePrivateFileNew stage system relative slot.parent slot.name maximum bound).Ensures
      (SmoothUntil slot stage.Fits w.source.unread.length maximum.toNat)
      (fun r _ => Decided w.source.unread maximum r) w := by
  have hwithin : BeforeLimit w.source.unread.length maximum.toNat w := Nat.le_add_right _ _
  have hstepIf {c : Prop} [Decidable c] {s : StageStep}
      {post : Except LocalFileError Unit → StageWorld I → Prop} (h : post (.ok ()) w) :
      (if c then stageStep s else pure (.ok ()) : StageM I _).Ensures
        (SmoothUntil slot stage.Fits w.source.unread.length maximum.toNat) post w := by
    split
    · exact ensures_stageStep s hwithin h
    · exact h
  unfold writePrivateFileNew
  refine .bind (ensures_stageStep _ hwithin (.bind (hstepIf (.bind (hstepIf (.bind
    (ensures_stageStep _ hwithin ?_)))))))
  exact ensures_writeCreatedFile hsupported hroom hname _ henough

end Exclusive

end LocalFiles.Staged
