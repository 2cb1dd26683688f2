import LocalFiles.Staged.Blocks

/-!
# Staged.Ordinary — a new file that is installed at the end

The bytes go to a file beside the name, and only the installation at the end can bind the name.
`Kept` says what the calls of a writer leave alone; `Binding` how far the installation has come.
-/

namespace LocalFiles.Staged

open Interaction Prog Atomic
open Copy (Transient)
open Private (OwningError TempResult TempExit LocalFileObservation)
open Writer (LocalFileWriter LocalFileCommitError WriterByteCount)

variable {I : Type} [DecidableEq I] {slot : Slot I} {w w' : StageWorld I} {file : I}
  {staging : String} {bytes : List UInt8} {α : Type}

/-! ## 1. What the calls leave alone -/

inductive Binding where
  | staged | either | published

/-- What the name leads to, compared with what it led to at first. -/
def Binding.Holds (file : I) (old new : Option I) : Binding → Prop
  | .staged => new = old
  | .either => new = old ∨ old = none ∧ new = some file
  | .published => old = none ∧ new = some file

omit [DecidableEq I] in
theorem Binding.Holds.either {phase : Binding} {old new : Option I} (h : phase.Holds file old new) :
    Binding.either.Holds file old new := by
  cases phase with
  | staged => exact .inl h
  | either => exact h
  | published => exact .inr h

/-- The file `file` is staged under `staging` and holds `bytes`, and nothing else has changed, apart
    from the name itself. -/
structure Kept (slot : Slot I) (w : StageWorld I) (file : I) (staging : String)
    (bytes : List UInt8) (phase : Binding) (w' : StageWorld I) : Prop where
  target : phase.Holds file (w.names slot.parent slot.name) (w'.names slot.parent slot.name)
  name : w'.names slot.parent staging = some file ∨ w'.names slot.parent staging = none
  contents : w'.contents file = bytes
  others : ∀ other, other ≠ file → w'.contents other = w.contents other
  fresh : w.names slot.parent slot.name ≠ some file
  ne : staging ≠ slot.name

/-- The calls of a writer that is not installing: what they remove is the staging name. -/
def Harmless (staging : String) : Syscall String I (AtomicCall I) → Prop
  | .createExclusive _ | .rename _ _ | .renameExchange _ _ | .renameNoReplace _ _ | .link _ _ => False
  | .unlink name => name = staging
  | .inert (.write _ _) | .inert (.writeVectored _ _) => False
  | _ => True

/-- The calls that change neither names nor bytes. -/
def Silent : Syscall String I (AtomicCall I) → Prop
  | .inert (.write _ _) | .inert (.writeVectored _ _) => False
  | c => c.mutates = false

theorem withNames_names (w : StageWorld I) (parent : I) : w.withNames parent (w.names parent) = w := by
  unfold StageWorld.withNames StageWorld.names
  rw [Function.update_eq_self]

theorem WriterEffect.quiet {c : Syscall String I (AtomicCall I)}
    {answer : Syscall.Result AtomicCall.Result c} (h : WriterEffect slot w c answer w')
    (hc : Silent c) : w' = w := by
  have hnames {names : Directory String I} (heffect : (slot.posix w).Effect (w.names slot.parent) c
      answer names) (hmutates : c.mutates = false) (heq : w' = w.withNames slot.parent names) :
      w' = w := by
    rw [heq, heffect.observes hmutates, withNames_names]
  cases c with
  | inert o =>
    cases o with
    | write _ _ => cases hc
    | writeVectored _ _ => cases hc
    | _ =>
      obtain ⟨names, heffect, heq⟩ := h
      exact hnames heffect rfl heq
  | stat _ | openRead _ | fileStat _ | randomName =>
    obtain ⟨names, heffect, heq⟩ := h
    exact hnames heffect rfl heq
  | createExclusive _ | rename _ _ | renameExchange _ _ | renameNoReplace _ _ | link _ _ | unlink _ =>
    cases hc

variable {phase : Binding}

theorem Kept.step {c : Syscall String I (AtomicCall I)}
    {answer : Syscall.Result AtomicCall.Result c} {w'' : StageWorld I}
    (h : Kept slot w file staging bytes phase w') (hc : Harmless staging c)
    (hE : WriterEffect slot w' c answer w'') : Kept slot w file staging bytes phase w'' := by
  by_cases hquiet : Silent c
  · rw [hE.quiet hquiet]
    exact h
  cases c with
  | unlink name =>
    obtain rfl : name = staging := hc
    obtain ⟨names, ⟨hperforms, -⟩, rfl⟩ := hE
    obtain rfl | ⟨-, rfl⟩ := hperforms.cases
    · rw [withNames_names]
      exact h
    · refine ⟨?_, .inr ?_, h.contents, h.others, h.fresh, h.ne⟩
      · rw [StageWorld.names_withNames, Directory.unbind_of_ne h.ne.symm]
        exact h.target
      · rw [StageWorld.names_withNames, Directory.unbind_self]
  | inert o =>
    cases o with
    | write _ _ | writeVectored _ _ => cases hc
    | _ => exact absurd rfl hquiet
  | stat _ | openRead _ | fileStat _ | randomName => exact absurd rfl hquiet
  | createExclusive _ | rename _ _ | renameExchange _ _ | renameNoReplace _ _ | link _ _ => cases hc

theorem Kept.wp {p : AtomicM I α} (hp : p.Makes (Harmless staging))
    (h : Kept slot w file staging bytes phase w') :
    p.Wp (WriterEffect slot) (fun _ w'' => Kept slot w file staging bytes phase w'') w' :=
  hp.wp (fun _ _ _ _ hc hinv hE => hinv.step hc hE) h

omit [DecidableEq I] in
theorem Kept.either (h : Kept slot w file staging bytes phase w') :
    Kept slot w file staging bytes .either w' := { h with target := h.target.either }

/-! ## 2. The cleanup of the staging name -/

/-- A guard of the staging name, or of none. -/
def GuardsOnly (staging : String) (staged : StagedFile I) : Prop := ∀ name ∈ staged.name, name = staging

theorem harmless_cleanup {staged : StagedFile I} (h : GuardsOnly staging staged) :
    (RootedStagedFile.cleanup staged).Makes (Harmless staging) := by
  unfold RootedStagedFile.cleanup StagedFile.close
  dsimp only
  cases hname : staged.name with
  | none => trivial
  | some name =>
    obtain rfl := h name hname
    cases staged.identity with
    | none => trivial
    | some identity =>
      refine Makes.bind ⟨trivial, fun _ => trivial⟩ fun answer => ?_
      cases answer with
      | error error =>
        dsimp only
        split <;> trivial
      | ok status =>
        dsimp only
        split
        · trivial
        · refine Makes.bind ⟨rfl, fun _ => trivial⟩ fun answer => ?_
          cases answer <;> trivial

theorem harmless_dropWriter {backend : UnixAtomicWriter I} (h : GuardsOnly staging backend.stagedFile) :
    (backend.dropWriter .rooted).Makes (Harmless staging) :=
  Makes.bind (harmless_cleanup h) fun _ => trivial

omit [DecidableEq I] in
theorem wp_stat {S : Type} {E : S → (c : Syscall String I (AtomicCall I)) →
    Syscall.Result AtomicCall.Result c → S → Prop} {name : String} {s : S}
    {post : IoResult (Status I) → S → Prop} (h : ∀ answer next, post answer next) :
    (stat name).Wp E post s := fun answer next _ => h answer next

omit [DecidableEq I] in
theorem wp_unlink {S : Type} {E : S → (c : Syscall String I (AtomicCall I)) →
    Syscall.Result AtomicCall.Result c → S → Prop} {name : String} {s : S}
    {post : IoResult Unit → S → Prop} (h : ∀ answer next, post answer next) :
    (unlink name).Wp E post s := fun answer next _ => h answer next

/-- A guard whose file is closed. -/
structure Closed (staging : String) (staged : StagedFile I) : Prop where
  guards : GuardsOnly staging staged
  file : staged.file = none

theorem closed_cleanup {staged : StagedFile I} (h : GuardsOnly staging staged) :
    (RootedStagedFile.cleanup staged).Wp (WriterEffect slot)
      (fun r _ => Closed staging r.2) w := by
  have hclosed : Closed staging staged.close := ⟨h, rfl⟩
  unfold RootedStagedFile.cleanup
  dsimp only
  generalize staged.close = closed at hclosed ⊢
  cases closed.name with
  | none => exact hclosed
  | some name =>
    have hgone (identity : Option I) :
        Closed staging { closed with name := none, identity := identity } := ⟨nofun, hclosed.file⟩
    cases closed.identity with
    | none => exact hclosed
    | some identity =>
      refine wp_bind.mpr (wp_stat fun answer next => ?_)
      cases answer with
      | error error =>
        dsimp only
        split
        · exact hgone _
        · exact hclosed
      | ok status =>
        dsimp only
        split
        · exact hclosed
        · refine wp_bind.mpr (wp_unlink fun answer next => ?_)
          cases answer with
          | error error => exact hclosed
          | ok _ => exact hgone _

/-! ## 3. The installation -/

section Install

/-- A call that gives the name to the staged file: `next` are the names behind it. -/
theorem Kept.installs (h : Kept slot w file staging bytes .either w') {answer : IoResult Unit}
    {next names : Directory String I} (hnext : next slot.name = w'.names slot.parent staging)
    (hstaging : next staging = w'.names slot.parent staging ∨ next staging = none)
    (hperforms : (slot.posix w').Performs (w'.names slot.parent)
      ((w'.names slot.parent staging).isSome ∧ w'.names slot.parent slot.name = none) next names
      answer) :
    Kept slot w file staging bytes .either (w'.withNames slot.parent names) ∧
      (answer = .ok () → Kept slot w file staging bytes .published
        (w'.withNames slot.parent names)) := by
  have hpublished (henabled : (w'.names slot.parent staging).isSome ∧
      w'.names slot.parent slot.name = none) :
      Kept slot w file staging bytes .published (w'.withNames slot.parent next) := by
    have hfile : w'.names slot.parent staging = some file := by
      refine h.name.resolve_right fun hnone => ?_
      rw [hnone] at henabled
      cases henabled.1
    have hold : w.names slot.parent slot.name = none := by
      obtain heq | ⟨hnone, -⟩ := h.target
      · rw [← heq, henabled.2]
      · exact hnone
    refine ⟨⟨hold, ?_⟩, ?_, h.contents, h.others, h.fresh, h.ne⟩
    · rw [StageWorld.names_withNames, hnext, hfile]
    · rw [StageWorld.names_withNames, ← hfile]
      exact hstaging.imp_right fun hnone => hnone
  cases answer with
  | ok _ =>
    obtain ⟨henabled, rfl⟩ := hperforms
    exact ⟨(hpublished henabled).either, fun _ => hpublished henabled⟩
  | error error =>
    refine ⟨?_, nofun⟩
    obtain rfl | ⟨-, henabled, rfl⟩ := hperforms
    · rw [withNames_names]
      exact h
    · exact (hpublished henabled).either

theorem wp_renameNoReplace (h : Kept slot w file staging bytes .either w')
    {post : IoResult Unit → StageWorld I → Prop}
    (hpost : ∀ answer w'', Kept slot w file staging bytes .either w'' ∧
      (answer = .ok () → Kept slot w file staging bytes .published w'') → post answer w'') :
    (renameNoReplace staging slot.name : AtomicM I (IoResult Unit)).Wp (WriterEffect slot) post w' := by
  intro answer next hE
  obtain ⟨names, hperforms, rfl⟩ : ∃ names, (slot.posix w').Performs (w'.names slot.parent) _ _ names
    answer ∧ next = _ := hE
  refine hpost answer _ (h.installs ?_ ?_ hperforms)
  · by_cases hsame : w'.names slot.parent staging = w'.names slot.parent slot.name
    · unfold Directory.rename
      rw [if_pos hsame, hsame]
    · exact Directory.rename_destination h.ne hsame
  · by_cases hsame : w'.names slot.parent staging = w'.names slot.parent slot.name
    · unfold Directory.rename
      rw [if_pos hsame]
      exact .inl rfl
    · exact .inr (Directory.rename_source hsame)

theorem wp_linkat (h : Kept slot w file staging bytes .either w')
    {post : IoResult Unit → StageWorld I → Prop}
    (hpost : ∀ answer w'', Kept slot w file staging bytes .either w'' ∧
      (answer = .ok () → Kept slot w file staging bytes .published w'') → post answer w'') :
    (linkat staging slot.name : AtomicM I (IoResult Unit)).Wp (WriterEffect slot) post w' := by
  intro answer next hE
  obtain ⟨names, hperforms, rfl⟩ : ∃ names, (slot.posix w').Performs (w'.names slot.parent) _ _ names
    answer ∧ next = _ := hE
  refine hpost answer _ (h.installs ?_ (.inl ?_) hperforms)
  · unfold Directory.link
    rw [Function.update_self]
  · unfold Directory.link
    rw [Function.update_of_ne h.ne]

omit [DecidableEq I] in
theorem harmless_unlinkAttempts (more : Nat) :
    (unlinkAttempts staging more : AtomicM I (IoResult Unit)).Makes (Harmless staging) := by
  induction more with
  | zero =>
    refine Makes.bind ⟨rfl, fun _ => trivial⟩ fun answer => ?_
    cases answer with
    | ok _ => trivial
    | error error =>
      dsimp only
      split <;> trivial
  | succ more ih =>
    refine Makes.bind ⟨rfl, fun _ => trivial⟩ fun answer => ?_
    cases answer with
    | ok _ => trivial
    | error error =>
      dsimp only
      split
      · trivial
      · exact ih

/-- Where the installation succeeds, and where it fails behind the binding of the name, the name
    leads to the staged file. -/
def Installed (slot : Slot I) (w : StageWorld I) (file : I) (staging : String) (bytes : List UInt8) :
    Except InstallFailure Unit → StageWorld I → Prop
  | .ok (), w' => Kept slot w file staging bytes .published w'
  | .error (_, .replaced, _), w' => Kept slot w file staging bytes .published w'
  | .error _, w' => Kept slot w file staging bytes .either w'

theorem wp_linkThenUnlink (h : Kept slot w file staging bytes .either w') :
    (linkThenUnlink staging slot.name : AtomicM I (Except InstallFailure Unit)).Wp (WriterEffect slot)
      (Installed slot w file staging bytes) w' := by
  unfold linkThenUnlink
  refine wp_bind.mpr (wp_linkat h fun answer w'' hr => ?_)
  cases answer with
  | error error => exact hr.1
  | ok _ =>
    refine wp_bind.mpr (((hr.2 rfl).wp (harmless_unlinkAttempts _)).mono fun answer w₃ hkept => ?_)
    cases answer with
    | ok _ => exact hkept
    | error error => exact hkept

theorem wp_installNew (system : UnixTarget) (h : Kept slot w file staging bytes .either w') :
    (installNewAtomicFileAt system staging slot.name : AtomicM I (Except InstallFailure Unit)).Wp
      (WriterEffect slot) (Installed slot w file staging bytes) w' := by
  cases system with
  | linux =>
    refine wp_bind.mpr (wp_renameNoReplace h fun answer w'' hr => ?_)
    cases answer with
    | ok _ => exact hr.2 rfl
    | error error =>
      dsimp only
      split
      · exact wp_linkThenUnlink hr.1
      · exact hr.1
  | macos =>
    refine wp_bind.mpr (wp_renameNoReplace h fun answer w'' hr => ?_)
    cases answer with
    | ok _ => exact hr.2 rfl
    | error error => exact hr.1
  | freebsd => exact wp_linkThenUnlink h
  | other => exact h

end Install

/-! ## 4. The backend -/

/-- The fields of a writer for a new file, as `stage` fills them. -/
structure Fresh (slot : Slot I) (staging : String) (file : I) (backend : UnixAtomicWriter I) :
    Prop where
  name : backend.name = slot.name
  existed : backend.destinationExisted = false
  regular : backend.destinationIsRegular = false
  durability : backend.durability = .notRequired
  fileSync : backend.fileSync = .notRequired
  copyPermissions : backend.copyPermissions = false
  staging : backend.stagedFile.name = some staging
  file : backend.stagedFile.file = some file

section Backend

variable {backend : UnixAtomicWriter I}

/-- Nothing has to be done before the installation. -/
theorem Fresh.prepareCommit (h : Fresh slot staging file backend) :
    backend.prepareCommit .rooted = pure (.ok false) := by
  unfold UnixAtomicWriter.prepareCommit UnixAtomicWriter.openDestinationForCommit
    UnixAtomicWriter.syncTemporaryFile UnixAtomicWriter.applyCopyPermissions
    UnixAtomicWriter.verifyDestinationForCommit synchronizeStagingFile stagingRequirement
    StagedFile.handle expectSome
  rw [h.regular, h.durability, h.fileSync, h.copyPermissions, h.file]
  rfl

omit [DecidableEq I] in
theorem reportFailure_eq (context : AtomicInstallRecovery) (sync : AtomicM I (IoResult Unit))
    (cleanupError : Option IoError) : context.reportFailure .notRequired sync cleanupError =
      pure (.error ⟨.replaceDestination, context.path, some context.temporaryPath,
        context.destinationState, context.source, cleanupError, none⟩) := by
  unfold AtomicInstallRecovery.reportFailure AtomicInstallRecovery.parentSyncError
  rw [if_neg fun h => h.2 rfl]
  rfl

/-- How a commit ends: only with success is it certain that the name leads to the staged file. -/
def Committed (slot : Slot I) (w : StageWorld I) (file : I) (staging : String) (bytes : List UInt8) :
    Except α Bool → StageWorld I → Prop
  | .ok _, w' => Kept slot w file staging bytes .published w'
  | .error _, w' => Kept slot w file staging bytes .either w'

theorem wp_recover {context : AtomicInstallRecovery} {staged : StagedFile I}
    {sync : AtomicM I (IoResult Unit)} (hguards : GuardsOnly staging staged)
    (h : Kept slot w file staging bytes .either w')
    (hreplaced : context.destinationState = .replaced → Kept slot w file staging bytes .published w') :
    (recoverAtomicInstallError context staged .notRequired RootedStagedFile.cleanup StagedFile.disarm
      sync).Wp (WriterEffect slot) (fun r w'' => Committed slot w file staging bytes r.1 w'' ∧
        Closed staging r.2) w' := by
  unfold recoverAtomicInstallError
  cases context.stagingState with
  | indeterminate =>
    dsimp only
    rw [reportFailure_eq]
    exact ⟨h, nofun, rfl⟩
  | present =>
    have hboth : (RootedStagedFile.cleanup staged).Wp (WriterEffect slot) (fun r w'' =>
        (Closed staging r.2 ∧ Kept slot w file staging bytes .either w'') ∧
        (context.destinationState = .replaced → Kept slot w file staging bytes .published w'')) w' := by
      refine ((closed_cleanup hguards).and (h.wp (harmless_cleanup hguards))).and ?_
      by_cases hstate : context.destinationState = .replaced
      · exact ((hreplaced hstate).wp (harmless_cleanup hguards)).mono fun _ _ hkept _ => hkept
      · exact (h.wp (harmless_cleanup hguards)).mono fun _ _ _ heq => absurd heq hstate
    refine wp_bind.mpr (hboth.mono fun r w'' hr => ?_)
    obtain ⟨⟨hclosed, heither⟩, hpublished⟩ := hr
    obtain ⟨answer, staged'⟩ := r
    cases answer with
    | error error =>
      dsimp only
      rw [reportFailure_eq]
      exact ⟨heither, hclosed⟩
    | ok _ =>
      dsimp only
      split
      · next hstate => exact ⟨hpublished hstate, hclosed⟩
      · rw [reportFailure_eq]
        exact ⟨heither, hclosed⟩

theorem wp_installAndSyncParent (system : UnixTarget) (hfresh : Fresh slot staging file backend)
    (h : Kept slot w file staging bytes .either w') :
    (backend.installAndSyncParent .rooted system).Wp (WriterEffect slot) (fun r w'' =>
      Committed slot w file staging bytes r.1 w'' ∧ Closed staging r.2.stagedFile) w' := by
  have hguards : GuardsOnly staging backend.stagedFile.close := by
    intro name hname
    exact Option.some.inj (hname.symm.trans hfresh.staging)
  unfold UnixAtomicWriter.installAndSyncParent StagedFile.armedName
  show Prog.Wp _ _ ((expectSome backend.stagedFile.name _).bind _) _
  rw [hfresh.staging]
  show Prog.Wp _ _ (installRootedAtomicFile system staging backend.name backend.destinationExisted >>= _) _
  rw [hfresh.name, hfresh.existed]
  refine wp_bind.mpr ((wp_installNew system h).mono fun r w'' hr => ?_)
  match r, hr with
  | .ok (), hr =>
    unfold UnixAtomicWriter.finishInstalled
    dsimp only
    rw [hfresh.durability]
    exact ⟨hr, nofun, rfl⟩
  | .error (source, state, stagingState), hr =>
    dsimp only
    rw [hfresh.durability]
    refine wp_bind.mpr ((wp_recover hguards ?_ ?_).mono fun r w₃ hr => hr)
    · cases state with
      | replaced => exact Kept.either hr
      | _ => exact hr
    · intro hstate
      have hstate : state = .replaced := hstate
      subst hstate
      exact hr

/-- A failed attempt keeps no writer: its staging file is closed. -/
theorem wp_commitRecoverable (system : UnixTarget) (hfresh : Fresh slot staging file backend)
    (h : Kept slot w file staging bytes .either w') :
    (backend.commitRecoverableWithSync .rooted system).Wp (WriterEffect slot) (fun r w'' => match r with
      | .ok _ => Kept slot w file staging bytes .published w''
      | .error error => error.writer = none ∧ Kept slot w file staging bytes .either w'') w' := by
  unfold UnixAtomicWriter.commitRecoverableWithSync commitRecoverably UnixAtomicWriter.commitAttempt
  dsimp only
  rw [hfresh.prepareCommit]
  refine wp_bind.mpr (wp_bind.mpr (wp_pure.mpr (wp_bind.mpr
    ((wp_installAndSyncParent system hfresh h).mono fun r w'' hr => ?_))))
  obtain ⟨answer, backend'⟩ := r
  obtain ⟨hcommitted, hclosed⟩ := hr
  cases answer with
  | ok durable =>
    exact wp_bind.mpr ((Kept.wp (harmless_dropWriter hclosed.guards) hcommitted).mono
      fun _ _ hkept => hkept)
  | error error =>
    dsimp only
    have hopen : backend'.stagedFile.isOpen = false := by
      unfold StagedFile.isOpen
      rw [hclosed.file]
      rfl
    show Prog.Wp _ _ (if backend'.stagedFile.isOpen = true then _ else _) _
    rw [hopen, if_neg Bool.false_ne_true]
    exact wp_bind.mpr ((Kept.wp (harmless_dropWriter hclosed.guards) hcommitted).mono
      fun _ _ hkept => ⟨rfl, hkept⟩)

end Backend

/-! ## 5. The opening of a writer -/

section Open

variable {name : String}

theorem wp_destinationStatus {post : IoResult (Option (Status I)) → StageWorld I → Prop}
    (h : ∀ r, (r = .ok none → w.names slot.parent name = none) → post r w) :
    (destinationStatus name).Wp (WriterEffect slot) post w := by
  unfold destinationStatus
  refine wp_bind.mpr fun answer next hE => ?_
  obtain rfl : next = w := hE.quiet rfl
  obtain ⟨names, heffect, -⟩ : ∃ names, _ ∧ _ := hE
  match answer, heffect with
  | .ok status, _ => exact h _ nofun
  | .error error, ⟨_, hfree⟩ =>
    show Prog.Wp _ _ (if error.kind = .notFound then _ else _) _
    by_cases hkind : error.kind = .notFound
    · rw [if_pos hkind]
      exact h _ fun _ => hfree hkind
    · rw [if_neg hkind]
      exact h _ nofun

theorem wp_isSymlink {post : Bool → StageWorld I → Prop} (h : ∀ r, post r w) :
    (isSymlink file).Wp (WriterEffect slot) post w := by
  intro answer next hE
  obtain rfl : next = w := hE.quiet rfl
  exact h answer

theorem wp_inspectDestination (refused : IoError) (replaceTargetSymlink : Bool) :
    (inspectDestination refused replaceTargetSymlink name).Wp (WriterEffect slot)
      (fun r w' => w' = w ∧ ∀ destination, r = .ok destination → destination.1 = false →
        destination.2 = false ∧ w.names slot.parent name = none) w := by
  unfold inspectDestination
  refine wp_andThen.mpr (wp_destinationStatus fun r hfree => ⟨fun _ _ => ⟨rfl, nofun⟩, ?_⟩)
  rintro status rfl
  have hrefused : (∀ destination, (.error refused : IoResult (Bool × Bool)) = .ok destination →
      destination.1 = false → destination.2 = false ∧ w.names slot.parent name = none) := nofun
  cases status with
  | none =>
    refine ⟨rfl, ?_⟩
    rintro _ ⟨⟩ -
    exact ⟨rfl, hfree rfl⟩
  | some status =>
    dsimp only
    split
    · refine ⟨rfl, ?_⟩
      rintro _ ⟨⟩ ⟨⟩
    · split
      · exact ⟨rfl, hrefused⟩
      · refine wp_bind.mpr (wp_isSymlink fun r => ?_)
        split
        · refine ⟨rfl, ?_⟩
          rintro _ ⟨⟩ ⟨⟩
        · exact ⟨rfl, hrefused⟩

/-- A writer for a new file is opened only where the name is free. -/
theorem wp_inspect (path : Path) :
    (UnixAtomicWriter.inspect .rooted (atomicOptions createNewOptions) false path slot.name).Wp (WriterEffect slot)
      (fun r w' => w' = w ∧ ∀ destination, r = .ok destination →
        destination = (false, false) ∧ w.names slot.parent slot.name = none) w := by
  unfold UnixAtomicWriter.inspect UnixAtomicWriter.inspectForRooted inspectRootedAtomicDestination
  refine wp_bind.mpr (wp_andThen.mpr ((wp_inspectDestination _ _).mono fun r w' hr => ?_))
  obtain ⟨rfl, hfree⟩ := hr
  refine ⟨fun error _ => ⟨rfl, nofun⟩, ?_⟩
  rintro ⟨existed, regular⟩ hok
  cases existed with
  | true => exact ⟨rfl, nofun⟩
  | false =>
    obtain ⟨hregular, hnone⟩ := hfree _ hok rfl
    refine ⟨rfl, ?_⟩
    rintro _ ⟨⟩
    exact ⟨Prod.ext rfl hregular, hnone⟩

/-- The names behind the creation of a staging file, which is empty. -/
def StageWorld.stages (w : StageWorld I) (slot : Slot I) (staging : String) (file : I) :
    StageWorld I :=
  (w.withNames slot.parent ((w.names slot.parent).bind staging file)).withContents file []

theorem wp_createStaging (attempts : Nat) :
    (createStaging attempts).Wp (WriterEffect slot) (fun r w' => match r with
      | none => w' = w
      | some (.error _) => w' = w
      | some (.ok (staging, file)) => staging ≠ slot.name ∧
          (∀ other, w.names slot.parent other ≠ some file) ∧ w' = w.stages slot staging file) w := by
  induction attempts with
  | zero => rfl
  | succ attempts ih =>
    unfold createStaging
    refine wp_bind.mpr fun answer next hE => ?_
    obtain rfl : next = w := hE.quiet rfl
    obtain ⟨names, heffect, -⟩ : ∃ names, _ ∧ _ := hE
    match answer, heffect with
    | .error error, _ => rfl
    | .ok staging, heffect =>
      have hne : staging ≠ slot.name := heffect.2
      refine wp_bind.mpr fun answer w' hE => ?_
      match answer, hE with
      | .ok file, hE =>
        obtain ⟨-, hfresh, -, rfl⟩ : _ ∧ _ ∧ _ ∧ w' = _ := hE
        exact ⟨hne, hfresh, rfl⟩
      | .error error, hE =>
        obtain ⟨names, hnames, rfl⟩ : ∃ names, names = next.names slot.parent ∧ w' = _ := hE
        subst hnames
        rw [withNames_names]
        show Prog.Wp _ _ (if error.kind = .alreadyExists then _ else _) _
        by_cases hkind : error.kind = .alreadyExists
        · rw [if_pos hkind]
          exact ih
        · rw [if_neg hkind]
          rfl

theorem names_stages (staging : String) (file : I) :
    (w.stages slot staging file).names slot.parent staging = some file := by
  unfold StageWorld.stages
  show (w.withNames slot.parent _).names slot.parent staging = _
  rw [StageWorld.names_withNames, Directory.bind_self]

theorem kept_stages (hfresh : ∀ other, w.names slot.parent other ≠ some file)
    (hne : staging ≠ slot.name) : Kept slot w file staging [] .staged (w.stages slot staging file) := by
  refine ⟨?_, .inl (names_stages staging file), Function.update_self ..,
    fun other hother => Function.update_of_ne hother _ _, hfresh slot.name, hne⟩
  show (w.stages slot staging file).names slot.parent slot.name = _
  unfold StageWorld.stages
  show (w.withNames slot.parent _).names slot.parent slot.name = _
  rw [StageWorld.names_withNames, Directory.bind_of_ne hne.symm]

/-- How the opening ends: nothing was changed, or there is a writer with an empty file. -/
theorem wp_new (path parent : Path) (attempts : Nat) :
    (UnixAtomicWriter.new .rooted (atomicOptions createNewOptions) false path parent slot.name [] attempts).Wp
      (WriterEffect slot) (fun r w' => match r with
        | none => w' = w
        | some (.error _) => w' = w
        | some (.ok backend) => w.names slot.parent slot.name = none ∧ w'.source = w.source ∧
            ∃ staging file, Fresh slot staging file backend ∧
              Kept slot w file staging [] .staged w' ∧ w'.names slot.parent staging = some file)
      w := by
  unfold UnixAtomicWriter.new UnixAtomicWriter.prepareParentFor
  refine wp_bind.mpr (wp_andThen.mpr (wp_bind.mpr fun answer next hE => ?_))
  obtain rfl : next = w := hE.quiet rfl
  refine ⟨?_, fun _ _ => (wp_inspect path).mono fun r w' hr => ?_⟩
  · rintro error -
    rfl
  · obtain ⟨rfl, hfree⟩ := hr
    cases r with
    | error error => rfl
    | ok destination =>
      obtain ⟨rfl, hnone⟩ := hfree _ rfl
      unfold UnixAtomicWriter.stage
      refine wp_bind.mpr ((wp_createStaging attempts).mono fun r w'' hr => ?_)
      match r, hr with
      | none, hr => exact hr
      | some (.error error), hr => exact hr
      | some (.ok (staging, file)), ⟨hne, hfresh, hstages⟩ =>
        subst hstages
        refine wp_bind.mpr (wp_bind.mpr fun answer next hE => ?_)
        obtain rfl : next = _ := hE.quiet rfl
        exact ⟨hnone, rfl, staging, file, ⟨rfl, rfl, rfl, rfl, rfl, rfl, rfl, rfl⟩,
          kept_stages hfresh hne, names_stages staging file⟩

end Open

/-! ## 6. The route -/

section Route

theorem wp_onWriter {p : AtomicM I α} {post : α → StageWorld I → Prop} :
    (onWriter p).Wp (StageEffect slot) post w ↔ p.Wp (WriterEffect slot) post w := wp_embed

theorem wp_stageStep {s : StageStep} {post : Except LocalFileError Unit → StageWorld I → Prop}
    (h : ∀ r, post r w) : (stageStep s : StageM I _).Wp (StageEffect slot) post w := by
  intro answer next hE
  obtain rfl : next = w := hE
  exact h answer

/-- The staged file of the writer holds `stored`. -/
def Filling (slot : Slot I) (w : StageWorld I) (writer : LocalFileWriter I) (stored : List UInt8)
    (w' : StageWorld I) : Prop :=
  ∃ backend staging file, writer.backend = some (.rooted backend) ∧
    Fresh slot staging file backend ∧ Kept slot w file staging stored .staged w' ∧ w'.names slot.parent staging = some file

theorem Writes.entry {more : List UInt8} {answer : IoResult Nat} (h : Writes w file more answer w') :
    w'.entry = w.entry := by
  obtain ⟨sink, -, rfl⟩ := h
  rfl

/-- A write appends the bytes it accepts to the staged file. -/
theorem Kept.writes (h : Kept slot w file staging bytes .staged w') {more : List UInt8}
    {answer : IoResult Nat} {w'' : StageWorld I} (hE : Writes w' file more answer w'') :
    w''.source = w'.source ∧ match answer with
      | .error _ => Kept slot w file staging bytes .staged w''
      | .ok count => count ≤ more.length ∧
          Kept slot w file staging (bytes ++ more.take count) .staged w'' := by
  obtain ⟨sink, haccepts, rfl⟩ := hE
  have hkept (received : List UInt8) (hreceived : sink.received = received) :
      Kept slot w file staging received .staged
        { w'.withContents file sink.received with interrupts := sink.interrupts } := by
    refine ⟨h.target, h.name, ?_, fun other hother => ?_, h.fresh, h.ne⟩
    · show Function.update w'.contents file sink.received file = received
      rw [Function.update_self, hreceived]
    · show Function.update w'.contents file sink.received other = w.contents other
      rw [Function.update_of_ne hother, h.others other hother]
  refine ⟨rfl, ?_⟩
  cases answer with
  | ok count =>
    obtain ⟨hcount, hreceived, -⟩ := haccepts.accepted
    exact ⟨hcount, hkept _ (by rw [hreceived, h.contents])⟩
  | error error =>
    refine hkept _ ?_
    by_cases hagain : Transient error
    · rw [(haccepts.again hagain).1, h.contents]
    · rw [haccepts.refused hagain, h.contents]

theorem wp_writeFile {more : List UInt8} {post : IoResult Nat → StageWorld I → Prop}
    (h : ∀ answer w', Writes w file more answer w' → post answer w') :
    (writeFile file more).Wp (WriterEffect slot) post w := fun answer next hE => h answer next hE

theorem appends_blocksToWriter (path : Path) :
    (blocksToWriter path).Appends slot (Filling slot w) where
  read source h := by
    obtain ⟨backend, staging, file, hbackend, hfresh, hkept, hname⟩ := h
    exact ⟨backend, staging, file, hbackend, hfresh, ⟨hkept.target, hkept.name, hkept.contents,
      hkept.others, hkept.fresh, hkept.ne⟩, hname⟩
  write {writer stored w'} bytes h := by
    obtain ⟨backend, staging, file, hbackend, hfresh, hkept, hname⟩ := h
    refine wp_onWriter.mpr ?_
    unfold LocalFileWriter.writeOnce
    split
    · exact ⟨rfl, backend, staging, file, hbackend, hfresh, hkept, hname⟩
    · split
      next => exact ⟨rfl, backend, staging, file, hbackend, hfresh, hkept, hname⟩
      next hchecked =>
        have hfits := WriterByteCount.fits_of_checkRequest hchecked
        rw [hbackend]
        show Wp _ _ (UnixAtomicWriter.write .rooted backend bytes >>= _) _
        unfold UnixAtomicWriter.write StagedFile.handle
        dsimp only
        rw [hfresh.file]
        refine wp_bind.mpr (wp_writeFile fun answer w'' hwrites => ?_)
        obtain ⟨hsource, hr⟩ := hkept.writes hwrites
        have hname : w''.names slot.parent staging = some file := by
          unfold StageWorld.names
          rw [hwrites.entry]
          exact hname
        cases answer with
        | error error =>
          refine ⟨hsource, backend, staging, file, ?_, hfresh, hr, hname⟩
          exact (writer.observeStreamResult_backend _).trans hbackend
        | ok count =>
          obtain ⟨total, hsettled, -⟩ := writer.settleWrite_of_fits
            (show writer.bytesWritten.value.toNat + count < Writer.wordSize by omega)
          rw [hsettled]
          exact ⟨hsource, hr.1, backend, staging, file, hbackend, hfresh, hr.2, hname⟩

/-- The writer still guards the staging name. -/
def Guarded (staging : String) (writer : LocalFileWriter I) : Prop :=
  ∃ backend, writer.backend = some (.rooted backend) ∧ GuardsOnly staging backend.stagedFile

omit [DecidableEq I] in
theorem Fresh.guards {backend : UnixAtomicWriter I} (h : Fresh slot staging file backend) :
    GuardsOnly staging backend.stagedFile := by
  intro name hname
  exact Option.some.inj (hname.symm.trans h.staging)

theorem wp_cleanupWriter {backend : UnixAtomicWriter I} {phase : Binding}
    (hguards : GuardsOnly staging backend.stagedFile) (h : Kept slot w file staging bytes phase w') :
    (backend.cleanupWriter .rooted).Wp (WriterEffect slot) (fun r w'' =>
      Closed staging r.2.stagedFile ∧ Kept slot w file staging bytes phase w'') w' := by
  unfold UnixAtomicWriter.cleanupWriter
  exact wp_bind.mpr (((closed_cleanup hguards).and (h.wp (harmless_cleanup hguards))).mono
    fun _ _ hr => hr)

theorem wp_abort {writer : LocalFileWriter I} {phase : Binding} (hguarded : Guarded staging writer)
    (h : Kept slot w file staging bytes phase w') :
    writer.abort.Wp (WriterEffect slot) (fun r w'' => Guarded staging r.2 ∧
      Kept slot w file staging bytes phase w'') w' := by
  unfold LocalFileWriter.abort
  split
  · exact ⟨hguarded, h⟩
  · obtain ⟨backend, hbackend, hguards⟩ := hguarded
    rw [hbackend]
    dsimp only
    unfold LocalFileWriter.abortStagedBackend Writer.LocalFileWriterBackend.abortStaged
    unfold UnixAtomicWriter.abort
    refine wp_bind.mpr (wp_bind.mpr (wp_bind.mpr (wp_bind.mpr ((wp_cleanupWriter hguards h).mono
      fun r w'' hr => ?_))))
    obtain ⟨answer, backend'⟩ := r
    obtain ⟨hclosed, hkept⟩ := hr
    cases answer with
    | error error => exact ⟨⟨backend', rfl, hclosed.guards⟩, hkept⟩
    | ok _ => exact ⟨⟨backend', rfl, hclosed.guards⟩, hkept⟩

theorem wp_drop {writer : LocalFileWriter I} {phase : Binding} (hguarded : Guarded staging writer)
    (h : Kept slot w file staging bytes phase w') :
    writer.drop.Wp (WriterEffect slot) (fun _ w'' => Kept slot w file staging bytes phase w'') w' := by
  obtain ⟨backend, hbackend, hguards⟩ := hguarded
  unfold LocalFileWriter.drop
  rw [hbackend]
  exact h.wp (harmless_dropWriter hguards)

/-- A failed write takes the staging name back, as far as it can. -/
theorem wp_failAborted {writer : LocalFileWriter I} {phase : Binding} (cause : LocalFileError)
    (hguarded : Guarded staging writer) (h : Kept slot w file staging bytes phase w') :
    (failAborted writer cause).Wp (WriterEffect slot) (fun error w'' => error.cause = cause ∧
      Kept slot w file staging bytes phase w'') w' := by
  unfold failAborted abortFailedStageWrite
  refine wp_bind.mpr (wp_bind.mpr ((wp_abort hguarded h).mono fun r w'' hr => ?_))
  obtain ⟨answer, writer'⟩ := r
  obtain ⟨hguarded', hkept⟩ := hr
  cases answer with
  | error error => exact wp_bind.mpr ((wp_drop hguarded' hkept).mono fun _ _ hkept => ⟨rfl, hkept⟩)
  | ok _ => exact wp_bind.mpr ((wp_drop hguarded' hkept).mono fun _ _ hkept => ⟨rfl, hkept⟩)

theorem wp_commit {writer : LocalFileWriter I} {stored : List UInt8} (system : UnixTarget)
    (h : Filling slot w writer stored w') :
    (writer.commit system).Wp (WriterEffect slot) (fun r w'' => ∃ staging file, match r with
      | .ok _ => Kept slot w file staging stored .published w''
      | .error error => error.writer = none ∧ Kept slot w file staging stored .either w'') w' := by
  obtain ⟨backend, staging, file, hbackend, hfresh, hkept, -⟩ := h
  unfold LocalFileWriter.commit
  split
  · exact wp_bind.mpr ((wp_drop ⟨backend, hbackend, hfresh.guards⟩ hkept.either).mono
      fun _ _ hkept => ⟨staging, file, rfl, hkept⟩)
  · rw [hbackend]
    refine wp_bind.mpr (wp_bind.mpr ((wp_commitRecoverable system hfresh hkept.either).mono
      fun r w'' hr => ?_))
    cases r with
    | ok outcome => exact ⟨staging, file, hr⟩
    | error error =>
      obtain ⟨error, retained⟩ := error
      obtain ⟨rfl, hkept⟩ := hr
      exact ⟨staging, file, rfl, hkept⟩

theorem wp_abortFailedStageCommit {error : LocalFileCommitError I} (hwriter : error.writer = none)
    {post : OwningError I → StageWorld I → Prop} (h : post (.of error.error) w) :
    (abortFailedStageCommit error).Wp (WriterEffect slot) post w := by
  unfold abortFailedStageCommit
  rw [hwriter]
  exact h

variable {maximum : UInt64} {exclusive : Prop}

omit [DecidableEq I] in
theorem Kept.spared {phase : Binding} (h : Kept slot w file staging bytes phase w') :
    Spared slot w w' := by
  intro existing hexisting
  have hne : existing ≠ file := by
    rintro rfl
    exact h.fresh hexisting
  refine ⟨?_, h.others existing hne⟩
  have htarget := h.target.either
  rw [hexisting] at htarget
  exact htarget.resolve_right fun hnew => nomatch hnew.1

omit [DecidableEq I] in
/-- An error while the name is not bound, or behind the end of the copy. -/
theorem Kept.ends_failed {α : Type} {phase : Binding} {done : α → StageWorld I → Prop}
    {error : OwningError I} (h : Kept slot w file staging bytes phase w')
    (hphase : phase = .staged ∨ bytes = w.source.unread ∧ w.source.unread.length ≤ maximum.toNat) :
    Finishes slot w w' maximum exclusive done (.error (.failed error)) := by
  refine ⟨h.spared, ?_⟩
  obtain rfl | ⟨rfl, hfits⟩ := hphase
  · exact .inl h.target
  · refine h.target.either.imp_right fun hnew => .inl ⟨file, hnew.1, hnew.2, h.contents, hfits⟩

theorem wp_fillAndCommit (exclusive : Prop) {writer : LocalFileWriter I} (system : UnixTarget) (path : Path) (bound : Nat)
    (hsource : w'.source = w.source) (h : Filling slot w writer [] w') :
    (fillAndCommit system path maximum bound writer).Wp (StageEffect slot) (fun r w'' =>
      Finishes slot w w'' maximum exclusive (fun _ w'' => ∃ file, Complete slot w w'' maximum file) r) w' := by
  unfold fillAndCommit
  have hinput : [] ++ w'.source.unread = w.source.unread := by rw [hsource, List.nil_append]
  refine wp_bind.mpr ((wp_copyInput (appends_blocksToWriter path) bound bound h rfl (Nat.zero_le _)
    hinput).mono fun r w'' hr => ?_)
  obtain ⟨answer, writer'⟩ := r
  match answer, hr with
  | .error none, ⟨_, _, _, _, _, _, hkept, _⟩ => exact ⟨hkept.spared, trivial⟩
  | .error (some cause), ⟨_, backend, _, _, hbackend, hfresh, hkept, _⟩ =>
    refine wp_bind.mpr (wp_onWriter.mpr ((wp_failAborted cause ⟨backend, hbackend, hfresh.guards⟩
      hkept).mono fun error w₃ hr => ?_))
    exact wp_pure.mpr (hr.2.ends_failed (.inl rfl))
  | .ok (), ⟨hfilling, hfits⟩ =>
    refine wp_bind.mpr (wp_onWriter.mpr ((wp_commit system hfilling).mono fun r w₃ hr => ?_))
    obtain ⟨staging, file, hr⟩ := hr
    cases r with
    | ok outcome => exact ⟨hr.spared, file, hr.target.1, hr.target.2, hr.contents, hfits⟩
    | error error =>
      refine wp_bind.mpr (wp_onWriter.mpr (wp_abortFailedStageCommit hr.1 ?_))
      exact wp_pure.mpr (hr.2.ends_failed (.inr ⟨rfl, hfits⟩))

omit [DecidableEq I] in
/-- Nothing was changed. -/
theorem ends_unchanged {done : α → StageWorld I → Prop} {error : OwningError I} :
    Finishes slot w w maximum exclusive done (.error (.failed error)) :=
  ⟨fun _ hexisting => ⟨hexisting, rfl⟩, .inl rfl⟩

theorem wp_openWriter (maximum : UInt64) (exclusive : Prop) (path parent : Path) (bound : Nat) :
    (openWriter path parent slot.name bound).Wp (WriterEffect slot) (fun r w' =>
      Finishes slot w w' maximum exclusive (fun writer w' => w'.source = w.source ∧ Filling slot w writer [] w') r)
      w := by
  unfold openWriter
  refine wp_bind.mpr ((wp_new path parent bound).mono fun r w' hr => ?_)
  match r, hr with
  | none, hr =>
    subst hr
    exact ⟨fun _ hexisting => ⟨hexisting, rfl⟩, trivial⟩
  | some (.error error), hr =>
    subst hr
    exact wp_pure.mpr ends_unchanged
  | some (.ok backend), ⟨_, hsource, staging, file, hfresh, hkept, hname⟩ =>
    exact ⟨hkept.spared, hsource, backend, staging, file, rfl, hfresh, hkept, hname⟩

/-- The file is there and was observed. -/
def Observed (slot : Slot I) (w : StageWorld I) (maximum : UInt64)
    (observation : LocalFileObservation I) (w' : StageWorld I) : Prop :=
  ∃ file, observation.identity = some file ∧ Complete slot w w' maximum file

omit [DecidableEq I] in
theorem Complete.spared (h : Complete slot w w' maximum file) : Spared slot w w' := by
  intro existing hexisting
  rw [h.free] at hexisting
  cases hexisting

theorem wp_observeNew (h : Complete slot w w' maximum file) :
    (observeNew : StageM I _).Wp (StageEffect slot) (fun r w'' =>
      Finishes slot w w'' maximum exclusive (Observed slot w maximum) r) w' := by
  unfold observeNew
  refine wp_bind.mpr fun answer next hE => ?_
  match answer, hE with
  | .error error, hE =>
    obtain rfl : next = w' := hE
    exact ⟨h.spared, .inr (.inl ⟨file, h⟩)⟩
  | .ok observation, hE =>
    obtain ⟨rfl, found, hfound, hidentity⟩ : next = w' ∧ _ := hE
    obtain rfl : file = found := Option.some.inj (h.name.symm.trans hfound)
    exact ⟨h.spared, file, hidentity, h⟩

omit [DecidableEq I] in
theorem Finishes.exit {β : Type} {done : α → StageWorld I → Prop} {done' : β → StageWorld I → Prop}
    {exit : TempExit I} (h : Finishes slot w w' maximum exclusive done (.error exit)) :
    Finishes slot w w' maximum exclusive done' (.error exit) := by
  cases exit <;> exact ⟨h.spared, h.settled⟩

theorem wp_writeOrdinaryFileNew (system : UnixTarget) (relative : Path) (bound : Nat) :
    (writeOrdinaryFileNew system relative slot.name maximum bound).Wp (StageEffect slot) (fun r w' =>
      Finishes slot w w' maximum exclusive (Observed slot w maximum) r) w := by
  unfold writeOrdinaryFileNew
  refine wp_bind.mpr (wp_stageStep fun r => ?_)
  cases r with
  | error error => exact wp_pure.mpr ends_unchanged
  | ok _ =>
    refine wp_andThen.mpr (wp_onWriter.mpr ((wp_openWriter maximum exclusive relative _ bound).mono
      fun r w' hr => ?_))
    refine ⟨fun exit hexit => ?_, fun writer hwriter => ?_⟩
    · subst hexit
      exact hr.exit
    · subst hwriter
      obtain ⟨-, hsource, hfilling⟩ := hr
      refine wp_andThen.mpr ((wp_fillAndCommit exclusive system relative bound hsource hfilling).mono
        fun r w'' hr => ⟨fun exit hexit => ?_, fun _ hdone => ?_⟩)
      · subst hexit
        exact hr.exit
      · subst hdone
        obtain ⟨-, file, hcomplete⟩ := hr
        exact wp_observeNew hcomplete

end Route

end LocalFiles.Staged
