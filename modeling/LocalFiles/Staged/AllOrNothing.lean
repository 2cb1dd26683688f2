import LocalFiles.Staged.Smooth

/-!
# Staged.AllOrNothing — a new file below a stage is whole, or not there

Both routes of `write_file_new` end alike, whichever calls fail: with the whole input under the
name, with the name as it was, or with an error that hands the file over.
-/

namespace LocalFiles.Staged

open Interaction Prog Atomic
open Private (LocalFileObservation TempResult componentName)

variable {I : Type} [DecidableEq I] {slot : Slot I} {w w' : StageWorld I} {maximum : UInt64}
  {exclusive : Prop} {observation : LocalFileObservation I}

/-! ## 1. Every run -/

omit [DecidableEq I] in
/-- The routes that create the file under its name. -/
def LocalStagedDirectory.CreatesUnderName (stage : LocalStagedDirectory) : Prop :=
  stage.isPrivate ∨ stage.ownerAccessPolicy.isSome

omit [DecidableEq I] in
theorem Finishes.mono {α : Type} {done : α → StageWorld I → Prop} {exclusive' : Prop}
    {r : TempResult I α} (h : Finishes slot w w' maximum exclusive done r)
    (himp : exclusive → exclusive') : Finishes slot w w' maximum exclusive' done r := by
  obtain ⟨hspared, hsettled⟩ := h
  refine ⟨hspared, ?_⟩
  match r, hsettled with
  | .ok _, hdone => exact hdone
  | .error (.failed _), hfailed => exact hfailed.imp_right (Or.imp_right (And.imp_left himp))
  | .error .unfinished, _ => trivial

theorem wp_recorded (hends : Finishes slot w w' maximum exclusive (Observed slot w maximum)
      (.ok observation : TempResult I (LocalFileObservation I))) :
    (match observation.identity with
      | none => pure (Private.fail (.of (.new .unsupported .metadata)))
      | some _ => do
        match ← stageStep .recordEntry with
        | .error error => pure (Private.fail (.of error))
        | .ok () => pure (.ok observation) : StageM I (TempResult I (LocalFileObservation I))).Wp
      (StageEffect slot) (fun r w'' => Finishes slot w w'' maximum exclusive (Observed slot w maximum) r) w' := by
  obtain ⟨hspared, file, hidentity, hcomplete⟩ := hends
  rw [hidentity]
  refine wp_bind.mpr (wp_stageStep fun r => ?_)
  cases r with
  | error error => exact ⟨hspared, .inr (.inl ⟨file, hcomplete⟩)⟩
  | ok _ => exact ⟨hspared, file, hidentity, hcomplete⟩

theorem wp_writeFileNew (stage : LocalStagedDirectory) (system : UnixTarget) (above : Path)
    (bound : Nat) :
    (stage.writeFileNew system above slot.name slot.parent maximum bound).Wp (StageEffect slot)
      (fun r w' => Finishes slot w w' maximum stage.CreatesUnderName (Observed slot w maximum) r) w := by
  unfold LocalStagedDirectory.writeFileNew
  refine wp_bind.mpr (wp_stageStep fun r => ?_)
  cases r with
  | error error => exact wp_pure.mpr ends_unchanged
  | ok _ =>
    have hroutes : (if stage.isPrivate ∨ stage.ownerAccessPolicy.isSome then
        writePrivateFileNew stage system (above ++ [slot.name]) slot.parent slot.name maximum bound
      else writeOrdinaryFileNew system (above ++ [slot.name]) slot.name maximum bound).Wp
        (StageEffect slot) (fun r w' =>
          Finishes slot w w' maximum stage.CreatesUnderName (Observed slot w maximum) r) w := by
      split
      · next hprivate =>
        exact (wp_writePrivateFileNew stage system _ bound).mono fun _ _ hends =>
          hends.mono fun _ => hprivate
      · exact wp_writeOrdinaryFileNew system _ bound
    refine wp_andThen.mpr (hroutes.mono fun r w' hr => ⟨fun exit hexit => ?_, fun observation hok => ?_⟩)
    · subst hexit
      exact hr.exit
    · subst hok
      exact wp_recorded hr

/-! ## 2. Runs without failing calls -/

/-- What a run needs to succeed: a good name, room, a supported stage, and enough turns. -/
structure LocalStagedDirectory.Ready (stage : LocalStagedDirectory) (system : UnixTarget)
    (slot : Slot I) (bound : Nat) (w : StageWorld I) : Prop where
  name : componentName slot.name = .ok ()
  room : Room slot w
  installs : system ≠ .other
  supported : stage.Supported system
  enough : Enough bound w

theorem ensures_writeFileNew {stage : LocalStagedDirectory} {system : UnixTarget} {bound : Nat}
    (hready : stage.Ready system slot bound w) (above : Path) :
    (stage.writeFileNew system above slot.name slot.parent maximum bound).Ensures
      (SmoothUntil slot stage.Fits w.source.unread.length maximum.toNat)
      (fun r _ => Decided w.source.unread maximum r) w := by
  unfold LocalStagedDirectory.writeFileNew
  refine .bind (ensures_stageStep _ (Nat.le_add_right _ _) ?_)
  have hroutes : (if stage.isPrivate ∨ stage.ownerAccessPolicy.isSome then
      writePrivateFileNew stage system (above ++ [slot.name]) slot.parent slot.name maximum bound
    else writeOrdinaryFileNew system (above ++ [slot.name]) slot.name maximum bound).Ensures
      (SmoothUntil slot stage.Fits w.source.unread.length maximum.toNat) (fun r w' =>
        Decided w.source.unread maximum r ∧
          Finishes slot w w' maximum True (Observed slot w maximum) r) w := by
    split
    · exact (ensures_writePrivateFileNew hready.supported hready.room hready.name _
        hready.enough).and_wp ((wp_writePrivateFileNew stage system _ bound).restrict
          fun _ _ _ _ hE => hE.1)
    · exact (ensures_writeOrdinaryFileNew hready.installs hready.room hready.enough _).and_wp
        ((wp_writeOrdinaryFileNew system _ bound).restrict fun _ _ _ _ hE => hE.1)
  refine .bind (hroutes.mono fun r w' hr => ?_)
  obtain ⟨hdecided, -, hsettled⟩ := hr
  cases r with
  | error exit => cases exit <;> exact hdecided
  | ok observation =>
    obtain ⟨file, hidentity, -⟩ := hsettled
    dsimp only
    rw [hidentity]
    exact .bind (ensures_stageStep _ (Nat.le_trans hdecided (Nat.le_add_left _ _)) hdecided)

/-! ## 3. The result -/

/-- Every run ends as `Finishes` says.  Where no call fails, the file is written exactly when the input
    is not too long, on either route. -/
theorem writeFileNew_allOrNothing (stage : LocalStagedDirectory) (system : UnixTarget) (above : Path)
    (maximum : UInt64) (bound : Nat) (slot : Slot I) (w : StageWorld I) :
    (∀ tr w' r, (stage.writeFileNew system above slot.name slot.parent maximum bound).RunsIn
      (StageEffect slot) w tr w' r →
        Finishes slot w w' maximum stage.CreatesUnderName (Observed slot w maximum) r) ∧
    (stage.Ready system slot bound w →
      (stage.writeFileNew system above slot.name slot.parent maximum bound).Ensures
        (SmoothUntil slot stage.Fits w.source.unread.length maximum.toNat)
        (fun r _ => Decided w.source.unread maximum r) w) :=
  ⟨fun _ _ _ hrun => (wp_writeFileNew stage system above bound).runsIn hrun,
    fun hready => ensures_writeFileNew hready above⟩

/-! A private stage, and an ordinary one, in an empty directory with three bytes to read. -/

def sampleSlot : Slot Nat := ⟨0, "a", fun _ => False⟩

def sampleStore : StageWorld Nat where
  entry := ⟨fun _ _ => none, fun _ => .file⟩
  contents := fun _ => []
  source := ⟨[1, 2, 3], 0⟩
  interrupts := 0

def sampleStage (isPrivate : Bool) : LocalStagedDirectory := ⟨["stage"], isPrivate, none⟩

theorem sampleStage_ready (isPrivate : Bool) :
    (sampleStage isPrivate).Ready .linux sampleSlot 9000 sampleStore where
  name := rfl
  room := ⟨rfl, ⟨"b", by decide, rfl⟩, ⟨1, ⟨by decide, fun _ _ => nofun, fun _ => rfl⟩, rfl⟩⟩
  installs := nofun
  supported := nofun
  enough := by unfold Enough blockSize; decide

theorem writeFileNew_allOrNothing_sample :
    (∃ tr w' observation file, ((sampleStage true).writeFileNew .linux [] "a" 0 3 9000).RunsIn
      (StageEffect sampleSlot) sampleStore tr w' (.ok observation) ∧ w'.contents file = [1, 2, 3]) ∧
    ∃ tr w' error, ((sampleStage false).writeFileNew .linux [] "a" 0 2 9000).RunsIn
      (StageEffect sampleSlot) sampleStore tr w' (.error (.failed error)) ∧
      error.cause.kind = .resourceLimit := by
  constructor
  · obtain ⟨hends, hsmooth⟩ :=
      writeFileNew_allOrNothing (sampleStage true) .linux [] 3 9000 sampleSlot sampleStore
    have hensures := hsmooth (sampleStage_ready true)
    obtain ⟨tr, w', r, hrun⟩ := hensures.exists_run
    have hdecided := hensures.runsIn hrun
    have hruns := hrun.mono fun _ _ _ _ hE => hE.1
    match r, hdecided, hends tr w' r hruns, hruns with
    | .ok observation, _, ⟨_, file, _, hcomplete⟩, hruns =>
      exact ⟨tr, w', observation, file, hruns, hcomplete.contents⟩
    | .error (.failed error), ⟨hlong, _⟩, _, _ => exact absurd hlong (by decide)
  · have hensures := (writeFileNew_allOrNothing (sampleStage false) .linux [] 2 9000 sampleSlot
      sampleStore).2 (sampleStage_ready false)
    obtain ⟨tr, w', r, hrun⟩ := hensures.exists_run
    have hruns := hrun.mono fun _ _ _ _ hE => hE.1
    match r, hensures.runsIn hrun, hruns with
    | .ok observation, hfits, _ =>
      have hfits : 3 ≤ (2 : UInt64).toNat := hfits
      exact absurd hfits (by decide)
    | .error (.failed error), ⟨_, hkind⟩, hruns => exact ⟨tr, w', error, hruns, hkind⟩

def mediumFails : IoError := ⟨.uncategorized, "input/output error", some 5⟩

/-- The new file that the umask has taken the permissions from stays, without a cleanup error.  And
    an input of three bytes, with two allowed, ends in the error of a disk on which the new file cannot
    be created. -/
theorem writeFileNew_refused_stays :
    (¬ ∀ tr w' error,
      ((sampleStage true).writeFileNew .linux [] "a" 0 3 10).RunsIn (StageEffect sampleSlot)
        sampleStore tr w' (.error (.failed error)) →
      w'.names 0 "a" = none ∨ (∃ file, Complete sampleSlot sampleStore w' 3 file) ∨
        error.cleanupErrors ≠ []) ∧
    ¬ ∀ tr w' error,
      ((sampleStage true).writeFileNew .linux [] "a" 0 2 10).RunsIn (StageEffect sampleSlot)
        sampleStore tr w' (.error (.failed error)) →
      error.cause.kind = .resourceLimit := by
  refine ⟨fun hall => ?_, fun hall => ?_⟩
  · have hcreated : Created sampleSlot sampleStore 1 :=
      ⟨by decide, rfl, ⟨by decide, fun _ _ => nofun, fun _ => rfl⟩, rfl⟩
    let created := sampleStore.creates sampleSlot 1
    let metadata : IoResult (Private.FileMetadata Nat) := .ok ⟨1, .file, true, 0⟩
    have hmetadata : EntryEffect sampleSlot created (.metadata 1) metadata created :=
      ⟨_, ⟨rfl, rfl, rfl⟩, rfl⟩
    have hrun : ((sampleStage true).writeFileNew .linux [] "a" 0 3 10).RunsIn
        (StageEffect sampleSlot) sampleStore _ created (.error (.failed _)) :=
      ⟨(.ok () : Except LocalFileError Unit), _, _, rfl, rfl,
        (.ok () : Except LocalFileError Unit), _, _, rfl, rfl,
        (.ok () : Except LocalFileError Unit), _, _, rfl, rfl,
        (.ok () : IoResult Unit), sampleStore, _, rfl, ⟨_, rfl, rfl⟩,
        (.ok () : IoResult Unit), sampleStore, _, rfl, ⟨_, rfl, rfl⟩,
        (.ok 1 : IoResult Nat), created, _, rfl, ⟨_, hcreated, rfl⟩,
        metadata, created, _, rfl, hmetadata, metadata, created, _, rfl, hmetadata, rfl, rfl, rfl⟩
    obtain hfree | ⟨file, hcomplete⟩ | hcleanup := hall _ _ _ hrun
    · exact absurd (hcreated.holding.name.symm.trans hfree) nofun
    · have hcontents : created.contents file = [1, 2, 3] := hcomplete.contents
      have hname := hcreated.holding.name.symm.trans hcomplete.name
      cases hname
      exact absurd (hcreated.holding.contents.symm.trans hcontents) nofun
    · exact hcleanup rfl
  · have hrun : ((sampleStage true).writeFileNew .linux [] "a" 0 2 10).RunsIn
        (StageEffect sampleSlot) sampleStore _ sampleStore (.error (.failed _)) :=
      ⟨(.ok () : Except LocalFileError Unit), _, _, rfl, rfl,
        (.ok () : Except LocalFileError Unit), _, _, rfl, rfl,
        (.ok () : Except LocalFileError Unit), _, _, rfl, rfl,
        (.ok () : IoResult Unit), sampleStore, _, rfl, ⟨_, rfl, rfl⟩,
        (.ok () : IoResult Unit), sampleStore, _, rfl, ⟨_, rfl, rfl⟩,
        (.error mediumFails : IoResult Nat), sampleStore, _, rfl, ⟨_, rfl, rfl⟩, rfl, rfl, rfl⟩
    exact absurd (hall _ _ _ hrun) (by decide)

end LocalFiles.Staged
