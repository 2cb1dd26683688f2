import LocalFiles.Private.Recovery
import LocalFiles.Staged.Ordinary

/-!
# Staged.Exclusive — a new file that is created under its name

The file is there from the start, and removed when the copy fails.  Where it cannot be removed, or
was refused right after its creation, the error hands it over.
-/

namespace LocalFiles.Staged

open Interaction Prog Atomic
open Copy (Transient)
open Private (EntryCall EntryM NativePrivateEntry NativePrivateCreateError LocalTempRecovery
  OwningError LocalFileObservation LocalOwnerAccessPolicy LocalObservationRequirement Owned Keeps
  createPrivateFileAt createOwnerEntryAt finishOwnerCreation queryObservation tryClone
  componentName identityForFile readMetadata fstat cleanupNativeEntry cleanupEntries)

variable {I : Type} [DecidableEq I] {slot : Slot I} {w w' : StageWorld I} {file : I} {α : Type}

/-! ## 1. The calls that only look -/

/-- The calls that create and remove nothing. -/
def Looks : EntryCall I → Prop
  | .createFile _ _ _ | .makeDirectory _ _ _ | .unlink _ _ _ | .createFilePath _ _
  | .makeDirectoryPath _ _ => False
  | _ => True

theorem EntryEffect.looks {c : EntryCall I} {answer : c.Result} (h : EntryEffect slot w c answer w')
    (hc : Looks c) : w' = w := by
  obtain ⟨entry, heffect, rfl⟩ := h
  have hsame (hentry : entry = w.entry) (hcontents : contentsAfter w.contents c answer = w.contents) :
      ({ w with entry := entry, contents := contentsAfter w.contents c answer } : StageWorld I) = w := by
    rw [hentry, hcontents]
  cases c with
  | createFile _ _ _ | makeDirectory _ _ _ | unlink _ _ _ | createFilePath _ _
  | makeDirectoryPath _ _ => cases hc
  | clone _ | changeMode _ _ | hasAcl _ _ | prepareParent | randomName => exact hsame heffect rfl
  | metadata _ | fileStat _ | nameStat _ _ | openDirectory _ _ | openPath _ | pathMetadata _ =>
    cases answer with
    | error error => exact hsame heffect rfl
    | ok a => exact hsame heffect.1 rfl

theorem wp_looks {p : EntryM I α} (hp : p.Makes Looks) :
    p.Wp (EntryEffect slot) (fun _ w' => w' = w) w :=
  hp.wp (fun _ _ _ _ hc hinv hE => (hE.looks hc).trans hinv) rfl

/-- What holds of the names by themselves. -/
theorem wp_entry {p : EntryM I α} {post : α → Private.EntryWorld I → Prop}
    (h : p.Wp (Private.Effect slot.parent) post w.entry) :
    p.Wp (EntryEffect slot) (fun a w' => post a w'.entry) w := by
  refine h.comap StageWorld.entry fun w c answer w' hE => ?_
  obtain ⟨entry, heffect, rfl⟩ := hE
  exact heffect

theorem wp_onEntry {p : EntryM I α} {post : α → StageWorld I → Prop} :
    (onEntry p).Wp (StageEffect slot) post w ↔ p.Wp (EntryEffect slot) post w := wp_embed

section Looks

variable {directory : Bool}

omit [DecidableEq I]

theorem looks_tryClone : (tryClone file).Makes Looks := ⟨trivial, fun _ => trivial⟩

theorem looks_readMetadata : (readMetadata file).Makes Looks := ⟨trivial, fun _ => trivial⟩

theorem looks_identityForFile : (identityForFile file).Makes Looks :=
  Makes.bind looks_readMetadata fun _ => trivial

theorem looks_queryObservation (requirement : LocalObservationRequirement) :
    (queryObservation file requirement).Makes Looks := by
  unfold queryObservation
  refine Makes.bind looks_readMetadata fun answer => ?_
  cases answer with
  | error error => trivial
  | ok metadata =>
    refine Makes.bind ⟨trivial, fun _ => trivial⟩ fun answer => ?_
    cases answer with
    | error error => trivial
    | ok stat =>
      dsimp only
      split <;> trivial

theorem looks_verifyNoAcl (default : Bool) : (Private.verifyNoAcl file default).Makes Looks := by
  refine Makes.bind ⟨trivial, fun _ => trivial⟩ fun answer => ?_
  match answer with
  | .error error => trivial
  | .ok true => trivial
  | .ok false => trivial

theorem looks_verifyOwnerAndType :
    (Private.verifyOwnerAndType file directory).Makes Looks := by
  refine Makes.bind looks_readMetadata fun answer => ?_
  cases answer with
  | error error => trivial
  | ok metadata =>
    dsimp only
    generalize (if directory = true then EntryKind.directory else .file) = kind
    split <;> trivial

theorem looks_verifyMode (expected : Nat) : (Private.verifyMode file expected).Makes Looks := by
  refine Makes.bind looks_readMetadata fun answer => ?_
  cases answer with
  | error error => trivial
  | ok metadata =>
    dsimp only
    split <;> trivial

theorem looks_verifyOwnerAccess (system : UnixTarget) (policy : LocalOwnerAccessPolicy) :
    (Private.verifyOwnerAccess system file directory policy).Makes Looks := by
  unfold Private.verifyOwnerAccess
  split
  · trivial
  · trivial
  · refine Makes.andThen looks_verifyOwnerAndType fun _ =>
      Makes.andThen (looks_verifyMode _) fun _ => ?_
    unfold Private.verifyNoExtraAcl
    split
    · refine Makes.andThen (looks_verifyNoAcl false) fun _ => ?_
      split
      · exact looks_verifyNoAcl true
      · trivial
    · trivial

end Looks

/-! ## 2. The creation -/

/-- The state behind the creation of the file. -/
def StageWorld.creates (w : StageWorld I) (slot : Slot I) (file : I) : StageWorld I :=
  { w with
    entry := ⟨w.entry.entries.bindIn slot.parent slot.name file,
      Function.update w.entry.kind file .file⟩
    contents := Function.update w.contents file [] }

/-- The file could be created. -/
def Created (slot : Slot I) (w : StageWorld I) (file : I) : Prop :=
  w.entry.Creates slot.parent slot.parent slot.name file .file (w.creates slot file).entry

/-- How the creation ends: the file is new, nothing was created, or the error retains it. -/
def StageFile (slot : Slot I) (w : StageWorld I) :
    Except (NativePrivateCreateError I) I → StageWorld I → Prop
  | .ok file, w' => Created slot w file ∧ w' = w.creates slot file
  | .error ⟨_, none⟩, w' => w' = w
  | .error ⟨_, some entry⟩, w' => ∃ file identity, Created slot w file ∧ w' = w.creates slot file ∧
      entry = ⟨slot.parent, slot.name, some file, identity, false⟩

theorem wp_openExclusive {mode : Nat} {post : IoResult I → StageWorld I → Prop}
    (herror : ∀ error, post (.error error) w)
    (hok : ∀ file, Created slot w file → post (.ok file) (w.creates slot file)) :
    (Private.openExclusive slot.parent slot.name mode).Wp (EntryEffect slot) post w := by
  intro answer next hE
  obtain ⟨entry, heffect, rfl⟩ := hE
  match answer, heffect with
  | .error error, heffect =>
    obtain rfl : entry = w.entry := heffect
    exact herror error
  | .ok file, heffect =>
    obtain ⟨hname, hfree, hfresh, rfl⟩ : w.entry.Creates _ _ _ _ _ entry := heffect
    exact hok file ⟨hname, hfree, hfresh, rfl⟩

theorem wp_createPrivateFileAt :
    (createPrivateFileAt slot.parent slot.name).Wp (EntryEffect slot) (StageFile slot w) w := by
  unfold createPrivateFileAt
  cases componentName slot.name with
  | error source => rfl
  | ok _ =>
    refine wp_bind.mpr ((wp_looks looks_tryClone).mono fun r w' hw => ?_)
    subst hw
    cases r with
    | error source => rfl
    | ok _ =>
      refine wp_bind.mpr (wp_openExclusive (fun error => rfl) fun file hcreated => ?_)
      refine wp_bind.mpr ((wp_looks looks_readMetadata).mono fun r w'' hw => ?_)
      subst hw
      have hretained (source : IoError) (identity : Option I) :
          StageFile slot w' (.error (Private.createError false source slot.parent slot.name (some file)
            identity)) (w'.creates slot file) := ⟨file, identity, hcreated, rfl, rfl⟩
      cases r with
      | error source =>
        refine wp_bind.mpr ((wp_looks looks_identityForFile).mono fun r w'' hw => ?_)
        subst hw
        exact hretained _ _
      | ok metadata =>
        refine wp_bind.mpr ((wp_looks looks_identityForFile).mono fun r w'' hw => ?_)
        subst hw
        dsimp only
        split
        · exact hretained _ _
        · split
          · exact hretained _ _
          · exact ⟨hcreated, rfl⟩

theorem wp_finishOwnerCreation (system : UnixTarget) (policy : LocalOwnerAccessPolicy)
    (hcreated : Created slot w file) :
    (finishOwnerCreation system slot.parent slot.name file false policy).Wp (EntryEffect slot)
      (StageFile slot w) (w.creates slot file) := by
  unfold finishOwnerCreation
  refine wp_bind.mpr ((wp_looks looks_identityForFile).mono fun identity w' hw => ?_)
  subst hw
  dsimp only
  refine wp_bind.mpr ((wp_looks ?_).mono fun r w' hw => ?_)
  · cases Private.ownerMode policy false with
    | error error => trivial
    | ok mode =>
      exact Makes.andThen ⟨trivial, fun _ => trivial⟩ fun _ =>
        Makes.andThen trivial fun _ => looks_verifyOwnerAccess system policy
  · subst hw
    cases r with
    | error source => exact ⟨file, _, hcreated, rfl, rfl⟩
    | ok _ => exact ⟨hcreated, rfl⟩

theorem wp_createStageFile (system : UnixTarget) (policy : Option LocalOwnerAccessPolicy) :
    (createStageFile system slot.parent slot.name policy).Wp (EntryEffect slot) (StageFile slot w)
      w := by
  unfold createStageFile
  cases policy with
  | none => exact wp_createPrivateFileAt
  | some policy =>
    dsimp only
    unfold createOwnerEntryAt
    split
    · rfl
    · rfl
    · rfl
    · refine wp_bind.mpr ((wp_looks looks_tryClone).mono fun r w' hw => ?_)
      subst hw
      cases r with
      | error source => rfl
      | ok _ =>
        refine wp_bind.mpr (wp_openExclusive (fun error => rfl) fun file hcreated => ?_)
        exact wp_finishOwnerCreation system policy hcreated

/-! ## 3. The new file is filled -/

/-- The created file holds `stored`; nothing else has changed. -/
structure Holding (slot : Slot I) (w : StageWorld I) (file : I) (stored : List UInt8)
    (w' : StageWorld I) : Prop where
  created : Created slot w file
  entry : w'.entry = (w.creates slot file).entry
  contents : w'.contents file = stored

theorem Created.holding (h : Created slot w file) : Holding slot w file [] (w.creates slot file) :=
  ⟨h, rfl, Function.update_self ..⟩

theorem Created.free (h : Created slot w file) : w.names slot.parent slot.name = none := h.2.1

theorem Created.spared (h : Created slot w file) : Spared slot w w' := by
  intro existing hexisting
  rw [h.free] at hexisting
  cases hexisting

namespace Holding

variable {stored : List UInt8} {maximum : UInt64}

theorem name (h : Holding slot w file stored w') : w'.names slot.parent slot.name = some file := by
  unfold StageWorld.names
  rw [h.entry]
  exact Private.Entries.bindIn_self

theorem complete (h : Holding slot w file stored w') (hstored : stored = w.source.unread)
    (hfits : w.source.unread.length ≤ maximum.toNat) : Complete slot w w' maximum file :=
  ⟨h.created.free, h.name, h.contents.trans hstored, hfits⟩

/-- The file is the only entry that stands beside the first ones. -/
theorem owned (h : Holding slot w file stored w') :
    Owned slot.parent w.entry.entries w'.entry [⟨slot.parent, slot.name, file, false⟩] := by
  rw [h.entry]
  exact (Owned.start w.entry).creates h.created

theorem writes (h : Holding slot w file stored w') {more : List UInt8} {answer : IoResult Nat}
    {w'' : StageWorld I} (hE : Writes w' file more answer w'') :
    w''.source = w'.source ∧ match answer with
      | .error _ => Holding slot w file stored w''
      | .ok count => count ≤ more.length ∧ Holding slot w file (stored ++ more.take count) w'' := by
  obtain ⟨sink, haccepts, rfl⟩ := hE
  have hholding (received : List UInt8) (hreceived : sink.received = received) :
      Holding slot w file received
        { w'.withContents file sink.received with interrupts := sink.interrupts } := by
    refine ⟨h.created, h.entry, ?_⟩
    show Function.update w'.contents file sink.received file = received
    rw [Function.update_self, hreceived]
  refine ⟨rfl, ?_⟩
  cases answer with
  | ok count =>
    obtain ⟨hcount, hreceived, -⟩ := haccepts.accepted
    exact ⟨hcount, hholding _ (by rw [hreceived, h.contents])⟩
  | error error =>
    refine hholding _ ?_
    by_cases hagain : Transient error
    · rw [(haccepts.again hagain).1, h.contents]
    · rw [haccepts.refused hagain, h.contents]

end Holding

theorem appends_blocksToFile (path : Path) :
    (blocksToFile path file).Appends slot fun _ => Holding slot w file where
  read source h := ⟨h.created, h.entry, h.contents⟩
  write bytes h := by
    refine wp_bind.mpr (wp_onWriter.mpr (wp_writeFile fun answer w'' hwrites => ?_))
    obtain ⟨hsource, hr⟩ := h.writes hwrites
    cases answer with
    | error error => exact ⟨hsource, hr⟩
    | ok count => exact ⟨hsource, hr⟩

/-! ## 4. The removal of a partial file -/

/-- How the removal ends: the name is free again, or the error has the cause of the failed removal
    and hands the file over. -/
theorem wp_cleanupPartialPrivateFile {stored : List UInt8} (cause : LocalFileError)
    {identity : Option I} (hidentity : ∀ known ∈ identity, known = file) (path : Path)
    (h : Holding slot w file stored w') :
    (cleanupPartialPrivateFile cause slot.parent slot.name file identity path).Wp (EntryEffect slot)
      (fun error w'' => error.cause = cause ∧
        (w''.names slot.parent slot.name = none ∨ HandedOver slot w w'' error)) w' := by
  have hkeeps : Keeps (⟨slot.parent, slot.name, some file, identity, false⟩ : NativePrivateEntry I)
      ⟨slot.parent, slot.name, file, false⟩ := by
    refine ⟨rfl, rfl, rfl, ?_, fun known hknown => ?_⟩
    · rintro _ ⟨⟩
      rfl
    · rw [hidentity known hknown]
  unfold cleanupPartialPrivateFile LocalTempRecovery.cleanup LocalTempRecovery.fromNative
    cleanupEntries
  refine wp_bind.mpr (wp_bind.mpr (wp_bind.mpr ((wp_entry (Private.wp_cleanupNativeEntry h.owned
    hkeeps path)).mono fun r w'' hr => ?_)))
  cases r with
  | ok _ =>
    have howned : Owned slot.parent w.entry.entries w''.entry [] := hr
    refine ⟨rfl, .inl ?_⟩
    unfold StageWorld.names
    rw [howned.stands.eq_base]
    exact h.created.free
  | error error =>
    have howned : Owned slot.parent w.entry.entries w''.entry
      [⟨slot.parent, slot.name, file, false⟩] := hr
    exact ⟨rfl, .inr ⟨h.created.free, file, identity, _,
      howned.stands.bound _ List.mem_cons_self, rfl, rfl, .inl fun heq => by cases heq⟩⟩

/-! ## 5. The route -/

section Route

variable {maximum : UInt64}

theorem wp_queryCreated (requirement : LocalObservationRequirement) :
    (queryObservation file requirement).Wp (EntryEffect slot) (fun r w' => w' = w ∧
      ∀ observation, r = .ok observation → observation.identity = some file) w := by
  have hidentity : (queryObservation file requirement).Wp (Private.Effect slot.parent)
      (fun r _ => ∀ observation, r = .ok observation → observation.identity = some file) w.entry :=
    Private.wp_queryObservation fun _ hidentity => hidentity
  exact (wp_looks (looks_queryObservation requirement)).and (wp_entry hidentity)

theorem wp_observeCreated (path : Path) :
    (observeCreated path file).Wp (EntryEffect slot) (fun r w' => w' = w ∧
      ∀ identity, r = .ok identity → identity = file) w := by
  unfold observeCreated
  refine wp_bind.mpr ((wp_queryCreated _).mono fun r w' hr => ?_)
  obtain ⟨rfl, hidentity⟩ := hr
  cases r with
  | error error => exact ⟨rfl, nofun⟩
  | ok observation =>
    dsimp only
    rw [hidentity observation rfl]
    exact ⟨rfl, fun identity heq => (Except.ok.inj heq).symm⟩

/-- A failed copy, behind the removal of the file. -/
theorem ends_cleaned {α : Type} {done : α → StageWorld I → Prop}
    {error : OwningError I} (hcreated : Created slot w file)
    (h : w'.names slot.parent slot.name = none ∨ HandedOver slot w w' error) :
    Finishes slot w w' maximum True done (.error (.failed error)) := by
  refine ⟨hcreated.spared, ?_⟩
  obtain hfree | hhanded := h
  · exact .inl (hfree.trans hcreated.free.symm)
  · exact .inr (.inr ⟨trivial, hhanded⟩)

theorem wp_fillCreated (path : Path) (bound : Nat) (hsource : w'.source = w.source)
    (h : Holding slot w file [] w') :
    (fillCreated path slot.parent slot.name file file maximum bound).Wp (StageEffect slot)
      (fun r w'' => Finishes slot w w'' maximum True (Observed slot w maximum) r) w' := by
  unfold fillCreated
  have hinput : [] ++ w'.source.unread = w.source.unread := by rw [hsource, List.nil_append]
  refine wp_bind.mpr ((wp_copyInput (appends_blocksToFile path) bound bound h rfl (Nat.zero_le _)
    hinput).mono fun r w'' hr => ?_)
  obtain ⟨answer, _⟩ := r
  match answer, hr with
  | .error none, ⟨_, hholding⟩ => exact ⟨hholding.created.spared, trivial⟩
  | .error (some cause), ⟨_, hholding⟩ =>
    refine wp_bind.mpr (wp_onEntry.mpr ((wp_cleanupPartialPrivateFile cause ?_ path hholding).mono
      fun error w₃ hr => ?_))
    · rintro _ ⟨⟩
      rfl
    · exact wp_pure.mpr (ends_cleaned hholding.created hr.2)
  | .ok (), ⟨hholding, hfits⟩ =>
    have hcomplete := hholding.complete rfl hfits
    refine wp_bind.mpr (wp_onEntry.mpr ((wp_queryCreated _).mono fun r w₃ hr => ?_))
    obtain ⟨rfl, hidentity⟩ := hr
    cases r with
    | error error => exact ⟨hholding.created.spared, .inr (.inl ⟨file, hcomplete⟩)⟩
    | ok observation => exact ⟨hholding.created.spared, file, hidentity observation rfl, hcomplete⟩

/-- A creation that fails changes nothing, or hands over the file, which is empty. -/
theorem ends_stageFileError {done : α → StageWorld I → Prop} {error : NativePrivateCreateError I}
    (path : Path) (h : StageFile slot w (.error error) w') :
    Finishes slot w w' maximum True done (.error (.failed (stageFileError path error))) := by
  match error, h with
  | ⟨source, none⟩, h =>
    obtain rfl : w' = w := h
    exact ends_unchanged
  | ⟨source, some entry⟩, ⟨file, identity, hcreated, hw, hentry⟩ =>
    subst hw hentry
    exact ⟨hcreated.spared, .inr (.inr ⟨trivial, hcreated.free, file, identity, _,
      hcreated.holding.name, rfl, rfl, .inr ⟨hcreated.holding.contents, rfl⟩⟩)⟩

theorem wp_writeCreatedFile (stage : LocalStagedDirectory) (system : UnixTarget) (path : Path)
    (bound : Nat) :
    (writeCreatedFile stage system path slot.parent slot.name maximum bound).Wp (StageEffect slot)
      (fun r w' => Finishes slot w w' maximum True (Observed slot w maximum) r) w := by
  unfold writeCreatedFile
  refine wp_bind.mpr (wp_onEntry.mpr ((wp_looks looks_tryClone).mono fun r w' hw => ?_))
  subst hw
  cases r with
  | error error => exact wp_pure.mpr ends_unchanged
  | ok _ =>
    refine wp_bind.mpr (wp_onEntry.mpr ((wp_createStageFile system _).mono fun r w'' hr => ?_))
    cases r with
    | error error => exact wp_pure.mpr (ends_stageFileError path hr)
    | ok file =>
      obtain ⟨hcreated, rfl⟩ := hr
      refine wp_bind.mpr (wp_onEntry.mpr ((wp_observeCreated path).mono fun r w'' hr => ?_))
      obtain ⟨rfl, hidentity⟩ := hr
      cases r with
      | error cause =>
        refine wp_bind.mpr (wp_onEntry.mpr ((wp_cleanupPartialPrivateFile cause nofun path
          hcreated.holding).mono fun error w₃ hr => ?_))
        exact wp_pure.mpr (ends_cleaned hcreated hr.2)
      | ok identity =>
        obtain rfl := hidentity identity rfl
        exact wp_fillCreated path bound rfl hcreated.holding

theorem wp_stepIf {c : Prop} [Decidable c] {s : StageStep}
    {post : Except LocalFileError Unit → StageWorld I → Prop} (h : ∀ r, post r w) :
    (if c then stageStep s else pure (.ok ()) : StageM I _).Wp (StageEffect slot) post w := by
  split
  · exact wp_stageStep h
  · exact h _

theorem wp_writePrivateFileNew (stage : LocalStagedDirectory) (system : UnixTarget) (relative : Path)
    (bound : Nat) :
    (writePrivateFileNew stage system relative slot.parent slot.name maximum bound).Wp
      (StageEffect slot) (fun r w' => Finishes slot w w' maximum True (Observed slot w maximum) r) w := by
  unfold writePrivateFileNew
  refine wp_bind.mpr (wp_stageStep fun r => ?_)
  cases r with
  | error error => exact wp_pure.mpr ends_unchanged
  | ok _ =>
    refine wp_bind.mpr (wp_stepIf fun r => ?_)
    cases r with
    | error error => exact wp_pure.mpr ends_unchanged
    | ok _ =>
      refine wp_bind.mpr (wp_stepIf fun r => ?_)
      cases r with
      | error error => exact wp_pure.mpr ends_unchanged
      | ok _ =>
        refine wp_bind.mpr (wp_stageStep fun r => ?_)
        cases r with
        | error error => exact wp_pure.mpr ends_unchanged
        | ok _ => exact wp_writeCreatedFile stage system _ bound

end Route

end LocalFiles.Staged
