import LocalFiles.Temp.Authority
import LocalFiles.Temp.File

/-!
# Temp.FileAuthority — temporary files keep the discipline

Every operation of a temporary file, from the single checks up to publication and sealing, with
what it leaves behind.  Only publication needs the access state.
-/

namespace LocalFiles.Temp

open Interaction

/-! ## 1. Changes of the fields of a file -/

section Fields

variable {ε α : Type} {first : LocalTempResourceCore} {base : TempHistory FileFields}
  {Q : LocalTempFile → Prop} {leave : ε → TempHistory FileFields → LocalTempFile → Prop}

/-- Only a file that is known to be writable is renamed. -/
def Writable (own : FileFields) : Prop := own.accessState = .writable

/-- What publication starts from. -/
def Publishable (s : LocalTempFile) : Prop := IsOwned s ∧ Writable s.own

abbrev Any (_ : LocalTempFile) : Prop := True

/-- The triples of the file operations. -/
abbrev FileUpholds (first : LocalTempResourceCore)
    (pre : TempHistory FileFields → LocalTempFile → Prop) (t : FileM ε α)
    (post : α → TempHistory FileFields → LocalTempFile → Prop)
    (leave : ε → TempHistory FileFields → LocalTempFile → Prop) : Prop :=
  Proc.Upholds (discipline Writable first) pre t post leave

/-- The handle matters to no condition used here. -/
def IgnoresHandle (Q : LocalTempFile → Prop) : Prop :=
  ∀ s file, Q s → Q { s with own := { s.own with file := file } }

theorem ignoresHandle_any : IgnoresHandle Any := fun _ _ _ => trivial

theorem ignoresHandle_publishable : IgnoresHandle Publishable := fun _ _ hs => hs

theorem upholds_setFile (hQ : IgnoresHandle Q) (file : Option File) :
    FileUpholds first (Ready first base Q) (setFile file : FileM ε Unit)
      (fun _ => Ready first base Q) leave :=
  .modify fun _ s hs => ⟨hs.authority.congr rfl, hs.unmoved, hQ s file hs.state⟩

theorem upholds_setAccess (state : LocalTempAccessState) :
    FileUpholds first (Ready first base Q) (setAccess state : FileM ε Unit)
      (fun _ => Ready first base Any) leave :=
  .modify fun _ _ hs => ⟨hs.authority.congr rfl, hs.unmoved, trivial⟩

theorem upholds_ensureFileIdentityMatches :
    FileUpholds first (Ready first base Q) (ensureFileIdentityMatches : FileM ε (IoResult Unit))
      (Identified first base Q) leave := by
  refine .bind upholds_ensureIdentityMatches fun result => Proc.Upholds.get fun s => ?_
  cases result with
  | ok u =>
    split
    · rename_i hlost
      refine .vacuous fun past s' hs => ?_
      obtain ⟨⟨hready, -⟩, rfl⟩ := hs
      have howned : s'.core.state = .owned := hready.state.1
      rw [howned] at hlost
      cases hlost
    · exact .pure fun past s' hs => hs.1
  | error error =>
    have hready : ∀ past s', Identified first base Q (.error error) past s' ∧ s' = s →
        Ready first base Any past s' := fun _ _ hs => hs.1
    split
    · exact .bind ((upholds_setFile ignoresHandle_any none).before hready) fun _ =>
        .pure fun past s' hs => hs
    · exact .pure fun past s' hs => hs.1

end Fields

/-! ## 2. Cleanup -/

section Cleanup

variable {ε α : Type} {first : LocalTempResourceCore} {base : TempHistory FileFields}
  {Q : LocalTempFile → Prop} {platform : Platform}
  {leave : ε → TempHistory FileFields → LocalTempFile → Prop}

/-- The entry is gone, and the state does not say so yet. -/
def Removed (first : LocalTempResourceCore) (base : TempHistory FileFields)
    (result : IoResult Unit) (past : TempHistory FileFields) (s : LocalTempFile) : Prop :=
  match result with
  | .ok () => Ready first base IsOwned past s ∧ Gone first past
  | .error _ => Ready first base Any past s

theorem upholds_removeFile {method : RemoveFileMethod} {s : LocalTempFile} {path : Path}
    (hpath : path = s.core.sourcePath) :
    FileUpholds first (fun past s' => Identified first base Any (.ok ()) past s' ∧ s' = s)
      (removeFile method path : FileM ε (IoResult Unit)) (Removed first base) leave := by
  apply Proc.Upholds.ask
  rintro past s' ⟨⟨hs, hmatched⟩, rfl⟩
  have howned : IsOwned s' := hs.state.1
  have hpath := hpath.trans (LocalTempResourceCore.sourcePath_of_place hs.authority.place)
  refine ⟨⟨⟨howned, hpath, hmatched, hs.authority.untouched howned⟩, hs.authority.lost⟩,
    fun answer _ => ?_⟩
  have hready : Ready first base IsOwned (past ++ [⟨(s', .removeFile method path), answer⟩]) s' :=
    ⟨hs.authority.snoc id, hs.unmoved.snoc id, howned⟩
  cases answer with
  | error error => exact hready.forget
  | ok u =>
    exact ⟨hready, _, List.mem_append_right _ List.mem_cons_self, .inr ⟨hpath, rfl⟩⟩

theorem upholds_removeResource :
    FileUpholds first (Ready first base Any) (removeResource platform : FileM ε (IoResult Unit))
      (Removed first base) leave := by
  refine .bind upholds_ensureFileIdentityMatches fun result => ?_
  cases result with
  | error error => exact .pure fun _ _ hs => hs
  | ok u =>
    apply Proc.Upholds.get
    intro s
    cases hbackend : s.core.backend with
    | host identity sandbox =>
      apply upholds_removeFile
      rw [LocalTempResourceCore.sourcePath, hbackend]
    | rooted identity path sandbox =>
      cases platform with
      | unix =>
        apply upholds_removeFile
        rw [LocalTempResourceCore.sourcePath, hbackend]
      | windows =>
        apply upholds_removeFile
        rw [LocalTempResourceCore.sourcePath, hbackend]

theorem upholds_orCleanupError {path : LocalTempResourceCore → Path} {result : IoResult α}
    {pre : TempHistory FileFields → LocalTempFile → Prop}
    (hpre : ∀ past s, pre past s → Ready first base Any past s) :
    FileUpholds first pre (orCleanupError path result) (fun a past s => result = .ok a ∧ pre past s)
      (fun _ => Ready first base Any) := by
  cases result with
  | ok a => exact .pure fun _ _ hs => ⟨rfl, hs⟩
  | error error =>
    apply Proc.Upholds.get
    intro s
    exact .exit fun past s' hs => hpre past s' hs.1

theorem upholds_cleanupSandbox :
    FileUpholds first (Ready first base Any) cleanupSandbox (fun _ => Ready first base Any)
      (fun _ => Ready first base Any) := by
  apply Proc.Upholds.get
  intro s
  split
  · rename_i hpending
    refine .through (fun _ => Ready first base fun s => s.core.state = .sandboxPending) ?_
      fun result => ?_
    · refine (upholds_releaseSandbox (fun _ _ hs => hs.authority) (fun _ _ hs => hs.state)
        fun past s' c answer hs hc => ⟨hs.authority.snoc hc, hs.unmoved.snoc
          (not_tookEffect_of_quiet hc), hs.state⟩).before ?_
      rintro past s' ⟨hs, rfl⟩
      exact ⟨hs.authority, hs.unmoved, hpending⟩
    · refine .bind (upholds_orCleanupError fun _ _ hs => hs.forget) fun u =>
        .modify fun past s' hs => ?_
      have hgone := hs.2.authority.gone (.inl hs.2.state)
      refine ⟨hs.2.authority.settle ?_ (.inr rfl) rfl hgone, hs.2.unmoved, trivial⟩
      rw [hs.2.state]
      decide
  · exact .pure fun past s' hs => hs.1

theorem upholds_cleanup :
    FileUpholds first (Ready first base Any) (cleanup platform) (fun _ => Ready first base Any)
      (fun _ => Ready first base Any) := by
  refine .bind (upholds_setFile ignoresHandle_any none) fun _ => Proc.Upholds.get fun s => ?_
  refine .bind (upholds_orCleanupError fun _ _ hs => hs.1) fun _ => ?_
  split
  · refine .bind (upholds_removeResource.before fun _ _ hs => hs.2.1) fun result => ?_
    refine .bind (upholds_orCleanupError fun past s' hs => ?_) fun u => ?_
    · cases result with
      | ok u => exact hs.1.forget
      | error error => exact hs
    · refine .through (fun _ => Ready first base Any) (.modify fun past s' hs => ?_)
        fun _ => upholds_cleanupSandbox
      obtain ⟨rfl, hready, hgone⟩ := hs
      refine ⟨hready.authority.settle ?_ (.inl rfl) rfl hgone, hready.unmoved, trivial⟩
      rw [show s'.core.state = .owned from hready.state]
      decide
  · exact upholds_cleanupSandbox.before fun _ _ hs => hs.2.1

theorem upholds_drop :
    FileUpholds first (Ready first base Any) (drop platform : FileM ε Unit)
      (fun _ => Ready first base Any) leave := by
  refine .bind upholds_cleanup.outcome fun result => .pure fun past s hs => ?_
  cases result with
  | ok u => exact hs
  | error error => exact hs

end Cleanup

/-! ## 3. Sealing and synchronization -/

section Inspection

variable {ε α : Type} {first : LocalTempResourceCore} {base : TempHistory FileFields}
  {Q : LocalTempFile → Prop} {P : TempHistory FileFields → LocalTempFile → Prop}
  {platform : Platform} {leave : ε → TempHistory FileFields → LocalTempFile → Prop}

/-- Functions that only ask: they keep `P` to their end, early or not. -/
abbrev Inspects (first : LocalTempResourceCore)
    (P : TempHistory FileFields → LocalTempFile → Prop) (t : FileM IoError α) : Prop :=
  FileUpholds first P t (fun _ => P) fun _ => P

theorem inspects_orReturn (result : IoResult α) : Inspects first P (orReturn result) := by
  cases result with
  | ok a => exact .pure fun _ _ hs => hs
  | error error => exact .exit fun _ _ hs => hs

theorem inspects_get {f : LocalTempFile → FileM IoError α} (h : ∀ s, Inspects first P (f s)) :
    Inspects first P (Proc.get >>= f) :=
  .get fun s => (h s).before fun _ _ hs => hs.1

theorem inspects_call (hP : Stable first P) {c : TempCall} (hc : c.Quiet) :
    Inspects first P (call c) :=
  upholds_quiet hP hc

theorem inspects_observesSource (hP : Stable first P) (file : File) :
    Inspects first P (observesSource file) :=
  .bind (inspects_call hP trivial) fun _ => .bind (inspects_orReturn _) fun _ =>
    inspects_get fun _ => .pure fun _ _ hs => hs

theorem inspects_sealedPath (hP : Stable first P) (path : Path) :
    Inspects first P (sealedPath path) := by
  refine .bind (inspects_call hP trivial) fun result => ?_
  cases result with
  | ok relative => exact .pure fun _ _ hs => hs
  | error error => exact .exit fun _ _ hs => hs

theorem inspects_takeWriteAccess (hP : Stable first P) (file : File) :
    Inspects first P (takeWriteAccess platform file) := by
  cases platform with
  | unix => exact .bind (inspects_call hP trivial) fun _ => inspects_orReturn _
  | windows =>
    refine inspects_get fun s => ?_
    have hrest (path : Path) : Inspects first P (do
        let accessFile ← orReturn (← openExistingFileForSecurity s.core.scope path)
        if ← observesSource accessFile then orReturn (← applyCurrentUserAccess accessFile)
        else Proc.exit identityChanged) := by
      refine .bind (inspects_call hP trivial) fun _ => .bind (inspects_orReturn _) fun accessFile =>
        .bind (inspects_observesSource hP accessFile) fun same => ?_
      split
      · exact .bind (inspects_call hP trivial) fun _ => inspects_orReturn _
      · exact .exit fun _ _ hs => hs
    split
    · exact .bind (.pure fun _ _ hs => hs) hrest
    · exact .bind (inspects_sealedPath hP _) hrest

theorem inspects_reopenReadOnly (hP : Stable first P) : Inspects first P reopenReadOnly := by
  refine inspects_get fun s => ?_
  split
  · exact .bind (inspects_call hP trivial) fun _ => inspects_orReturn _
  · exact .bind (inspects_sealedPath hP _) fun _ => .bind (inspects_call hP trivial) fun _ =>
      inspects_orReturn _

theorem inspects_sealableFile (hP : Stable first P) : Inspects first P sealableFile := by
  refine inspects_get fun s => ?_
  split
  · exact .exit fun _ _ hs => hs
  · rename_i file _
    refine .bind (inspects_observesSource hP file) fun expected => ?_
    split
    · exact .exit fun _ _ hs => hs
    · split
      · exact .pure fun _ _ hs => hs
      · exact .exit fun _ _ hs => hs

theorem inspects_syncBeforeSeal (hP : Stable first P) (options : LocalSealOptions) (file : File) :
    Inspects first P (syncBeforeSeal options file) := by
  unfold syncBeforeSeal
  split
  · exact .pure fun _ _ hs => hs
  · exact .bind (inspects_call hP trivial) fun _ => .pure fun _ _ hs => hs
  · exact .bind (inspects_call hP trivial) fun _ => inspects_orReturn _

theorem upholds_sealFile {options : LocalSealOptions} :
    Inspects first (Ready first base Any) (sealFile platform options) := by
  have hready : Stable first (Ready first base Any) := stable_ready
  refine .bind (inspects_sealableFile hready) fun file =>
    .bind (inspects_syncBeforeSeal hready options file) fun _ =>
    .bind (upholds_setAccess _) fun _ => .bind (inspects_takeWriteAccess hready file) fun _ =>
    .bind (upholds_setAccess _) fun _ => ?_
  have hend : Inspects first (Ready first base Any) (do
      let readonly ← reopenReadOnly
      if ← observesSource readonly then setFile (some readonly)
      else do
        setAccess .indeterminate
        Proc.exit differentFile) := by
    refine .bind (inspects_reopenReadOnly hready) fun readonly =>
      .bind (inspects_observesSource hready readonly) fun same => ?_
    split
    · exact upholds_setFile ignoresHandle_any _
    · exact .bind (upholds_setAccess _) fun _ => .exit fun _ _ hs => hs
  split
  · exact .bind (inspects_call hready trivial) fun _ => .bind (inspects_orReturn _) fun _ => hend
  · exact hend

theorem upholds_currentIdentity :
    FileUpholds first (Ready first base Any) (currentIdentity : FileM ε _)
      (fun _ => Ready first base Any) leave := by
  apply Proc.Upholds.get
  intro s
  split
  · exact .pure fun _ _ hs => hs.1
  · refine .bind (upholds_ready (fun _ _ hs => hs.1) trivial) fun result => ?_
    split
    · exact .pure fun _ _ hs => hs
    · exact .pure fun _ _ hs => hs

theorem upholds_sealWithOptions {options : LocalSealOptions} :
    FileUpholds first (Ready first base Any) (sealWithOptions platform options)
      (fun _ => Ready first base Any) (fun _ => Ready first base Any) := by
  refine .bind upholds_sealFile.outcome fun result => ?_
  cases result with
  | ok u => exact .pure fun _ _ hs => hs
  | error error =>
    refine .get fun s => .bind (upholds_currentIdentity.before fun _ _ hs => hs.1) fun identity => ?_
    exact .exit fun _ _ hs => hs

theorem inspects_matchesFile (hP : Stable first P) (file : File) :
    Inspects first P (matchesFile file) := by
  refine inspects_get fun s => ?_
  split
  · exact .bind (inspects_call hP trivial) fun _ => .pure fun _ _ hs => hs
  · exact .bind (inspects_call hP trivial) fun _ => .pure fun _ _ hs => hs

theorem inspects_synchronizeOpenFile (hP : Stable first P) (file : File)
    (durability : LocalDurabilityRequirement) :
    Inspects first P (synchronizeOpenFile file durability) := by
  refine .bind (inspects_matchesFile hP file) fun result => .bind (inspects_orReturn result)
    fun same => ?_
  split
  · refine .bind (inspects_call hP trivial) fun synced => ?_
    split
    · exact .pure fun _ _ hs => hs
    · exact .pure fun _ _ hs => hs
    · exact .exit fun _ _ hs => hs
  · exact .exit fun _ _ hs => hs

theorem inspects_synchronizeSource (hP : Stable first P) (durability : LocalDurabilityRequirement) :
    Inspects first P (synchronizeSource durability) := by
  refine inspects_get fun s => ?_
  split
  · exact inspects_synchronizeOpenFile hP _ durability
  · exact .bind (inspects_call hP trivial) fun _ => .bind (inspects_orReturn _) fun file =>
      inspects_synchronizeOpenFile hP file durability
  · exact .bind (inspects_call hP trivial) fun _ => .bind (inspects_orReturn _) fun _ =>
      .bind (inspects_call hP trivial) fun _ => .bind (inspects_orReturn _) fun file =>
      inspects_synchronizeOpenFile hP file durability

theorem inspects_synchronizeSourceBeforeReopen (hP : Stable first P)
    (durability : LocalDurabilityRequirement) :
    Inspects first P (synchronizeSourceBeforeReopen durability) := by
  cases durability with
  | notRequired => exact .pure fun _ _ hs => hs
  | preferred =>
    refine inspects_get fun s => .bind (inspects_call hP trivial) fun supported => ?_
    split
    · exact inspects_synchronizeSource hP _
    · exact .pure fun _ _ hs => hs
  | required =>
    refine inspects_get fun s => .bind (inspects_call hP trivial) fun supported => ?_
    split
    · refine .bind (inspects_synchronizeSource hP _) fun synced => ?_
      split
      · exact .pure fun _ _ hs => hs
      · exact .exit fun _ _ hs => hs
    · exact .exit fun _ _ hs => hs

theorem inspects_syncParents (hP : Stable first P) (scope : LocalFileSystemScope)
    (paths : List Path) : Inspects first P (syncParents scope paths) := by
  induction paths with
  | nil => exact .pure fun _ _ hs => hs
  | cons path rest ih =>
    exact .bind (inspects_call hP trivial) fun _ => .bind (inspects_orReturn _) fun _ => ih

theorem inspects_syncAncestors (hP : Stable first P) (names : List String) :
    Inspects first P (syncAncestors names) := by
  induction names with
  | nil => exact .pure fun _ _ hs => hs
  | cons name parents ih =>
    exact .bind (inspects_call hP trivial) fun _ => .bind (inspects_orReturn _) fun _ =>
      .bind (inspects_call hP trivial) fun _ => .bind (inspects_orReturn _) fun _ => ih

theorem inspects_synchronizePublication (hP : Stable first P) (source destination : Path)
    (created : List Path) : Inspects first P (synchronizePublication source destination created) := by
  refine inspects_get fun s => ?_
  split
  · exact inspects_syncParents hP _ _
  · exact .bind (inspects_call hP trivial) fun _ => .bind (inspects_orReturn _) fun _ =>
      inspects_syncAncestors hP _

theorem upholds_synchronizeDestination (hP : Stable first P)
    (durability : LocalDurabilityRequirement) (source destination : Path) (created : List Path) :
    FileUpholds first P (synchronizeDestination durability source destination created : FileM ε _)
      (fun _ => P) leave := by
  have hsync := inspects_synchronizePublication hP source destination created
  cases durability with
  | notRequired => exact .pure fun _ _ hs => hs
  | preferred =>
    refine .bind hsync.outcome fun result => ?_
    cases result with
    | ok u => exact .pure fun _ _ hs => hs
    | error error => exact .pure fun _ _ hs => hs
  | required =>
    refine .bind hsync.outcome fun result => ?_
    cases result with
    | ok u => exact .pure fun _ _ hs => hs
    | error error => exact .pure fun _ _ hs => hs

end Inspection

/-! ## 4. Publication -/

section Publication

variable {ε α : Type} {first : LocalTempResourceCore} {base : TempHistory FileFields}
  {Q : LocalTempFile → Prop} {platform : Platform}

/-- How a publication that succeeded leaves the file. -/
def Done (first : LocalTempResourceCore) (base past : TempHistory FileFields)
    (s : LocalTempFile) : Prop :=
  Authority first past s ∧ Moved first base past ∧ s.core.state = .released

theorem upholds_refuse {error : IoError} {requestedTarget : Path} {resolvedTarget : Option Path}
    {stage : LocalPersistStage} {post : α → TempHistory FileFields → LocalTempFile → Prop} :
    FileUpholds first (Ready first base Q)
      (persistError error requestedTarget resolvedTarget stage .notPublished) post
      (Failed first base) := by
  apply upholds_persistError
  · exact fun past s hs => hs.authority
  · exact fun past s hs _ => hs.unmoved
  · rintro past s hs ⟨⟩

/-- A sealed file goes no further. -/
theorem upholds_ensureWritable {requestedTarget : Path} :
    FileUpholds first (Ready first base Any) (ensureWritable requestedTarget)
      (fun _ => Ready first base fun s => Writable s.own) (Failed first base) := by
  apply Proc.Upholds.get
  intro s
  split
  · exact upholds_refuse.before fun _ _ hs => hs.1
  · rename_i hwritable
    refine .pure fun past s' hs => ⟨hs.1.authority, hs.1.unmoved, ?_⟩
    rw [hs.2]
    exact not_not.mp hwritable

theorem upholds_sourceSyncFailed {error : IoError} {requestedTarget resolvedTarget : Path}
    {post : α → TempHistory FileFields → LocalTempFile → Prop} :
    FileUpholds first (Ready first base Q) (sourceSyncFailed error requestedTarget resolvedTarget)
      post (Failed first base) := by
  apply Proc.Upholds.get
  intro s
  apply Proc.Upholds.exit
  intro past s' hs
  have hstate : (if error.kind = .unsupported then
      (s.core.persistError error requestedTarget (some resolvedTarget) .synchronizeSource
        .notPublished).withKind .requirementNotMet
      else s.core.persistError error requestedTarget (some resolvedTarget) .synchronizeSource
        .notPublished).state = .notPublished := by
    split
    · exact LocalTempResourceCore.persistError_state _
    · exact LocalTempResourceCore.persistError_state _
  refine ⟨hs.1.authority, fun _ => hs.1.unmoved, fun hpublished => ?_⟩
  rw [hstate] at hpublished
  cases hpublished

theorem upholds_prepareSource {options : LocalPersistOptions}
    {requestedTarget resolvedTarget : Path} :
    FileUpholds first (Ready first base Publishable)
      (prepareSource options requestedTarget resolvedTarget)
      (fun _ => Ready first base Publishable) (Failed first base) := by
  refine .bind upholds_ensureFileIdentityMatches fun result =>
    .through (fun _ => Ready first base Publishable) ?_ fun _ => ?_
  · cases result with
    | ok u => exact .pure fun past s hs => hs.1.mono fun _ hs => hs.2
    | error error => exact upholds_refuse
  · refine .bind (inspects_synchronizeSourceBeforeReopen stable_ready _).outcome fun result => ?_
    cases result with
    | ok durable => exact .pure fun _ _ hs => hs
    | error error => exact upholds_sourceSyncFailed

theorem upholds_persistWithPath {target : Path} {from_ : Option Path}
    {options : LocalPersistOptions} :
    FileUpholds first (Ready first base Any) (persistWithPath target from_ options)
      (fun _ => Done first base) (Failed first base) := by
  refine .bind upholds_ensureWritable fun _ => .bind upholds_resolveTarget fun resolved => ?_
  have hrest : FileUpholds first (Ready first base Publishable) (do
      validateBase from_ target resolved
      let fileDurable ← prepareSource options target resolved.namespaceAbsolute
      close
      let place ← prepareDestination target resolved options.createsParent
      let s ← Proc.get
      install (fileRenameMethod s.core.scope options.overwrites) target resolved place.1
        (synchronizeDestination options.durability s.core.sourcePath place.1 place.2)
        fileDurable) (fun _ => Done first base) (Failed first base) := by
    refine .bind upholds_validateBase fun _ => .bind upholds_prepareSource fun fileDurable =>
      .bind (upholds_setFile ignoresHandle_publishable none) fun _ =>
      .bind upholds_prepareDestination fun place => .get fun s => ?_
    refine (upholds_install ?_).before fun _ _ hs => hs.1
    exact upholds_synchronizeDestination stable_published _ _ _ _
  split
  · exact .through (fun _ => Ready first base Publishable) upholds_refuse fun _ => hrest
  · exact hrest

/-- The directory that an error names says nothing about the publication. -/
theorem upholds_persistAt {directory target : Path} {options : LocalPersistOptions} :
    FileUpholds first (Ready first base Any) (persistAt directory target options)
      (fun _ => Done first base) (Failed first base) := by
  refine .bind upholds_persistWithPath.outcome fun result => ?_
  cases result with
  | ok outcome => exact .pure fun _ _ hs => hs
  | error error => exact .exit fun past s hs => ⟨hs.authority, hs.truthful.1, hs.truthful.2⟩

theorem upholds_keep :
    FileUpholds first (Ready first base Any) keep (fun _ => Done first base)
      (Failed first base) := by
  apply Proc.Upholds.get
  intro s
  exact .bind (upholds_ensureWritable.before fun _ _ hs => hs.1) fun _ =>
    .bind upholds_orPersistError_ready fun _ => .bind upholds_orPersistError_ready fun target =>
    upholds_persistWithPath.before fun _ _ hs => hs.forget

end Publication

end LocalFiles.Temp
