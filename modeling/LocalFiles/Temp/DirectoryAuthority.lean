import LocalFiles.Temp.Authority
import LocalFiles.Temp.Directory

/-!
# Temp.DirectoryAuthority — temporary directories keep the discipline

The recursive deletion starts right after an identity check and stays inside it; that it removed
the root is read off its own run.  The rest follows the operations of a file.
-/

namespace LocalFiles.Temp

open Interaction

section Cleanup

variable {ε α : Type} {first : LocalTempResourceCore} {base : TempHistory DirectoryFields}
  {Q : LocalTempDirectory → Prop} {encodedLen : Path → UInt64} {bound : Nat}
  {leave : ε → TempHistory DirectoryFields → LocalTempDirectory → Prop}

/-! ## 1. Steps of a cleanup -/

/-- A directory has no access state. -/
abbrev DirectoryUpholds (first : LocalTempResourceCore)
    (pre : TempHistory DirectoryFields → LocalTempDirectory → Prop) (t : DirectoryM ε α)
    (post : α → TempHistory DirectoryFields → LocalTempDirectory → Prop)
    (leave : ε → TempHistory DirectoryFields → LocalTempDirectory → Prop) : Prop :=
  Proc.Upholds (discipline (fun _ => True) first) pre t post leave

abbrev AnyDirectory (_ : LocalTempDirectory) : Prop := True

theorem upholds_orCleanup {convert : LocalTempResourceCore → IoError → LocalFileError}
    {result : IoResult α} {pre : TempHistory DirectoryFields → LocalTempDirectory → Prop}
    (hpre : ∀ past s, pre past s → Ready first base AnyDirectory past s) :
    DirectoryUpholds first pre (orCleanup convert result)
      (fun a past s => result = .ok a ∧ pre past s) (fun _ => Ready first base AnyDirectory) := by
  cases result with
  | ok a => exact .pure fun _ _ hs => ⟨rfl, hs⟩
  | error error =>
    apply Proc.Upholds.get
    intro s
    exact .exit fun past s' hs => hpre past s' hs.1

theorem upholds_checkCleanupDeadline {removedSource : Bool} :
    DirectoryUpholds first (Ready first base Q) (checkCleanupDeadline removedSource)
      (fun _ => Ready first base Q) (fun _ => Ready first base AnyDirectory) := by
  apply Proc.Upholds.get
  intro s
  split
  · exact .pure fun _ _ hs => hs.1
  · refine .bind (upholds_ready (fun _ _ hs => hs.1) trivial) fun time => ?_
    split
    · exact .exit fun _ _ hs => hs.forget
    · exact .pure fun _ _ hs => hs

theorem upholds_cleanupDirectorySandbox {removedSource : Bool} :
    DirectoryUpholds first (Ready first base AnyDirectory) (cleanupDirectorySandbox removedSource)
      (fun _ => Ready first base AnyDirectory) (fun _ => Ready first base AnyDirectory) := by
  apply Proc.Upholds.get
  intro s
  split
  · rename_i hpending
    refine .through (fun _ => Ready first base fun s => s.core.state = .sandboxPending)
      (upholds_checkCleanupDeadline.before ?_) fun _ =>
      .through (fun _ => Ready first base fun s => s.core.state = .sandboxPending) ?_
      fun result => ?_
    · rintro past s' ⟨hs, rfl⟩
      exact ⟨hs.authority, hs.unmoved, hpending⟩
    · exact upholds_releaseSandbox (fun _ _ hs => hs.authority) (fun _ _ hs => hs.state)
        fun past s' c answer hs hc => ⟨hs.authority.snoc hc, hs.unmoved.snoc
          (not_tookEffect_of_quiet hc), hs.state⟩
    · refine .bind (upholds_orCleanup fun _ _ hs => hs.forget) fun u =>
        .modify fun past s' hs => ?_
      have hgone := hs.2.authority.gone (.inl hs.2.state)
      refine ⟨hs.2.authority.settle ?_ (.inr rfl) rfl hgone, hs.2.unmoved, trivial⟩
      rw [hs.2.state]
      decide
  · exact .pure fun past s' hs => hs.1

/-! ## 2. The deletion -/

variable [QubitBudget]

/-- A call of the deletion as a call of the directory `s`. -/
def lift (s : LocalTempDirectory)
    (ev : Event (Delete.Locals Path × Delete.DeleteCall Path Metadata File) fun c => c.2.Result) :
    TempEvent DirectoryFields :=
  ⟨(s, .tree ev.call.2), ev.answer⟩

/-- The deletion makes its own calls, and the run is one of its own runs. -/
theorem runs_relay {s s' : LocalTempDirectory} {tr : TempHistory DirectoryFields} {r : Except ε α}
    {p : Prog (Delete.Locals Path × Delete.DeleteCall Path Metadata File) (fun c => c.2.Result) α}
    (h : (relay p : DirectoryM ε α).Runs s tr r s') :
    ∃ tr' a, r = .ok a ∧ s' = s ∧ p.Runs tr' a ∧ tr = tr'.map (lift s) := by
  induction p generalizing tr with
  | ret a =>
    obtain ⟨rfl, rfl, rfl⟩ := Proc.runs_pure.mp h
    exact ⟨[], a, rfl, rfl, ⟨rfl, rfl⟩, rfl⟩
  | call c k ih =>
    obtain ⟨e, rfl, hask⟩ | ⟨tr₁, tr₂, answer, mid, rfl, hask, hrest⟩ := Proc.runs_bind.mp h
    · obtain ⟨answer, rfl, hr, -⟩ := Proc.runs_ask.mp hask
      cases hr
    · obtain ⟨found, rfl, hok, rfl⟩ := Proc.runs_ask.mp hask
      cases Except.ok.inj hok
      obtain ⟨tr', a, rfl, rfl, hruns, rfl⟩ := ih answer hrest
      exact ⟨⟨c, answer⟩ :: tr', a, rfl, rfl, ⟨answer, tr', rfl, hruns⟩, rfl⟩

theorem inEntry_of_found {owner : LocalTempResourceCore} {s : LocalTempDirectory} {path : Path}
    {during : Delete.DeleteHistory Path Metadata File}
    (h : Delete.Found owner.sourcePath during path) :
    InEntry owner (during.map (lift s)) path := by
  refine Relation.ReflTransGen.mono (fun parent child hlisted => ?_) _ _ h
  obtain ⟨ev, hmem, hev⟩ := hlisted
  exact ⟨lift s ev, List.mem_map_of_mem hmem, hev⟩

/-- What a deletion may touch by its own rules, the directory may touch after the identity check
    `ev` and the calls `during` of that deletion. -/
theorem kept_lift {before : TempHistory DirectoryFields} {ev : TempEvent DirectoryFields}
    {s : LocalTempDirectory} {tr : Delete.DeleteHistory Path Metadata File}
    (during : Delete.DeleteHistory Path Metadata File) (hmatched : Matched first ev)
    (hs : Ready first base IsOwned (before ++ ev :: during.map (lift s)) s)
    (htr : (Delete.reach first.sourcePath).Kept during tr) :
    (discipline (fun _ => True) first).Kept (before ++ ev :: during.map (lift s))
      (tr.map (lift s)) ∧
    Ready first base IsOwned (before ++ ev :: (during ++ tr).map (lift s)) s := by
  induction tr generalizing during with
  | nil => exact ⟨trivial, by rwa [List.append_nil]⟩
  | cons next tr ih =>
    obtain ⟨hallows, hrest⟩ := htr
    have hpast : before ++ ev :: during.map (lift s) ++ [lift s next] =
        before ++ ev :: (during ++ [next]).map (lift s) := by simp
    have hnext : Ready first base IsOwned (before ++ ev :: (during ++ [next]).map (lift s)) s := by
      rw [← hpast]
      exact ⟨hs.authority.snoc id, hs.unmoved.snoc id, hs.state⟩
    have htree : ∀ x ∈ during.map (lift s), x.call.2.InTree := by
      intro x hx
      obtain ⟨other, -, rfl⟩ := List.mem_map.mp hx
      trivial
    obtain ⟨hkept, hend⟩ := ih (during ++ [next]) hnext hrest
    rw [List.append_assoc, List.singleton_append] at hend
    rw [List.map_cons, Proc.Discipline.kept_cons, hpast]
    refine ⟨⟨⟨⟨hs.state, ⟨before, ev, _, rfl, hmatched, htree, fun path hpath => ?_⟩,
      hs.authority.untouched hs.state⟩, hs.authority.lost⟩, hkept⟩, hend⟩
    exact inEntry_of_found (hallows path hpath)

/-- A deletion of the entry, right after the identity check. -/
theorem upholds_relay (base : TempHistory DirectoryFields) (owner : LocalTempDirectory)
    {p : Prog (Delete.Locals Path × Delete.DeleteCall Path Metadata File) (fun c => c.2.Result) α}
    (hp : ∀ tr a, p.Runs tr a → (Delete.reach owner.core.sourcePath).Kept [] tr) :
    DirectoryUpholds first
      (fun past s => (Ready first base IsOwned past s ∧ JustMatched first past) ∧ s = owner)
      (relay p : DirectoryM ε α)
      (fun result past s => (Ready first base IsOwned past s ∧ s = owner) ∧
        ∃ tr, p.Runs tr result ∧ ∀ ev ∈ tr, lift s ev ∈ past) leave := by
  rintro past s tr r s' ⟨⟨hs, hmatched⟩, rfl⟩ hruns hfair
  obtain ⟨tr, a, rfl, rfl, hp', rfl⟩ := runs_relay hruns
  obtain ⟨before, ev, rfl, hev⟩ := hmatched
  have hreach := hp tr a hp'
  rw [LocalTempResourceCore.sourcePath_of_place hs.authority.place] at hreach
  obtain ⟨hkept, hready⟩ := kept_lift [] hev hs hreach
  refine ⟨hkept, ?_, by simp⟩
  rintro result ⟨⟩
  rw [List.append_assoc]
  refine ⟨⟨hready, rfl⟩, tr, hp', fun other hother => ?_⟩
  exact List.mem_append_right _ (List.mem_append_right _ (List.mem_map_of_mem hother))

/-! ## 3. Cleanup -/

/-- A removal that ends normally has removed the directory itself. -/
theorem upholds_removeDirectoryResource :
    DirectoryUpholds first (Ready first base AnyDirectory)
      (removeDirectoryResource encodedLen bound)
      (fun _ past s => Ready first base IsOwned past s ∧
        Gone first past)
      (fun _ => Ready first base AnyDirectory) := by
  refine .bind upholds_ensureIdentityMatches fun result =>
    .bind (upholds_orCleanup fun past s hs => ?_) fun u => .get fun s =>
    .bind ((upholds_relay base s ?_).before fun past s' hs => ?_) fun ends => ?_
  · cases result with
    | ok u => exact hs.1.forget
    | error error => exact hs
  · intro tr ends hruns
    exact Delete.removeDirectoryTree_reach hruns
  · obtain ⟨⟨rfl, hready, hmatched⟩, rfl⟩ := hs
    exact ⟨⟨hready.mono fun _ hs => hs.1, hmatched⟩, rfl⟩
  · obtain ⟨outcome, final⟩ := ends
    dsimp only
    split
    · refine .pure fun past s' hs => ⟨hs.1.1, ?_⟩
      obtain ⟨⟨hready, rfl⟩, tr, hruns, hmem⟩ := hs
      have hsource := LocalTempResourceCore.sourcePath_of_place hready.authority.place
      obtain ⟨ev, hev, hroot⟩ := Delete.removeDirectoryTree_root hruns
      refine ⟨_, hmem ev hev, .inr ?_⟩
      obtain ⟨⟨locals, c⟩, answer⟩ := ev
      cases c <;> first | exact absurd hroot id | exact hroot.imp_left (·.trans hsource)
    · exact .exit fun past s' hs => hs.1.1.forget
    · exact .exit fun past s' hs => hs.1.1.forget

theorem upholds_cleanupDirectory :
    DirectoryUpholds first (Ready first base AnyDirectory) (cleanupDirectory encodedLen bound)
      (fun _ => Ready first base AnyDirectory) (fun _ => Ready first base AnyDirectory) := by
  refine .get fun s => .bind (upholds_orCleanup fun _ _ hs => hs.1) fun _ => ?_
  dsimp only
  split
  · refine .bind (upholds_removeDirectoryResource.before fun _ _ hs => hs.2.1) fun _ =>
      .through (fun _ => Ready first base AnyDirectory) (.modify fun past s' hs => ?_)
        fun _ => upholds_cleanupDirectorySandbox
    obtain ⟨hready, hgone⟩ := hs
    refine ⟨hready.authority.settle ?_ (.inl rfl) rfl hgone, hready.unmoved, trivial⟩
    rw [show s'.core.state = .owned from hready.state]
    decide
  · exact upholds_cleanupDirectorySandbox.before fun _ _ hs => hs.2.1

theorem upholds_dropDirectory :
    DirectoryUpholds first (Ready first base AnyDirectory) (dropDirectory encodedLen bound)
      (fun _ => Ready first base AnyDirectory) (fun _ => Ready first base AnyDirectory) := by
  refine .bind upholds_cleanupDirectory.outcome fun result => ?_
  match result with
  | .ok () => exact .pure fun _ _ hs => hs
  | .error (some (.error _)) => exact .pure fun _ _ hs => hs
  | .error (some (.panic _)) => exact .exit fun _ _ hs => hs
  | .error none => exact .exit fun _ _ hs => hs

end Cleanup

/-! ## 4. Publication -/

section Publication

variable {ε α : Type} {first : LocalTempResourceCore} {base : TempHistory DirectoryFields}
  {Q : LocalTempDirectory → Prop}

theorem upholds_setCleanupLimits {limits : LocalTempCleanupLimits}
    {leave : ε → TempHistory DirectoryFields → LocalTempDirectory → Prop} :
    DirectoryUpholds first (Ready first base AnyDirectory)
      (setCleanupLimits limits : DirectoryM ε Unit)
      (fun _ => Ready first base AnyDirectory) leave :=
  .modify fun _ _ hs => ⟨hs.authority.congr rfl, hs.unmoved, trivial⟩

theorem upholds_rejectRequiredDurability {options : LocalPersistOptions}
    {requestedTarget resolvedTarget : Path} :
    DirectoryUpholds first (Ready first base Q)
      (rejectRequiredDurability options requestedTarget resolvedTarget)
      (fun _ => Ready first base Q) (Failed first base) := by
  unfold rejectRequiredDurability
  split
  · apply Proc.Upholds.get
    intro s
    apply Proc.Upholds.exit
    intro past s' hs
    have hstate : ((s.core.persistError contentDurabilityUnavailable requestedTarget
        (some resolvedTarget) .synchronizeSource .notPublished).withKind
        .requirementNotMet).state = .notPublished :=
      LocalTempResourceCore.persistError_state _
    refine ⟨hs.1.authority, fun _ => hs.1.unmoved, fun hpublished => ?_⟩
    rw [hstate] at hpublished
    cases hpublished
  · exact .pure fun _ _ hs => hs

theorem upholds_persistDirectoryWithPath {target : Path} {from_ : Option Path}
    {options : LocalPersistOptions} :
    DirectoryUpholds first (Ready first base AnyDirectory)
      (persistDirectoryWithPath target from_ options)
      (fun _ past s => Authority first past s ∧ Moved first base past ∧ s.core.state = .released)
      (Failed first base) := by
  refine .bind upholds_resolveTarget fun resolved => .bind upholds_validateBase fun _ =>
    .bind upholds_ensureIdentityMatches fun result =>
    .through (fun _ => Ready first base fun s => IsOwned s ∧ True) ?_ fun _ =>
    .bind upholds_rejectRequiredDurability fun _ => .bind upholds_prepareDestination fun place =>
    .get fun s => ?_
  · cases result with
    | ok u => exact .pure fun past s hs => hs.1.mono fun _ hs => hs.2
    | error error =>
      apply upholds_persistError
      · exact fun past s hs => hs.authority
      · exact fun past s hs _ => hs.unmoved
      · rintro past s hs ⟨⟩
  · exact (upholds_install (.pure fun _ _ hs => hs)).before fun _ _ hs => hs.1

theorem upholds_persistDirectoryAt {directory target : Path} {options : LocalPersistOptions} :
    DirectoryUpholds first (Ready first base AnyDirectory)
      (persistDirectoryAt directory target options)
      (fun _ past s => Authority first past s ∧ Moved first base past ∧ s.core.state = .released)
      (Failed first base) := by
  refine .bind upholds_persistDirectoryWithPath.outcome fun result => ?_
  cases result with
  | ok outcome => exact .pure fun _ _ hs => hs
  | error error => exact .exit fun past s hs => ⟨hs.authority, hs.truthful.1, hs.truthful.2⟩

theorem upholds_keepDirectory :
    DirectoryUpholds first (Ready first base AnyDirectory) keepDirectory
      (fun _ past s => Authority first past s ∧ Moved first base past ∧ s.core.state = .released)
      (Failed first base) := by
  apply Proc.Upholds.get
  intro s
  exact .bind (upholds_orPersistError_ready.before fun _ _ hs => hs.1) fun _ =>
    .bind upholds_orPersistError_ready fun target => upholds_persistDirectoryWithPath

end Publication

end LocalFiles.Temp
