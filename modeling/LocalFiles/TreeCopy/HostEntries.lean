import LocalFiles.TreeCopy.HostWorld

/-!
# HostEntries — what the copy of an entry leaves behind

Every part of the pipeline is followed through a file system that the copy has to itself: a file
goes by way of a staging file, a link is made again, and a directory is there when it is entered.
-/

namespace LocalFiles.TreeCopy.Host

open Interaction Walk Overlay

variable [QubitBudget] {H α β : Type} [DecidableEq H] {E : Setting} {w : World H}
  {options : LocalCopyDirOptions} {clash : Option FileNode} {src dst : Path}

/-! ## 1. Calls -/

/-- A normal end from this world has `post`. -/
abbrev Delivered (E : Setting) (w : World H) (t : HostM H α) (post : α → World H → Prop) : Prop :=
  Proc.Delivers (Answers E) (· = w) t post

abbrev Seen (E : Setting) (w : World H) (t : HostM H α) (learned : α → Prop) : Prop :=
  Proc.Looks (Answers E) w t learned

theorem delivered_call {c : HostCall H} {post : c.Result → World H → Prop}
    (h : ∀ answer w', Answers E w c answer w' → post answer w') : Delivered E w (call c) post := by
  refine .ask fun v hv answer w' hE => ?_
  subst hv
  exact h answer w' hE

theorem seen_call {c : HostCall H} {L : c.Result → Prop}
    (h : ∀ answer w', Answers E w c answer w' → w' = w ∧ L answer) : Seen E w (call c) L :=
  delivered_call h

/-- A call whose answer does not matter. -/
theorem seen_any {c : HostCall H} (h : ∀ answer w', Answers E w c answer w' → w' = w) :
    Seen E w (call c) fun _ => True :=
  seen_call fun answer w' hE => ⟨h answer w' hE, trivial⟩

theorem delivered_failAs {adjust : LocalCopyDirError → LocalCopyDirError}
    {stage : LocalCopyDirStage} {error : CopyError} {post : α → World H → Prop} :
    Delivered E w (failAs adjust stage src dst error : HostM H α) post :=
  .get fun _ => .exit

theorem seen_withCopyContext {result : Except CopyError α} {stage : LocalCopyDirStage} :
    Seen E w (withCopyContext result stage src dst : HostM H α) fun a => result = .ok a := by
  cases result with
  | ok a => exact .pure rfl
  | error error => exact delivered_failAs

theorem seen_inContext {result : IoResult α} {stage : LocalCopyDirStage} :
    Seen E w (inContext result stage src dst : HostM H α) fun a => result = .ok a := by
  cases result with
  | ok a => exact .pure rfl
  | error error => exact delivered_failAs

theorem seen_checkDeadline : Seen E w (checkDeadline now : HostM H _) fun _ => True := by
  refine .get fun s => ?_
  split
  · exact .pure trivial
  · refine .bind (seen_any fun _ _ hE => hE) fun time _ => ?_
    split
    · exact .pure trivial
    · exact .pure trivial

theorem seen_inTime {stage : LocalCopyDirStage} :
    Seen E w (inTime stage src dst : HostM H Unit) fun _ => True :=
  .bind seen_checkDeadline fun _ _ => seen_withCopyContext.mono fun _ _ => trivial

theorem seen_modify {g : TreeLocals ActiveSources → TreeLocals ActiveSources} :
    Seen E w (Proc.modify g) fun _ => True :=
  .modify fun _ hs => ⟨hs, trivial⟩

theorem seen_record {step : LocalCopyDirStats → Except CopyError LocalCopyDirStats} :
    Seen E w (record step src dst : HostM H Unit) fun _ => True :=
  .get fun _ => .bind seen_withCopyContext fun _ _ => seen_modify

/-! ## 2. Looks at the destination -/

theorem seen_symlinkMetadata (path : Path) :
    Seen E w (symlinkMetadata path) fun answer => Given answer
      (fun metadata => ∃ node ∈ w.nodeAt E path, node.Shows metadata)
      fun error => error.kind = .notFound → w.nodeAt E path = none :=
  delivered_call fun _ _ hE => hE

/-- The look tells whether a directory is there. -/
theorem seen_destinationMetadataIfExists (dst : Path) :
    Seen E w (destinationMetadataIfExists dst) fun answer => ∀ found, answer = .ok found →
      found.map CopyMetadata.isRealDirectory = (w.nodeAt E dst).map FileNode.inner := by
  refine .bind (seen_symlinkMetadata dst) fun answer hanswer => ?_
  cases answer with
  | ok metadata =>
    obtain ⟨node, hnode, hshows⟩ := hanswer
    refine .pure fun found heq => ?_
    cases heq
    rw [Option.mem_def.mp hnode, Option.map_some, Option.map_some, hshows.isRealDirectory]
  | error error =>
    refine .pure fun found heq => ?_
    by_cases hmissing : error.kind = .notFound
    · rw [if_pos hmissing] at heq
      cases heq
      rw [hanswer hmissing]
      rfl
    · rw [if_neg hmissing] at heq
      cases heq

theorem delivered_removeDestinationDirectoryIfUnchanged {node : FileNode}
    (hnode : w.nodeAt E dst = some node) (hinner : node.inner = true)
    (policy : LocalSymlinkPolicy) :
    Delivered E w (removeDestinationDirectoryIfUnchanged dst policy) fun r w' =>
      r = .ok () → w.Becomes (w.tree.node.graft dst fun _ => none) w' := by
  refine .look (seen_symlinkMetadata dst) fun answer hanswer => ?_
  cases answer with
  | error error =>
    refine .pure fun v hv heq => ?_
    by_cases hmissing : error.kind = .notFound
    · rw [hanswer hmissing] at hnode
      cases hnode
    · rw [if_neg hmissing] at heq
      cases heq
  | ok metadata =>
    obtain ⟨shown, hshown, hshows⟩ := hanswer
    have hreal : metadata.isRealDirectory = true := by
      rw [hnode] at hshown
      cases hshown
      rw [hshows.isRealDirectory, hinner]
    refine .ite (fun _ => .get fun s => ?_) fun hnot => absurd hreal hnot
    refine .through (fun answer w' => Deletes w dst w' answer) (delivered_call fun _ _ hE => hE)
      fun answer => ?_
    cases answer with
    | ok done => exact .pure fun w' hs _ => hs
    | error error => exact .pure fun w' _ heq => by cases heq

theorem delivered_removeNonDirectory (target : CopyTarget) (metadata : CopyMetadata) (dst : Path) :
    Delivered E w (removeNonDirectory target metadata dst) fun r w' =>
      r = .ok () → w.Becomes (w.tree.node.set dst none) w' := by
  refine .ite (fun _ => delivered_call fun answer w' hE heq => ?_) fun _ =>
    delivered_call fun answer w' hE heq => ?_
  · subst heq
    exact hE.2
  · subst heq
    exact hE.2

theorem delivered_removeDestinationNonDirectoryIfUnchanged {node : FileNode}
    (hnode : w.nodeAt E dst = some node) (hinner : node.inner = false) (target : CopyTarget) :
    Delivered E w (removeDestinationNonDirectoryIfUnchanged target dst) fun r w' =>
      ∀ removed, r = .ok removed → w.Becomes (w.tree.node.set dst none) w' := by
  refine .look seen_checkDeadline fun checked _ => ?_
  cases checked with
  | error error => exact .pure fun _ _ _ heq => by cases heq
  | ok done =>
    refine .look (seen_symlinkMetadata dst) fun answer hanswer => ?_
    cases answer with
    | error error =>
      refine .ite (fun hmissing => ?_) fun _ => .pure fun _ _ _ heq => by cases heq
      rw [hanswer hmissing] at hnode
      cases hnode
    | ok metadata =>
      obtain ⟨shown, hshown, hshows⟩ := hanswer
      refine .look seen_checkDeadline fun checked _ => ?_
      cases checked with
      | error error => exact .pure fun _ _ _ heq => by cases heq
      | ok done =>
        refine .ite (fun hreal => ?_) fun _ => ?_
        · rw [hnode] at hshown
          cases hshown
          rw [hshows.isRealDirectory, hinner] at hreal
          cases hreal
        · refine .bind (delivered_removeNonDirectory target metadata dst) fun answer => ?_
          cases answer with
          | ok done => exact .pure fun w' hs removed _ => hs rfl
          | error error => exact .pure fun w' _ removed heq => by cases heq

/-! ## 3. Directories at the destination -/

theorem delivered_prepareExistingDirectoryDestination (hdst : ¬ E.base <+: dst)
    (target : CopyTarget) :
    Delivered E w (prepareExistingDirectoryDestination target options dst) fun r w' =>
      ∀ action, r.1 = .ok action → decided options w dst = some action ∧
        (if action = .replace then w.Becomes (w.tree.node.set dst none) w' else w' = w) := by
  refine .look (seen_destinationMetadataIfExists dst) fun answer hanswer => ?_
  rw [nodeAt_outside hdst] at hanswer
  rcases answer with error | _ | metadata
  · exact .pure fun _ _ _ heq => by cases heq
  · refine .look seen_checkDeadline fun checked _ => ?_
    cases checked with
    | error error => exact .pure fun _ _ _ heq => by cases heq
    | ok done =>
      refine .pure fun w' hw action heq => ?_
      cases heq
      have hnone : (w.tree.node dst).map FileNode.inner = none := (hanswer none rfl).symm
      refine ⟨?_, hw⟩
      unfold decided
      rw [hnone]
      rfl
  · refine .look seen_checkDeadline fun checked _ => ?_
    cases checked with
    | error error => exact .pure fun _ _ _ heq => by cases heq
    | ok done =>
      have hreal : decideCopyDestination true (some metadata.isRealDirectory) options.conflict
          options.typeConflict = decided options w dst := by
        unfold decided
        rw [← hanswer (some metadata) rfl]
        rfl
      dsimp only
      rw [hreal]
      split
      · exact .pure fun _ _ _ heq => by cases heq
      next hreplace =>
        obtain ⟨there, hthere, hinner⟩ := decided_replace hreplace
        refine .bind (delivered_removeDestinationNonDirectoryIfUnchanged
          ((nodeAt_outside hdst).trans hthere) hinner target) fun removed => ?_
        cases removed with
        | error error => exact .pure fun _ _ _ heq => by cases heq
        | ok removed =>
          refine .pure fun w' hw action heq => ?_
          cases heq
          exact ⟨hreplace, hw removed rfl⟩
      next action hother hdecided =>
        refine .pure fun w' hw action' heq => ?_
        cases heq
        refine ⟨hdecided, ?_⟩
        rw [if_neg hother]
        exact hw

theorem delivered_createCopyDestinationDir (hdst : w.tree.node dst = none) :
    Delivered E w (createCopyDestinationDir dst) fun r w' => ∀ created, r = .ok created →
      created = true ∧
        w.Becomes (w.tree.node.set dst (some (.directory E.directoryPermissions))) w' := by
  refine .look seen_checkDeadline fun checked _ => ?_
  cases checked with
  | error error => exact .pure fun _ _ _ heq => by cases heq
  | ok done =>
    refine .look seen_checkDeadline fun checked _ => ?_
    cases checked with
    | error error => exact .pure fun _ _ _ heq => by cases heq
    | ok done =>
      refine .through (fun answer w' => Answers E w (.createPrivateDir dst) answer w')
        (delivered_call fun _ _ hE => hE) fun answer => ?_
      cases answer with
      | ok done =>
        refine .pure fun w' hE created heq => ?_
        cases heq
        exact ⟨rfl, hE.2⟩
      | error error =>
        refine .ite (fun hexists => .vacuous fun w' hE => hE.2 hexists hdst) fun _ =>
          .pure fun _ _ _ heq => by cases heq

/-- The directory is there afterwards, unless it is skipped. -/
theorem delivered_ensureCopyDestinationDir (hdst : ¬ E.base <+: dst) (target : CopyTarget) :
    Delivered E w (ensureCopyDestinationDir target options dst) fun r w' =>
      ∀ action created, r.1 = .ok (action, created) → decided options w dst = some action ∧
        if action = .skip then w' = w
        else w.Leaves (w.tree.node.set dst
          (some (.directory (E.enteredPermissions (w.tree.node dst))))) w' := by
  refine .look seen_checkDeadline fun checked _ => ?_
  cases checked with
  | error error => exact .pure fun _ _ _ _ heq => by cases heq
  | ok done =>
    refine .bind (delivered_prepareExistingDirectoryDestination hdst target) fun prepared => ?_
    obtain ⟨result, removed⟩ := prepared
    cases result with
    | error error => exact .pure fun _ _ _ _ heq => by cases heq
    | ok action =>
      refine .fix fun v hv => ?_
      obtain ⟨hdecided, hv⟩ := hv action rfl
      -- what is at the destination when the directory is made
      refine .ite (fun hmakes => ?_) fun hkeeps => ?_
      · have hv' : v.tree.node dst = none ∧ v.readers = w.readers ∧
            E.enteredPermissions (w.tree.node dst) = E.directoryPermissions ∧
            ∀ node, v.tree.node.set dst node = w.tree.node.set dst node := by
          obtain rfl | rfl := hmakes
          · have hnone := decided_create hdecided
            obtain rfl : v = w := hv
            exact ⟨hnone, rfl, by rw [hnone]; rfl, fun _ => rfl⟩
          · obtain ⟨there, hthere, hinner⟩ := decided_replace hdecided
            have hbecomes : w.Becomes (w.tree.node.set dst none) v := hv
            refine ⟨by rw [hbecomes.node, Tree.set_self], hbecomes.readers, ?_, fun node => ?_⟩
            · rw [hthere]
              cases there with
              | directory permissions => cases hinner
              | file content permissions => rfl
              | symlink target => rfl
              | other => rfl
            · rw [hbecomes.node, Tree.set_set]
        obtain ⟨hnone, hreaders, hpermissions, hset⟩ := hv'
        refine .bind (delivered_createCopyDestinationDir hnone) fun created => ?_
        cases created with
        | error error => exact .pure fun _ _ _ _ heq => by cases heq
        | ok created =>
          refine .pure fun w' hw' action' created' heq => ?_
          obtain ⟨rfl, hbecomes⟩ := hw' created rfl
          cases heq
          have hskip : action ≠ .skip := by
            rintro rfl
            cases hmakes <;> contradiction
          have haction : (if true = false ∧ action = .create then .merge else action) = action :=
            if_neg fun h => by cases h.1
          rw [haction]
          refine ⟨hdecided, ?_⟩
          rw [if_neg hskip, hpermissions, ← hset]
          exact ⟨hbecomes.node, hbecomes.readers.trans hreaders⟩
      · refine .pure fun w' hw' action' created heq => ?_
        cases heq
        rw [not_or] at hkeeps
        rw [if_neg hkeeps.2] at hv
        subst hv
        subst hw'
        refine ⟨hdecided, ?_⟩
        split
        · rfl
        next hskip =>
          have hmerge : action = .merge := by
            cases action with
            | create => exact absurd rfl hkeeps.1
            | merge => rfl
            | replace => exact absurd rfl hkeeps.2
            | skip => exact absurd rfl hskip
          subst hmerge
          obtain ⟨permissions, hthere⟩ := decided_merge hdecided
          rw [hthere]
          exact ⟨(Tree.set_same hthere).symm, rfl⟩

/-! ## 4. Regular files -/

theorem delivered_failWithStaging {adjust : LocalCopyDirError → LocalCopyDirError}
    {stage : LocalCopyDirStage} {error : CopyError} {staged : StagedCopy H}
    {pre : World H → Prop} {post : α → World H → Prop} :
    Proc.Delivers (Answers E) pre (failWithStaging adjust stage src dst error staged : HostM H α)
      post :=
  .through (fun _ _ => True) (.ask fun _ _ _ _ _ => trivial) fun _ => .get fun _ => .exit

theorem seen_withStaging {result : Except CopyError α}
    {adjust : LocalCopyDirError → LocalCopyDirError} {stage : LocalCopyDirStage}
    {staged : StagedCopy H} :
    Seen E w (withStaging result adjust stage src dst staged : HostM H α) fun a =>
      result = .ok a := by
  cases result with
  | ok a => exact .pure rfl
  | error error => exact delivered_failWithStaging

theorem seen_synchronizeStaged {staged : StagedCopy H} {copied : Nat} :
    Seen E w (synchronizeStaged options src dst staged copied) fun r => r.1 = staged := by
  have hsync : Seen E w (call (.syncStaged staged)) fun _ => True :=
    seen_any fun _ _ hE => hE
  unfold synchronizeStaged
  split
  · exact .pure rfl
  · refine .bind hsync fun answer _ => ?_
    cases answer with
    | ok done => exact .pure rfl
    | error error => exact .pure rfl
  · exact .bind hsync fun _ _ => .bind seen_withStaging fun _ _ => .pure rfl

theorem delivered_completeStaged {staged : StagedCopy H} {content : List UInt8}
    (hstaged : w.tree.node staged.path = some (.file content E.filePermissions))
    (permissions copied : Nat) :
    Delivered E w (completeStaged options src dst staged permissions copied) fun r w' =>
      w.Leaves (w.tree.node.set staged.path (some (.file content
        (if options.preservePermissions then permissions else E.filePermissions)))) w' ∧
      r.1 = staged := by
  refine .look seen_checkDeadline fun _ _ => .look seen_withStaging fun _ _ =>
    .ite (fun hpreserve => ?_) fun hkeeps => ?_
  · refine .through (fun answer w' => answer = .ok () → w.Becomes (w.tree.node.set staged.path
      (some (.file content permissions))) w') (delivered_call fun answer w' hE heq => ?_)
      fun answer => .fix fun v hv => .look seen_withStaging fun _ heq => ?_
    · subst heq
      obtain ⟨content', before, hthere, hbecomes⟩ := hE
      rw [hstaged] at hthere
      cases hthere
      exact hbecomes
    · have hbecomes := hv (io_ok heq)
      refine Proc.Delivers.weaken seen_synchronizeStaged (fun _ hs => hs) fun r w' hs => ?_
      obtain ⟨rfl, hr⟩ := hs
      rw [if_pos hpreserve]
      exact ⟨hbecomes.leaves, hr⟩
  · refine Proc.Delivers.weaken seen_synchronizeStaged (fun _ hs => hs) fun r w' hs => ?_
    obtain ⟨rfl, hr⟩ := hs
    rw [if_neg hkeeps]
    exact ⟨⟨(Tree.set_same hstaged).symm, rfl⟩, hr⟩

/-- What is opened where a file is copied. -/
def Setting.opens (E : Setting) (options : LocalCopyDirOptions) (src : Path) : Option FileNode :=
  if options.symlinkPolicy.follows then E.follow src else E.look src

/-- A new file under a reserved name beside the destination holds a copy. -/
def Holds (E : Setting) (options : LocalCopyDirOptions) (src dst : Path) (w : World H)
    (staged : StagedCopy H) (w' : World H) : Prop :=
  ∃ name content permissions, E.reserved name ∧ staged.path = parentDirFor dst ++ [name] ∧
    w.tree.node staged.path = none ∧ E.opens options src = some (.file content permissions) ∧
    w.Leaves (w.tree.node.set staged.path (some (.file content
      (if options.preservePermissions then permissions else E.filePermissions)))) w'

theorem seen_chargeStaged {staged : StagedCopy H} {copied : Nat} :
    Seen E w (chargeStaged src dst staged copied) fun _ => True :=
  .get fun _ => .bind seen_withStaging fun _ _ => seen_modify

theorem delivered_stageCopyFile (hsrc : E.base <+: src) :
    Delivered E w (stageCopyFile options src dst) fun r w' => Holds E options src dst w r.1 w' := by
  refine .through (fun answer w' => Answers E w (.createTempFile (parentDirFor dst)) answer w')
    (delivered_call fun _ _ hE => hE) fun answer => .fix fun v hv => .look seen_inContext
    fun staged heq => ?_
  subst heq
  obtain ⟨name, hreserved, hpath, hfresh, hstaged⟩ := hv
  refine .through (fun answer w' => Answers E v (.openSource src _ _) answer w')
    (delivered_call fun _ _ hE => hE) fun answer => .fix fun u hu => .look seen_withStaging
    fun opened heq => ?_
  obtain rfl := io_ok heq
  obtain ⟨source, permissions⟩ := opened
  obtain ⟨content, hcontent, rfl⟩ := hu
  refine .through (fun answer w' => Copies _ source staged w' answer)
    (delivered_call fun _ _ hE => hE) fun answer => .fix fun t ht => .look seen_withStaging
    fun copied heq => ?_
  subst heq
  obtain ⟨content', before, permissions', hopened, -, hthere, hcopied⟩ := ht
  -- the source that is read is the one that was opened
  obtain rfl : content = content' := Option.some_inj.mp ((if_pos rfl).symm.trans hopened)
  have hnew : before = [] ∧ permissions' = E.filePermissions := by
    have hthere : v.tree.node staged.path = _ := hthere
    rw [hstaged.node, Tree.set_self] at hthere
    cases hthere
    exact ⟨rfl, rfl⟩
  obtain ⟨rfl, rfl⟩ := hnew
  have hnode : t.tree.node =
      w.tree.node.set staged.path (some (.file content E.filePermissions)) := by
    rw [hcopied.node, hstaged.node, Tree.set_set]
  have hfull : t.tree.node staged.path = some (.file content E.filePermissions) := by
    rw [hnode, Tree.set_self]
  refine .look seen_chargeStaged fun _ _ =>
    Proc.Delivers.weaken (delivered_completeStaged hfull permissions copied) (fun _ hs => hs)
    fun r w' hs => ?_
  obtain ⟨hleaves, hr⟩ := hs
  rw [hnode, Tree.set_set] at hleaves
  rw [hr]
  exact ⟨name, content, permissions, hreserved, hpath, hfresh, hcontent hsrc, hleaves.node,
    hleaves.readers.trans (hcopied.readers.trans hstaged.readers)⟩

section Commit

variable {staged : StagedCopy H} {node : FileNode}

theorem delivered_installStaged (hplace : ¬ dst <+: staged.path)
    (hstaged : w.tree.node staged.path = some node)
    (hdst : options.conflict ≠ .overwrite → w.tree.node dst = none) :
    Delivered E w (installStaged options src dst staged) fun moved w' =>
      moved = true ∧ Installs w staged.path dst node w' := by
  have hcommit : Delivered E w (commitCall options dst staged) fun answer w' => Given answer
      (fun _ => Moves w staged dst w')
      fun error => ¬ (options.conflict = .skip ∧ error.kind = .alreadyExists) := by
    unfold commitCall
    split
    next hfail =>
      refine delivered_call fun answer w' hE => ?_
      cases answer with
      | ok done => exact hE.2
      | error error => exact fun h => by rw [hfail] at h; cases h.1
    next hskip =>
      refine delivered_call fun answer w' hE => ?_
      cases answer with
      | ok done => exact hE.2
      | error error => exact fun h => hE.2 h.2 (hdst (by rw [hskip]; decide))
    next hoverwrite =>
      refine delivered_call fun answer w' hE => ?_
      cases answer with
      | ok done => exact hE.2
      | error error => exact fun h => by rw [hoverwrite] at h; cases h.1
  refine .bind hcommit fun answer => ?_
  cases answer with
  | ok done => exact .pure fun w' hs => ⟨rfl, hs.installs hplace hstaged⟩
  | error error =>
    exact .ite (fun hraced => .vacuous fun w' hs => hs hraced) fun _ => delivered_failWithStaging

/-- Everything at the destination has gone where a directory is removed. -/
theorem delivered_commitStagedCopyFile {removes : Bool} (hplace : ¬ dst <+: staged.path)
    (hstaged : w.tree.node staged.path = some node)
    (hremoves : removes = true → ∃ there, w.nodeAt E dst = some there ∧ there.inner = true)
    (hstays : removes = false → options.conflict ≠ .overwrite → w.tree.node dst = none) :
    Delivered E w (commitStagedCopyFile options src dst removes staged) fun moved w' =>
      moved = true ∧ Installs w staged.path dst node w' := by
  have hready (v : World H) (hv : v.tree.node staged.path = some node)
      (hdst : options.conflict ≠ .overwrite → v.tree.node dst = none) : Delivered E v (do
        withStaging (← checkDeadline now) (lateCommit removes) .commitFile src dst staged
        installStaged options src dst staged) fun moved w' =>
          moved = true ∧ Installs v staged.path dst node w' :=
    .look seen_checkDeadline fun _ _ => .look seen_withStaging fun _ _ =>
      delivered_installStaged hplace hv hdst
  refine .look seen_checkDeadline fun _ _ => .look seen_withStaging fun _ _ =>
    .ite (fun htrue => ?_) fun hfalse => hready w hstaged (hstays (by simpa using hfalse))
  obtain ⟨there, hthere, hinner⟩ := hremoves htrue
  refine .bind (delivered_removeDestinationDirectoryIfUnchanged hthere hinner _) fun answer =>
    .fix fun v hv => ?_
  cases answer with
  | error error =>
    obtain ⟨error, state⟩ := error
    exact .stops delivered_failWithStaging
  | ok done =>
    have hbecomes := hv rfl
    have hgone : ∀ p, ¬ dst <+: p → v.tree.node p = w.tree.node p := fun p hp => by
      rw [hbecomes.node, Tree.graft_of_not hp]
    refine Proc.Delivers.weaken (hready v ((hgone _ hplace).trans hstaged) fun _ => by
      rw [hbecomes.node, Tree.graft_self]) (fun _ hs => hs) fun moved w' hs => ?_
    obtain ⟨hmoved, hinstalls⟩ := hs
    exact ⟨hmoved, hinstalls.there, hinstalls.staging, fun p hp hother =>
      (hinstalls.others p hp hother).trans (hgone p hp), hinstalls.readers.trans hbecomes.readers⟩

end Commit

section File

variable {parent : Path} {name : String} {metadata : Option CopyMetadata}

/-- What the decision on a file says of the destination that was looked at. -/
theorem seen_fileDestination (clash : Option FileNode) {there : Option FileNode} {node : FileNode}
    (hnode : node.inner = false)
    (hthere : metadata.map CopyMetadata.isRealDirectory = there.map FileNode.inner) :
    Seen E w (fileDestination options src dst metadata) fun decision =>
      (decision = none → (E.rule options clash).lay node there = some none) ∧
      ∀ removes, decision = some removes →
        (E.rule options clash).lay node there = (E.laid options there node).map some ∧
        (removes = true → ∃ old, there = some old ∧ old.inner = true) ∧
        (removes = false → options.conflict ≠ .overwrite → there = none) := by
  -- a decision of the policies says what the rule lays
  have hlay (action : CopyDestinationAction) (h : decideCopyDestination false
      (metadata.map CopyMetadata.isRealDirectory) options.conflict options.typeConflict =
        some action) := lay_of_action E _ clash (by rw [hnode, ← hthere]; exact h)
  cases metadata with
  | none =>
    refine .pure ⟨fun heq => (by cases heq), fun removes heq => ?_⟩
    cases heq
    exact ⟨hlay .create rfl, fun h => (by cases h),
      fun _ _ => Option.map_eq_none_iff.mp hthere.symm⟩
  | some metadata =>
    obtain ⟨old, hold, hinner⟩ := Option.map_eq_some_iff.mp hthere.symm
    refine .ite (fun hreal => ?_) fun hleaf => ?_
    · have hreplace : metadata.isRealDirectory = true := hreal
      have hlay (action : CopyDestinationAction) (h : decideCopyDestination false (some true)
          options.conflict options.typeConflict = some action) :=
        hlay action (by rw [Option.map_some, hreplace]; exact h)
      split
      next h =>
        refine .pure ⟨fun heq => (by cases heq), fun removes heq => ?_⟩
        cases heq
        exact ⟨hlay .replace h, fun _ => ⟨old, hold, hinner.trans hreal⟩, fun h => by cases h⟩
      next h => exact .pure ⟨fun _ => hlay .skip h, fun removes heq => by cases heq⟩
      · exact delivered_failAs
    · have hleaf : metadata.isRealDirectory = false := by simpa using hleaf
      have hlay (action : CopyDestinationAction) (h : decideCopyDestination false (some false)
          options.conflict options.typeConflict = some action) :=
        hlay action (by rw [Option.map_some, hleaf]; exact h)
      split
      · exact delivered_failAs
      next hskip =>
        exact .pure ⟨fun _ => hlay .skip (by rw [hskip]; rfl),
          fun removes heq => by cases heq⟩
      next hoverwrite =>
        refine .pure ⟨fun heq => (by cases heq), fun removes heq => ?_⟩
        cases heq
        exact ⟨hlay .replace (by rw [hoverwrite]; rfl), fun h => (by cases h),
          fun _ h => absurd hoverwrite h⟩

/-- A file is laid over its destination by way of a staging file beside it. -/
theorem delivered_copyFileWithOptions {node : FileNode} (hsrc : E.base <+: src)
    (hdst : ¬ E.base <+: parent ++ [name]) (hname : ¬ E.reserved name)
    (hlook : E.look src = some node) (hlink : node.kind ≠ .symlink) (hinner : node.inner = false) :
    Delivered E w (copyFileWithOptions options src (parent ++ [name])) fun _ w' => w.Leaves
      ((E.rule options clash).visit (E.seen options) src (parent ++ [name]) w.tree.node) w' := by
  have hseen : E.seen options src = some node := E.seen_direct hlook hlink
  have hopens : E.opens options src = some node := by
    unfold Setting.opens
    split
    · exact E.direct src node hlook hlink
    · exact hlook
  refine .look (seen_destinationMetadataIfExists _) fun found hfound => .look seen_inContext
    fun metadata heq => ?_
  have hthere := hfound metadata heq
  rw [nodeAt_outside hdst] at hthere
  refine .look (seen_fileDestination clash hinner hthere) fun decision hdecision => ?_
  cases decision with
  | none =>
    rw [Rule.visit_kept hseen (hdecision.1 rfl)]
    exact Proc.Looks.delivers seen_record fun _ _ => w.leaves_self
  | some removes =>
    obtain ⟨hlay, hremoves, hstays⟩ := hdecision.2 removes rfl
    refine .bind (delivered_stageCopyFile hsrc) fun r => .fix fun v hv => ?_
    obtain ⟨staged, copied, durable⟩ := r
    obtain ⟨other, content, permissions, hreserved, hpath, hfresh, hcontent, hleaves⟩ := hv
    dsimp only at hpath hfresh hleaves
    obtain rfl : node = .file content permissions := Option.some_inj.mp (hopens.symm.trans hcontent)
    have hpath : staged.path = parent ++ [other] :=
      hpath.trans (by rw [parentDirFor, List.dropLast_concat])
    -- both names are in one directory, and only one of them is reserved
    have hplace : ¬ parent ++ [name] <+: staged.path := by
      rw [hpath, List.prefix_append_right_inj, List.cons_prefix_cons]
      exact fun h => hname (h.1 ▸ hreserved)
    have hstaged := (congrFun hleaves.node staged.path).trans Tree.set_self
    have hsame : v.tree.node (parent ++ [name]) = w.tree.node (parent ++ [name]) :=
      (congrFun hleaves.node _).trans (Tree.set_of_ne fun h => hplace (h ▸ List.prefix_rfl))
    refine .bind (delivered_commitStagedCopyFile hplace hstaged
      (fun h => (nodeAt_outside hdst).trans hsame ▸ hremoves h)
      fun h h' => hsame.trans (hstays h h')) fun moved => .fix fun u hu => ?_
    obtain ⟨rfl, hinstalls⟩ := hu
    have hvisit : u.tree.node =
        (E.rule options clash).visit (E.seen options) src (parent ++ [name]) w.tree.node := by
      refine Rule.visit_leaf hseen hlay hinner hinstalls.there
        (u.tree.nothing_below hinstalls.there rfl) fun p hp => ?_
      by_cases hp' : p = staged.path
      · rw [hp', hinstalls.staging, hfresh]
      · rw [hinstalls.others p hp hp', hleaves.node, Tree.set_of_ne hp']
    exact Proc.Looks.delivers (.bind seen_record fun _ _ => .ite
      (fun _ => .bind seen_record fun _ _ => seen_modify) fun _ => seen_modify)
      fun _ _ => ⟨hvisit, hinstalls.readers.trans hleaves.readers⟩

end File

/-! ## 5. Links -/

/-- At most what is at the path and below it has changed. -/
structure Clears (w : World H) (path : Path) (w' : World H) : Prop where
  others : ∀ p, ¬ path <+: p → w'.tree.node p = w.tree.node p
  readers : w'.readers = w.readers

section Link

variable {target : CopyTarget} {linkTarget : Path} {metadata : Option CopyMetadata}

theorem delivered_createSymlinkEntry :
    Delivered E w (createSymlinkEntry target linkTarget src dst) fun answer w' =>
      answer = .ok () → w.Becomes (w.tree.node.set dst (some (.symlink linkTarget))) w' := by
  have hcreate (directory : Bool) : Delivered E w (call (.createSymlink linkTarget dst directory))
      fun answer w' =>
        answer = .ok () → w.Becomes (w.tree.node.set dst (some (.symlink linkTarget))) w' := by
    refine delivered_call fun answer w' hE heq => ?_
    subst heq
    exact hE.2
  cases target with
  | unix => exact hcreate false
  | windows =>
    refine .look (seen_symlinkMetadata src) fun answer _ => ?_
    cases answer with
    | ok metadata => exact hcreate metadata.symlinkDirectory
    | error error => exact .pure fun _ _ heq => by cases heq
  | other => exact .pure fun _ _ heq => by cases heq

theorem delivered_publishSymlink {replaces overwrites : Bool} :
    Delivered E w (publishSymlink target linkTarget src dst replaces overwrites) fun _ w' =>
      w.Becomes (w.tree.node.set dst (some (.symlink linkTarget))) w' := by
  refine .look seen_inTime fun _ _ => .bind delivered_createSymlinkEntry fun answer =>
    .fix fun v hv => .look seen_inContext fun done heq => ?_
  exact Proc.Looks.delivers (.bind seen_record fun _ _ => .ite
    (fun _ => .bind seen_record fun _ _ => seen_modify) fun _ => seen_modify) fun _ _ => hv heq

theorem delivered_removeLinkDestination
    (hthere : metadata.map CopyMetadata.isRealDirectory = (w.nodeAt E dst).map FileNode.inner) :
    Delivered E w (removeLinkDestination target options dst metadata) fun r w' =>
      r = .ok () → Clears w dst w' := by
  cases metadata with
  | none =>
    refine .through (fun answer w' => Answers E w (.removeFile dst) answer w')
      (delivered_call fun _ _ hE => hE) fun answer => .pure fun w' hE heq => ?_
    cases answer with
    | ok done => exact ⟨fun p hp => (congrFun hE.2.node p).trans (Tree.set_outside hp),
        hE.2.readers⟩
    | error error => cases heq
  | some metadata =>
    obtain ⟨old, hold, hinner⟩ := Option.map_eq_some_iff.mp hthere.symm
    refine .ite (fun hreal => ?_) fun _ => ?_
    · refine Proc.Delivers.weaken (delivered_removeDestinationDirectoryIfUnchanged hold
        (hinner.trans hreal) _) (fun _ hs => hs) fun r w' hs heq => ?_
      exact ⟨fun p hp => (congrFun (hs heq).node p).trans (Tree.graft_of_not hp), (hs heq).readers⟩
    · refine .bind (delivered_removeNonDirectory target metadata dst) fun answer =>
        .pure fun w' hs heq => ?_
      cases answer with
      | ok done => exact ⟨fun p hp => (congrFun (hs rfl).node p).trans (Tree.set_outside hp),
          (hs rfl).readers⟩
      | error error => cases heq

/-- A link that is not gone into is made again. -/
theorem delivered_copySymlinkWithOptions (hsrc : E.base <+: src) (hdst : ¬ E.base <+: dst)
    (hlook : E.look src = some (.symlink linkTarget))
    (hseen : E.seen options src = some (.symlink linkTarget)) :
    Delivered E w (copySymlinkWithOptions target options src dst) fun _ w' =>
      w.Leaves ((E.rule options clash).visit (E.seen options) src dst w.tree.node) w' := by
  refine .look seen_inTime fun _ _ => .look (seen_destinationMetadataIfExists _) fun found hfound =>
    .look seen_inContext fun metadata heq => ?_
  have hthere := hfound metadata heq
  have hthere' := hthere
  rw [nodeAt_outside hdst] at hthere'
  have hdecide : decideCopyDestination false (metadata.map CopyMetadata.isRealDirectory)
      options.conflict options.typeConflict = decideCopyDestination
        (FileNode.symlink linkTarget).inner ((w.tree.node dst).map FileNode.inner) options.conflict
        options.typeConflict := by
    rw [hthere']
    rfl
  split
  · exact delivered_failAs
  next hskip =>
    have hlay := (lay_of_action E _ clash (hdecide.symm.trans hskip)).trans (if_pos rfl)
    rw [Rule.visit_kept hseen hlay]
    exact Proc.Looks.delivers seen_record fun _ _ => w.leaves_self
  next action hother haction =>
    have hlay := (lay_of_action E _ clash (hdecide.symm.trans haction)).trans (if_neg hother)
    refine .through (fun answer w' => Answers E w (.readLink src) answer w')
      (delivered_call fun _ _ hE => hE) fun answer => .fix fun v hv => .look seen_inContext
      fun read heq => ?_
    subst heq
    obtain ⟨rfl, hread⟩ := hv
    have hread : E.look src = some (.symlink read) := hread hsrc
    obtain rfl : linkTarget = read := by
      rw [hlook] at hread
      cases hread
      rfl
    -- whatever was cleared, the link is all that is there afterwards
    have hpublish (u : World H) (hu : Clears v dst u) (replaces overwrites : Bool) :
        Delivered E u (publishSymlink target linkTarget src dst replaces overwrites) fun _ w' =>
          v.Leaves ((E.rule options clash).visit (E.seen options) src dst v.tree.node) w' := by
      refine Proc.Delivers.weaken delivered_publishSymlink (fun _ hs => hs) fun _ w' hs => ?_
      have hself : w'.tree.node dst = some (.symlink linkTarget) := by
        rw [hs.node, Tree.set_self]
      refine ⟨Rule.visit_leaf hseen hlay rfl hself (w'.tree.nothing_below hself rfl)
        fun p hp => ?_, hs.readers.trans hu.readers⟩
      rw [hs.node, Tree.set_outside hp, hu.others p hp]
    refine .look seen_inTime fun _ _ => .ite (fun _ => ?_)
      fun _ => hpublish v ⟨fun _ _ => rfl, rfl⟩ _ _
    refine .bind (delivered_removeLinkDestination hthere) fun answer => .fix fun u hu => ?_
    cases answer with
    | ok done => exact hpublish u (hu rfl) _ _
    | error error =>
      obtain ⟨error, state⟩ := error
      exact .stops delivered_failAs

end Link

/-! ## 6. Directories -/

section Enter

variable {target : CopyTarget} {destinationRoot : Path} {depth : Nat}

/-- A directory is entered under the permissions it is seen with. -/
theorem seen_metadataForCopySource (hsrc : E.base <+: src) :
    Seen E w (metadataForCopySource src options.symlinkPolicy) fun answer =>
      ∀ metadata, answer = .ok metadata → metadata.kind = .directory →
        E.seen options src = some (.directory metadata.permissions) := by
  refine .bind (seen_symlinkMetadata src) fun answer hanswer => ?_
  cases answer with
  | error error => exact .pure fun _ heq => by cases heq
  | ok metadata =>
    obtain ⟨node, hnode, hshows⟩ := hanswer
    rw [nodeAt_inside hsrc] at hnode
    refine .ite (fun hlink => .ite (fun hfollows => ?_) fun _ => .pure fun _ heq => by cases heq)
      fun hlink => .pure fun metadata' heq hdirectory => ?_
    · refine seen_call fun answer w' hE => ⟨hE.1, fun metadata' heq hdirectory => ?_⟩
      subst heq
      obtain ⟨behind, hbehind, hshows'⟩ := hE.2 hsrc
      obtain ⟨permissions, rfl⟩ := FileNode.eq_directory (hshows'.1.symm.trans hdirectory)
      obtain ⟨linkTarget, rfl⟩ : ∃ linkTarget, node = .symlink linkTarget := by
        have hkind := hshows.1.symm.trans hlink
        cases node with
        | symlink linkTarget => exact ⟨linkTarget, rfl⟩
        | directory permissions => cases hkind
        | file content permissions => cases hkind
        | other => cases hkind
      unfold Setting.seen
      rw [Option.mem_def.mp hnode, Option.mem_def.mp hbehind, hfollows, hshows'.2 permissions rfl]
    · cases heq
      obtain ⟨permissions, rfl⟩ := FileNode.eq_directory (hshows.1.symm.trans hdirectory)
      rw [hshows.2 permissions rfl]
      exact E.seen_direct hnode fun h => by cases h

theorem seen_inspectCopySourceDirectory (hsrc : E.base <+: src) :
    Seen E w (inspectCopySourceDirectory options destinationRoot src) fun answer =>
      ∀ r, answer = .ok r → E.seen options src = some (.directory r.1.permissions) := by
  refine .bind (seen_metadataForCopySource hsrc) fun answer hanswer => ?_
  cases answer with
  | error error => exact .pure fun _ heq => by cases heq
  | ok metadata =>
    refine .ite (fun _ => .pure fun _ heq => by cases heq) fun hdirectory => ?_
    refine .bind (seen_any fun _ _ hE => hE) fun canonical _ => ?_
    cases canonical with
    | error error => exact .pure fun _ heq => by cases heq
    | ok canonical =>
      refine .ite (fun _ => .pure fun _ heq => by cases heq) fun _ => .pure fun r heq => ?_
      cases heq
      exact hanswer metadata rfl (not_not.mp hdirectory)

/-- A new reader that will list the source. -/
structure Reads (E : Setting) (src : Path) (w : World H) (reader : H) (names : List String)
    (w' : World H) : Prop where
  fresh : w.readers reader = none
  nodup : names.Nodup
  lists : ∀ name, name ∈ names ↔ E.look (src ++ [name]) ≠ none
  node : w'.tree.node = w.tree.node
  readers : w'.readers = fun other => if other = reader then some names else w.readers other

theorem delivered_readCopyDirectory (hsrc : E.base <+: src) (metadata : CopyMetadata)
    (identity : DirectoryIdentity) :
    Delivered E w (readCopyDirectory src dst depth metadata identity) fun r w' => ∃ reader names,
      r = some ⟨src, dst, depth, identity, metadata.permissions, reader⟩ ∧
        Reads E src w reader names w' := by
  refine .get fun s => .look seen_withCopyContext fun _ _ => .look seen_modify fun _ _ => ?_
  refine .through (fun answer w' => Answers E w (.readDir src) answer w')
    (delivered_call fun _ _ hE => hE) fun answer => .fix fun v hv => .look seen_inContext
    fun reader heq => .look seen_modify fun _ _ => .pure fun w' hw => ?_
  subst heq
  subst hw
  obtain ⟨hfresh, names, hnodup, hlists, rfl⟩ := hv
  exact ⟨reader, names, rfl, hfresh, hnodup, hlists hsrc, rfl, rfl⟩

/-- What there is of a directory when it has been entered. -/
structure Enters (E : Setting) (options : LocalCopyDirOptions) (clash : Option FileNode)
    (src dst : Path) (w : World H) (frame : CopyDirFrame H) (names : List String) (w' : World H) :
    Prop where
  source : frame.src = src
  destination : frame.dst = dst
  seen : E.seen options src = some (.directory frame.sourcePermissions)
  lay : (E.rule options clash).lay (.directory frame.sourcePermissions) (w.tree.node dst) =
    some (E.laid options (w.tree.node dst) (.directory frame.sourcePermissions))
  fresh : w.readers frame.entries = none
  nodup : names.Nodup
  lists : ∀ name, name ∈ names ↔ E.look (src ++ [name]) ≠ none
  node : w'.tree.node =
    w.tree.node.set dst (some (.directory (E.enteredPermissions (w.tree.node dst))))
  readers : w'.readers = fun other => if other = frame.entries then some names else w.readers other

/-- An entry is done, or its directory has been entered. -/
structure Treats (E : Setting) (options : LocalCopyDirOptions) (clash : Option FileNode)
    (src dst : Path) (w : World H) (r : Option (CopyDirFrame H)) (w' : World H) : Prop where
  done : r = none → w.Leaves ((E.rule options clash).visit (E.seen options) src dst w.tree.node) w'
  entered : ∀ frame, r = some frame → ∃ names, Enters E options clash src dst w frame names w'

theorem delivered_enterCopyDirectory (hsrc : E.base <+: src) (hdst : ¬ E.base <+: dst) :
    Delivered E w (enterCopyDirectory target options destinationRoot src dst depth)
      (Treats E options clash src dst w) := by
  refine .look seen_inTime fun _ _ => .get fun s => .look seen_withCopyContext fun _ _ =>
    .look (seen_inspectCopySourceDirectory hsrc) fun answer hanswer => .look seen_inContext
    fun r heq => ?_
  subst heq
  have hseen := hanswer r rfl
  obtain ⟨metadata, identity⟩ := r
  refine .ite (fun _ => ?_) fun _ => ?_
  · exact .stops delivered_failAs
  refine .bind (delivered_ensureCopyDestinationDir hdst target) fun r => .fix fun v hv => ?_
  obtain ⟨prepared, removed⟩ := r
  cases prepared with
  | error error => exact delivered_failAs
  | ok r =>
    obtain ⟨action, created⟩ := r
    obtain ⟨hdecided, hv⟩ := hv action created rfl
    have hlay := lay_of_action E (.directory metadata.permissions) clash hdecided
    refine .ite (fun hskip => ?_) fun hskip => ?_
    · rw [if_pos hskip] at hv hlay
      subst hv
      refine .look seen_record fun _ _ => .pure fun w' hw => ⟨fun _ => ?_,
        fun _ heq => by cases heq⟩
      subst hw
      rw [Rule.visit_kept hseen hlay]
      exact w'.leaves_self
    · rw [if_neg hskip] at hv hlay
      -- the destination is there, and what is left is to open the source
      have hread : Delivered E v (readCopyDirectory src dst depth metadata identity)
          (Treats E options clash src dst w) := by
        refine Proc.Delivers.weaken (delivered_readCopyDirectory hsrc metadata identity)
          (fun _ hs => hs) fun r w' hs => ?_
        obtain ⟨reader, names, rfl, hreads⟩ := hs
        refine ⟨fun heq => (by cases heq), fun frame heq => ?_⟩
        cases heq
        refine ⟨names, rfl, rfl, hseen, hlay, ?_, hreads.nodup, hreads.lists,
          hreads.node.trans hv.node, ?_⟩
        · rw [← hv.readers]
          exact hreads.fresh
        · rw [hreads.readers, hv.readers]
      have hopen : Delivered E v (openCopyDirectory options src dst depth metadata identity action)
          (Treats E options clash src dst w) :=
        .ite (fun _ => .look seen_record fun _ _ => hread) fun _ => hread
      exact .ite (fun _ => .look seen_record fun _ _ => hopen) fun _ => hopen

theorem seen_checkScope {scopeRoot : Option Path} :
    Seen E w (checkScope src dst scopeRoot) fun _ => True := by
  cases scopeRoot with
  | none => exact .pure trivial
  | some scopeRoot =>
    refine .bind (seen_any fun _ _ hE => hE) fun answer _ => .bind seen_inContext
      fun canonical _ => ?_
    exact .ite (fun _ => .pure trivial) fun _ => delivered_failAs

/-- A link that is not gone into leads to no directory. -/
theorem seen_symlinkTargetIsDirectory (hsrc : E.base <+: src) {scopeRoot : Option Path} :
    Seen E w (symlinkTargetIsDirectory src dst scopeRoot) fun follows =>
      follows = false → ∀ permissions, E.follow src ≠ some (.directory permissions) := by
  refine .bind seen_checkScope fun _ _ => .bind (seen_call (c := .metadata src)
    fun _ _ hE => ⟨hE.1, hE.2 hsrc⟩) fun answer hanswer => ?_
  cases answer with
  | error error =>
    refine .ite (fun hmissing => .pure fun _ permissions hthere => ?_) fun _ => delivered_failAs
    rw [hanswer hmissing] at hthere
    cases hthere
  | ok metadata =>
    obtain ⟨node, hnode, hshows⟩ := hanswer
    dsimp only
    split
    · exact .pure fun heq => by cases heq
    next hfile =>
      refine .pure fun _ permissions hthere => ?_
      obtain rfl : node = .directory permissions :=
        Option.some_inj.mp ((Option.mem_def.mp hnode).symm.trans hthere)
      cases hfile.symm.trans hshows.1
    · exact delivered_failAs
    · exact delivered_failAs

/-- Each kind of entry is laid over its destination. -/
theorem delivered_processEntry (clash : Option FileNode) (entry : DirEntry)
    {scopeRoot : Option Path} {parent : Path}
    (hsrc : E.base <+: entry.path) (hdst : ¬ E.base <+: parent ++ [entry.fileName])
    (hname : ¬ E.reserved entry.fileName) :
    Delivered E w (processEntry target options destinationRoot scopeRoot entry
      ⟨entry.path, parent ++ [entry.fileName], depth⟩)
      (Treats E options clash entry.path (parent ++ [entry.fileName]) w) := by
  refine .look (seen_call (c := .fileType entry.path)
    fun _ _ hE => ⟨hE.1, hE.2 hsrc⟩) fun answer hanswer => .look seen_inContext fun kind heq => ?_
  subst heq
  obtain ⟨node, hnode, rfl⟩ := hanswer
  have hleaf {t : HostM H Unit} (h : Delivered E w t fun _ w' =>
      w.Leaves ((E.rule options clash).visit (E.seen options) entry.path
        (parent ++ [entry.fileName]) w.tree.node) w') : Delivered E w (do t; pure none)
      (Treats E options clash entry.path (parent ++ [entry.fileName]) w) :=
    .bind h fun _ => .pure fun _ hs => ⟨fun _ => hs, fun _ heq => by cases heq⟩
  cases node with
  | directory permissions => exact delivered_enterCopyDirectory hsrc hdst
  | file content permissions =>
    exact hleaf (delivered_copyFileWithOptions hsrc hdst hname hnode (fun h => by cases h) rfl)
  | other =>
    exact hleaf (delivered_copyFileWithOptions hsrc hdst hname hnode (fun h => by cases h) rfl)
  | symlink linkTarget =>
    have hrest (follows : Bool) (hfollows : follows = false →
        E.seen options entry.path = some (.symlink linkTarget)) : Delivered E w (do
          if follows then
            enterCopyDirectory target options destinationRoot entry.path
              (parent ++ [entry.fileName]) depth
          else do
            copySymlinkWithOptions target options entry.path (parent ++ [entry.fileName])
            pure none) (Treats E options clash entry.path (parent ++ [entry.fileName]) w) :=
      .ite (fun _ => delivered_enterCopyDirectory hsrc hdst) fun hstays =>
        hleaf (delivered_copySymlinkWithOptions hsrc hdst hnode (hfollows (by simpa using hstays)))
    refine .ite (fun _ => ?_) fun hpolicy => hrest false fun _ =>
      E.seen_link hnode fun h => absurd h hpolicy
    exact .look (seen_symlinkTargetIsDirectory hsrc) fun follows hfollows => hrest follows
      fun heq => E.seen_link hnode fun _ => hfollows heq

end Enter

end LocalFiles.TreeCopy.Host
