import LocalFiles.Private.Handover

/-!
# Private.Recovery — what the cleanup of an owner removes

Whatever the calls answer, a cleanup removes the entries at the front of its owner, each behind an
observation of handle and name, and keeps the others.  Where no call fails it takes back all that a
failed creation has left.
-/

namespace LocalFiles.Private

open Interaction Prog

variable {I : Type} [DecidableEq I]

/-! ## 1. Every run -/

/-- An entry was removed. -/
def Unlinked : EntryEvent I → Prop
  | ⟨.unlink _ _ _, .ok ()⟩ => True
  | _ => False

/-- The calls that remove an entry: handle and name both show the recorded identity and kind. -/
def Removed (entry : NativePrivateEntry I) (tr : List (EntryEvent I)) : Prop :=
  ∃ file identity first stat second named, entry.file = some file ∧
    entry.identity = some identity ∧ stat.identity = identity ∧
    decide (second.kind = .directory) = entry.directory ∧ named.identity = identity ∧
    named.kind = (if entry.directory then EntryKind.directory else .file) ∧
    tr = [⟨.metadata file, (.ok first : IoResult (FileMetadata I))⟩,
      ⟨.fileStat file, (.ok stat : IoResult (FileStat I))⟩,
      ⟨.metadata file, (.ok second : IoResult (FileMetadata I))⟩,
      ⟨.nameStat entry.parent entry.name, (.ok named : IoResult (FileStat I))⟩,
      ⟨.unlink entry.parent entry.name entry.directory, (.ok () : IoResult Unit)⟩]

/-- How a run over one entry ends. -/
def EntryCleaned (entry : NativePrivateEntry I) (tr : List (EntryEvent I)) :
    Except LocalFileError Unit → Prop
  | .ok () => Removed entry tr
  | .error _ => ∀ ev ∈ tr, ¬ Unlinked ev

section Records

variable {past : List (EntryEvent I)} {file : I} {entry : NativePrivateEntry I}

omit [DecidableEq I] in
theorem wp_records {c : EntryCall I} {post : c.Result → List (EntryEvent I) → Prop}
    (h : ∀ answer, post answer (past ++ [⟨c, answer⟩])) : (entryCall c).Wp Recording post past := by
  intro answer next hE
  have hnext : next = past ++ [⟨c, answer⟩] := hE
  rw [hnext]
  exact h answer

omit [DecidableEq I] in
theorem queryObservation_records {requirement : LocalObservationRequirement}
    {post : Except LocalFileError (LocalFileObservation I) → List (EntryEvent I) → Prop}
    (herror : ∀ error tr, (∀ ev ∈ tr, ¬ Unlinked ev) → post (.error error) (past ++ tr))
    (hok : ∀ (first : FileMetadata I) (stat : FileStat I),
      post (.ok ⟨first.kind, some stat.identity⟩) (past ++
        [⟨.metadata file, (.ok first : IoResult (FileMetadata I))⟩,
          ⟨.fileStat file, (.ok stat : IoResult (FileStat I))⟩])) :
    (queryObservation file requirement).Wp Recording post past := by
  unfold queryObservation
  refine wp_bind.mpr (wp_records fun answer => ?_)
  match answer with
  | .error error => exact herror _ _ (by simp [Unlinked])
  | .ok first =>
    refine wp_bind.mpr (wp_records fun answer => ?_)
    rw [List.append_assoc]
    match answer with
    | .error error => exact herror _ _ (by simp [Unlinked])
    | .ok stat =>
      dsimp only
      split
      · exact herror _ _ (by simp [Unlinked])
      · exact hok first stat

/-- The trace over one entry. -/
def Records (past : List (EntryEvent I)) (entry : NativePrivateEntry I)
    (r : Except LocalFileError Unit) (now : List (EntryEvent I)) : Prop :=
  ∃ tr, now = past ++ tr ∧ EntryCleaned entry tr r

theorem cleanupNativeEntry_records (entry : NativePrivateEntry I) (path : Path)
    (past : List (EntryEvent I)) :
    (cleanupNativeEntry entry path).Wp Recording (Records past entry) past := by
  have hquiet (error : LocalFileError) (tr : List (EntryEvent I))
      (h : ∀ ev ∈ tr, ¬ Unlinked ev) : Records past entry (.error error) (past ++ tr) :=
    ⟨tr, rfl, h⟩
  have hnothing (error : LocalFileError) : Records past entry (.error error) past :=
    ⟨[], (List.append_nil past).symm, fun _ hev => absurd hev List.not_mem_nil⟩
  unfold cleanupNativeEntry
  cases hfile : entry.file with
  | none => exact hnothing _
  | some file =>
    cases hidentity : entry.identity with
    | none => exact hnothing _
    | some expected =>
      refine wp_bind.mpr (queryObservation_records (fun error tr h => hquiet error tr h)
        fun first stat => ?_)
      dsimp only
      split
      · exact hquiet _ _ (by simp [Unlinked])
      · next hstat =>
        have hstat : stat.identity = expected := Option.some.inj (not_not.mp hstat)
        refine wp_bind.mpr (wp_records fun answer => ?_)
        rw [List.append_assoc]
        match answer with
        | .error error => exact hquiet _ _ (by simp [Unlinked])
        | .ok second =>
          dsimp only
          split
          · exact hquiet _ _ (by simp [Unlinked])
          · next hkind =>
            split
            · exact hquiet _ _ (by simp [Unlinked])
            · refine wp_bind.mpr (wp_records fun answer => ?_)
              rw [List.append_assoc]
              match answer with
              | .error error => exact hquiet _ _ (by simp [Unlinked])
              | .ok named =>
                dsimp only
                by_cases hnamed : named.identity ≠ expected ∨
                    named.kind ≠ (if entry.directory then EntryKind.directory else .file)
                · rw [if_pos hnamed]
                  exact hquiet _ _ (by simp [Unlinked])
                · rw [if_neg hnamed]
                  rw [not_or, not_not, not_not] at hnamed
                  refine wp_bind.mpr (wp_records fun answer => ?_)
                  rw [List.append_assoc]
                  match answer with
                  | .error error => exact hquiet _ _ (by simp [Unlinked])
                  | .ok () =>
                    exact ⟨_, rfl, file, expected, first, stat, second, named, hfile, hidentity,
                      hstat, not_not.mp hkind, hnamed.1, hnamed.2, rfl⟩

/-- The entries at the front were removed one after the other, and the others are kept. -/
structure FrontRemoved (entries left : List (NativePrivateEntry I)) (tr : List (EntryEvent I))
    (r : Except LocalFileError Unit) : Prop where
  complete : r = .ok () ↔ left = []
  segments : ∃ removed segments rest, entries = removed ++ left ∧
    List.Forall₂ Removed removed segments ∧ tr = segments.flatten ++ rest ∧
    ∀ ev ∈ rest, ¬ Unlinked ev

theorem cleanupEntries_records (entries : List (Path × NativePrivateEntry I))
    (past : List (EntryEvent I)) :
    (cleanupEntries entries).Wp Recording (fun r now => ∃ tr, now = past ++ tr ∧
      FrontRemoved (entries.map Prod.snd) (r.2.map Prod.snd) tr r.1) past := by
  induction entries generalizing past with
  | nil =>
    refine ⟨[], (List.append_nil past).symm, iff_of_true rfl rfl, [], [], [], rfl, .nil, rfl, ?_⟩
    exact fun _ hev => absurd hev List.not_mem_nil
  | cons first rest ih =>
    obtain ⟨path, entry⟩ := first
    unfold cleanupEntries
    refine wp_bind.mpr ((cleanupNativeEntry_records entry path past).mono fun r now hnow => ?_)
    obtain ⟨tr, rfl, hcleaned⟩ := hnow
    cases r with
    | error error =>
      exact ⟨tr, rfl, iff_of_false (fun heq => by cases heq) (List.cons_ne_nil _ _), [], [], tr, rfl, .nil, rfl,
        hcleaned⟩
    | ok _ =>
      refine (ih (past ++ tr)).mono fun r now hnow => ?_
      obtain ⟨more, rfl, hcomplete, removed, segments, rest', hentries, hremoved, rfl, hquiet⟩ :=
        hnow
      refine ⟨tr ++ (segments.flatten ++ rest'), List.append_assoc _ _ _, hcomplete,
        entry :: removed, tr :: segments, rest', ?_, .cons hcleaned hremoved, ?_, hquiet⟩
      · rw [List.map_cons, hentries, List.cons_append]
      · rw [List.flatten_cons, List.append_assoc]

end Records

theorem cleanup_runs {owner owner' : LocalTempRecovery I} {tr : List (EntryEvent I)}
    {r : Except LocalFileError Unit} (h : owner.cleanup.Runs tr (r, owner')) :
    FrontRemoved owner.entries owner'.entries tr r := by
  unfold LocalTempRecovery.cleanup at h
  unfold LocalTempRecovery.entries
  cases hresource : owner.resource with
  | none =>
    rw [hresource] at h
    obtain ⟨rfl, heq⟩ := h
    cases heq
    rw [hresource]
    exact ⟨iff_of_true rfl rfl, [], [], [], rfl, .nil, rfl,
      fun _ hev => absurd hev List.not_mem_nil⟩
  | some entries =>
    rw [hresource] at h
    obtain ⟨tr₁, tr₂, ⟨result, left⟩, rfl, hentries, hend⟩ := runs_bind.mp h
    obtain ⟨tr', heq, hfront⟩ := (cleanupEntries_records entries []).runs hentries
    obtain rfl : tr₁ = tr' := heq
    cases result with
    | error error =>
      obtain ⟨rfl, heq⟩ := hend
      cases heq
      rw [List.append_nil]
      exact hfront
    | ok _ =>
      obtain ⟨rfl, heq⟩ := hend
      cases heq
      rw [List.append_nil]
      have hleft := hfront.complete.mp rfl
      rw [hleft] at hfront
      exact hfront

/-! ## 2. Runs in which no call fails -/

def Succeeds : (c : EntryCall I) → c.Result → Prop
  | .fileStat _, .ok stat => stat.timesValid = true
  | .fileStat _, .error _ => False
  | .clone _, answer | .metadata _, answer | .nameStat _ _, answer | .createFile _ _ _, answer
  | .makeDirectory _ _ _, answer | .openDirectory _ _, answer | .changeMode _ _, answer
  | .hasAcl _ _, answer | .unlink _ _ _, answer | .prepareParent, answer | .openPath _, answer
  | .createFilePath _ _, answer | .makeDirectoryPath _ _, answer | .pathMetadata _, answer
  | .randomName, answer => Except.isOk answer = true

/-- The directories with calls that succeed. -/
def Calm (root : I) (w : EntryWorld I) (c : EntryCall I) (answer : c.Result) (w' : EntryWorld I) :
    Prop := Effect root w c answer w' ∧ Succeeds c answer

section Calm

variable {root : I} {base : Entries I} {w w' : EntryWorld I} {placed : List (Placed I)} {file : I}

theorem ensures_readMetadata {post : IoResult (FileMetadata I) → EntryWorld I → Prop}
    (h : ∀ metadata, metadata.identity = file → metadata.kind = w.kind file →
      post (.ok metadata) w) : (readMetadata file).Ensures (Calm root) post w := by
  refine ⟨⟨(.ok ⟨file, w.kind file, true, 0⟩ : IoResult (FileMetadata I)), w, ⟨rfl, rfl, rfl⟩, rfl⟩,
    fun answer next hE => ?_⟩
  match answer, hE with
  | .error _, ⟨_, hsucceeds⟩ => cases hsucceeds
  | .ok metadata, ⟨heffect, _⟩ =>
    obtain ⟨rfl, hid, hkind⟩ : next = w ∧ _ := heffect
    exact h metadata hid hkind

theorem ensures_queryObservation
    {post : Except LocalFileError (LocalFileObservation I) → EntryWorld I → Prop}
    (h : ∀ observed, observed.identity = some file → post (.ok observed) w) :
    (queryObservation file .required).Ensures (Calm root) post w := by
  unfold queryObservation
  refine .bind (ensures_readMetadata fun metadata _ _ => .bind ⟨?_, fun answer next hE => ?_⟩)
  · exact ⟨(.ok ⟨file, w.kind file, true⟩ : IoResult (FileStat I)), w, ⟨rfl, rfl, rfl⟩, rfl⟩
  · match answer, hE with
    | .error _, ⟨_, hsucceeds⟩ => exact hsucceeds.elim
    | .ok stat, ⟨heffect, hsucceeds⟩ =>
      obtain ⟨rfl, hid, -⟩ : next = w ∧ _ := heffect
      have htimes : stat.timesValid = true := hsucceeds
      show Prog.Ensures _ _ (if _ then _ else _) _
      rw [if_neg (by rw [htimes]; exact fun hinvalid => Bool.noConfusion hinvalid.2)]
      exact h _ (congrArg some hid)

/-- An entry whose identity was captured is removed. -/
theorem ensures_cleanupNativeEntry {entry : NativePrivateEntry I} {p : Placed I}
    (h : Owned root base w (p :: placed)) (hentry : Keeps entry p)
    (hidentity : entry.identity.isSome = true) (path : Path) :
    (cleanupNativeEntry entry path).Ensures (Calm root)
      (fun r w' => r = .ok () ∧ Owned root base w' placed) w := by
  obtain ⟨expected, hexpected⟩ := Option.isSome_iff_exists.mp hidentity
  have hfile := hentry.identity expected hexpected
  obtain rfl : expected = p.file := hentry.file expected hfile
  have hbound := h.stands.bound p List.mem_cons_self
  have hkind := h.kinds p List.mem_cons_self
  have hdirectory : decide (w.kind p.file = .directory) = entry.directory := by
    rw [hkind, hentry.directory]
    cases p.directory <;> rfl
  unfold cleanupNativeEntry
  rw [hfile, hexpected]
  refine .bind (ensures_queryObservation fun observed hobserved => ?_)
  show Prog.Ensures _ _ (if _ then _ else _) _
  rw [if_neg (not_not.mpr hobserved)]
  refine .bind (ensures_readMetadata fun metadata _ hmetadata => ?_)
  show Prog.Ensures _ _ (if _ then _ else _) _
  rw [hmetadata, if_neg (not_not.mpr hdirectory), hentry.name,
    if_neg (by rw [h.names p List.mem_cons_self]; exact Bool.false_ne_true), hentry.parent]
  refine .bind ⟨?_, fun answer next hE => ?_⟩
  · exact ⟨(.ok ⟨p.file, w.kind p.file, true⟩ : IoResult (FileStat I)), w, ⟨rfl, hbound, rfl⟩, rfl⟩
  match answer, hE with
  | .error _, ⟨_, hsucceeds⟩ => cases hsucceeds
  | .ok named, ⟨heffect, _⟩ =>
    obtain ⟨rfl, hnamed, hnamedKind⟩ : next = w ∧ _ := heffect
    rw [hbound] at hnamed
    have hid : named.identity = p.file := (Option.some.inj hnamed).symm
    show Prog.Ensures _ _ (if _ then _ else _) _
    rw [if_neg (by
      rw [not_or, not_not, not_not, hnamedKind, hid, hkind, hentry.directory]
      exact ⟨rfl, rfl⟩), hentry.directory]
    refine .bind ⟨?_, fun answer next' hE => ?_⟩
    · refine ⟨(.ok () : IoResult Unit), _, ⟨p.file, hbound, ?_, fun _ => h.stands.empty, rfl⟩, rfl⟩
      rw [hkind]
      cases p.directory <;> decide
    match answer, hE with
    | .error _, ⟨_, hsucceeds⟩ => cases hsucceeds
    | .ok (), ⟨heffect, _⟩ => exact ⟨rfl, h.removes heffect⟩

theorem ensures_cleanupEntries {entries : List (Path × NativePrivateEntry I)}
    (h : Owned root base w placed) (hholds : Holds (entries.map Prod.snd) placed)
    (hidentity : ∀ entry ∈ entries.map Prod.snd, entry.identity.isSome = true) :
    (cleanupEntries entries).Ensures (Calm root)
      (fun r w' => r = (.ok (), []) ∧ w'.entries = base) w := by
  induction entries generalizing w placed with
  | nil =>
    cases hholds
    refine ⟨rfl, ?_⟩
    have hstands := h.stands
    generalize w.entries = entries at hstands ⊢
    cases hstands
    rfl
  | cons first rest ih =>
    obtain ⟨path, entry⟩ := first
    rw [List.map_cons, List.forall_mem_cons] at hidentity
    cases hholds with
    | cons hentry hrest =>
      refine .bind ((ensures_cleanupNativeEntry h hentry hidentity.1 path).mono fun r w' hr => ?_)
      obtain ⟨rfl, howned⟩ := hr
      exact ih howned hrest hidentity.2

theorem ensures_cleanup {owner : LocalTempRecovery I} (h : Left root base owner.entries w)
    (hidentity : ∀ entry ∈ owner.entries, entry.identity.isSome = true) :
    owner.cleanup.Ensures (Calm root)
      (fun r w' => r.1 = .ok () ∧ r.2.entries = [] ∧ w'.entries = base) w := by
  obtain ⟨placed, howned, hholds⟩ := h
  unfold LocalTempRecovery.cleanup
  unfold LocalTempRecovery.entries at hholds hidentity
  cases hresource : owner.resource with
  | none =>
    rw [hresource] at hholds
    cases hholds
    refine ⟨rfl, ?_, ?_⟩
    · unfold LocalTempRecovery.entries
      rw [hresource]
      rfl
    · have hstands := howned.stands
      generalize w.entries = entries at hstands ⊢
      cases hstands
      rfl
  | some entries =>
    rw [hresource] at hholds hidentity
    refine .bind ((ensures_cleanupEntries howned hholds hidentity).mono fun r w' hr => ?_)
    obtain ⟨rfl, hentries⟩ := hr
    exact ⟨rfl, rfl, hentries⟩

end Calm

/-! ## 3. All that a creation leaves -/

section Accounts

variable {root : I} {w w' : EntryWorld I}

/-- Of the entries of `w'` those that `w` did not have are held, each with its parent and its name
    and with no other file; a child comes before its sandbox. -/
structure Held (w w' : EntryWorld I) (entries : List (NativePrivateEntry I)) : Prop where
  kept : ∀ {parent name file}, w.entries parent name = some file →
    w'.entries parent name = some file
  held : ∀ {parent name file}, w'.entries parent name = some file →
    w.entries parent name = some file ∨ ∃ entry ∈ entries, entry.parent = parent ∧ entry.name = name
  live : ∀ entry ∈ entries, w.entries entry.parent entry.name = none ∧
    ∃ file, w'.entries entry.parent entry.name = some file ∧ (∀ f ∈ entry.file, f = file) ∧
      ∀ identity ∈ entry.identity, identity = file
  ordered : entries.Pairwise fun inner outer =>
    w'.entries inner.parent inner.name ≠ some outer.parent

/-- What the cleanup of an owner does. -/
structure Recoverable (root : I) (w w' : EntryWorld I) (owner : LocalTempRecovery I) : Prop where
  front : ∀ {tr r owner'}, owner.cleanup.Runs tr (r, owner') →
    FrontRemoved owner.entries owner'.entries tr r
  left : ∀ {tr w'' r owner'}, owner.cleanup.RunsIn (Effect root) w' tr w'' (r, owner') →
    Held w w'' owner'.entries
  complete : (∀ entry ∈ owner.entries, entry.identity.isSome = true) →
    owner.cleanup.Ensures (Calm root)
      (fun r w'' => r.1 = .ok () ∧ r.2.entries = [] ∧ w''.entries = w.entries) w'

/-- One sandbox with one child was added, and the resource knows both. -/
structure Possesses (root : I) (directory : Bool) (w w' : EntryWorld I)
    (resource : HostTempResource I) (sandboxName name : String) (sandbox : I) : Prop where
  paths : resource.sandboxPath = [sandboxName] ∧ resource.path = [sandboxName, name]
  free : w.entries root sandboxName = none
  entry : w'.entries root sandboxName = some sandbox
  kinds : w'.kind sandbox = .directory ∧
    w'.kind resource.identity = if directory then .directory else .file
  only : ∀ other file, w'.entries sandbox other = some file ↔
    other = name ∧ file = resource.identity
  kept : ∀ {parent other file}, w.entries parent other = some file →
    w'.entries parent other = some file
  others : ∀ {parent other file}, w'.entries parent other = some file →
    w.entries parent other = some file ∨ (parent = root ∧ other = sandboxName) ∨ parent = sandbox

/-- Every entry that a creation has added belongs to its result. -/
def Accounted (root : I) (directory : Bool) (w w' : EntryWorld I) :
    TempResult I (HostTempResource I) → Prop
  | .ok resource => ∃ sandboxName name sandbox,
      Possesses root directory w w' resource sandboxName name sandbox
  | .error (.failed error) => Held w w' error.owned ∧
      ∀ owner ∈ error.recovery, Recoverable root w w' owner
  | .error (.panicked _) => False
  | .error .unfinished => True

omit [DecidableEq I] in
theorem Holds.exists_entry {entries : List (NativePrivateEntry I)} {placed : List (Placed I)}
    (h : Holds entries placed) {p : Placed I} (hp : p ∈ placed) :
    ∃ entry ∈ entries, Keeps entry p := by
  induction h with
  | nil => exact absurd hp List.not_mem_nil
  | cons hkeeps _ ih =>
    obtain hp | hp := List.mem_cons.mp hp
    · subst hp
      exact ⟨_, List.mem_cons_self, hkeeps⟩
    · obtain ⟨entry, hentry, hkept⟩ := ih hp
      exact ⟨entry, List.mem_cons_of_mem _ hentry, hkept⟩

omit [DecidableEq I] in
theorem Holds.exists_placed {entries : List (NativePrivateEntry I)} {placed : List (Placed I)}
    (h : Holds entries placed) {entry : NativePrivateEntry I} (hentry : entry ∈ entries) :
    ∃ p ∈ placed, Keeps entry p := by
  induction h with
  | nil => exact absurd hentry List.not_mem_nil
  | cons hkeeps _ ih =>
    obtain hentry | hentry := List.mem_cons.mp hentry
    · subst hentry
      exact ⟨_, List.mem_cons_self, hkeeps⟩
    · obtain ⟨p, hp, hkept⟩ := ih hentry
      exact ⟨p, List.mem_cons_of_mem _ hp, hkept⟩

omit [DecidableEq I] in
theorem Holds.pairwise {entries : List (NativePrivateEntry I)} {placed : List (Placed I)}
    {names : Entries I} (h : Holds entries placed)
    (hbound : ∀ p ∈ placed, names p.parent p.name = some p.file)
    (hordered : placed.Pairwise fun inner outer => outer.parent ≠ inner.file) :
    entries.Pairwise fun inner outer => names inner.parent inner.name ≠ some outer.parent := by
  induction h with
  | nil => exact .nil
  | @cons entry p entries placed hkeeps hrest ih =>
    rw [List.pairwise_cons] at hordered
    refine .cons (fun outer houter heq => ?_) (ih
      (fun p hp => hbound p (List.mem_cons_of_mem _ hp)) hordered.2)
    obtain ⟨q, hq, hkept⟩ := Holds.exists_placed hrest houter
    rw [hkeeps.parent, hkeeps.name, hbound p List.mem_cons_self, hkept.parent] at heq
    exact hordered.1 q hq (Option.some.inj heq).symm

theorem Left.held {entries : List (NativePrivateEntry I)} (h : Left root w.entries entries w') :
    Held w w' entries := by
  obtain ⟨placed, howned, hholds⟩ := h
  refine ⟨howned.stands.keeps, fun hentry => ?_, fun entry hentry => ?_,
    hholds.pairwise howned.stands.bound howned.stands.ordered⟩
  · refine (howned.stands.accounts hentry).imp_right fun hmem => ?_
    obtain ⟨p, hp, heq⟩ := List.mem_map.mp hmem
    obtain ⟨hparent, hname⟩ := Prod.mk.inj heq
    obtain ⟨entry, hentry, hkeeps⟩ := hholds.exists_entry hp
    exact ⟨entry, hentry, hkeeps.parent.trans hparent, hkeeps.name.trans hname⟩
  · obtain ⟨p, hp, hkeeps⟩ := hholds.exists_placed hentry
    rw [hkeeps.parent, hkeeps.name]
    refine ⟨howned.stands.created p hp, p.file, howned.stands.bound p hp, hkeeps.file, ?_⟩
    intro identity hidentity
    exact hkeeps.file identity (hkeeps.identity identity hidentity)

theorem Left.recoverable {owner : LocalTempRecovery I}
    (h : Left root w.entries owner.entries w') : Recoverable root w w' owner where
  front := cleanup_runs
  left hrun := ((wp_cleanup h).runsIn hrun).1.held
  complete hidentity := ensures_cleanup h hidentity

theorem ResourceMade.possesses {directory : Bool} {resource : HostTempResource I}
    (h : ResourceMade root w.entries directory resource w') :
    ∃ sandboxName name sandbox, Possesses root directory w w' resource sandboxName name sandbox := by
  obtain ⟨child, sandbox, hchild, hsandbox, howned, hpath, hsandboxPath, hidentity⟩ := h
  have hstands := howned.stands
  have hparent : child.parent = sandbox.file := hstands.parent_eq
  have hroot : sandbox.parent = root := hstands.remove.parent_eq
  have hbound := hstands.bound child List.mem_cons_self
  rw [hparent] at hbound
  have hmem : sandbox ∈ [child, sandbox] := List.mem_cons_of_mem _ List.mem_cons_self
  refine ⟨sandbox.name, child.name, sandbox.file, ⟨hsandboxPath, hpath⟩, ?_, ?_, ⟨?_, ?_⟩,
    fun other file => ⟨fun hentry => ?_, fun hentry => ?_⟩, hstands.keeps, fun hentry => ?_⟩
  · rw [← hroot]
    exact hstands.created sandbox hmem
  · rw [← hroot]
    exact hstands.bound sandbox hmem
  · rw [howned.kinds sandbox hmem, hsandbox, if_pos rfl]
  · rw [hidentity, howned.kinds child List.mem_cons_self, hchild]
  · have hname : other = child.name := by
      by_contra hne
      have hempty := hstands.remove.empty other
      rw [hparent, Entries.unbindIn_of_ne hne, hentry] at hempty
      cases hempty
    rw [hname, hbound] at hentry
    exact ⟨hname, (Option.some.inj hentry).symm.trans hidentity.symm⟩
  · rw [hentry.1, hentry.2, hidentity, hbound]
  · refine (hstands.accounts hentry).imp_right fun hmem => ?_
    rw [List.map_cons, List.map_cons, List.map_nil, List.mem_cons, List.mem_singleton] at hmem
    obtain heq | heq := hmem
    · exact .inr ((Prod.mk.inj heq).1.trans hparent)
    · exact .inl ⟨(Prod.mk.inj heq).1.trans hroot, (Prod.mk.inj heq).2⟩

theorem createTempWithPolicy_accounted (kind : TempKind) (privacy : LocalPrivacyRequirement)
    (maxAttempts : Option Nat) (bound : Nat) {tr : List (EntryEvent I)}
    {r : TempResult I (HostTempResource I)}
    (h : (createTempWithPolicy kind privacy maxAttempts bound).RunsIn (Effect root) w tr w' r) :
    Accounted root kind.isDirectory w w' r := by
  have hfails := (wp_createTempWithPolicy kind privacy maxAttempts bound w).runsIn h
  match r, hfails with
  | .ok resource, hmade => exact hmade.possesses
  | .error .unfinished, _ => trivial
  | .error (.panicked _), hpanicked => exact hpanicked
  | .error (.failed error), hleft =>
    have hleft : Left root w.entries error.owned w' := hleft
    refine ⟨hleft.held, fun owner howner => Left.recoverable ?_⟩
    unfold OwningError.owned at hleft
    rw [howner] at hleft
    exact hleft

end Accounts

/-! A directory in which a sandbox can be created and cannot be cloned. -/

def sampleEntries (made : Bool) : EntryWorld Nat where
  entries := if made then Entries.bindIn (fun _ _ => none) 0 "sandbox" 1 else fun _ _ => none
  kind := fun _ => .directory

def noFiles : IoError := ⟨.other, "too many open files", none⟩

def sampleCalls (made : Bool) : (c : EntryCall Nat) → c.Result × Bool
  | .clone file => (if file = 0 then .ok () else .error noFiles, made)
  | .metadata file => (.ok ⟨file, .directory, true, 0o700⟩, made)
  | .fileStat file => (.ok ⟨file, .directory, true⟩, made)
  | .nameStat parent name =>
    if made = true ∧ parent = 0 ∧ name = "sandbox" then (.ok ⟨1, .directory, true⟩, made)
    else (.error noFiles, made)
  | .makeDirectory parent name _ =>
    if made = false ∧ parent = 0 ∧ name = "sandbox" then (.ok (), true) else (.error noFiles, made)
  | .openDirectory parent name =>
    if made = true ∧ parent = 0 ∧ name = "sandbox" then (.ok 1, made) else (.error noFiles, made)
  | .openPath path => if path = [] then (.ok 0, made) else (.error noFiles, made)
  | .randomName => (.ok "sandbox", made)
  | .prepareParent => (.ok (), made)
  | .createFile _ _ _ | .createFilePath _ _ => (.error noFiles, made)
  | .changeMode _ _ | .unlink _ _ _ | .makeDirectoryPath _ _ => (.error noFiles, made)
  | .hasAcl _ _ | .pathMetadata _ => (.error noFiles, made)

theorem sampleCalls_effect (made : Bool) (c : EntryCall Nat) :
    Effect 0 (sampleEntries made) c (sampleCalls made c).1 (sampleEntries (sampleCalls made c).2) := by
  have hsandbox : (sampleEntries true).entries 0 "sandbox" = some 1 := by decide
  cases c with
  | nameStat parent name =>
    dsimp only [sampleCalls]
    split
    · next h =>
      obtain ⟨rfl, rfl, rfl⟩ := h
      exact ⟨rfl, hsandbox, rfl⟩
    · rfl
  | openDirectory parent name =>
    dsimp only [sampleCalls]
    split
    · next h =>
      obtain ⟨rfl, rfl, rfl⟩ := h
      exact ⟨rfl, hsandbox, rfl⟩
    · rfl
  | makeDirectory parent name mode =>
    dsimp only [sampleCalls]
    split
    · next h =>
      obtain ⟨rfl, rfl, rfl⟩ := h
      refine ⟨1, by decide, rfl, ⟨by decide, fun _ _ heq => (by cases heq), fun _ => rfl⟩, ?_⟩
      unfold sampleEntries
      rw [Function.update_eq_self]
      rfl
    · rfl
  | openPath path =>
    dsimp only [sampleCalls]
    split
    · next h =>
      subst h
      exact ⟨rfl, rfl⟩
    · rfl
  | metadata file => exact ⟨rfl, rfl, rfl⟩
  | fileStat file => exact ⟨rfl, rfl, rfl⟩
  | _ => rfl

def sampleCreation : List (EntryEvent Nat) × Bool × TempResult Nat (HostTempResource Nat) :=
  (createTempWithPolicy .file .required none 1).execIn sampleCalls false

theorem createTempWithPolicy_accounted_sample :
    sampleCreation.2.1 = true ∧ sampleCreation.2.2 ≠ .error .unfinished ∧
      Accounted 0 false (sampleEntries false) (sampleEntries sampleCreation.2.1)
        sampleCreation.2.2 := by
  refine ⟨by decide, by decide, ?_⟩
  exact createTempWithPolicy_accounted .file .required none 1
    ((Prog.execIn_runsIn sampleCalls (fun _ _ => rfl) _ _).map sampleEntries
      fun s c answer s' (h : sampleCalls s c = (answer, s')) => by
        have heffect := sampleCalls_effect s c
        rw [h] at heffect
        exact heffect)

end LocalFiles.Private
