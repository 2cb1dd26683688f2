import Mathlib.Data.List.Forall2
import LocalFiles.Private.Temp
import LocalFiles.Private.World

/-!
# Private.Handover — a failed creation loses no entry

What the creation of one entry, the cleanup of an owner and the four routes leave behind.  `Accounts`
says of an error that its recovery owner holds exactly the entries that were created and still stand.
-/

namespace LocalFiles.Private

open Interaction Prog

variable {I : Type} [DecidableEq I] {root : I} {base : Entries I} {w w' : EntryWorld I}
  {placed : List (Placed I)} {α : Type}

/-! ## 1. Single calls -/

section Calls

variable {file parent : I} {name : String}

theorem wp_tryClone {post : IoResult Unit → EntryWorld I → Prop} (h : ∀ r, post r w) :
    (tryClone file).Wp (Effect root) post w := by
  intro answer next hE
  obtain rfl : next = w := hE
  exact h answer

theorem wp_randomName {post : IoResult String → EntryWorld I → Prop} (h : ∀ r, post r w) :
    (entryCall .randomName).Wp (Effect root) post w := by
  intro answer next hE
  obtain rfl : next = w := hE
  exact h answer

omit [DecidableEq I] in
/-- A call that leaves the world alone tells a fact of it, unless it fails. -/
theorem observed {α : Type} {answers : IoResult α → EntryWorld I → Prop} {fact : α → Prop}
    {post : IoResult α → EntryWorld I → Prop}
    (herror : ∀ error next, answers (.error error) next → next = w)
    (hok : ∀ a next, answers (.ok a) next → next = w ∧ fact a)
    (h : ∀ r : IoResult α, (∀ a, r = .ok a → fact a) → post r w) :
    ∀ r next, answers r next → post r next := by
  intro r next hr
  cases r with
  | error error =>
    rw [herror error next hr]
    exact h _ nofun
  | ok a =>
    obtain ⟨rfl, hfact⟩ := hok a next hr
    refine h _ fun b heq => ?_
    cases heq
    exact hfact

theorem wp_readMetadata {post : IoResult (FileMetadata I) → EntryWorld I → Prop}
    (h : ∀ r : IoResult (FileMetadata I),
      (∀ metadata, r = .ok metadata → metadata.identity = file ∧ metadata.kind = w.kind file) →
        post r w) : (readMetadata file).Wp (Effect root) post w :=
  observed (fun _ _ hE => hE) (fun _ _ hE => hE) h

theorem wp_fstat {post : IoResult (FileStat I) → EntryWorld I → Prop}
    (h : ∀ r : IoResult (FileStat I), (∀ stat, r = .ok stat → stat.identity = file) → post r w) :
    (fstat file).Wp (Effect root) post w :=
  observed (fun _ _ hE => hE) (fun _ _ hE => ⟨hE.1, hE.2.1⟩) h

theorem wp_fstatat {post : IoResult (FileStat I) → EntryWorld I → Prop} (h : ∀ r, post r w) :
    (fstatat parent name).Wp (Effect root) post w :=
  observed (fun _ _ hE => hE) (fun _ _ hE => ⟨hE.1, hE.2⟩) fun r _ => h r

theorem wp_openDirectoryAt {post : IoResult I → EntryWorld I → Prop}
    (h : ∀ r : IoResult I, (∀ file, r = .ok file → w.entries parent name = some file) → post r w) :
    (openDirectoryAt parent name).Wp (Effect root) post w :=
  observed (fun _ _ hE => hE) (fun _ _ hE => ⟨hE.1, hE.2.1⟩) h

theorem wp_openPath {path : Path} {post : IoResult I → EntryWorld I → Prop}
    (h : ∀ r : IoResult I, (∀ file, r = .ok file → w.entries.locate root path = some file) →
      post r w) : (entryCall (.openPath path)).Wp (Effect root) post w :=
  observed (fun _ _ hE => hE) (fun _ _ hE => hE) h

theorem wp_pathMetadata {path : Path} {post : IoResult (FileMetadata I) → EntryWorld I → Prop}
    (h : ∀ r : IoResult (FileMetadata I),
      (∀ metadata, r = .ok metadata → w.entries.locate root path = some metadata.identity) →
        post r w) : (entryCall (.pathMetadata path)).Wp (Effect root) post w :=
  observed (fun _ _ hE => hE) (fun _ _ hE => hE) h

end Calls

/-! ## 2. Observations -/

section Observations

variable {file : I}

theorem wp_identityForFile {post : IoResult I → EntryWorld I → Prop}
    (h : ∀ r : IoResult I, (∀ identity ∈ r.toOption, identity = file) → post r w) :
    (identityForFile file).Wp (Effect root) post w := by
  unfold identityForFile
  refine wp_bind.mpr (wp_readMetadata fun r htrue => h _ fun identity hidentity => ?_)
  cases r with
  | error error => cases hidentity
  | ok metadata =>
    cases hidentity
    exact (htrue metadata rfl).1

theorem wp_identityForName {parent : I} {name : String} {post : IoResult I → EntryWorld I → Prop}
    (h : ∀ r, post r w) : (identityForName parent name).Wp (Effect root) post w := by
  unfold identityForName
  cases componentName name with
  | error error => exact h _
  | ok _ => exact wp_bind.mpr (wp_fstatat fun r => h _)

theorem wp_queryObservation {requirement : LocalObservationRequirement}
    {post : Except LocalFileError (LocalFileObservation I) → EntryWorld I → Prop}
    (h : ∀ r : Except LocalFileError (LocalFileObservation I),
      (∀ observation, r = .ok observation → observation.identity = some file) → post r w) :
    (queryObservation file requirement).Wp (Effect root) post w := by
  unfold queryObservation
  refine wp_bind.mpr (wp_readMetadata fun r _ => ?_)
  cases r with
  | error error => exact h _ nofun
  | ok metadata =>
    refine wp_bind.mpr (wp_fstat fun r htrue => ?_)
    cases r with
    | error error => exact h _ nofun
    | ok stat =>
      dsimp only
      split
      · exact h _ nofun
      · refine h _ fun observation heq => ?_
        cases heq
        exact congrArg some (htrue stat rfl)

theorem wp_observedIdentity {post : Option I → EntryWorld I → Prop}
    (h : ∀ r : Option I, (∀ identity ∈ r, identity = file) → post r w) :
    (observedIdentity file).Wp (Effect root) post w := by
  unfold observedIdentity
  refine wp_bind.mpr (wp_queryObservation fun r htrue => ?_)
  cases r with
  | error error => exact h none nofun
  | ok observation =>
    refine h _ fun identity hidentity => ?_
    rw [htrue observation rfl] at hidentity
    exact (Option.some.inj hidentity).symm

end Observations

/-! ## 3. The creation of an entry -/

/-- How the creation of an entry ends: it stands, or nothing was created, or it is retained. -/
def Made (root : I) (base : Entries I) (placed : List (Placed I)) (name : String)
    (directory : Bool) : Except (NativePrivateCreateError I) I → EntryWorld I → Prop
  | .ok file, w => Owned root base w (⟨place root placed, name, file, directory⟩ :: placed)
  | .error ⟨_, none⟩, w => Owned root base w placed
  | .error ⟨_, some entry⟩, w =>
    ∃ p, p.directory = directory ∧ Owned root base w (p :: placed) ∧ Keeps entry p

theorem Made.retained {name : String} {file : I} {directory : Bool} {source : IoError}
    {handle identity : Option I}
    (h : Owned root base w (⟨place root placed, name, file, directory⟩ :: placed))
    (hhandle : ∀ f ∈ handle, f = file) (hidentity : ∀ i ∈ identity, handle = some i) :
    Made root base placed name directory
      (.error (createError directory source (place root placed) name handle identity)) w :=
  ⟨_, rfl, h, rfl, rfl, rfl, hhandle, hidentity⟩

theorem wp_createPrivateFileAt (h : Owned root base w placed) (name : String) :
    (createPrivateFileAt (place root placed) name).Wp (Effect root)
      (Made root base placed name false) w := by
  unfold createPrivateFileAt
  cases componentName name with
  | error source => exact h
  | ok _ =>
    refine wp_bind.mpr (wp_tryClone fun r => ?_)
    cases r with
    | error source => exact h
    | ok _ =>
      refine wp_bind.mpr fun answer next hE => ?_
      match answer, hE with
      | .error source, hE =>
        obtain rfl : next = w := hE
        exact h
      | .ok file, hE =>
        have howned : Owned root base next (⟨place root placed, name, file, false⟩ :: placed) :=
          h.creates hE
        have hkept {source : IoError} {r : IoResult I} (htrue : ∀ i ∈ r.toOption, i = file) :
            Made root base placed name false (.error (createError false source
              (place root placed) name (some file) r.toOption)) next := by
          refine Made.retained howned (fun f hf => (Option.some.inj hf).symm) fun i hi => ?_
          rw [htrue i hi]
        refine wp_bind.mpr (wp_readMetadata fun r _ => ?_)
        cases r with
        | error source =>
          exact wp_bind.mpr (wp_identityForFile fun r htrue => hkept htrue)
        | ok metadata =>
          refine wp_bind.mpr (wp_identityForFile fun r htrue => ?_)
          dsimp only
          split
          · exact hkept htrue
          · split
            · exact hkept htrue
            · exact howned

theorem wp_createPrivateDirectoryAt (h : Owned root base w placed) (name : String) :
    (createPrivateDirectoryAt (place root placed) name).Wp (Effect root)
      (Made root base placed name true) w := by
  unfold createPrivateDirectoryAt
  cases componentName name with
  | error source => exact h
  | ok _ =>
    refine wp_bind.mpr (wp_tryClone fun r => ?_)
    cases r with
    | error source => exact h
    | ok _ =>
      refine wp_bind.mpr fun answer next hE => ?_
      match answer, hE with
      | .error source, hE =>
        obtain rfl : next = w := hE
        exact h
      | .ok (), hE =>
        obtain ⟨file, hcreates⟩ : ∃ file, w.Creates root (place root placed) name file _ next := hE
        have howned : Owned root base next (⟨place root placed, name, file, true⟩ :: placed) :=
          h.creates hcreates
        refine wp_bind.mpr (wp_openDirectoryAt fun r hopened => ?_)
        cases r with
        | error source => exact Made.retained howned nofun nofun
        | ok directory =>
          have hbound := howned.stands.bound _ List.mem_cons_self
          obtain rfl : directory = file :=
            Option.some.inj ((hopened directory rfl).symm.trans hbound)
          -- from here on a failure keeps the directory with what is known of its identity
          have hkept {source : IoError} {r : IoResult I} (htrue : ∀ i ∈ r.toOption, i = directory) :
              Made root base placed name true (.error (createError true source
                (place root placed) name (some directory) r.toOption)) next := by
            refine Made.retained howned (fun f hf => (Option.some.inj hf).symm) fun i hi => ?_
            rw [htrue i hi]
          refine wp_bind.mpr (wp_readMetadata fun r _ => ?_)
          cases r with
          | error source =>
            exact wp_bind.mpr (wp_identityForFile fun r htrue => hkept htrue)
          | ok metadata =>
            refine wp_bind.mpr (wp_identityForFile fun r htrue => ?_)
            refine wp_bind.mpr (wp_identityForName fun r' => ?_)
            cases r' with
            | error source => exact hkept htrue
            | ok nameIdentity =>
              dsimp only
              split
              · exact hkept htrue
              · split
                · exact hkept htrue
                · split
                  · exact hkept htrue
                  · exact howned

/-! ## 4. The cleanup of an owner -/

theorem wp_cleanupNativeEntry {entry : NativePrivateEntry I} {p : Placed I}
    (h : Owned root base w (p :: placed)) (hentry : Keeps entry p) (path : Path) :
    (cleanupNativeEntry entry path).Wp (Effect root)
      (fun r w' => match r with
        | .ok () => Owned root base w' placed
        | .error _ => Owned root base w' (p :: placed)) w := by
  unfold cleanupNativeEntry
  cases entry.file with
  | none => exact h
  | some file =>
    cases entry.identity with
    | none => exact h
    | some expected =>
      refine wp_bind.mpr (wp_queryObservation fun r _ => ?_)
      cases r with
      | error error => exact h
      | ok observed =>
        dsimp only
        split
        · exact h
        · refine wp_bind.mpr (wp_readMetadata fun r _ => ?_)
          cases r with
          | error error => exact h
          | ok metadata =>
            dsimp only
            split
            · exact h
            · split
              · exact h
              · refine wp_bind.mpr (wp_fstatat fun r => ?_)
                cases r with
                | error error => exact h
                | ok named =>
                  dsimp only
                  generalize (if entry.directory = true then EntryKind.directory else .file) = kind
                  split
                  · exact h
                  · refine wp_bind.mpr fun answer next hE => ?_
                    match answer, hE with
                    | .error error, hE =>
                      obtain rfl : next = w := hE
                      exact h
                    | .ok (), hE =>
                      have hremoves : w.Removes entry.parent entry.name entry.directory next := hE
                      rw [hentry.parent, hentry.name, hentry.directory] at hremoves
                      exact h.removes hremoves

/-- What is left of an owner holds what is left of the entries. -/
def Left (root : I) (base : Entries I) (entries : List (NativePrivateEntry I)) (w : EntryWorld I) :
    Prop := ∃ placed, Owned root base w placed ∧ Holds entries placed

theorem wp_cleanupEntries {entries : List (Path × NativePrivateEntry I)}
    (h : Left root base (entries.map Prod.snd) w) :
    (cleanupEntries entries).Wp (Effect root) (fun r w' => Left root base (r.2.map Prod.snd) w' ∧
      (r.1 = .ok () → r.2 = [])) w := by
  induction entries generalizing w with
  | nil => exact ⟨h, fun _ => rfl⟩
  | cons first rest ih =>
    obtain ⟨path, entry⟩ := first
    obtain ⟨_, howned, hholds⟩ := h
    cases hholds with
    | @cons _ p _ placed hentry hrest =>
      unfold cleanupEntries
      refine wp_bind.mpr ((wp_cleanupNativeEntry howned hentry path).mono fun r w' hr => ?_)
      cases r with
      | error error => exact ⟨⟨_, hr, .cons hentry hrest⟩, nofun⟩
      | ok _ => exact ih ⟨placed, hr, hrest⟩

theorem wp_cleanup {owner : LocalTempRecovery I} (h : Left root base owner.entries w) :
    owner.cleanup.Wp (Effect root) (fun r w' => Left root base r.2.entries w' ∧
      (r.1 = .ok () → r.2.entries = [])) w := by
  unfold LocalTempRecovery.cleanup
  unfold LocalTempRecovery.entries at h
  cases hresource : owner.resource with
  | none =>
    rw [hresource] at h
    refine ⟨?_, fun _ => ?_⟩
    · unfold LocalTempRecovery.entries
      rw [hresource]
      exact h
    · unfold LocalTempRecovery.entries
      rw [hresource]
      rfl
  | some entries =>
    rw [hresource] at h
    refine wp_bind.mpr ((wp_cleanupEntries h).mono fun r w' hr => ?_)
    obtain ⟨result, left⟩ := r
    cases result with
    | error error => exact ⟨hr.1, nofun⟩
    | ok _ =>
      have hleft := hr.1
      rw [hr.2 rfl] at hleft
      exact ⟨hleft, fun _ => rfl⟩

/-! ## 5. Creation by path -/

/-- The call creates the entry that the path names. -/
def CreatesAt (root : I) (base : Entries I) (placed : List (Placed I)) (directory : Bool)
    (is : α → I → Prop) (create : Path → EntryM I (IoResult α)) : Prop :=
  ∀ w name, Owned root base w placed → (create (pathOf placed ++ [name])).Wp (Effect root)
    (fun r w' => match r with
      | .error _ => w' = w
      | .ok a => ∃ file, is a file ∧
          Owned root base w' (⟨place root placed, name, file, directory⟩ :: placed)) w

theorem Stands.locate_parent (h : Owned root base w placed) {above : Path} {name name' : String}
    {parent : I} (hpath : pathOf placed ++ [name] = above ++ [name'])
    (hparent : w.entries.locate root above = some parent) :
    name' = name ∧ parent = place root placed := by
  obtain ⟨habove, hname⟩ := List.append_inj' hpath rfl
  rw [← habove, h.stands.locate] at hparent
  exact ⟨(List.singleton_inj.mp hname).symm, (Option.some.inj hparent).symm⟩

theorem createsAt_file : CreatesAt root base placed false (fun a file => a = file)
    (fun path => entryCall (.createFilePath path 0o600)) := by
  intro w name h answer next hE
  match answer, hE with
  | .error error, hE => exact hE
  | .ok file, hE =>
    obtain ⟨above, name', parent, hpath, hparent, hcreates⟩ : ∃ _ _ _, _ := hE
    obtain ⟨rfl, rfl⟩ := Stands.locate_parent h hpath hparent
    exact ⟨file, rfl, h.creates hcreates⟩

theorem createsAt_directory : CreatesAt root base placed true (fun _ _ => True)
    (fun path => entryCall (.makeDirectoryPath path 0o700)) := by
  intro w name h answer next hE
  match answer, hE with
  | .error error, hE => exact hE
  | .ok (), hE =>
    obtain ⟨above, name', parent, file, hpath, hparent, hcreates⟩ : ∃ _ _ _ _, _ := hE
    obtain ⟨rfl, rfl⟩ := Stands.locate_parent h hpath hparent
    exact ⟨file, trivial, h.creates hcreates⟩

theorem wp_createUnderRandomName {directory : Bool} {is : α → I → Prop}
    {create : Path → EntryM I (IoResult α)} (h : Owned root base w placed)
    (hcreate : CreatesAt root base placed directory is create) (action : String)
    (maxTries : Option Nat) (bound attempt : Nat) :
    (createUnderRandomName create action (pathOf placed) maxTries bound attempt).Wp (Effect root)
      (fun r w' => match r with
        | none => True
        | some (.error _) => Owned root base w' placed
        | some (.ok (path, a)) => ∃ name file, path = pathOf placed ++ [name] ∧ is a file ∧
            Owned root base w' (⟨place root placed, name, file, directory⟩ :: placed)) w := by
  induction bound generalizing attempt with
  | zero => trivial
  | succ bound ih =>
    unfold createUnderRandomName
    refine wp_bind.mpr (wp_randomName fun r => ?_)
    cases r with
    | error error => exact h
    | ok name =>
      refine wp_bind.mpr ((hcreate w name h).mono fun r w' hr => ?_)
      cases r with
      | ok a =>
        obtain ⟨file, his, howned⟩ := hr
        exact ⟨name, file, rfl, his, howned⟩
      | error error =>
        obtain rfl : w' = w := hr
        dsimp only
        split
        · exact ih (attempt + 1)
        · exact h

/-- How the creation of a directory by path ends; after a failure only what the error owns was
    added. -/
def EntryMade (root : I) (base : Entries I) (placed : List (Placed I)) :
    TempResult I (Path × I) → EntryWorld I → Prop
  | .ok (path, handle), w => ∃ name, path = pathOf placed ++ [name] ∧
      Owned root base w (⟨place root placed, name, handle, true⟩ :: placed)
  | .error .unfinished, _ => True
  | .error (.panicked _), _ => False
  | .error (.failed error), w => error.recovery = none ∧ Owned root base w placed ∨
      ∃ owner entries added, error.recovery = some owner ∧ owner.resource = some entries ∧
        Owned root base w (added :: placed) ∧ Holds (entries.map Prod.snd) [added]

theorem wp_createHostTempDirectoryEntry (h : Owned root base w placed) (maxAttempts : Option Nat)
    (operation : LocalFileOperation) (bound : Nat) :
    (createHostTempDirectoryEntry (pathOf placed) (place root placed) maxAttempts operation bound).Wp
      (Effect root) (EntryMade root base placed) w := by
  unfold createHostTempDirectoryEntry createTempDirInDirWithAffixes
  have hnothing (error : LocalFileError) :
      EntryMade root base placed (fail (.of error)) w := .inl ⟨rfl, h⟩
  split
  · exact hnothing _
  · refine wp_bind.mpr ((wp_createUnderRandomName h createsAt_directory _ _ _ _).mono
      fun r w' hr => ?_)
    match r, hr with
    | none, _ => trivial
    | some (.error error), hr => exact .inl ⟨rfl, hr⟩
    | some (.ok (path, ())), hr =>
      obtain ⟨name, file, rfl, -, howned⟩ := hr
      refine wp_bind.mpr (wp_openPath fun r hopened => ?_)
      cases r with
      | ok handle =>
        have hlocate := howned.stands.locate
        rw [pathOf_cons, hopened handle rfl] at hlocate
        obtain rfl : handle = file := Option.some.inj hlocate
        exact ⟨name, rfl, howned⟩
      | error error =>
        dsimp only
        rw [List.getLast?_concat]
        exact .inr ⟨_, _, _, rfl, rfl, howned, .cons ⟨rfl, rfl, rfl, nofun, nofun⟩ .nil⟩

/-! ## 6. The routes without required privacy -/

/-- The entries that the recovery owner of an error holds. -/
def OwningError.owned (error : OwningError I) : List (NativePrivateEntry I) :=
  (error.recovery.map LocalTempRecovery.entries).getD []

/-- A failed cleanup leaves the owner at the error, a successful one leaves nothing. -/
theorem wp_cleanup_then {owner : LocalTempRecovery I} {post : OwningError I → EntryWorld I → Prop}
    {done : OwningError I} {failed : LocalFileError → LocalTempRecovery I → OwningError I}
    (h : Left root base owner.entries w)
    (hdone : ∀ w', Left root base [] w' → post done w')
    (hfailed : ∀ error owner' w', Left root base owner'.entries w' → post (failed error owner') w') :
    (do match ← owner.cleanup with
        | (.ok (), _) => pure done
        | (.error error, owner) => pure (failed error owner) : EntryM I (OwningError I)).Wp
      (Effect root) post w := by
  refine wp_bind.mpr ((wp_cleanup h).mono fun r w' hr => ?_)
  obtain ⟨result, owner'⟩ := r
  cases result with
  | error error => exact hfailed error owner' w' hr.1
  | ok _ =>
    have hleft := hr.1
    rw [hr.2 rfl] at hleft
    exact hdone w' hleft

theorem wp_cleanupFailedTempCreationOwner {primary : OwningError I}
    (h : EntryMade root base [] (.error (.failed primary)) w) :
    (cleanupFailedTempCreationOwner primary).Wp (Effect root)
      (fun error w' => Left root base error.owned w') w := by
  unfold cleanupFailedTempCreationOwner OwningError.intoTempRecoveryParts
  obtain ⟨hnone, howned⟩ | ⟨owner, entries, added, hsome, hresource, howned, hholds⟩ := h
  · dsimp only
    rw [hnone]
    exact ⟨[], howned, .nil⟩
  · dsimp only
    rw [hsome]
    refine wp_cleanup_then ⟨[added], howned, ?_⟩ (fun w' hleft => hleft)
      fun error owner' w' hleft => hleft
    unfold LocalTempRecovery.entries
    rw [hresource]
    exact hholds

theorem wp_cleanupFailedTempOwner {primary : OwningError I} {owner : LocalTempRecovery I}
    {entries : List (Path × NativePrivateEntry I)} (hresource : owner.resource = some entries)
    (hholds : Holds (entries.map Prod.snd) placed)
    (h : EntryMade root base placed (.error (.failed primary)) w) :
    (cleanupFailedTempOwner primary owner).Wp (Effect root)
      (fun error w' => Left root base error.owned w') w := by
  unfold cleanupFailedTempOwner OwningError.intoTempRecoveryParts
  obtain ⟨hnone, howned⟩ | ⟨prior, priorEntries, added, hsome, hprior, howned, hadded⟩ := h
  · dsimp only
    rw [hnone]
    refine wp_cleanup_then ⟨placed, howned, ?_⟩ (fun w' hleft => hleft)
      fun error owner' w' hleft => hleft
    unfold LocalTempRecovery.entries
    rw [hresource]
    exact hholds
  · have hmerged : prior.appendNativeOwner owner =
        .ok { prior with resource := some (priorEntries ++ entries) } := by
      unfold LocalTempRecovery.appendNativeOwner
      rw [hresource, hprior]
    dsimp only
    rw [hsome]
    dsimp only
    rw [hmerged]
    refine wp_cleanup_then ⟨added :: placed, howned, ?_⟩ (fun w' hleft => hleft)
      fun error owner' w' hleft => hleft
    show Holds ((priorEntries ++ entries).map Prod.snd) (added :: placed)
    rw [List.map_append]
    exact List.rel_append hadded hholds

/-- How a creation fails, and `Ok` where it does not. -/
def Fails (root : I) (base : Entries I) (ok : α → EntryWorld I → Prop) :
    TempResult I α → EntryWorld I → Prop
  | .ok a, w => ok a w
  | .error .unfinished, _ => True
  | .error (.panicked _), _ => False
  | .error (.failed error), w => Left root base error.owned w

theorem Fails.exit {β : Type} {ok : α → EntryWorld I → Prop} {ok' : β → EntryWorld I → Prop}
    {exit : TempExit I} (h : Fails root base ok (.error exit) w) :
    Fails root base ok' (.error exit) w := by
  cases exit with
  | unfinished => trivial
  | panicked => exact h
  | failed error => exact h

/-- The entry of a sandbox with its handle. -/
def SandboxMade (root : I) (base : Entries I) (created : Path × NativePrivateEntry I)
    (w : EntryWorld I) : Prop :=
  ∃ sandbox : Placed I, sandbox.directory = true ∧ Owned root base w [sandbox] ∧
    created.1 = pathOf [sandbox] ∧ Keeps created.2 sandbox ∧ created.2.file = some sandbox.file

theorem wp_createHostTempSandbox (h : Owned root base w []) (operation : LocalFileOperation)
    (maxAttempts : Option Nat) (bound : Nat) :
    (createHostTempSandbox operation maxAttempts bound).Wp (Effect root)
      (Fails root base (SandboxMade root base)) w := by
  unfold createHostTempSandbox
  refine wp_bind.mpr (wp_openPath fun r hopened => ?_)
  cases r with
  | error error => exact ⟨[], h, .nil⟩
  | ok parentHandle =>
    obtain rfl : root = parentHandle := Option.some.inj (hopened parentHandle rfl)
    refine wp_bind.mpr ((wp_createHostTempDirectoryEntry h maxAttempts operation bound).mono
      fun r w' hr => ?_)
    match r, hr with
    | .error .unfinished, _ => trivial
    | .error (.panicked _), hr => exact hr
    | .error (.failed error), hr =>
      exact wp_bind.mpr ((wp_cleanupFailedTempCreationOwner hr).mono fun error w' hleft => hleft)
    | .ok (path, handle), hr =>
      obtain ⟨name, rfl, howned⟩ := hr
      refine wp_bind.mpr (wp_observedIdentity fun identity htrue => ?_)
      rw [List.getLast?_concat]
      refine ⟨⟨root, name, handle, true⟩, rfl, howned, rfl, ⟨rfl, rfl, rfl, ?_, ?_⟩, rfl⟩
      · intro file hfile
        exact (Option.some.inj hfile).symm
      · intro i hi
        rw [htrue i hi]

/-- The resource owns the child in its sandbox, and there is nothing else. -/
def ResourceMade (root : I) (base : Entries I) (directory : Bool) (resource : HostTempResource I)
    (w : EntryWorld I) : Prop :=
  ∃ child sandbox : Placed I, child.directory = directory ∧ sandbox.directory = true ∧
    Owned root base w [child, sandbox] ∧ resource.path = pathOf [child, sandbox] ∧
      resource.sandboxPath = pathOf [sandbox] ∧ resource.identity = child.file

section Child

variable {child sandbox : Placed I} {sandboxEntry : NativePrivateEntry I}

theorem wp_hostTempRecoveryEntries (h : Owned root base w [child, sandbox])
    (hentry : Keeps sandboxEntry sandbox) (hfile : sandboxEntry.file = some sandbox.file)
    (sandboxPath : Path)
    {post : Except (OwningError I) (List (Path × NativePrivateEntry I)) → EntryWorld I → Prop}
    (hpost : ∀ entries, Holds (entries.map Prod.snd) [child, sandbox] → post (.ok entries) w) :
    (hostTempRecoveryEntries sandboxPath sandboxEntry (pathOf [child, sandbox]) child.file
      child.directory).Wp (Effect root) post w := by
  unfold hostTempRecoveryEntries
  rw [hfile]
  refine wp_bind.mpr (wp_observedIdentity fun identity htrue => ?_)
  rw [pathOf_cons, List.getLast?_concat]
  refine hpost _ (.cons ⟨?_, rfl, rfl, ?_, ?_⟩ (.cons hentry .nil))
  · exact h.stands.parent_eq.symm
  · intro file hf
    exact (Option.some.inj hf).symm
  · intro i hi
    rw [htrue i hi]

/-- A way to make the resource of the child that changes nothing. -/
def Adopts (root : I) (w : EntryWorld I) (child sandbox : Placed I)
    (adopt : EntryM I (IoResult (HostTempResource I))) : Prop :=
  adopt.Wp (Effect root) (fun r w' => w' = w ∧ ∀ resource, r = .ok resource →
    resource.path = pathOf [child, sandbox] ∧ resource.sandboxPath = pathOf [sandbox] ∧
      resource.identity = child.file) w

theorem adopts_hostTempFile :
    Adopts root w child sandbox
      (hostTempFile (pathOf [child, sandbox]) (pathOf [sandbox]) child.file) := by
  unfold Adopts hostTempFile
  refine wp_bind.mpr (wp_readMetadata fun r htrue => ?_)
  cases r with
  | error error => exact ⟨rfl, nofun⟩
  | ok metadata =>
    refine wp_bind.mpr (wp_observedIdentity fun identity _ => ⟨rfl, fun resource hok => ?_⟩)
    cases hok
    exact ⟨rfl, rfl, (htrue metadata rfl).1⟩

theorem adopts_hostTempDirectory (h : Owned root base w [child, sandbox]) :
    Adopts root w child sandbox (hostTempDirectory (pathOf [child, sandbox]) (pathOf [sandbox])) := by
  unfold Adopts hostTempDirectory
  refine wp_bind.mpr (wp_pathMetadata fun r hfound => ?_)
  cases r with
  | error error => exact ⟨rfl, nofun⟩
  | ok metadata =>
    refine ⟨rfl, fun resource hok => ?_⟩
    cases hok
    exact ⟨rfl, rfl, Option.some.inj ((hfound metadata rfl).symm.trans h.stands.locate)⟩

theorem wp_adoptHostChild (h : Owned root base w [child, sandbox])
    (hsandbox : sandbox.directory = true) (hentry : Keeps sandboxEntry sandbox)
    (hfile : sandboxEntry.file = some sandbox.file) (operation : LocalFileOperation)
    {adopt : EntryM I (IoResult (HostTempResource I))} (hadopt : Adopts root w child sandbox adopt) :
    (adoptHostChild operation (pathOf [sandbox]) sandboxEntry (pathOf [child, sandbox]) child.file
      child.directory adopt).Wp (Effect root)
        (Fails root base (ResourceMade root base child.directory)) w := by
  unfold adoptHostChild
  refine wp_bind.mpr (wp_hostTempRecoveryEntries h hentry hfile _ fun entries hholds => ?_)
  refine wp_bind.mpr (hadopt.mono fun r w' hr => ?_)
  obtain ⟨rfl, hmade⟩ := hr
  cases r with
  | ok resource => exact ⟨child, sandbox, rfl, hsandbox, h, hmade resource rfl⟩
  | error error =>
    exact wp_bind.mpr ((wp_cleanupFailedTempOwner rfl hholds (.inl ⟨rfl, h⟩)).mono
      fun error w' hleft => hleft)

end Child

theorem wp_createHostTempFile (h : Owned root base w []) (maxAttempts : Option Nat) (bound : Nat) :
    (createHostTempFile maxAttempts bound).Wp (Effect root)
      (Fails root base (ResourceMade root base false)) w := by
  unfold createHostTempFile
  refine wp_andThen.mpr ((wp_createHostTempSandbox h _ maxAttempts bound).mono fun r w' hr => ?_)
  refine ⟨fun exit hexit => ?_, fun created hcreated => ?_⟩
  · subst hexit
    exact hr.exit
  subst hcreated
  obtain ⟨sandboxPath, sandboxEntry⟩ := created
  obtain ⟨sandbox, hsandbox, howned, rfl, hentry, hfile⟩ := hr
  dsimp only at hentry hfile
  -- the sandbox is cleaned up after a failure
  have hcleanup {error : LocalFileError} {w' : EntryWorld I} (howned : Owned root base w' [sandbox]) :
      (cleanupFailedTempOwner (.of error) (.fromNativeEntries (pathOf [sandbox]) [sandboxEntry])).Wp
        (Effect root) (fun error w' => Left root base error.owned w') w' :=
    wp_cleanupFailedTempOwner rfl (.cons hentry .nil) (.inl ⟨rfl, howned⟩)
  have hcreate (dir : Path) (hdir : dir = pathOf [sandbox]) :
      (createTempFileInDir dir maxAttempts bound).Wp (Effect root) (fun r w' => match r with
        | none => True
        | some (.error _) => Owned root base w' [sandbox]
        | some (.ok (path, file)) => ∃ name, path = pathOf [sandbox] ++ [name] ∧
            Owned root base w' [⟨sandbox.file, name, file, false⟩, sandbox]) w' := by
    subst hdir
    unfold createTempFileInDir
    split
    · exact howned
    · refine (wp_createUnderRandomName howned createsAt_file _ _ _ _).mono fun r w' hr => ?_
      match r, hr with
      | none, _ => trivial
      | some (.error _), hr => exact hr
      | some (.ok (path, file)), hr =>
        obtain ⟨name, _, hpath, rfl, howned⟩ := hr
        exact ⟨name, hpath, howned⟩
  refine wp_bind.mpr ((hcreate _ rfl).mono fun r w' hr => ?_)
  match r, hr with
  | none, _ => trivial
  | some (.error error), hr =>
    exact wp_bind.mpr ((hcleanup hr).mono fun error w' hleft => hleft)
  | some (.ok (path, file)), hr =>
    obtain ⟨name, rfl, howned⟩ := hr
    refine wp_bind.mpr (wp_tryClone fun r => ?_)
    cases r with
    | error error =>
      -- the file exists by now and is handed over with the sandbox
      refine wp_bind.mpr (wp_hostTempRecoveryEntries howned hentry hfile _ fun entries hholds => ?_)
      exact wp_bind.mpr ((wp_cleanupFailedTempOwner rfl hholds (.inl ⟨rfl, howned⟩)).mono
        fun error w' hleft => hleft)
    | ok _ =>
      exact wp_adoptHostChild howned hsandbox hentry hfile _ adopts_hostTempFile

theorem wp_createHostTempDirectory (h : Owned root base w []) (maxAttempts : Option Nat)
    (bound : Nat) :
    (createHostTempDirectory maxAttempts bound).Wp (Effect root)
      (Fails root base (ResourceMade root base true)) w := by
  unfold createHostTempDirectory
  refine wp_andThen.mpr ((wp_createHostTempSandbox h _ maxAttempts bound).mono fun r w' hr => ?_)
  refine ⟨fun exit hexit => ?_, fun created hcreated => ?_⟩
  · subst hexit
    exact hr.exit
  subst hcreated
  obtain ⟨sandboxPath, sandboxEntry⟩ := created
  obtain ⟨sandbox, hsandbox, howned, rfl, hentry, hfile⟩ := hr
  dsimp only at hentry hfile
  dsimp only
  rw [hfile]
  refine wp_bind.mpr ((wp_createHostTempDirectoryEntry howned maxAttempts _ bound).mono
    fun r w' hr => ?_)
  match r, hr with
  | .error .unfinished, _ => trivial
  | .error (.panicked _), hr => exact hr
  | .error (.failed primary), hr =>
    have hholds : Holds ([(pathOf [sandbox], sandboxEntry)].map Prod.snd) [sandbox] :=
      .cons hentry .nil
    exact wp_bind.mpr ((wp_cleanupFailedTempOwner rfl hholds hr).mono fun error w' hleft => hleft)
  | .ok (path, child), hr =>
    obtain ⟨name, rfl, howned⟩ := hr
    exact wp_adoptHostChild howned hsandbox hentry hfile _ (adopts_hostTempDirectory howned)

/-! ## 7. The routes with required privacy -/

omit [DecidableEq I] in
theorem owned_withTempRecovery (error : OwningError I) (recovery : LocalTempRecovery I) :
    (error.withTempRecovery recovery).owned = recovery.entries := rfl

omit [DecidableEq I] in
theorem entries_fromNativeEntriesWithPaths (path : Path)
    (entries : List (Path × NativePrivateEntry I)) :
    (LocalTempRecovery.fromNativeEntriesWithPaths path entries).entries = entries.map Prod.snd := rfl

omit [DecidableEq I] in
theorem owned_privateCreateError (operation : LocalFileOperation) (path : Path)
    (error : NativePrivateCreateError I) (extra : Option (NativePrivateEntry I)) :
    (privateCreateError operation path error extra).owned =
      error.retained.toList ++ extra.toList := by
  unfold privateCreateError
  cases error.retained <;> cases extra <;> rfl

theorem wp_nativeTempRecovery {path : Path} {parent file : I} {name : String} {directory : Bool}
    {sandbox : Option (NativePrivateEntry I)} {post : LocalTempRecovery I → EntryWorld I → Prop}
    (h : ∀ recovery identity, (∀ i ∈ identity, i = file) →
      recovery.entries = ⟨parent, name, some file, identity, directory⟩ :: sandbox.toList →
        post recovery w) :
    (nativeTempRecovery path parent name file directory sandbox).Wp (Effect root) post w := by
  unfold nativeTempRecovery
  refine wp_bind.mpr (wp_observedIdentity fun identity htrue => h _ identity htrue ?_)
  rw [entries_fromNativeEntriesWithPaths]
  cases sandbox <;> rfl

/-- What is retained of a failed creation, in front of the owner of its place. -/
theorem Made.left {name : String} {directory : Bool} {error : NativePrivateCreateError I}
    {behind : List (NativePrivateEntry I)} (hholds : Holds behind placed)
    (h : Made root base placed name directory (.error error) w) :
    Left root base (error.retained.toList ++ behind) w := by
  obtain ⟨source, _ | entry⟩ := error
  · exact ⟨placed, h, hholds⟩
  · obtain ⟨p, -, howned, hentry⟩ := h
    exact ⟨p :: placed, howned, .cons hentry hholds⟩

theorem Made.collision {name : String} {directory : Bool} {error : NativePrivateCreateError I}
    (h : Made root base placed name directory (.error error) w) (hcollision : error.isCollision) :
    Owned root base w placed := by
  obtain ⟨source, _ | entry⟩ := error
  · exact h
  · cases hcollision

/-- What both kinds of private children have in common. -/
structure PrivateChild.Sound (kind : PrivateChild I) : Prop where
  create : ∀ {root : I} {base : Entries I} {w placed}, Owned root base w placed → ∀ name,
    (kind.create (place root placed) name).Wp (Effect root)
      (Made root base placed name kind.directory) w
  adopt : ∀ {root : I} {base : Entries I} {w child sandbox}, Owned root base w [child, sandbox] →
    Adopts root w child sandbox
      (kind.adopt (pathOf [child, sandbox]) (pathOf [sandbox]) child.file)

theorem sound_file : (PrivateChild.file : PrivateChild I).Sound where
  create h name := wp_createPrivateFileAt h name
  adopt h := by
    unfold Adopts PrivateChild.file
    refine wp_andThen.mpr (wp_tryClone fun r => ⟨?_, fun _ _ => adopts_hostTempFile⟩)
    rintro error rfl
    exact ⟨rfl, nofun⟩

theorem sound_subdirectory : (PrivateChild.subdirectory : PrivateChild I).Sound where
  create h name := wp_createPrivateDirectoryAt h name
  adopt h := adopts_hostTempDirectory h

/-- How a turn ends: with an owner of all that stands, with nothing, or with the resource. -/
def Attempted (root : I) (base : Entries I) (directory : Bool) :
    Except (OwningError I) (Option (HostTempResource I)) → EntryWorld I → Prop
  | .error error, w => Left root base error.owned w
  | .ok none, w => Owned root base w []
  | .ok (some resource), w => ResourceMade root base directory resource w

theorem wp_cleanupPrivateSandbox {sandbox : Placed I} {sandboxGuard : NativePrivateEntry I}
    (h : Owned root base w [sandbox]) (hguard : Keeps sandboxGuard sandbox) (path : Path) :
    (cleanupPrivateSandbox path sandboxGuard).Wp (Effect root) (fun r w' => match r with
      | .ok () => Owned root base w' []
      | .error error => Left root base error.owned w') w := by
  unfold cleanupPrivateSandbox
  have hleft : Left root base (LocalTempRecovery.fromNative path sandboxGuard).entries w :=
    ⟨[sandbox], h, .cons hguard .nil⟩
  refine wp_bind.mpr ((wp_cleanup hleft).mono fun r w' hr => ?_)
  obtain ⟨result, owner⟩ := r
  cases result with
  | error error => exact hr.1
  | ok _ =>
    obtain ⟨placed, howned, hholds⟩ := hr.1
    rw [hr.2 rfl] at hholds
    cases hholds
    exact howned

theorem wp_createPrivateChild {kind : PrivateChild I} (hkind : kind.Sound) {sandbox : Placed I}
    {sandboxGuard : NativePrivateEntry I} (h : Owned root base w [sandbox])
    (hsandbox : sandbox.directory = true) (hguard : Keeps sandboxGuard sandbox) :
    (createPrivateChild kind (pathOf [sandbox]) sandbox.file sandboxGuard).Wp (Effect root)
      (Attempted root base kind.directory) w := by
  unfold createPrivateChild
  refine wp_bind.mpr (wp_randomName fun r => ?_)
  cases r with
  | error error => exact ⟨[sandbox], h, .cons hguard .nil⟩
  | ok name =>
    refine wp_bind.mpr ((hkind.create h name).mono fun r w' hr => ?_)
    cases r with
    | error error =>
      by_cases hcollision : error.isCollision = true
      · dsimp only
        rw [if_pos hcollision]
        refine wp_bind.mpr ((wp_cleanupPrivateSandbox (hr.collision hcollision) hguard _).mono
          fun r w' hr => ?_)
        cases r with
        | error error => exact hr
        | ok _ => exact hr
      · dsimp only
        rw [if_neg hcollision]
        show Left root base (privateCreateError _ _ _ _).owned _
        rw [owned_privateCreateError]
        exact hr.left (.cons hguard .nil)
    | ok child =>
      have howned : Owned root base w' [⟨sandbox.file, name, child, kind.directory⟩, sandbox] := hr
      refine wp_bind.mpr ((hkind.adopt howned).mono fun r w'' hadopted => ?_)
      obtain ⟨rfl, hmade⟩ := hadopted
      cases r with
      | ok resource => exact ⟨_, sandbox, rfl, hsandbox, howned, hmade resource rfl⟩
      | error error =>
        refine wp_bind.mpr (wp_nativeTempRecovery fun recovery identity htrue hentries => ?_)
        show Left root base (OwningError.withTempRecovery _ recovery).owned _
        rw [owned_withTempRecovery, hentries]
        refine ⟨_, howned, .cons ⟨rfl, rfl, rfl, ?_, ?_⟩ (.cons hguard .nil)⟩
        · intro file hfile
          exact (Option.some.inj hfile).symm
        · intro i hi
          rw [htrue i hi]

theorem wp_privateAttempt {kind : PrivateChild I} (hkind : kind.Sound)
    (h : Owned root base w []) :
    (privateAttempt kind root).Wp (Effect root) (Attempted root base kind.directory) w := by
  unfold privateAttempt
  refine wp_bind.mpr (wp_tryClone fun r => ?_)
  cases r with
  | error error => exact ⟨[], h, .nil⟩
  | ok _ =>
    refine wp_bind.mpr (wp_randomName fun r => ?_)
    cases r with
    | error error => exact ⟨[], h, .nil⟩
    | ok sandboxName =>
      refine wp_bind.mpr ((wp_createPrivateDirectoryAt h sandboxName).mono fun r w' hr => ?_)
      cases r with
      | error error =>
        by_cases hcollision : error.isCollision = true
        · dsimp only
          rw [if_pos hcollision]
          exact hr.collision hcollision
        · dsimp only
          rw [if_neg hcollision]
          show Left root base (privateCreateError _ _ _ _).owned _
          rw [owned_privateCreateError]
          exact hr.left .nil
      | ok sandboxHandle =>
        have howned : Owned root base w' [⟨root, sandboxName, sandboxHandle, true⟩] := hr
        have hkeeps (identity : Option I) (htrue : ∀ i ∈ identity, i = sandboxHandle) :
            Keeps ⟨root, sandboxName, some sandboxHandle, identity, true⟩
              (⟨root, sandboxName, sandboxHandle, true⟩ : Placed I) := by
          refine ⟨rfl, rfl, rfl, fun file hfile => (Option.some.inj hfile).symm, fun i hi => ?_⟩
          rw [htrue i hi]
        unfold reservePrivateDirectoryGuard
        refine wp_bind.mpr (wp_bind.mpr (wp_tryClone fun r => ?_))
        cases r with
        | error error =>
          refine wp_bind.mpr (wp_nativeTempRecovery fun recovery identity htrue hentries => ?_)
          show Left root base (OwningError.withTempRecovery _ recovery).owned _
          rw [owned_withTempRecovery, hentries]
          exact ⟨_, howned, .cons (hkeeps identity htrue) .nil⟩
        | ok _ =>
          refine wp_bind.mpr (wp_observedIdentity fun identity htrue => ?_)
          exact wp_createPrivateChild hkind howned rfl (hkeeps identity htrue)

theorem wp_privateLoop {kind : PrivateChild I} (hkind : kind.Sound) (h : Owned root base w [])
    (maxAttempts : Option Nat) (bound attempts : Nat) :
    (privateLoop kind root maxAttempts bound attempts).Wp (Effect root)
      (Fails root base (ResourceMade root base kind.directory)) w := by
  induction bound generalizing w attempts with
  | zero => trivial
  | succ bound ih =>
    unfold privateLoop
    split
    · exact ⟨[], h, .nil⟩
    · refine wp_bind.mpr ((wp_privateAttempt hkind h).mono fun r w' hr => ?_)
      match r, hr with
      | .error error, hr => exact hr
      | .ok none, hr => exact ih hr (attempts + 1)
      | .ok (some resource), hr => exact hr

theorem wp_createPrivateHostTemp {kind : PrivateChild I} (hkind : kind.Sound)
    (h : Owned root base w []) (maxAttempts : Option Nat) (bound : Nat) :
    (createPrivateHostTemp kind maxAttempts bound).Wp (Effect root)
      (Fails root base (ResourceMade root base kind.directory)) w := by
  unfold createPrivateHostTemp
  split
  · exact ⟨[], h, .nil⟩
  · refine wp_bind.mpr (wp_openPath fun r hopened => ?_)
    cases r with
    | error error => exact ⟨[], h, .nil⟩
    | ok parentHandle =>
      obtain rfl : root = parentHandle := Option.some.inj (hopened parentHandle rfl)
      exact wp_privateLoop hkind h maxAttempts bound 0

/-! ## 8. All routes -/

def TempKind.isDirectory : TempKind → Bool
  | .file => false
  | .directory => true

theorem wp_createTempWithPolicy (kind : TempKind) (privacy : LocalPrivacyRequirement)
    (maxAttempts : Option Nat) (bound : Nat) (w : EntryWorld I) :
    (createTempWithPolicy kind privacy maxAttempts bound).Wp (Effect root)
      (Fails root w.entries (ResourceMade root w.entries kind.isDirectory)) w := by
  have h : Owned root w.entries w [] := .start w
  unfold createTempWithPolicy
  refine wp_bind.mpr fun answer next hE => ?_
  obtain rfl : next = w := hE
  cases answer with
  | error error => exact ⟨[], h, .nil⟩
  | ok _ =>
    unfold createTempInParent
    cases kind with
    | file =>
      cases privacy with
      | notRequired => exact wp_createHostTempFile h maxAttempts bound
      | required => exact wp_createPrivateHostTemp sound_file h maxAttempts bound
    | directory =>
      cases privacy with
      | notRequired => exact wp_createHostTempDirectory h maxAttempts bound
      | required => exact wp_createPrivateHostTemp sound_subdirectory h maxAttempts bound

end LocalFiles.Private
