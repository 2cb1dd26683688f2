import LocalFiles.History
import LocalFiles.Temp.Directory
import LocalFiles.Walk.Walker

/-!
# Cleanup — removing a staged tree that was not published

The owner of a staged tree lists it through the handle it retains, observes every entry and
deletes the entries, the deepest first; the root goes last.  A failure leaves the owner as it
was, so that the cleanup can be tried again.
-/

namespace LocalFiles.Staged

open Interaction Walk

/-! ## 1. The owner -/

inductive LocalTreeMutationState where
  | notStarted | started | indeterminate
  deriving DecidableEq, Repr

/-- Only the options a deletion of one entry reads. -/
structure LocalDeleteOptions where
  recursive : Bool := false
  missingOk : Bool := false
  deriving DecidableEq, Repr

/-- `pathBytes` is the length of the encoding of `path`; `child` says whether the handle of
    the tree is still there. -/
structure LocalTreeRetainedResource where
  path : Path
  pathBytes : UInt64
  relative : Path
  identity : Option LocalFileIdentity
  child : Bool
  cleanupArmed : Bool := true
  cleanupLimits : Temp.LocalTempCleanupLimits := {}
  ownedEntries : Path → Option LocalFileIdentity := fun _ => none
  mutationState : LocalTreeMutationState := .notStarted

/-- The length of the encoding of a relative path, which is UTF-8 on every platform. -/
def encodedLen (path : Path) : Nat := (path.map String.utf8ByteSize).sum + (path.length - 1)

namespace LocalTreeRetainedResource

variable (owner : LocalTreeRetainedResource)

/-- The observation of the name is one of the captured object. -/
def bindingMatches (named : Metadata) : Bool :=
  owner.identity.any fun identity => named.identity = some identity

end LocalTreeRetainedResource

/-! ## 2. Calls -/

inductive CleanupCall where
  | elapsed
  | observe (relative : Path)
  | list (options : LocalListOptions)
  | nextEntry
  | tryReserve
  | observeEntry (relative : Path)
  | deleteDirectory (relative : Path) (options : LocalDeleteOptions)
  | deleteFile (relative : Path) (options : LocalDeleteOptions)
  | deleteRoot (relative : Path) (options : LocalDeleteOptions)
  | openDirectory (relative : Path)
  deriving DecidableEq, Repr

/-- `observe`, `deleteRoot` and `openDirectory` go to the parent, the other calls to the child.
    The list is recursive and rejects links. -/
def CleanupCall.Result : CleanupCall → Type
  | .elapsed => Nat
  | .observe _ => Except LocalFileError Metadata
  | .list _ => Except LocalFileError Unit
  | .nextEntry => Option (Except LocalFileError Path)
  | .tryReserve => Bool
  | .observeEntry _ => Except LocalFileError Metadata
  | .deleteDirectory _ _ => Except LocalFileError Unit
  | .deleteFile _ _ => Except LocalFileError Unit
  | .deleteRoot _ _ => Except LocalFileError Unit
  | .openDirectory _ => Except LocalFileError Unit

/-- An exit without an error stands for a run that is longer than the bound considered. -/
abbrev CleanupM (α : Type) :=
  Proc.Recorded CleanupCall CleanupCall.Result LocalTreeRetainedResource (Option LocalFileError) α

abbrev CleanupEvent :=
  Event (LocalTreeRetainedResource × CleanupCall) fun c => c.2.Result

abbrev CleanupHistory := Proc.History CleanupCall CleanupCall.Result LocalTreeRetainedResource

/-! ## 3. The algorithm -/

section Algorithm

variable {α : Type}

def call (c : CleanupCall) : CleanupM c.Result := Proc.ask c
def elapsed : CleanupM Nat := call .elapsed
def observe (relative : Path) : CleanupM (Except LocalFileError Metadata) :=
  call (.observe relative)
def list (options : LocalListOptions) : CleanupM (Except LocalFileError Unit) :=
  call (.list options)
def nextEntry : CleanupM (Option (Except LocalFileError Path)) := call .nextEntry
def tryReserve : CleanupM Bool := call .tryReserve
def observeEntry (relative : Path) : CleanupM (Except LocalFileError Metadata) :=
  call (.observeEntry relative)
def deleteDirectory (relative : Path) : CleanupM (Except LocalFileError Unit) :=
  call (.deleteDirectory relative {})
def deleteFile (relative : Path) : CleanupM (Except LocalFileError Unit) :=
  call (.deleteFile relative {})
def deleteDirectoryWithOptions (relative : Path) (options : LocalDeleteOptions) :
    CleanupM (Except LocalFileError Unit) := call (.deleteRoot relative options)
def openDirectory (relative : Path) : CleanupM (Except LocalFileError Unit) :=
  call (.openDirectory relative)

/-- `?` -/
def orExit : Except LocalFileError α → CleanupM α
  | .ok a => pure a
  | .error error => Proc.exit (some error)

def limitError : LocalFileError := .new .resourceLimit .cleanup

def stateError (path : Path) : LocalFileError :=
  (LocalFileError.new .invalidState .cleanup).withPath path

def unsupportedError (path : Path) : LocalFileError :=
  (LocalFileError.new .unsupported .cleanup).withPath path

def depthError (path : Path) (maximum depth : Nat) : LocalFileError :=
  .fromResourceLimit .cleanup (some path)
    { LocalResourceLimitError.new .depth maximum 0 depth with observed := some depth }

/-- `cleanup_deadline_exceeded` -/
def checkDeadline (error : LocalFileError) : CleanupM Unit := do
  let elapsed ← elapsed
  let s ← Proc.get
  if s.cleanupLimits.deadline.any fun deadline => deadline ≤ elapsed then Proc.exit (some error)
  else pure ()

def pendingExceeded (limits : Temp.LocalTempCleanupLimits) (pending : Nat) : Bool :=
  limits.maxPendingPathBytes.any fun maximum => maximum.toNat < pending

structure Listed where
  relative : Path
  kind : EntryKind
  identity : LocalFileIdentity
  deriving DecidableEq, Repr

def listOptions (limits : Temp.LocalTempCleanupLimits) : LocalListOptions where
  recursive := true
  maxEntries := limits.maxEntries.map (· - 1)
  maxSeenNameBytes := limits.maxPendingPathBytes.map UInt64.toNat
  deadline := limits.deadline

/-- The body of the listing loop behind `entry?`. -/
def registerEntry (relative : Path) (pending : Nat) : CleanupM (Nat × Listed) := do
  let s ← Proc.get
  let depth := relative.length
  match s.cleanupLimits.maxDepth.filter (· < depth) with
  | some maximum => Proc.exit (some (depthError (s.path ++ relative) maximum depth))
  | none =>
    let pending := pending + encodedLen relative
    if usizeMax < pending then Proc.exit (some limitError)
    else if pendingExceeded s.cleanupLimits pending then Proc.exit (some limitError)
    else do
      let observation ← orExit (← observeEntry relative)
      match observation.identity with
      | none => Proc.exit (some (unsupportedError (s.path ++ relative)))
      | some identity => do
        if ← tryReserve then pure (pending, ⟨relative, observation.kind, identity⟩)
        else Proc.exit (some limitError)

/-- The listing loop, for at most so many entries. -/
def listEntries : Nat → Nat → List Listed → CleanupM (List Listed)
  | 0, _, _ => Proc.exit none
  | bound + 1, pending, entries => do
    match ← nextEntry with
    | none => pure entries
    | some entry => do
      checkDeadline limitError
      let relative ← orExit entry
      let (pending, listed) ← registerEntry relative pending
      listEntries bound pending (entries ++ [listed])

/-- A stable sort, the deepest entries first. -/
def deepestFirst (entries : List Listed) : List Listed :=
  entries.mergeSort fun a b => b.relative.length ≤ a.relative.length

def setStarted : CleanupM Unit := Proc.modify fun s => { s with mutationState := .started }

def deleteByKind (entry : Listed) : CleanupM (Except LocalFileError Unit) :=
  if entry.kind = .directory then deleteDirectory entry.relative else deleteFile entry.relative

/-- The body of the deletion loop. -/
def deleteEntry (entry : Listed) : CleanupM Unit := do
  checkDeadline limitError
  let current ← orExit (← observeEntry entry.relative)
  let s ← Proc.get
  if current.identity ≠ some entry.identity then
    Proc.exit (some (stateError (s.path ++ entry.relative)))
  else if (s.ownedEntries entry.relative).any fun owned => current.identity ≠ some owned then
    Proc.exit (some (stateError (s.path ++ entry.relative)))
  else do
    let result ← deleteByKind entry
    setStarted
    orExit result

def deleteEntries : List Listed → CleanupM Unit
  | [] => pure ()
  | entry :: rest => do
    deleteEntry entry
    deleteEntries rest

/-- What is done through the child handle, which is dropped then. -/
def emptyChild (bound : Nat) : CleanupM Unit := do
  let s ← Proc.get
  orExit (← list (listOptions s.cleanupLimits))
  let entries ← listEntries bound s.pathBytes.toNat []
  deleteEntries (deepestFirst entries)
  Proc.modify fun s => { s with child := false }

/-- A failed deletion of the root takes up the child handle again. -/
def deleteRoot : CleanupM Unit := do
  let s ← Proc.get
  checkDeadline (limitError.withPath s.path)
  let observation ← orExit (← observe s.relative)
  if s.bindingMatches observation then do
    checkDeadline (limitError.withPath s.path)
    setStarted
    match ← deleteDirectoryWithOptions s.relative {} with
    | .ok () => pure ()
    | .error error => do
      let opened ← openDirectory s.relative
      Proc.modify fun s => { s with child := opened.isOk }
      Proc.exit (some error)
  else Proc.exit (some (stateError s.path))

/-- The checks before anything is listed. -/
def beginCleanup : CleanupM Unit := do
  let s ← Proc.get
  if s.cleanupLimits.maxEntries = some 0 then Proc.exit (some limitError)
  else do
    checkDeadline limitError
    if pendingExceeded s.cleanupLimits s.pathBytes.toNat then
      Proc.exit (some (limitError.withPath s.path))
    else do
      let named ← orExit (← observe s.relative)
      if s.bindingMatches named then pure ()
      else Proc.exit (some (stateError s.path))

def cleanupInner (bound : Nat) : CleanupM Unit := do
  let s ← Proc.get
  if s.cleanupArmed then do
    beginCleanup
    if s.child then emptyChild bound else pure ()
    deleteRoot
  else pure ()

/-- An error keeps the owner; success disarms it. -/
def cleanup (bound : Nat) : CleanupM Unit := do
  cleanupInner bound
  Proc.modify fun s => { s with cleanupArmed := false }

/-- Dropping an owner makes a last attempt, whose result nobody sees. -/
def drop (bound : Nat) : CleanupM (Except (Option LocalFileError) Unit) :=
  Proc.outcome (cleanupInner bound)

end Algorithm

/-! ## 4. What a run may delete -/

section Discipline

/-- The name the listing has given and not yet observed, and the entries listed so far, each with
    the kind and the identity that were observed right after it was listed. -/
def record (state : Option Path × List Listed) (ev : CleanupEvent) : Option Path × List Listed :=
  match ev, state with
  | ⟨(_, .nextEntry), answer⟩, (_, listed) =>
    match (show Option (Except LocalFileError Path) from answer) with
    | some (.ok relative) => (some relative, listed)
    | _ => (none, listed)
  | ⟨(_, .observeEntry relative), answer⟩, (some pending, listed) =>
    match (show Except LocalFileError Metadata from answer) with
    | .ok ⟨kind, some identity⟩ =>
      if relative = pending then (none, listed ++ [⟨relative, kind, identity⟩])
      else (some pending, listed)
    | _ => (some pending, listed)
  | _, state => state

def recorded (past : CleanupHistory) : Option Path × List Listed := past.foldl record (none, [])

/-- The entries listed by the calls of `past`. -/
def listing (past : CleanupHistory) : List Listed := (recorded past).2

/-- The entry `relative` was deleted. -/
def Deletes (relative : Path) (ev : CleanupEvent) : Prop :=
  match ev with
  | ⟨(_, .deleteDirectory path _), answer⟩ => path = relative ∧ answer = Except.ok ()
  | ⟨(_, .deleteFile path _), answer⟩ => path = relative ∧ answer = Except.ok ()
  | _ => False

def IsRootDeletion (ev : CleanupEvent) : Prop :=
  match ev with
  | ⟨(_, .deleteRoot _ _), _⟩ => True
  | _ => False

/-- The last call observed `relative`, with this kind and identity. -/
def JustObserved (past : CleanupHistory) (relative : Path) (identity : LocalFileIdentity) : Prop :=
  ∃ before s observation, past = before ++ [⟨(s, .observeEntry relative), .ok observation⟩] ∧
    observation.identity = some identity

/-- The parent has just been seen to bind `relative` to `identity`; only the clock was read
    since. -/
def JustBound (past : CleanupHistory) (relative : Path) (identity : LocalFileIdentity) : Prop :=
  ∃ before s s' observation now,
    past = before ++ [⟨(s, .observe relative), .ok observation⟩, ⟨(s', .elapsed), now⟩] ∧
    observation.identity = some identity

/-- The deletion of a listed entry: it is still the one listed and the one recorded, and
    everything listed below it is gone. -/
structure MayDelete (owner : LocalTreeRetainedResource) (past : CleanupHistory) (relative : Path)
    (asDirectory : Prop) : Prop where
  armed : owner.cleanupArmed = true
  known : owner.identity.isSome
  first : ∀ ev ∈ past, ¬ IsRootDeletion ev
  listed : ∃ entry ∈ listing past, entry.relative = relative ∧
    (asDirectory ↔ entry.kind = .directory) ∧ JustObserved past relative entry.identity ∧
    ∀ owned, owner.ownedEntries relative = some owned → owned = entry.identity
  below : ∀ entry ∈ listing past, ∀ rest, entry.relative = relative ++ rest → rest ≠ [] →
    ∃ ev ∈ past, Deletes entry.relative ev

structure MayDeleteRoot (owner : LocalTreeRetainedResource) (past : CleanupHistory)
    (relative : Path) : Prop where
  armed : owner.cleanupArmed = true
  first : ∀ ev ∈ past, ¬ IsRootDeletion ev
  own : relative = owner.relative
  bound : ∃ identity, owner.identity = some identity ∧ JustBound past relative identity
  emptied : ∀ entry ∈ listing past, ∃ ev ∈ past, Deletes entry.relative ev

/-- What a cleanup of `owner` owes for its deletions. -/
def Permitted (owner : LocalTreeRetainedResource) (past : CleanupHistory) : CleanupCall → Prop
  | .deleteDirectory relative options =>
    options.recursive = false ∧ MayDelete owner past relative True
  | .deleteFile relative _ => MayDelete owner past relative False
  | .deleteRoot relative options =>
    options.recursive = false ∧ MayDeleteRoot owner past relative
  | _ => True

def discipline (owner : LocalTreeRetainedResource) :
    Proc.Discipline CleanupCall CleanupCall.Result LocalTreeRetainedResource where
  fair _ := True
  allows past _ c := Permitted owner past c

/-- What a cleanup does not change about its owner. -/
structure Retained (owner s : LocalTreeRetainedResource) : Prop where
  path : s.path = owner.path
  pathBytes : s.pathBytes = owner.pathBytes
  relative : s.relative = owner.relative
  identity : s.identity = owner.identity
  cleanupArmed : s.cleanupArmed = owner.cleanupArmed
  cleanupLimits : s.cleanupLimits = owner.cleanupLimits
  ownedEntries : s.ownedEntries = owner.ownedEntries

theorem Retained.refl (owner : LocalTreeRetainedResource) : Retained owner owner :=
  ⟨rfl, rfl, rfl, rfl, rfl, rfl, rfl⟩

theorem Retained.mutated {owner s : LocalTreeRetainedResource} (h : Retained owner s)
    (state : LocalTreeMutationState) : Retained owner { s with mutationState := state } :=
  ⟨h.path, h.pathBytes, h.relative, h.identity, h.cleanupArmed, h.cleanupLimits, h.ownedEntries⟩

/-- The handle of the tree may be dropped or taken up again. -/
theorem Retained.holding {owner s : LocalTreeRetainedResource} (h : Retained owner s)
    (child : Bool) : Retained owner { s with child := child } :=
  ⟨h.path, h.pathBytes, h.relative, h.identity, h.cleanupArmed, h.cleanupLimits, h.ownedEntries⟩

theorem recorded_snoc (past : CleanupHistory) (ev : CleanupEvent) :
    recorded (past ++ [ev]) = record (recorded past) ev := by
  unfold recorded
  rw [List.foldl_append]
  rfl

end Discipline

/-! ## 5. Every run keeps the discipline -/

section Guards

variable {α β : Type} {owner : LocalTreeRetainedResource} {pre : CleanupHistory → Prop}
  {post : α → CleanupHistory → Prop} {post' : β → CleanupHistory → Prop}

/-- Triples about the calls made so far; the owner is retained whatever happens. -/
abbrev Guards (owner : LocalTreeRetainedResource) (pre : CleanupHistory → Prop) (t : CleanupM α)
    (post : α → CleanupHistory → Prop) : Prop :=
  Proc.Upholds (discipline owner) (fun past s => Retained owner s ∧ pre past) t
    (fun a past s => Retained owner s ∧ post a past) fun _ _ s => Retained owner s

theorem guards_pure {a : α} (h : ∀ past, pre past → post a past) :
    Guards owner pre (pure a) post :=
  .pure fun past _ hs => ⟨hs.1, h past hs.2⟩

theorem guards_exit {e : Option LocalFileError} : Guards owner pre (Proc.exit e) post :=
  .exit fun _ _ hs => hs.1

theorem guards_ask {c : CleanupCall} {post : c.Result → CleanupHistory → Prop}
    (hpermitted : ∀ past, pre past → Permitted owner past c)
    (hpost : ∀ past, pre past → ∀ s answer, post answer (past ++ [⟨(s, c), answer⟩])) :
    Guards owner pre (call c) post :=
  .ask fun past s hs => ⟨hpermitted past hs.2, fun answer _ => ⟨hs.1, hpost past hs.2 s answer⟩⟩

theorem guards_get {f : LocalTreeRetainedResource → CleanupM β}
    (h : ∀ s, Retained owner s → Guards owner pre (f s) post') :
    Guards owner pre (Proc.get >>= f) post' := by
  apply Proc.Upholds.get
  intro s past s' tr r s'' hs hruns hfair
  obtain ⟨hs, rfl⟩ := hs
  exact h s' hs.1 past s' tr r s'' hs hruns hfair

theorem guards_modify {g : LocalTreeRetainedResource → LocalTreeRetainedResource}
    {post : Unit → CleanupHistory → Prop} (hg : ∀ s, Retained owner s → Retained owner (g s))
    (h : ∀ past, pre past → post () past) : Guards owner pre (Proc.modify g) post :=
  .modify fun past s hs => ⟨hg s hs.1, h past hs.2⟩

theorem guards_orExit {result : Except LocalFileError α}
    (h : ∀ a, result = .ok a → ∀ past, pre past → post a past) :
    Guards owner pre (orExit result) post := by
  cases result with
  | ok a => exact guards_pure (h a rfl)
  | error error => exact guards_exit

theorem guards_ok {a : α} {f : α → CleanupM β} (h : Guards owner pre (f a) post') :
    Guards owner pre (orExit (.ok a) >>= f) post' := h

theorem guards_error {error : LocalFileError} {f : α → CleanupM β} :
    Guards owner pre (orExit (.error error) >>= f) post' :=
  .exit fun _ _ hs => hs.1

/-- A step, and then the rest under the condition `mid`. -/
theorem guards_then (mid : α → CleanupHistory → Prop) {t : CleanupM α} {f : α → CleanupM β}
    (ht : Guards owner pre t mid) (hf : ∀ a, Guards owner (mid a) (f a) post') :
    Guards owner pre (t >>= f) post' :=
  .through (fun a past s => Retained owner s ∧ mid a past) ht hf

theorem guards_weaken {pre' : CleanupHistory → Prop} {t : CleanupM α} (h : Guards owner pre t post)
    (hpre : ∀ past, pre' past → pre past) : Guards owner pre' t post :=
  h.before fun past _ hs => ⟨hs.1, hpre past hs.2⟩

/-- The calls so far have listed `state`, and none of them deleted the root. -/
structure Phase (state : Option Path × List Listed) (past : CleanupHistory) : Prop where
  recorded : recorded past = state
  first : ∀ ev ∈ past, ¬ IsRootDeletion ev

theorem Phase.start : Phase (none, []) [] where
  recorded := rfl
  first _ hev := absurd hev List.not_mem_nil

theorem Phase.snoc {state : Option Path × List Listed} {past : CleanupHistory}
    (h : Phase state past) (ev : CleanupEvent) (hev : ¬ IsRootDeletion ev) :
    Phase (record state ev) (past ++ [ev]) where
  recorded := by rw [recorded_snoc, h.recorded]
  first := by
    rw [List.forall_mem_append]
    exact ⟨h.first, fun other hother => List.mem_singleton.mp hother ▸ hev⟩

theorem Phase.elapsed {state : Option Path × List Listed} {past : CleanupHistory}
    (h : Phase state past) (s : LocalTreeRetainedResource) (now : Nat) :
    Phase state (past ++ [⟨(s, .elapsed), now⟩]) := by
  have hsame : record state ⟨(s, .elapsed), now⟩ = state := by
    obtain ⟨_ | _, _⟩ := state <;> rfl
  exact hsame ▸ h.snoc ⟨(s, .elapsed), now⟩ id

/-- Reading the clock changes nothing that the reading itself does not. -/
theorem guards_checkDeadline {error : LocalFileError} {post : CleanupHistory → Prop}
    (h : ∀ past, pre past → ∀ s now, post (past ++ [⟨(s, .elapsed), now⟩])) :
    Guards owner pre (checkDeadline error) fun _ => post := by
  refine guards_then (fun _ => post) (guards_ask (fun _ _ => trivial) h) fun elapsed => ?_
  refine guards_get fun s _ => ?_
  split
  · exact guards_exit
  · exact guards_pure fun _ hpast => hpast

/-! ### The listing -/

theorem guards_registerEntry (entries : List Listed) (relative : Path) (pending : Nat) :
    Guards owner (Phase (some relative, entries)) (registerEntry relative pending)
      fun result => Phase (none, entries ++ [result.2]) := by
  refine guards_get fun s _ => ?_
  dsimp only
  split
  · exact guards_exit
  · split
    · exact guards_exit
    · split
      · exact guards_exit
      · refine guards_then (fun answer past => ∀ kind identity, answer = .ok ⟨kind, some identity⟩ →
          Phase (none, entries ++ [⟨relative, kind, identity⟩]) past)
          (guards_ask (fun _ _ => trivial) fun past hpast s answer kind identity hanswer => ?_)
          fun answer => ?_
        · have hrecord : record (some relative, entries)
              ⟨(s, .observeEntry relative), answer⟩ =
              (none, entries ++ [⟨relative, kind, identity⟩]) := by
            rw [hanswer]
            exact if_pos rfl
          exact hrecord ▸ hpast.snoc ⟨(s, .observeEntry relative), answer⟩ id
        · refine guards_then (fun observation past => ∀ identity,
            observation.identity = some identity →
            Phase (none, entries ++ [⟨relative, observation.kind, identity⟩]) past)
            (guards_orExit fun observation hok past hpast identity hidentity => ?_)
            fun observation => ?_
          · apply hpast observation.kind identity
            rw [hok, ← hidentity]
          · split
            · exact guards_exit
            · rename_i identity hidentity
              refine guards_then (fun _ => Phase (none, entries ++
                [⟨relative, observation.kind, identity⟩])) (guards_ask (fun _ _ => trivial)
                fun past hpast s answer => ?_) fun reserved => ?_
              · exact (hpast identity hidentity).snoc ⟨(s, .tryReserve), answer⟩ id
              · split
                · exact guards_pure fun past hpast => hpast
                · exact guards_exit

theorem guards_listEntries (bound pending : Nat) (entries : List Listed) :
    Guards owner (Phase (none, entries)) (listEntries bound pending entries)
      fun listed => Phase (none, listed) := by
  induction bound generalizing pending entries with
  | zero => exact guards_exit
  | succ bound ih =>
    refine guards_then (fun answer => match answer with
      | some (.ok relative) => Phase (some relative, entries)
      | _ => Phase (none, entries)) (guards_ask (fun _ _ => trivial) fun past hpast s answer => ?_)
      fun answer => ?_
    · have hsnoc := hpast.snoc ⟨(s, .nextEntry), answer⟩ id
      rcases answer with _ | _ | relative
      · exact hsnoc
      · exact hsnoc
      · exact hsnoc
    · rcases answer with _ | error | relative
      · exact guards_pure fun _ hpast => hpast
      · refine guards_then (fun _ => Phase (none, entries))
          (guards_checkDeadline fun past hpast s now => hpast.elapsed s now) fun _ => ?_
        exact guards_error
      · refine guards_then (fun _ => Phase (some relative, entries))
          (guards_checkDeadline fun past hpast s now => hpast.elapsed s now) fun _ => guards_ok ?_
        exact guards_then (fun result => Phase (none, entries ++ [result.2]))
          (guards_registerEntry entries relative pending) fun result => ih result.1 _

/-! ### The deletions -/

/-- After the listing of `entries`, those in `done` were deleted. -/
structure Deleting (entries done : List Listed) (past : CleanupHistory) : Prop where
  phase : Phase (none, entries) past
  gone : ∀ entry ∈ done, ∃ ev ∈ past, Deletes entry.relative ev

theorem Deleting.snoc {entries done : List Listed} {past : CleanupHistory}
    (h : Deleting entries done past) (ev : CleanupEvent) (hev : ¬ IsRootDeletion ev)
    (hrecord : record (none, entries) ev = (none, entries)) :
    Deleting entries done (past ++ [ev]) where
  phase := hrecord ▸ h.phase.snoc ev hev
  gone entry hentry := by
    obtain ⟨gone, hmem, hgone⟩ := h.gone entry hentry
    exact ⟨gone, List.mem_append_left _ hmem, hgone⟩

/-- A deletion that succeeds adds its entry. -/
theorem Deleting.cons {entries done : List Listed} {past : CleanupHistory} {entry : Listed}
    (h : Deleting entries done past) (ev : CleanupEvent) (hmem : ev ∈ past)
    (hev : Deletes entry.relative ev) : Deleting entries (entry :: done) past where
  phase := h.phase
  gone := List.forall_mem_cons.mpr ⟨⟨ev, hmem, hev⟩, h.gone⟩

/-- What is known of an entry just before it is deleted. -/
structure Ready (owner : LocalTreeRetainedResource) (entries done : List Listed) (entry : Listed)
    (past : CleanupHistory) : Prop where
  deleting : Deleting entries done past
  observed : JustObserved past entry.relative entry.identity
  owned : ∀ owned, owner.ownedEntries entry.relative = some owned → owned = entry.identity

theorem Ready.mayDelete {entries done : List Listed} {entry : Listed} {past : CleanupHistory}
    {asDirectory : Prop} (h : Ready owner entries done entry past) (harmed : owner.cleanupArmed = true)
    (hknown : owner.identity.isSome) (hmem : entry ∈ entries)
    (hbelow : ∀ other ∈ entries, ∀ rest, other.relative = entry.relative ++ rest → rest ≠ [] →
      other ∈ done)
    (hkind : asDirectory ↔ entry.kind = .directory) :
    MayDelete owner past entry.relative asDirectory where
  armed := harmed
  known := hknown
  first := h.deleting.phase.first
  listed := by
    refine ⟨entry, ?_, rfl, hkind, h.observed, h.owned⟩
    unfold listing
    rw [h.deleting.phase.recorded]
    exact hmem
  below other hother rest heq hne := by
    unfold listing at hother
    rw [h.deleting.phase.recorded] at hother
    exact h.deleting.gone other (hbelow other hother rest heq hne)

theorem guards_deleteByKind {entries done : List Listed} {entry : Listed}
    (harmed : owner.cleanupArmed = true) (hknown : owner.identity.isSome) (hmem : entry ∈ entries)
    (hbelow : ∀ other ∈ entries, ∀ rest, other.relative = entry.relative ++ rest → rest ≠ [] →
      other ∈ done) :
    Guards owner (Ready owner entries done entry) (deleteByKind entry) fun result past =>
      result = .ok () → Deleting entries (entry :: done) past := by
  unfold deleteByKind
  split
  · rename_i hkind
    refine guards_ask (fun past hpast => ⟨rfl, hpast.mayDelete harmed hknown hmem hbelow
      (iff_of_true trivial hkind)⟩) fun past hpast s answer hok => ?_
    exact (hpast.deleting.snoc ⟨(s, .deleteDirectory entry.relative {}), answer⟩ id rfl).cons _
      (List.mem_append_right _ List.mem_cons_self) ⟨rfl, hok⟩
  · rename_i hkind
    refine guards_ask (fun past hpast => hpast.mayDelete harmed hknown hmem hbelow
      (iff_of_false id hkind)) fun past hpast s answer hok => ?_
    exact (hpast.deleting.snoc ⟨(s, .deleteFile entry.relative {}), answer⟩ id rfl).cons _
      (List.mem_append_right _ List.mem_cons_self) ⟨rfl, hok⟩

theorem guards_deleteEntry {entries done : List Listed} {entry : Listed}
    (harmed : owner.cleanupArmed = true) (hknown : owner.identity.isSome) (hmem : entry ∈ entries)
    (hbelow : ∀ other ∈ entries, ∀ rest, other.relative = entry.relative ++ rest → rest ≠ [] →
      other ∈ done) :
    Guards owner (Deleting entries done) (deleteEntry entry) fun _ =>
      Deleting entries (entry :: done) := by
  refine guards_then (fun _ => Deleting entries done) (guards_checkDeadline fun past hpast s now =>
    hpast.snoc ⟨(s, .elapsed), now⟩ id rfl) fun _ => ?_
  refine guards_then (fun answer past => Deleting entries done past ∧
    ∃ before s, past = before ++ [⟨(s, .observeEntry entry.relative), answer⟩])
    (guards_ask (fun _ _ => trivial) fun past hpast s answer =>
      ⟨hpast.snoc ⟨(s, .observeEntry entry.relative), answer⟩ id rfl, past, s, rfl⟩)
    fun answer => ?_
  cases answer with
  | error error => exact guards_error
  | ok current =>
    refine guards_ok (guards_get fun s hs => ?_)
    split
    · exact guards_exit
    · rename_i hsame
      split
      · exact guards_exit
      · rename_i howned
        have hready (past : CleanupHistory) (hpast : Deleting entries done past ∧
            ∃ before s, past = before ++ [⟨(s, .observeEntry entry.relative), .ok current⟩]) :
            Ready owner entries done entry past := by
          obtain ⟨hdeleting, before, s', hlast⟩ := hpast
          have hidentity := not_not.mp hsame
          refine ⟨hdeleting, ⟨before, s', current, hlast, hidentity⟩, fun owned hrecord => ?_⟩
          rw [hs.ownedEntries, hrecord, hidentity] at howned
          by_contra hne
          exact howned (decide_eq_true fun heq => hne (Option.some.inj heq).symm)
        refine guards_then (fun result past => result = .ok () →
          Deleting entries (entry :: done) past)
          (guards_weaken (guards_deleteByKind harmed hknown hmem hbelow) hready) fun result => ?_
        refine guards_then (fun _ past => result = .ok () → Deleting entries (entry :: done) past)
          (guards_modify (fun s hs => hs.mutated .started) fun _ hpast => hpast) fun _ => ?_
        exact guards_orExit fun _ hok past hpast => hpast hok

/-- Each entry is deleted after the deeper ones, so after everything below it. -/
theorem guards_deleteEntries {entries : List Listed} (harmed : owner.cleanupArmed = true)
    (hknown : owner.identity.isSome) (done rest : List Listed)
    (hall : ∀ entry, entry ∈ entries ↔ entry ∈ done ∨ entry ∈ rest)
    (hsorted : rest.Pairwise fun a b => b.relative.length ≤ a.relative.length) :
    Guards owner (Deleting entries done) (deleteEntries rest) fun _ =>
      Deleting entries entries := by
  induction rest generalizing done with
  | nil =>
    refine guards_pure fun past hpast => ⟨hpast.phase, fun entry hentry => ?_⟩
    exact hpast.gone entry (((hall entry).mp hentry).resolve_right List.not_mem_nil)
  | cons entry rest ih =>
    obtain ⟨hfirst, hrest⟩ := List.pairwise_cons.mp hsorted
    refine guards_then (fun _ => Deleting entries (entry :: done)) (guards_deleteEntry harmed hknown
      ((hall entry).mpr (.inr List.mem_cons_self)) fun other hother suffix heq hne => ?_)
      fun _ => ih (entry :: done) (fun other => ?_) hrest
    · -- an entry below this one is deeper, so it stands further in front
      have hdeeper : entry.relative.length < other.relative.length := by
        have hpos := List.length_pos_of_ne_nil hne
        rw [heq, List.length_append]
        omega
      rcases (hall other).mp hother with hdone | hlater
      · exact hdone
      · rcases List.mem_cons.mp hlater with rfl | hbehind
        · omega
        · have hle := hfirst other hbehind
          omega
    · rw [hall, List.mem_cons, List.mem_cons]
      constructor
      · rintro (hdone | rfl | hlater)
        · exact .inl (.inr hdone)
        · exact .inl (.inl rfl)
        · exact .inr hlater
      · rintro ((rfl | hdone) | hlater)
        · exact .inr (.inl rfl)
        · exact .inl hdone
        · exact .inr (.inr hlater)

theorem deepestFirst_perm (entries : List Listed) : (deepestFirst entries).Perm entries :=
  List.mergeSort_perm entries _

theorem pairwise_deepestFirst (entries : List Listed) :
    (deepestFirst entries).Pairwise fun a b => b.relative.length ≤ a.relative.length := by
  unfold deepestFirst
  have hsorted := @List.pairwise_mergeSort Listed
    (fun a b => decide (b.relative.length ≤ a.relative.length))
    (fun a b c hab hbc => by
      rw [decide_eq_true_eq] at *
      omega)
    (fun a b => by
      rw [Bool.or_eq_true, decide_eq_true_eq, decide_eq_true_eq]
      omega) entries
  exact hsorted.imp fun h => of_decide_eq_true h

/-- The entries listed were all deleted, and the root was not. -/
def Emptied (past : CleanupHistory) : Prop :=
  ∃ entries, Deleting entries entries past

theorem guards_emptyChild (harmed : owner.cleanupArmed = true) (hknown : owner.identity.isSome)
    (bound : Nat) :
    Guards owner (Phase (none, [])) (emptyChild bound) fun _ => Emptied := by
  refine guards_get fun s _ => ?_
  refine guards_then (fun _ => Phase (none, [])) (guards_ask (fun _ _ => trivial)
    fun past hpast s answer => hpast.snoc ⟨(s, .list _), answer⟩ id) fun opened => ?_
  refine guards_then (fun _ => Phase (none, [])) (guards_orExit fun _ _ _ hpast => hpast) fun _ => ?_
  refine guards_then (fun entries => Phase (none, entries)) (guards_listEntries bound _ [])
    fun entries => ?_
  refine guards_then (fun _ => Deleting entries entries) (guards_weaken (guards_deleteEntries harmed
    hknown [] (deepestFirst entries) (fun entry => ?_) (pairwise_deepestFirst entries))
    fun past hpast => ⟨hpast, nofun⟩) fun _ => ?_
  · rw [or_iff_right List.not_mem_nil]
    exact (deepestFirst_perm entries).mem_iff.symm
  · exact guards_modify (fun s hs => hs.holding false) fun past hpast => ⟨entries, hpast⟩

theorem Emptied.snoc {past : CleanupHistory} (h : Emptied past) (ev : CleanupEvent)
    (hev : ¬ IsRootDeletion ev)
    (hrecord : ∀ entries, record (none, entries) ev = (none, entries)) : Emptied (past ++ [ev]) := by
  obtain ⟨entries, hdeleting⟩ := h
  exact ⟨entries, hdeleting.snoc ev hev (hrecord entries)⟩

theorem guards_deleteRoot (harmed : owner.cleanupArmed = true) :
    Guards owner Emptied deleteRoot fun _ _ => True := by
  refine guards_get fun s hs => ?_
  refine guards_then (fun _ => Emptied) (guards_checkDeadline fun past hpast s now =>
    hpast.snoc ⟨(s, .elapsed), now⟩ id fun _ => rfl) fun _ => ?_
  refine guards_then (fun answer past => Emptied past ∧
    ∃ before s', past = before ++ [⟨(s', .observe s.relative), answer⟩])
    (guards_ask (fun _ _ => trivial) fun past hpast s' answer =>
      ⟨hpast.snoc ⟨(s', .observe s.relative), answer⟩ id fun _ => rfl, past, s', rfl⟩)
    fun answer => ?_
  cases answer with
  | error error => exact guards_error
  | ok observation =>
    refine guards_ok ?_
    split
    · rename_i hmatches
      obtain ⟨identity, hidentity, hnamed⟩ := (Option.any_eq_true _ _).mp hmatches
      rw [hs.identity] at hidentity
      refine guards_then (fun _ past => Emptied past ∧ JustBound past s.relative identity)
        (guards_checkDeadline fun past hpast s' now => ?_) fun _ => ?_
      · obtain ⟨hemptied, before, s'', rfl⟩ := hpast
        refine ⟨hemptied.snoc ⟨(s', .elapsed), now⟩ id fun _ => rfl, before, s'', s', observation,
          now, ?_, of_decide_eq_true hnamed⟩
        rw [List.append_assoc]
        rfl
      · refine guards_then (fun _ past => Emptied past ∧ JustBound past s.relative identity)
          (guards_modify (fun s hs => hs.mutated .started) fun _ hpast => hpast) fun _ => ?_
        refine guards_then (fun _ _ => True) (guards_ask (fun past hpast => ?_)
          fun _ _ _ _ => trivial) fun result => ?_
        · obtain ⟨⟨entries, hdeleting⟩, hbound⟩ := hpast
          refine ⟨rfl, harmed, hdeleting.phase.first, hs.relative, ⟨identity, hidentity, hbound⟩, ?_⟩
          unfold listing
          rw [hdeleting.phase.recorded]
          exact hdeleting.gone
        · cases result with
          | ok _ => exact guards_pure fun _ _ => trivial
          | error error =>
            refine guards_then (fun _ _ => True) (guards_ask (fun _ _ => trivial)
              fun _ _ _ _ => trivial) fun opened => ?_
            exact guards_then (fun _ _ => True) (guards_modify (fun s hs => hs.holding opened.isOk)
              fun _ _ => trivial) fun _ => guards_exit
    · exact guards_exit

/-- Only an owner whose identity is known gets past the first observation. -/
theorem guards_beginCleanup :
    Guards owner (Phase (none, [])) beginCleanup fun _ past =>
      Phase (none, []) past ∧ owner.identity.isSome := by
  refine guards_get fun s hs => ?_
  split
  · exact guards_exit
  · refine guards_then (fun _ => Phase (none, []))
      (guards_checkDeadline fun past hpast s now => hpast.elapsed s now) fun _ => ?_
    split
    · exact guards_exit
    · refine guards_then (fun _ => Phase (none, [])) (guards_ask (fun _ _ => trivial)
        fun past hpast s' answer => hpast.snoc ⟨(s', .observe s.relative), answer⟩ id)
        fun answer => ?_
      cases answer with
      | error error => exact guards_error
      | ok named =>
        refine guards_ok ?_
        split
        · rename_i hmatches
          obtain ⟨identity, hidentity, -⟩ := (Option.any_eq_true _ _).mp hmatches
          rw [hs.identity] at hidentity
          exact guards_pure fun past hpast => ⟨hpast, by rw [hidentity]; rfl⟩
        · exact guards_exit

theorem guards_cleanupInner (bound : Nat) :
    Guards owner (Phase (none, [])) (cleanupInner bound) fun _ _ => True := by
  refine guards_get fun s hs => ?_
  split
  · rename_i harmed
    rw [hs.cleanupArmed] at harmed
    refine guards_then _ guards_beginCleanup fun _ => ?_
    by_cases hknown : owner.identity.isSome
    · dsimp only
      split
      · exact guards_then (fun _ => Emptied) (guards_weaken (guards_emptyChild harmed hknown bound)
          fun past hpast => hpast.1) fun _ => guards_deleteRoot harmed
      · exact guards_weaken (guards_deleteRoot harmed) fun past hpast => ⟨[], hpast.1, nofun⟩
    · exact .vacuous fun _ _ hs => hknown hs.2.2
  · exact guards_pure fun _ _ => trivial

end Guards

end LocalFiles.Staged
