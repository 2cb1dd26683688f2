import LocalFiles.Temp.DirectoryAuthority
import LocalFiles.Temp.FileAuthority

/-!
# Temp.Lifecycle — a temporary resource from its creation to its end

An owner makes one request after the other; a failed publication or sealing hands the resource
back, so that the next request can follow.  In every such session the entry is moved at most once
and nothing is renamed or removed that is not owned.
-/

namespace LocalFiles.Temp

open Interaction

/-! ## 1. Sessions -/

/-- What the owner holds: the resource itself, a sealed file, or nothing any more. -/
inductive Owner where
  | writer | sealed | nobody
  deriving DecidableEq, Repr

/-- A type of resource with its requests.  `failure` is the publication error of a reply. -/
structure Service (ρ : Type) where
  Request : Type
  Reply : Type
  offered : Owner → Request → Prop
  run : Request → TempM ρ Empty Reply
  next : Owner → Request → Reply → Owner
  failure : Reply → Option LocalPersistError

/-- One request with its calls, its reply and the resource after it. -/
structure Turn {ρ : Type} (S : Service ρ) where
  request : S.Request
  calls : TempHistory ρ
  reply : S.Reply
  after : LocalTemp ρ

inductive Session {ρ : Type} (S : Service ρ) : Owner → LocalTemp ρ → List (Turn S) → Prop
  | stop {owner s} : Session S owner s []
  | turn {owner s} {t : Turn S} {turns} : S.offered owner t.request →
    (S.run t.request).Runs s t.calls (.ok t.reply) t.after →
    Session S (S.next owner t.request t.reply) t.after turns → Session S owner s (t :: turns)

section Sessions

variable {ρ : Type} {S : Service ρ}

def history (turns : List (Turn S)) : TempHistory ρ := turns.flatMap (·.calls)

/-- The states of the core, at every call and after every request. -/
def states (turns : List (Turn S)) : List LocalTempResourceState :=
  turns.flatMap fun t => t.calls.map (·.call.1.core.state) ++ [t.after.core.state]

@[simp] theorem history_nil : history ([] : List (Turn S)) = [] := rfl

@[simp] theorem history_cons (t : Turn S) (turns : List (Turn S)) :
    history (t :: turns) = t.calls ++ history turns := List.flatMap_cons

@[simp] theorem states_nil : states ([] : List (Turn S)) = [] := rfl

@[simp] theorem states_cons (t : Turn S) (turns : List (Turn S)) :
    states (t :: turns) =
      t.calls.map (·.call.1.core.state) ++ [t.after.core.state] ++ states turns := List.flatMap_cons

end Sessions

/-! ## 2. The rules of a session -/

/-- What a removal is about, and the identity check that comes before it: the entry itself, checked
    by the very last call, or something that the running recursive deletion of the entry found. -/
def Checked {ρ : Type} (owner : LocalTempResourceCore) (before : TempHistory ρ) : TempCall → Prop
  | .removeFile _ path => path = owner.sourcePath ∧ JustMatched owner before
  | .tree c => DeletingMatched owner before c
  | _ => False

/-- The call moves the entry of `owner`. -/
def FromSource (owner : LocalTempResourceCore) : TempCall → Prop
  | .rename _ source _ => source = owner.sourcePath
  | _ => False

/-- The call removes the sandbox of `owner`. -/
def OfSandbox (owner : LocalTempResourceCore) : TempCall → Prop
  | .removeSandbox _ path => path = owner.sandboxPath
  | _ => False

/-- The entry of `owner` is moved once at most, and only what is owned is touched. -/
structure ReleasedOnce {ρ : Type} (owner : LocalTempResourceCore) (writable : ρ → Prop)
    (calls : TempHistory ρ) : Prop where
  once : ∀ before ev after, calls = before ++ ev :: after → TookEffect ev →
    ∀ later ∈ after, ¬ later.call.2.IsRename ∧ ¬ later.call.2.IsRemoval
  removal : ∀ before ev after, calls = before ++ ev :: after → ev.call.2.IsRemoval →
    ev.call.1.core.state = .owned ∧ Checked owner before ev.call.2
  lost : ∀ ev ∈ calls, ev.call.1.core.state = .indeterminate →
    ¬ ev.call.2.IsRename ∧ ¬ ev.call.2.IsRemoval ∧ ¬ ev.call.2.IsSandboxRemoval
  sandbox : ∀ before ev after, calls = before ++ ev :: after → ev.call.2.IsSandboxRemoval →
    OfSandbox owner ev.call.2 ∧
    ∃ released ∈ before, RenameSucceeded owner released ∨ RemovalSucceeded owner released
  renamed : ∀ ev ∈ calls, ev.call.2.IsRename → ev.call.1.core.state = .owned ∧
    FromSource owner ev.call.2 ∧ writable ev.call.1.own

/-- An error says no more about the publication than the calls of its own request bear out. -/
def HonestReports {ρ : Type} {S : Service ρ} (owner : LocalTempResourceCore)
    (turns : List (Turn S)) : Prop :=
  ∀ t ∈ turns, ∀ error, S.failure t.reply = some error →
    (error.state = .notPublished → ∀ ev ∈ t.calls, ¬ TookEffect ev) ∧
    (error.state = .published → ∃ ev ∈ t.calls, RenameSucceeded owner ev)

/-- Once the authority is lost, it stays lost. -/
def StaysLost (states : List LocalTempResourceState) : Prop :=
  states.Pairwise fun earlier later => earlier = .indeterminate → later = .indeterminate

structure WellBehaved {ρ : Type} {S : Service ρ} (owner : LocalTempResourceCore)
    (writable : ρ → Prop) (turns : List (Turn S)) : Prop where
  released : ReleasedOnce owner writable (history turns)
  honest : HonestReports owner turns
  staysLost : StaysLost (states turns)

/-- What a request leaves behind: the invariant, and a report that is true. -/
def Service.Settled {ρ : Type} (S : Service ρ) (first : LocalTempResourceCore)
    (base : TempHistory ρ) (reply : S.Reply) (past : TempHistory ρ) (s : LocalTemp ρ) : Prop :=
  Authority first past s ∧ ∀ error, S.failure reply = some error → Truthful first base error past

/-- Every request keeps the discipline and reports truthfully. -/
def Service.Sound {ρ : Type} (S : Service ρ) (writable : ρ → Prop) : Prop :=
  ∀ request first base,
    Proc.Upholds (discipline writable first) (Ready first base fun _ => True) (S.run request)
      (S.Settled first base) fun _ _ _ => True

section Rules

variable {ρ : Type} {S : Service ρ} {writable : ρ → Prop} {first core : LocalTempResourceCore}
  {state : LocalTempResourceState} {past tr : TempHistory ρ}

/-- What an operation kept that started in `state` with the coordinates of `core`. -/
theorem kept_states (hcore : core.state = .owned)
    (h : (discipline writable { core with state := state }).Kept past tr) :
    (discipline writable core).Kept past tr ∧
    (∀ ev ∈ tr, Lost { core with state := state } past → ev.call.1.core.state = .indeterminate) ∧
    StaysLost (tr.map (·.call.1.core.state)) := by
  have howned : ¬ core.state = .indeterminate := by
    rw [hcore]
    decide
  induction tr generalizing past with
  | nil => exact ⟨trivial, by simp, List.Pairwise.nil⟩
  | cons ev tr ih =>
    obtain ⟨hallowed, hrest⟩ := h
    obtain ⟨hkept, hlost, hstays⟩ := ih hrest
    have hgrow : Lost { core with state := state } past →
        Lost { core with state := state } (past ++ [ev]) :=
      .imp_right fun ⟨found, hmem, hfound⟩ => ⟨found, List.mem_append_left _ hmem, hfound⟩
    refine ⟨⟨⟨hallowed.1, fun h => hallowed.2 (.inr (h.resolve_left howned))⟩, hkept⟩, ?_, ?_⟩
    · rw [List.forall_mem_cons]
      exact ⟨hallowed.2, fun later hlater hpast => hlost later hlater (hgrow hpast)⟩
    · rw [StaysLost, List.map_cons, List.pairwise_cons]
      refine ⟨fun other hstate hev => ?_, hstays⟩
      obtain ⟨later, hlater, rfl⟩ := List.mem_map.mp hstate
      exact hlost later hlater (.inr ⟨ev, List.mem_append_right _ List.mem_cons_self, hev⟩)

theorem releasedOnce_of_kept (h : (discipline writable core).Kept [] tr) :
    ReleasedOnce core writable tr := by
  -- each part of the statement is read off what a single call is permitted
  have hallowed : ∀ before ev after, tr = before ++ ev :: after →
      Permitted core writable before ev.call.1 ev.call.2 := by
    rintro before ev after rfl
    exact h.allows.1
  have hmem : ∀ ev ∈ tr, ∃ before, Permitted core writable before ev.call.1 ev.call.2 := by
    intro ev hev
    obtain ⟨before, after, hsplit⟩ := List.append_of_mem hev
    exact ⟨before, hallowed before ev after hsplit⟩
  refine ⟨?_, ?_, ?_, ?_, ?_⟩
  · rintro before ev after rfl hev later hlater
    obtain ⟨middle, rest, rfl⟩ := List.append_of_mem hlater
    have hpermitted := hallowed (before ++ ev :: middle) later rest (by simp)
    have hpast : ev ∈ before ++ ev :: middle := List.mem_append_right _ List.mem_cons_self
    obtain ⟨⟨s, c⟩, answer⟩ := later
    constructor
    · intro hrename
      cases c <;> first | exact absurd hrename id | exact hpermitted.2.2.2 ev hpast hev
    · intro hremoval
      cases c <;>
        first
        | exact absurd hremoval id
        | exact hpermitted.2.2.2 ev hpast hev
        | exact hpermitted.2.2 ev hpast hev
  · intro before ev after hsplit hremoval
    have hpermitted := hallowed before ev after hsplit
    obtain ⟨⟨s, c⟩, answer⟩ := ev
    cases c <;>
      first
      | exact absurd hremoval id
      | exact ⟨hpermitted.1, hpermitted.2.1, hpermitted.2.2.1⟩
      | exact ⟨hpermitted.1, hpermitted.2.1⟩
  · intro ev hev hlost
    obtain ⟨before, hpermitted⟩ := hmem ev hev
    obtain ⟨⟨s, c⟩, answer⟩ := ev
    have hstate : s.core.state = .indeterminate := hlost
    cases c <;>
      first
      | exact ⟨id, id, id⟩
      | (have hcall := hpermitted.1
         rw [hstate] at hcall
         cases hcall)
  · intro before ev after hsplit hsandbox
    have hpermitted := hallowed before ev after hsplit
    obtain ⟨⟨s, c⟩, answer⟩ := ev
    cases c <;> first | exact absurd hsandbox id | exact hpermitted.2
  · intro ev hev hrename
    obtain ⟨before, hpermitted⟩ := hmem ev hev
    obtain ⟨⟨s, c⟩, answer⟩ := ev
    cases c <;> first | exact absurd hrename id | exact ⟨hpermitted.1, hpermitted.2.1, hpermitted.2.2.1⟩

/-- One request, from a state that agrees with the calls so far. -/
theorem turn_wellBehaved (hS : S.Sound writable) (hcore : core.state = .owned) {s : LocalTemp ρ}
    {t : Turn S} (hruns : (S.run t.request).Runs s t.calls (.ok t.reply) t.after)
    (hfair : ∀ ev ∈ t.calls, FairRename ev) (hpast : Authority core past s) :
    (discipline writable core).Kept past t.calls ∧ Authority core (past ++ t.calls) t.after ∧
    HonestReports core [t] ∧ StaysLost (states [t]) ∧
    (s.core.state = .indeterminate → ∀ state ∈ states [t], state = .indeterminate) := by
  have howned : ¬ core.state = .indeterminate := by
    rw [hcore]
    decide
  have hstart : Ready { core with state := s.core.state } past (fun _ => True) past s := by
    refine ⟨⟨hpast.untouched, hpast.gone, ?_, hpast.place⟩,
      ⟨[], (List.append_nil past).symm, by simp⟩, trivial⟩
    rintro (h | h)
    · exact h
    · exact hpast.lost (.inr h)
  obtain ⟨hkept, hreply, -⟩ := hS t.request { core with state := s.core.state } past past s t.calls
    _ t.after hstart hruns hfair
  obtain ⟨hafter, htruth⟩ := hreply t.reply rfl
  obtain ⟨hkept, hlost, hstays⟩ := kept_states hcore hkept
  -- once the name is lost it stays lost to the end of the turn
  have hfinal : ∀ ev ∈ t.calls, ev.call.1.core.state = .indeterminate →
      t.after.core.state = .indeterminate := fun ev hev hstate =>
    hafter.lost (.inr ⟨ev, List.mem_append_right _ hev, hstate⟩)
  have hstates : states [t] = t.calls.map (·.call.1.core.state) ++ [t.after.core.state] := by
    rw [states_cons, states_nil, List.append_nil]
  refine ⟨hkept, ⟨hafter.untouched, hafter.gone, fun h => hafter.lost ?_, hafter.place⟩,
    ?_, ?_, ?_⟩
  · exact .inr (h.resolve_left howned)
  · intro t' ht' error herror
    rw [List.mem_singleton] at ht'
    subst ht'
    have htruth := htruth error herror
    refine ⟨fun h => ?_, fun h => ?_⟩
    · obtain ⟨now, hnow, hunmoved⟩ := htruth.notPublished h
      rw [List.append_cancel_left hnow]
      exact hunmoved
    · obtain ⟨now, hnow, hmoved⟩ := htruth.published h
      rw [List.append_cancel_left hnow]
      exact hmoved
  · rw [hstates, StaysLost, List.pairwise_append]
    refine ⟨hstays, List.pairwise_singleton _ _, fun state hstate final hmem => ?_⟩
    obtain ⟨ev, hev, rfl⟩ := List.mem_map.mp hstate
    rw [List.mem_singleton] at hmem
    subst hmem
    exact hfinal ev hev
  · intro hs
    rw [hstates, List.forall_mem_append, List.forall_mem_singleton]
    refine ⟨fun state hstate => ?_, hafter.lost (.inl hs)⟩
    obtain ⟨ev, hev, rfl⟩ := List.mem_map.mp hstate
    exact hlost ev hev (.inl hs)

/-- The turns of a session, by induction on it: the history of the earlier turns is `past`. -/
theorem session_wellBehaved (hS : S.Sound writable) (hcore : core.state = .owned) {owner : Owner} {s : LocalTemp ρ}
    {turns : List (Turn S)} (h : Session S owner s turns)
    (hfair : ∀ ev ∈ history turns, FairRename ev) (hpast : Authority core past s) :
    (discipline writable core).Kept past (history turns) ∧ HonestReports core turns ∧
    StaysLost (states turns) ∧
    (s.core.state = .indeterminate → ∀ state ∈ states turns, state = .indeterminate) := by
  induction h generalizing past with
  | stop =>
    refine ⟨trivial, ?_, List.Pairwise.nil, ?_⟩
    · rintro t ⟨⟩
    · rintro - state ⟨⟩
  | @turn owner s t turns hoffered hruns hsession ih =>
    rw [history_cons, List.forall_mem_append] at hfair
    obtain ⟨hkept, hauthority, hreport, hstays, hstart⟩ := turn_wellBehaved hS hcore hruns hfair.1 hpast
    obtain ⟨hkept', hreports, hstays', hrest⟩ := ih hfair.2 hauthority
    have hsplit : states (t :: turns) = states [t] ++ states turns := by
      rw [states_cons, states_cons, states_nil, List.append_nil]
    have hafter : t.after.core.state ∈ states [t] := by
      rw [states_cons, states_nil, List.append_nil]
      exact List.mem_append_right _ List.mem_cons_self
    have hlast : ∀ state ∈ states [t], state = .indeterminate →
        t.after.core.state = .indeterminate := by
      intro state hstate
      rw [states_cons, states_nil, List.append_nil] at hstate hstays
      have hpairs := (List.pairwise_append.mp hstays).2.2
      rw [List.mem_append, List.mem_singleton] at hstate
      cases hstate with
      | inl hcall => exact hpairs state hcall _ List.mem_cons_self
      | inr heq => exact fun h => heq ▸ h
    rw [history_cons, hsplit]
    refine ⟨Proc.Discipline.kept_append.mpr ⟨hkept, hkept'⟩, ?_, ?_, fun hs => ?_⟩
    · intro t' ht'
      rw [List.mem_cons] at ht'
      cases ht' with
      | inl heq => exact hreport t' (List.mem_singleton.mpr heq)
      | inr hmem => exact hreports t' hmem
    · rw [StaysLost, List.pairwise_append]
      exact ⟨hstays, hstays', fun state hstate later hlater hlost =>
        hrest (hlast state hstate hlost) later hlater⟩
    · rw [List.forall_mem_append]
      exact ⟨hstart hs, hrest (hstart hs _ hafter)⟩

/-- A session that starts with a resource still owned. -/
theorem wellBehaved_of_sound (hS : S.Sound writable) {owner : Owner} {s : LocalTemp ρ}
    {turns : List (Turn S)} (h : Session S owner s turns) (hs : s.core.state = .owned)
    (hfair : ∀ ev ∈ history turns, FairRename ev) : WellBehaved s.core writable turns := by
  have hstart : Authority s.core [] s := by
    refine ⟨fun _ => by simp, ?_, ?_, rfl⟩
    · rw [hs]
      rintro (h | h) <;> cases h
    · rintro (h | ⟨ev, hmem, -⟩)
      · exact h
      · cases hmem
  obtain ⟨hkept, hhonest, hstays, -⟩ := session_wellBehaved hS hs h hfair hstart
  exact ⟨releasedOnce_of_kept hkept, hhonest, hstays⟩

theorem settled_of_ready {base : TempHistory ρ} (reply : S.Reply) (hreply : S.failure reply = none)
    {s : LocalTemp ρ} (hs : Ready first base (fun _ => True) past s) :
    S.Settled first base reply past s := by
  refine ⟨hs.authority, fun error herror => ?_⟩
  rw [hreply] at herror
  cases herror

/-- A cleanup after a publication starts an account of its own. -/
theorem upholds_again {ε α : Type} {t : TempM ρ ε α}
    (ht : ∀ base, Proc.Upholds (discipline writable first) (Ready first base fun _ => True) t
      (fun _ => Ready first base fun _ => True) (fun _ => Ready first base fun _ => True)) :
    Proc.Upholds (discipline writable first) (Authority first) t (fun _ => Authority first)
      (fun _ => Authority first) := by
  intro past s tr r s' hs hruns hfair
  have hready : Ready first past (fun _ => True) past s :=
    ⟨hs, ⟨[], (List.append_nil past).symm, by simp⟩, trivial⟩
  obtain ⟨hkept, hpost, hleave⟩ := ht past past s tr r s' hready hruns hfair
  exact ⟨hkept, fun a ha => (hpost a ha).authority, fun e he => (hleave e he).authority⟩

end Rules

/-! ## 3. Temporary files -/

inductive FileRequest where
  | sealWithOptions (options : LocalSealOptions)
  | persistWith (target : Path) (options : LocalPersistOptions)
  | persistAt (base target : Path) (options : LocalPersistOptions)
  | keep | close | cleanup | drop
  deriving DecidableEq, Repr

inductive FileReply where
  | sealed (result : Except LocalTempSealError Unit)
  | persisted (result : Except LocalPersistError LocalPersistOutcome)
  | cleaned (result : Except LocalFileError Unit)
  | done

section Files

variable (platform : Platform)

/-- A publication consumes the file: it is dropped at the end, or handed back in the error. -/
def consumeFile (publication : FileM LocalPersistError LocalPersistOutcome) :
    FileM Empty FileReply := do
  match ← publication.outcome with
  | .ok outcome => do
    drop platform
    pure (.persisted (.ok outcome))
  | .error error => pure (.persisted (.error error))

def FileRequest.run : FileRequest → FileM Empty FileReply
  | .sealWithOptions options => do
    let result ← (Temp.sealWithOptions platform options).outcome
    pure (.sealed result)
  | .persistWith target options => consumeFile platform (Temp.persistWith target options)
  | .persistAt base target options => consumeFile platform (Temp.persistAt base target options)
  | .keep => consumeFile platform Temp.keep
  | .close => do
    Temp.close
    pure .done
  | .cleanup => do
    let result ← (Temp.cleanup platform).outcome
    pure (.cleaned result)
  | .drop => do
    Temp.drop platform
    pure .done

/-- A sealed file can only be cleaned up and dropped. -/
def FileRequest.offered : Owner → FileRequest → Prop
  | .writer, _ => True
  | .sealed, .cleanup | .sealed, .drop => True
  | _, _ => False

def FileRequest.next : Owner → FileRequest → FileReply → Owner
  | _, _, .sealed (.ok _) => .sealed
  | _, _, .persisted (.ok _) => .nobody
  | _, .drop, _ => .nobody
  | owner, _, _ => owner

def FileReply.failure : FileReply → Option LocalPersistError
  | .persisted (.error error) => some error
  | _ => none

def fileService : Service FileFields where
  Request := FileRequest
  Reply := FileReply
  offered := FileRequest.offered
  run := FileRequest.run platform
  next := FileRequest.next
  failure := FileReply.failure

variable {platform} {first : LocalTempResourceCore} {base : TempHistory FileFields}

theorem upholds_consumeFile {publication : FileM LocalPersistError LocalPersistOutcome}
    (h : FileUpholds first (Ready first base Any) publication (fun _ => Done first base)
      (Failed first base)) :
    FileUpholds first (Ready first base Any) (consumeFile platform publication)
      ((fileService platform).Settled first base) (fun _ _ _ => True) := by
  refine .bind h.outcome fun result => ?_
  cases result with
  | ok outcome =>
    refine .through (fun _ => Authority first) ?_ fun _ => .pure fun past s hs => ⟨hs, ?_⟩
    · refine (upholds_again fun base => upholds_drop).weaken (fun _ _ hs => hs.1)
        (fun _ _ _ hs => hs) fun _ _ _ _ => trivial
    · rintro error ⟨⟩
  | error error =>
    refine .pure fun past s hs => ⟨hs.authority, ?_⟩
    rintro error' ⟨⟩
    exact hs.truthful

theorem fileService_sound : (fileService platform).Sound Writable := by
  intro request first base
  cases request with
  | sealWithOptions options =>
    refine .bind upholds_sealWithOptions.outcome fun result => .pure fun past s hs =>
      settled_of_ready (S := fileService platform) (.sealed result) rfl ?_
    cases result with
    | ok u => exact hs
    | error error => exact hs
  | persistWith target options => exact upholds_consumeFile upholds_persistWithPath
  | persistAt directory target options => exact upholds_consumeFile upholds_persistAt
  | keep => exact upholds_consumeFile upholds_keep
  | close =>
    exact .bind (upholds_setFile ignoresHandle_any none) fun _ =>
      .pure fun past s hs => settled_of_ready (S := fileService platform) .done rfl hs
  | cleanup =>
    refine .bind upholds_cleanup.outcome fun result => .pure fun past s hs =>
      settled_of_ready (S := fileService platform) (.cleaned result) rfl ?_
    cases result with
    | ok u => exact hs
    | error error => exact hs
  | drop =>
    exact .bind upholds_drop fun _ => .pure fun past s hs => settled_of_ready (S := fileService platform) .done rfl hs

end Files

/-! ## 4. Temporary directories -/

inductive DirectoryRequest where
  | persistWith (target : Path) (options : LocalPersistOptions)
  | persistAt (base target : Path) (options : LocalPersistOptions)
  | keep
  | setCleanupLimits (limits : LocalTempCleanupLimits)
  | cleanup | drop
  deriving DecidableEq, Repr

inductive DirectoryReply where
  | persisted (result : Except LocalPersistError LocalPersistOutcome)
  | cleaned (result : Except (Option (Halt LocalFileError)) Unit)
  | done

section Directories

variable [QubitBudget] (encodedLen : Path → UInt64) (bound : Nat)

def consumeDirectory (publication : DirectoryM LocalPersistError LocalPersistOutcome) :
    DirectoryM Empty DirectoryReply := do
  match ← publication.outcome with
  | .ok outcome => do
    let _ ← (dropDirectory encodedLen bound).outcome
    pure (.persisted (.ok outcome))
  | .error error => pure (.persisted (.error error))

def DirectoryRequest.run : DirectoryRequest → DirectoryM Empty DirectoryReply
  | .persistWith target options =>
    consumeDirectory encodedLen bound (persistDirectoryWith target options)
  | .persistAt base target options =>
    consumeDirectory encodedLen bound (persistDirectoryAt base target options)
  | .keep => consumeDirectory encodedLen bound keepDirectory
  | .setCleanupLimits limits => do
    Temp.setCleanupLimits limits
    pure .done
  | .cleanup => do
    let result ← (cleanupDirectory encodedLen bound).outcome
    pure (.cleaned result)
  | .drop => do
    let result ← (dropDirectory encodedLen bound).outcome
    pure (.cleaned result)

def DirectoryRequest.offered : Owner → DirectoryRequest → Prop
  | .writer, _ => True
  | _, _ => False

/-- A cleanup that does not return is the last request considered. -/
def DirectoryRequest.next : Owner → DirectoryRequest → DirectoryReply → Owner
  | _, _, .persisted (.ok _) => .nobody
  | _, _, .cleaned (.error none) | _, _, .cleaned (.error (some (.panic _))) => .nobody
  | _, .drop, _ => .nobody
  | owner, _, _ => owner

def DirectoryReply.failure : DirectoryReply → Option LocalPersistError
  | .persisted (.error error) => some error
  | _ => none

def directoryService : Service DirectoryFields where
  Request := DirectoryRequest
  Reply := DirectoryReply
  offered := DirectoryRequest.offered
  run := DirectoryRequest.run encodedLen bound
  next := DirectoryRequest.next
  failure := DirectoryReply.failure

variable {encodedLen bound} {first : LocalTempResourceCore} {base : TempHistory DirectoryFields}

theorem upholds_consumeDirectory
    {publication : DirectoryM LocalPersistError LocalPersistOutcome}
    (h : DirectoryUpholds first (Ready first base AnyDirectory) publication
      (fun _ past s => Authority first past s ∧ Moved first base past ∧ s.core.state = .released)
      (Failed first base)) :
    DirectoryUpholds first (Ready first base AnyDirectory)
      (consumeDirectory encodedLen bound publication)
      ((directoryService encodedLen bound).Settled first base) (fun _ _ _ => True) := by
  refine .bind h.outcome fun result => ?_
  cases result with
  | ok outcome =>
    have hdrop : DirectoryUpholds first (Authority first) (dropDirectory encodedLen bound)
        (fun _ => Authority first) (fun _ => Authority first) :=
      upholds_again fun base => upholds_dropDirectory
    refine .bind (hdrop.outcome.before fun _ _ hs => hs.1) fun dropped => .pure fun past s hs => ⟨?_, ?_⟩
    · cases dropped with
      | ok u => exact hs
      | error error => exact hs
    · rintro error ⟨⟩
  | error error =>
    refine .pure fun past s hs => ⟨hs.authority, ?_⟩
    rintro error' ⟨⟩
    exact hs.truthful

theorem directoryService_sound : (directoryService encodedLen bound).Sound fun _ => True := by
  intro request first base
  cases request with
  | persistWith target options => exact upholds_consumeDirectory upholds_persistDirectoryWithPath
  | persistAt directory target options => exact upholds_consumeDirectory upholds_persistDirectoryAt
  | keep => exact upholds_consumeDirectory upholds_keepDirectory
  | setCleanupLimits limits =>
    exact .bind upholds_setCleanupLimits fun _ =>
      .pure fun past s hs =>
        settled_of_ready (S := directoryService encodedLen bound) .done rfl hs
  | cleanup =>
    refine .bind upholds_cleanupDirectory.outcome fun result => .pure fun past s hs =>
      settled_of_ready (S := directoryService encodedLen bound) (.cleaned result) rfl ?_
    cases result with
    | ok u => exact hs
    | error error => exact hs
  | drop =>
    refine .bind upholds_dropDirectory.outcome fun result => .pure fun past s hs =>
      settled_of_ready (S := directoryService encodedLen bound) (.cleaned result) rfl ?_
    cases result with
    | ok u => exact hs
    | error error => exact hs

end Directories

/-! ## 5. Every session -/

/-- Temporary files and directories, on both authorities and through every sequence of requests. -/
theorem temporary_resources_released_once [QubitBudget] :
    (∀ platform path backend policy directory file identity
        (turns : List (Turn (fileService platform))),
      Session (fileService platform) .writer
        (LocalTempFile.new path backend policy directory file identity) turns →
      (∀ ev ∈ history turns, FairRename ev) →
      WellBehaved (LocalTempFile.new path backend policy directory file identity).core Writable
        turns) ∧
    ∀ encodedLen bound path backend policy directory
        (turns : List (Turn (directoryService encodedLen bound))),
      Session (directoryService encodedLen bound) .writer
        (LocalTempDirectory.new path backend policy directory) turns →
      (∀ ev ∈ history turns, FairRename ev) →
      WellBehaved (LocalTempDirectory.new path backend policy directory).core (fun _ => True)
        turns := by
  constructor
  · intro platform path backend policy directory file identity turns hsession hfair
    exact wellBehaved_of_sound fileService_sound hsession rfl hfair
  · intro encodedLen bound path backend policy directory turns hsession hfair
    exact wellBehaved_of_sound directoryService_sound hsession rfl hfair

section Sample

open scoped QubitBudget

/-- The entry is found, renames fail but may have moved it, and everything else succeeds. -/
def sampleAnswer {ρ : Type} (c : LocalTemp ρ × TempCall) : c.2.Result :=
  match c.2 with
  | .identityAt _ => (.ok ⟨1, 7⟩ : IoResult LocalFileIdentity)
  | .symlinkMetadata _ => (.ok ⟨.directory, some ⟨1, 7⟩⟩ : IoResult Metadata)
  | .identityOfFile _ => (.ok ⟨1, 7⟩ : IoResult LocalFileIdentity)
  | .metadataOfFile _ => (.ok ⟨.file, some ⟨1, 7⟩⟩ : IoResult Metadata)
  | .queryObservation _ => (.ok (some ⟨1, 7⟩) : Except LocalFileError (Option LocalFileIdentity))
  | .syncAll _ => (.ok () : IoResult Unit)
  | .applyCurrentUserAccess _ => (.ok () : IoResult Unit)
  | .openReader _ _ => (.ok 4 : IoResult File)
  | .openProbeFile _ => (.ok 4 : IoResult File)
  | .openExistingFileForSecurity _ _ => (.ok 5 : IoResult File)
  | .supportsDurableTempFilePersist _ => true
  | .elapsed => (0 : Nat)
  | .preparePersistTarget _ _ target =>
    (.ok ⟨target, target, false⟩ : Except LocalFileError LocalNamespacePath)
  | .validatePersistBase _ _ _ => (.ok () : Except LocalFileError Unit)
  | .relativePath path => (.ok path : IoResult Path)
  | .resolvePath _ path _ => (.ok path : Except LocalFileError Path)
  | .prepareParent _ _ _ => (.ok [] : IoResult (List Path))
  | .rename _ _ _ => (⟨.error ⟨.permissionDenied, "", none⟩, true⟩ : RenameAnswer)
  | .syncParentDir _ _ => (.ok () : IoResult Unit)
  | .removeFile _ _ => (.ok () : IoResult Unit)
  | .removeSandbox _ _ => (.ok () : IoResult Unit)
  | .tree (.metadata _) => (.ok ⟨.directory, none⟩ : Except Delete.DeleteSource Metadata)
  | .tree (.openDirectory _) => (.ok 6 : Except Delete.DeleteSource File)
  | .tree (.nextChild _ reader) => (⟨.ok none, reader⟩ : Except Delete.DeleteSource (Option Path) × File)
  | .tree (.removeNonDirectory _ _) => (.ok () : Except Delete.DeleteSource Unit)
  | .tree (.removeEmptyDirectory _) => (.ok () : Except Delete.DeleteSource Unit)
  | .tree (.beforeRemove _) => (.ok () : Except Delete.DeleteSource Unit)
  | .tree .elapsed => (0 : Nat)
  | .tree (.discover _) => ()

/-- The turn that the sample answers lead to. -/
def sampleTurn {ρ : Type} (S : Service ρ) (s : LocalTemp ρ) (request : S.Request) : Turn S :=
  let run := (S.run request).exec (fun _ => sampleAnswer) s []
  { request := request
    calls := run.1
    reply := match run.2.1 with
      | .ok reply => reply
      | .error impossible => impossible.elim
    after := run.2.2 }

variable {ρ : Type} {S : Service ρ}

theorem sampleTurn_runs (s : LocalTemp ρ) (request : S.Request) :
    (S.run request).Runs s (sampleTurn S s request).calls (.ok (sampleTurn S s request).reply)
      (sampleTurn S s request).after := by
  have hruns := Proc.exec_runs (fun _ => sampleAnswer) (S.run request) s
  unfold sampleTurn
  dsimp only
  cases hresult : ((S.run request).exec (fun _ => sampleAnswer) s []).2.1 with
  | error impossible => exact impossible.elim
  | ok reply => rwa [hresult] at hruns

theorem sampleTurn_fair (s : LocalTemp ρ) (request : S.Request) :
    ∀ ev ∈ (sampleTurn S s request).calls, FairRename ev := by
  intro ev hev
  have hanswer := Prog.exec_answers sampleAnswer (S.run request s) [] (by simp) ev hev
  obtain ⟨⟨s', c⟩, answer⟩ := ev
  have hanswer : answer = sampleAnswer (s', c) := hanswer
  subst hanswer
  cases c <;> first | trivial | skip
  intro error herror hkind
  cases Except.error.inj herror
  cases hkind

def sampleFile : LocalTempFile :=
  .new ["tmp", "sandbox", "file"] (.host ⟨1, 7⟩ ["tmp", "sandbox"]) .reject none 3 (some ⟨1, 7⟩)

def sampleDirectory : LocalTempDirectory :=
  .new ["tmp", "sandbox", "directory"]
    (.rooted ⟨.directory, some ⟨1, 7⟩⟩ ["tmp", "sandbox", "directory"] ["tmp", "sandbox"]) .reject none

/-- A publication whose rename fails after it has moved the file, and a cleanup after it. -/
def sampleFileTurns : List (Turn (fileService .unix)) :=
  let persisted := sampleTurn (fileService .unix) sampleFile (FileRequest.persistWith ["target"] {})
  [persisted, sampleTurn (fileService .unix) persisted.after FileRequest.cleanup]

def sampleDirectoryTurns : List (Turn (directoryService (fun _ => 1) 3)) :=
  [sampleTurn (directoryService (fun _ => 1) 3) sampleDirectory DirectoryRequest.cleanup]

theorem sampleFileTurns_session : Session (fileService .unix) .writer sampleFile sampleFileTurns :=
  .turn trivial (sampleTurn_runs _ _) (.turn trivial (sampleTurn_runs _ _) .stop)

theorem sampleDirectoryTurns_session :
    Session (directoryService (fun _ => 1) 3) .writer sampleDirectory sampleDirectoryTurns :=
  .turn trivial (sampleTurn_runs _ _) .stop

/-- The file ends indeterminate after both requests; the directory is released. -/
theorem temporary_resources_released_once_sample :
    sampleFileTurns.map (·.after.core.state) = [.indeterminate, .indeterminate] ∧
    sampleDirectoryTurns.map (·.after.core.state) = [.released] ∧
    WellBehaved sampleFile.core Writable sampleFileTurns ∧
    WellBehaved sampleDirectory.core (fun _ => True) sampleDirectoryTurns := by
  refine ⟨rfl, rfl, ?_, ?_⟩
  · apply temporary_resources_released_once.1 _ _ _ _ _ _ _ _ sampleFileTurns_session
    rw [sampleFileTurns, history_cons, history_cons, history_nil, List.append_nil,
      List.forall_mem_append]
    exact ⟨sampleTurn_fair _ _, sampleTurn_fair _ _⟩
  · apply temporary_resources_released_once.2 _ _ _ _ _ _ _ sampleDirectoryTurns_session
    rw [sampleDirectoryTurns, history_cons, history_nil, List.append_nil]
    exact sampleTurn_fair _ _

end Sample

end LocalFiles.Temp
