import LocalFiles.Conditional.Unix
import LocalFiles.Conditional.Trace

/-!
# UnixMethods — what the methods of the Unix backend do to the staging name

The recovery files of a failed commit come from the entries the protocol keeps, from the native
receipts and from a last look at the staging name.  Which of them name the staging entry depends
on where the candidate is in the directory, so each method of the backend is described by what it
does to the staging name and by the paths of the entries it returns.
-/

namespace LocalFiles.Conditional.Unix

open Interaction Atomic

variable {I : Type}

/-! ## 1. The methods that change no name -/

/-- The program changes no name of the directory. -/
def Observes {α : Type} (p : UnixM I α) : Prop := p.Makes fun c => c.mutates = false

theorem observes_pure {α : Type} (a : α) : Observes (pure a : UnixM I α) := trivial

theorem observes_native {c : Syscall String I (FileCall I)} (hc : c.mutates = false) :
    Observes (native c) := Prog.makes_request.mpr hc

theorem observes_fileCall (o : FileCall I) : Observes (fileCall o) := observes_native rfl

theorem Observes.andThen {ε α β : Type} {p : UnixM I (Except ε α)}
    {f : α → UnixM I (Except ε β)} (hp : Observes p) (hf : ∀ a, Observes (f a)) :
    Observes (p.andThen f) := Prog.Makes.andThen hp hf

theorem Observes.bind {α β : Type} {p : UnixM I α} {f : α → UnixM I β} (hp : Observes p)
    (hf : ∀ a, Observes (f a)) : Observes (p >>= f) := Prog.Makes.bind hp hf

theorem observes_identityAt (name : String) : Observes (identityAt name : UnixM I _) :=
  (observes_native rfl).andThen fun _ => observes_pure _

theorem observes_fileIdentity (file : I) : Observes (fileIdentity file) :=
  (observes_native rfl).andThen fun _ => observes_pure _

theorem observes_entry (space : Namespace I) (role : LocalRecoveryFileRole) (name : String) :
    Observes (space.entry role name) :=
  (observes_identityAt name).andThen fun _ =>
    (observes_fileCall _).andThen fun _ => observes_pure _

theorem observes_openRegularAt (name : String) : Observes (openRegularAt name : UnixM I _) := by
  apply (observes_native rfl).andThen
  intro file
  apply (observes_native rfl).andThen
  intro status
  split
  · exact observes_pure _
  · exact observes_pure _

theorem observes_syncDirectories (directories : List I) :
    Observes (UnixConditionalBackend.syncDirectories directories) := by
  induction directories with
  | nil => exact observes_pure _
  | cons directory rest ih => exact (observes_fileCall _).andThen fun _ => ih

variable [DecidableEq I]

theorem observes_openFile (access : EntryAccess I) : Observes access.openFile := by
  apply (observes_native rfl).andThen
  intro file
  apply (observes_native rfl).andThen
  intro status
  split
  · exact observes_pure _
  · exact (observes_fileCall _).andThen fun _ => observes_pure _

theorem observes_openReader (access : EntryAccess I) : Observes access.openReader := by
  apply (observes_openFile access).bind
  intro opened
  cases opened with
  | error error => exact observes_pure _
  | ok file => exact observes_pure _

theorem observes_reopen (entry : UnixEntry I) : Observes (reopen entry) := by
  apply (observes_openReader entry.access).bind
  intro opened
  cases opened with
  | error error => exact observes_pure _
  | ok file => exact observes_pure _

theorem observes_entryIdentity (entry : UnixEntry I) : Observes (entryIdentity entry) :=
  (observes_reopen entry).andThen fun file => observes_fileIdentity file

theorem observes_verify (entry : UnixEntry I) : Observes (verify entry) :=
  (observes_entryIdentity entry).andThen fun _ => observes_pure _

theorem observes_observedIdentity (entry : Option (UnixEntry I)) :
    Observes (observedIdentity entry) := by
  cases entry with
  | none => exact observes_pure _
  | some entry => exact (observes_entryIdentity entry).bind fun _ => observes_pure _

theorem observes_syncFile (access : EntryAccess I) : Observes access.syncFile := by
  apply (observes_native rfl).andThen
  intro file
  apply (observes_native rfl).andThen
  intro status
  split
  · exact observes_pure _
  · exact observes_fileCall _

namespace UnixConditionalBackend

variable (b : UnixConditionalBackend I)

omit [DecidableEq I] in
theorem observes_observe (role : LocalRecoveryFileRole) (name : String) :
    Observes (b.observe role name) :=
  (observes_entry b.space role name).bind fun _ => observes_pure _

omit [DecidableEq I] in
theorem observes_observeWhen (condition : Bool) (role : LocalRecoveryFileRole) (name : String) :
    Observes (b.observeWhen condition role name) := by
  cases condition with
  | true => exact b.observes_observe role name
  | false => exact observes_pure _

theorem observes_attemptAfterExchange (error : Option IoError) :
    Observes (b.attemptAfterExchange error) := by
  apply (b.observes_observe _ _).bind
  intro installed
  apply (b.observes_observe _ _).bind
  intro displaced
  apply (observes_fileIdentity _).bind
  intro candidate
  apply (observes_observedIdentity _).bind
  intro installedIdentity
  apply (b.observes_observe _ _).bind
  intro staged
  apply (observes_observedIdentity _).bind
  intro stagedIdentity
  exact observes_pure _

theorem observes_stagedCandidateRemains : Observes b.stagedCandidateRemains := by
  apply (observes_identityAt _).bind
  intro identity
  cases identity with
  | error error => exact observes_pure _
  | ok identity =>
    apply (observes_fileIdentity _).bind
    intro candidate
    cases candidate with
    | error error => exact observes_pure _
    | ok candidate => exact observes_pure _

/-- The calls of the protocol without an effect on the namespace change no name. -/
theorem handle_observes {c : Call (EntryAccess I)} (hc : c.effect = none) :
    Observes (handle c b) := by
  cases c with
  | createCandidateCopy => cases hc
  | publishAbsent => cases hc
  | publishContent => cases hc
  | rollback displaced => cases hc
  | removeObserved entry => cases hc
  | takeRecoveryEntries =>
    apply b.observes_stagedCandidateRemains.bind
    intro remains
    exact (b.observes_observeWhen remains _ _).bind fun _ => observes_pure _
  | flush => exact (observes_fileCall _).bind fun _ => observes_pure _
  | candidate => exact observes_pure _
  | openReader entry =>
    apply (observes_openReader entry.access).bind
    intro opened
    cases opened with
    | error error => exact observes_pure _
    | ok file => exact observes_pure _
  | seekStart entry => exact (observes_fileCall _).bind fun _ => observes_pure _
  | readAll entry => exact (observes_fileCall _).bind fun _ => observes_pure _
  | checkpoint point => exact observes_pure _
  | openTarget => exact (observes_entry b.space _ _).bind fun _ => observes_pure _
  | preserveMetadata observed =>
    exact ((observes_reopen observed).andThen fun _ => observes_fileCall _).bind
      fun _ => observes_pure _
  | syncCandidate => exact (observes_fileCall _).bind fun _ => observes_pure _
  | syncEntry entry => exact (observes_syncFile entry.access).bind fun _ => observes_pure _
  | syncNamespace =>
    exact ((observes_fileCall _).andThen fun _ => observes_syncDirectories _).bind
      fun _ => observes_pure _
  | isCandidate entry =>
    apply Observes.bind
    · exact (observes_reopen entry).andThen fun _ => (observes_fileIdentity _).andThen
        fun _ => (observes_fileIdentity _).andThen fun _ => observes_pure _
    · exact fun _ => observes_pure _
  | verifyEntry entry => exact (observes_verify entry).bind fun _ => observes_pure _
  | beginPublication => exact observes_pure _
  | takeCleanupErrors => exact observes_pure _

/-- The parts of the backend that no method changes. -/
structure SameSession (b b' : UnixConditionalBackend I) : Prop where
  space : b'.space = b.space
  candidateName : b'.candidateName = b.candidateName
  candidate : b'.candidate = b.candidate

omit [DecidableEq I] in
theorem SameSession.refl : SameSession b b := ⟨rfl, rfl, rfl⟩

omit [DecidableEq I] in
theorem SameSession.trans {b b' b'' : UnixConditionalBackend I} (h : SameSession b b')
    (h' : SameSession b' b'') : SameSession b b'' :=
  ⟨h'.space.trans h.space, h'.candidateName.trans h.candidateName, h'.candidate.trans h.candidate⟩

omit [DecidableEq I] in
theorem runs_return {α : Type} {p : UnixM I α} {tr : NativeTrace I} {a : α}
    {b b' : UnixConditionalBackend I}
    (h : (p >>= fun a => pure (a, b)).Runs tr (a, b')) : b' = b := by
  obtain ⟨_, _, _, -, -, h⟩ := Prog.runs_bind.mp h
  obtain ⟨-, heq⟩ := Prog.runs_pure.mp h
  cases heq
  rfl

/-- Without an effect on the namespace a call changes at most the bookkeeping of the backend, and
    only hands recovery entries over. -/
theorem handle_session {c : Call (EntryAccess I)} (hc : c.effect = none) {tr : NativeTrace I}
    {answer : Answer (EntryAccess I) c} {b' : UnixConditionalBackend I}
    (h : (handle c b).Runs tr (answer, b')) :
    SameSession b b' ∧ b'.recoveryEntries.Sublist b.recoveryEntries := by
  have hsame (heq : b' = b) : SameSession b b' ∧ b'.recoveryEntries.Sublist b.recoveryEntries := by
    subst heq
    exact ⟨SameSession.refl b', List.Sublist.refl _⟩
  cases c with
  | createCandidateCopy => cases hc
  | publishAbsent => cases hc
  | publishContent => cases hc
  | rollback displaced => cases hc
  | removeObserved entry => cases hc
  | takeRecoveryEntries =>
    obtain ⟨_, _, remains, -, -, h⟩ := Prog.runs_bind.mp h
    obtain ⟨_, _, staged, -, -, h⟩ := Prog.runs_bind.mp h
    obtain ⟨-, heq⟩ := Prog.runs_pure.mp h
    cases heq
    exact ⟨⟨rfl, rfl, rfl⟩, List.nil_sublist _⟩
  | beginPublication =>
    obtain ⟨-, heq⟩ := Prog.runs_pure.mp h
    cases heq
    exact ⟨⟨rfl, rfl, rfl⟩, List.Sublist.refl _⟩
  | openReader entry =>
    obtain ⟨_, _, opened, -, -, h⟩ := Prog.runs_bind.mp h
    cases opened with
    | error error => exact hsame (Prod.mk.inj (Prog.runs_pure.mp h).2).2
    | ok file => exact hsame (Prod.mk.inj (Prog.runs_pure.mp h).2).2
  | candidate => exact hsame (Prod.mk.inj (Prog.runs_pure.mp h).2).2
  | checkpoint point => exact hsame (Prod.mk.inj (Prog.runs_pure.mp h).2).2
  | takeCleanupErrors => exact hsame (Prod.mk.inj (Prog.runs_pure.mp h).2).2
  | flush => exact hsame (runs_return h)
  | seekStart entry => exact hsame (runs_return h)
  | readAll entry => exact hsame (runs_return h)
  | openTarget => exact hsame (runs_return h)
  | preserveMetadata observed => exact hsame (runs_return h)
  | syncCandidate => exact hsame (runs_return h)
  | syncEntry entry => exact hsame (runs_return h)
  | syncNamespace => exact hsame (runs_return h)
  | isCandidate entry => exact hsame (runs_return h)
  | verifyEntry entry => exact hsame (runs_return h)

end UnixConditionalBackend

/-! ## 2. The directory and its competitor -/

/-- The file system of a conditional commit: competitors change the entry of the target, and an
    `EIO` says nothing about the effect of the call. -/
def host (target : String) (regular : I → Bool) : Posix String I where
  target := target
  meddles := Directory.AgreeOff target
  regular := regular
  late error := error.osCode = some eio

section Host

variable {target : String} {regular : I → Bool} {d d' : Directory String I} {n : String}
  {tr : NativeTrace I} {α : Type} {p : UnixM I α} {a : α}

/-- A program that only observes leaves every name but the target as it is. -/
theorem Observes.agreeOff (hp : Observes p) (h : p.RunsIn (host target regular).Step d tr d' a) :
    Directory.AgreeOff target d d' := by
  obtain ⟨hruns, halong⟩ := Prog.runsIn_iff.mp h
  have hcalls := Prog.Makes.calls hp hruns
  intro n hn
  -- The value of `n` is the invariant carried along the calls.
  apply Along.invariant (E := (host target regular).Step)
    (P := fun c : Syscall String I (FileCall I) => c.mutates = false)
    (J := fun e : Directory String I => e n = d n) ?_ hcalls halong rfl
  rintro e c answer e' hc ⟨met, hmet, heffect⟩ he
  rw [heffect.observes hc, hmet n hn, he]

/-- A program whose calls spare a bound name keeps it bound. -/
theorem keeps_bound {i : I} (hp : p.Makes (Posix.Spares n)) (hn : n ≠ target)
    (h : p.RunsIn (host target regular).Step d tr d' a) (hd : d n = some i) : d' n = some i := by
  obtain ⟨hruns, halong⟩ := Prog.runsIn_iff.mp h
  have hcalls := hp.calls hruns
  apply Along.invariant (E := (host target regular).Step)
    (P := fun c : Syscall String I (FileCall I) => Posix.Spares n c)
    (J := fun e : Directory String I => e n = some i) ?_ hcalls halong hd
  rintro e c answer e' hc ⟨met, hmet, heffect⟩ he
  exact heffect.keeps hc (by rw [hmet n hn, he])

/-! ## 3. Private entries -/

/-- A private entry gets a name that was free, so that the names bound before stay bound. -/
theorem createPrivateLoop_runs {more : Nat} {r : IoResult (String × I)}
    (h : (createPrivateLoop more).RunsIn (host target regular).Step d tr d' r) :
    (∀ n i, n ≠ target → d n = some i → d' n = some i) ∧
      ∀ name file, r = .ok (name, file) → name ≠ target ∧ d' name = some file ∧
        regular file = true ∧ ∀ n i, n ≠ target → d n = some i → n ≠ name := by
  induction more generalizing d tr with
  | zero =>
    obtain ⟨-, rfl, rfl⟩ := h
    exact ⟨fun _ _ _ hn => hn, fun _ _ habs => by cases habs⟩
  | succ more ih =>
    rw [createPrivateLoop, Prog.runsIn_andThen] at h
    obtain ⟨e, rfl, h⟩ | ⟨tr₁, tr₂, d₁, name, -, hname, h⟩ := h
    · have hobs : Observes (tryRandomFileName : UnixM I _) := observes_native rfl
      exact ⟨fun n i hn hd => by rw [hobs.agreeOff h n hn, hd], fun _ _ habs => by cases habs⟩
    have hfirst : ∀ n i, n ≠ target → d n = some i → d₁ n = some i := by
      intro n i hn hd
      have hobs : Observes (tryRandomFileName : UnixM I _) := observes_native rfl
      rw [hobs.agreeOff hname n hn, hd]
    obtain ⟨-, met, -, -, hne⟩ := Prog.runsIn_request.mp hname
    rw [Prog.runsIn_bind] at h
    obtain ⟨tr₃, tr₄, d₂, created, -, hcreate, h⟩ := h
    have hsecond : ∀ n i, n ≠ target → d₁ n = some i → d₂ n = some i := by
      intro n i hn hd
      have hspares : (createExclusive name : UnixM I _).Makes (Posix.Spares n) :=
        Prog.makes_request.mpr trivial
      exact keeps_bound hspares hn hcreate hd
    cases created with
    | ok file =>
      obtain ⟨-, rfl, rfl⟩ := h
      refine ⟨fun n i hn hd => hsecond n i hn (hfirst n i hn hd), ?_⟩
      rintro _ _ ⟨⟩
      obtain ⟨-, met', hmet', hfree, -, hregular, rfl⟩ := Prog.runsIn_request.mp hcreate
      refine ⟨hne, Directory.bind_self, hregular, fun n i hn hd => ?_⟩
      rintro rfl
      rw [hmet' n hn, hfirst n i hn hd] at hfree
      cases hfree
    | error e =>
      dsimp only at h
      split at h
      · obtain ⟨hkeep, hok⟩ := ih h
        refine ⟨fun n i hn hd => hkeep n i hn (hsecond n i hn (hfirst n i hn hd)), ?_⟩
        intro name' file heq
        obtain ⟨hne', hbound, hregular, hfresh⟩ := hok name' file heq
        exact ⟨hne', hbound, hregular,
          fun n i hn hd => hfresh n i hn (hsecond n i hn (hfirst n i hn hd))⟩
      · obtain ⟨-, rfl, rfl⟩ := h
        exact ⟨fun n i hn hd => hsecond n i hn (hfirst n i hn hd), fun _ _ habs => by cases habs⟩

theorem createPrivate_runs {r : IoResult (String × I)}
    (h : createPrivate.RunsIn (host target regular).Step d tr d' r) :
    (∀ n i, n ≠ target → d n = some i → d' n = some i) ∧
      ∀ name file, r = .ok (name, file) → name ≠ target ∧ d' name = some file ∧
        regular file = true ∧ ∀ n i, n ≠ target → d n = some i → n ≠ name :=
  createPrivateLoop_runs h

/-- The guard of a private entry touches no other name. -/
theorem cleanup_spares (guard : PrivateEntryGuard I) (hn : guard.name ≠ n) :
    guard.cleanup.Makes (Posix.Spares n) := by
  unfold PrivateEntryGuard.cleanup
  split
  · trivial
  · apply Prog.Makes.andThen
    · exact (observes_identityAt _).mono fun _ => Posix.spares_of_observes
    · intro identity
      split
      · trivial
      · exact Prog.makes_request.mpr hn

theorem finishWith_spares (guard : PrivateEntryGuard I) (hn : guard.name ≠ n) (primary : IoError) :
    (guard.finishWith primary).Makes (Posix.Spares n) := by
  apply (cleanup_spares guard hn).bind
  intro cleaned
  cases cleaned with
  | ok _ => trivial
  | error error => exact (cleanup_spares guard hn).bind fun _ => trivial

theorem protect_spares {β : Type} (guard : PrivateEntryGuard I) (hn : guard.name ≠ n)
    {step : UnixM I (IoResult β)} (hstep : Observes step) :
    (guard.protect step).Makes (Posix.Spares n) := by
  apply (hstep.mono fun _ => Posix.spares_of_observes).bind
  intro result
  cases result with
  | ok _ => trivial
  | error error => exact (finishWith_spares guard hn error).bind fun _ => trivial

theorem new_spares (space : Namespace I) {name : String} (file : I) (hn : name ≠ n) :
    (PrivateEntryGuard.new space name file).Makes (Posix.Spares n) := by
  apply ((observes_fileIdentity file).mono fun _ => Posix.spares_of_observes).bind
  intro result
  cases result with
  | ok _ => trivial
  | error error => exact (finishWith_spares _ hn error).bind fun _ => trivial

/-- A step that succeeds under a guard ran alone. -/
theorem protect_ok_runs {β S : Type}
    {E : S → (c : Syscall String I (FileCall I)) → c.Result FileCall.Result → S → Prop} {s s' : S}
    {guard : PrivateEntryGuard I} {step : UnixM I (IoResult β)} {x : β}
    (h : (guard.protect step).RunsIn E s tr s' (.ok x)) : step.RunsIn E s tr s' (.ok x) := by
  rw [PrivateEntryGuard.protect, Prog.runsIn_bind] at h
  obtain ⟨tr₁, tr₂, next, result, rfl, hstep, h⟩ := h
  cases result with
  | ok y =>
    obtain ⟨rfl, rfl, heq⟩ := h
    cases heq
    rwa [List.append_nil]
  | error error =>
    obtain ⟨_, _, _, _, -, -, -, -, habs⟩ := Prog.runsIn_bind.mp h
    cases habs

theorem new_ok_runs {S : Type}
    {E : S → (c : Syscall String I (FileCall I)) → c.Result FileCall.Result → S → Prop} {s s' : S}
    {space : Namespace I} {name : String} {file : I} {guard : PrivateEntryGuard I}
    (h : (PrivateEntryGuard.new space name file).RunsIn E s tr s' (.ok guard)) :
    ∃ identity, guard.name = name ∧ (fileIdentity file).RunsIn E s tr s' (.ok identity) := by
  rw [PrivateEntryGuard.new, Prog.runsIn_bind] at h
  obtain ⟨tr₁, tr₂, next, result, rfl, hidentity, h⟩ := h
  cases result with
  | ok identity =>
    obtain ⟨rfl, rfl, heq⟩ := h
    cases heq
    exact ⟨identity, rfl, by rwa [List.append_nil]⟩
  | error error =>
    obtain ⟨_, _, _, _, -, -, -, -, habs⟩ := Prog.runsIn_bind.mp h
    cases habs

/-! ## 4. Opening the backend and copying the candidate -/

omit [DecidableEq I] in
theorem pathOf_inj {space : Namespace I} {name name' : String} :
    space.pathOf name = space.pathOf name' ↔ name = name' := by
  unfold Namespace.pathOf
  rw [List.append_cancel_left_eq, List.singleton_inj]

omit [DecidableEq I] in
theorem entry_path {space : Namespace I} {role : LocalRecoveryFileRole} {name : String}
    {r : IoResult (UnixEntry I)} (h : (space.entry role name).Runs tr r) :
    ∀ e ∈ r.toOption, e.namespacePath = space.pathOf name := by
  rintro e he
  cases r with
  | error error => cases he
  | ok found =>
    cases he
    rw [Namespace.entry, Prog.runs_andThen] at h
    obtain ⟨_, habs, -⟩ | ⟨tr₁, tr₂, identity, -, -, h⟩ := h
    · cases habs
    rw [Prog.runs_andThen] at h
    obtain ⟨_, habs, -⟩ | ⟨tr₃, tr₄, _, -, -, h⟩ := h
    · cases habs
    obtain ⟨-, heq⟩ := Prog.runs_pure.mp h
    cases heq
    rfl

namespace UnixConditionalBackend

variable {b b' : UnixConditionalBackend I}

/-- The state between `open` and the publication: the candidate is under its private name. -/
structure Staged (target : String) (regular : I → Bool) (b : UnixConditionalBackend I)
    (d : Directory String I) : Prop where
  destination : b.space.targetName = target
  apart : b.candidateName ≠ target
  bound : d b.candidateName = some b.candidate
  plain : regular b.candidate = true
  unrecovered : b.recoveryEntries = []

/-- Opening the backend stages the candidate. -/
theorem openIn_staged {system : UnixTarget} {space : Namespace I}
    (hspace : space.targetName = target)
    (h : (openIn system space).RunsIn (host target regular).Step d tr d' (.ok b)) :
    Staged target regular b d' := by
  rw [openIn, Prog.runsIn_andThen] at h
  obtain ⟨_, habs, -⟩ | ⟨_, _, d₁, ⟨name, file⟩, -, hcreate, h⟩ := h
  · cases habs
  obtain ⟨hne, hbound, hregular, -⟩ := (createPrivate_runs hcreate).2 name file rfl
  -- From here on the calls only observe: every failure of the setup is excluded by the result.
  rw [Prog.runsIn_andThen] at h
  obtain ⟨_, habs, -⟩ | ⟨_, _, d₂, guard, -, hguard, h⟩ := h
  · cases habs
  obtain ⟨identity₀, -, hguard⟩ := new_ok_runs hguard
  have hd₂ : d₂ name = some file := by
    rw [(observes_fileIdentity file).agreeOff hguard name hne, hbound]
  rw [Prog.runsIn_andThen] at h
  obtain ⟨_, habs, -⟩ | ⟨_, _, d₃, identity, -, hidentity, h⟩ := h
  · cases habs
  have hd₃ : d₃ name = some file := by
    rw [(observes_fileIdentity file).agreeOff (protect_ok_runs hidentity) name hne, hd₂]
  rw [Prog.runsIn_andThen] at h
  obtain ⟨_, habs, -⟩ | ⟨_, _, d₄, entry, -, hentry, h⟩ := h
  · cases habs
  have hd₄ : d₄ name = some file := by
    rw [(observes_entry space _ _).agreeOff (protect_ok_runs hentry) name hne, hd₃]
  obtain ⟨-, rfl, heq⟩ := h
  cases heq
  exact ⟨hspace, hne, hd₄, hregular, rfl⟩

/-- What the creation of the candidate copy leaves: the staging name is untouched, the copy has a
    name of its own, and a copy that failed half-way is registered for recovery. -/
structure Copied (b : UnixConditionalBackend I) (r : IoResult (UnixEntry I))
    (b' : UnixConditionalBackend I) : Prop where
  same : SameSession b b'
  created : ∀ created, r = .ok created → b'.recoveryEntries = b.recoveryEntries ∧
    ∃ name, name ≠ b.candidateName ∧ name ≠ b.space.targetName ∧
      created.namespacePath = b.space.pathOf name
  failed : ∀ error, r = .error error → b'.recoveryEntries = b.recoveryEntries ∨
    ∃ name entry, name ≠ b.candidateName ∧ entry.namespacePath = b.space.pathOf name ∧
      b'.recoveryEntries = b.recoveryEntries ++ [entry]

omit [DecidableEq I] in
theorem copyCandidate_runs {name : String} {copy : I} {entry recoveryEntry : UnixEntry I}
    {r : IoResult (UnixEntry I)} (hname : name ≠ b.candidateName)
    (htarget : name ≠ b.space.targetName) (hentry : entry.namespacePath = b.space.pathOf name)
    (hrecovery : recoveryEntry.namespacePath = b.space.pathOf name)
    (h : (b.copyCandidate name copy entry recoveryEntry).Runs tr (r, b')) : Copied b r b' := by
  rw [copyCandidate, Prog.runs_bind] at h
  obtain ⟨_, _, copied, -, -, h⟩ := h
  cases copied with
  | error error =>
    obtain ⟨-, heq⟩ := h
    cases heq
    exact ⟨⟨rfl, rfl, rfl⟩, fun _ habs => (by cases habs),
      fun _ _ => .inr ⟨name, recoveryEntry, hname, hrecovery, rfl⟩⟩
  | ok identity =>
    obtain ⟨-, heq⟩ := h
    cases heq
    refine ⟨⟨rfl, rfl, rfl⟩, ?_, fun _ habs => (by cases habs)⟩
    rintro _ ⟨⟩
    exact ⟨rfl, name, hname, htarget, hentry⟩

omit [DecidableEq I] in
theorem observes_copyCandidate (name : String) (copy : I) (entry recoveryEntry : UnixEntry I) :
    Observes (b.copyCandidate name copy entry recoveryEntry) := by
  apply Observes.bind
  · exact (observes_openRegularAt _).andThen fun _ => (observes_fileCall _).andThen fun _ =>
      (observes_fileCall _).andThen fun _ => observes_fileIdentity _
  · intro copied
    cases copied with
    | error error => exact observes_pure _
    | ok identity => exact observes_pure _

theorem createCandidateCopy_runs {r : IoResult (UnixEntry I)} {i : I}
    (htarget : b.space.targetName = target) (happart : b.candidateName ≠ target)
    (hbound : d b.candidateName = some i)
    (h : b.createCandidateCopy.RunsIn (host target regular).Step d tr d' (r, b')) :
    d' b.candidateName = some i ∧ Copied b r b' := by
  rw [createCandidateCopy, Prog.runsIn_bind] at h
  obtain ⟨tr₁, tr₂, d₁, prepared, -, hprepared, h⟩ := h
  -- What the setup of the copy does to the staging name, and where a prepared copy is.
  have hsetup : d₁ b.candidateName = some i ∧
      ∀ name copy entry recoveryEntry, prepared = .ok (name, copy, entry, recoveryEntry) →
        name ≠ b.candidateName ∧ name ≠ target ∧ entry.namespacePath = b.space.pathOf name ∧
        recoveryEntry.namespacePath = b.space.pathOf name := by
    rw [Prog.runsIn_andThen] at hprepared
    obtain ⟨e, rfl, hcreate⟩ | ⟨_, _, d₂, ⟨name, copy⟩, -, hcreate, hrest⟩ := hprepared
    · exact ⟨(createPrivate_runs hcreate).1 _ _ happart hbound, fun _ _ _ _ habs => by cases habs⟩
    obtain ⟨hkeep, hok⟩ := createPrivate_runs hcreate
    obtain ⟨hne, -, -, hfresh⟩ := hok name copy rfl
    have hname : name ≠ b.candidateName := (hfresh _ i happart hbound).symm
    have hd₂ := hkeep _ _ happart hbound
    rw [Prog.runsIn_andThen] at hrest
    obtain ⟨e, rfl, hguard⟩ | ⟨_, _, d₃, guard, -, hguard, hrest⟩ := hrest
    · exact ⟨keeps_bound (new_spares b.space copy hname) happart hguard hd₂,
        fun _ _ _ _ habs => by cases habs⟩
    have hd₃ := keeps_bound (new_spares b.space copy hname) happart hguard hd₂
    obtain ⟨-, hguarded, -⟩ := new_ok_runs hguard
    have hspare : ∀ role, (guard.protect (b.entry role name)).Makes (Posix.Spares b.candidateName) :=
      fun role => protect_spares guard (by rwa [hguarded]) (observes_entry b.space role name)
    rw [Prog.runsIn_andThen] at hrest
    obtain ⟨e, rfl, hentry⟩ | ⟨_, _, d₄, entry, -, hentry, hrest⟩ := hrest
    · exact ⟨keeps_bound (hspare _) happart hentry hd₃, fun _ _ _ _ habs => by cases habs⟩
    have hd₄ := keeps_bound (hspare _) happart hentry hd₃
    rw [Prog.runsIn_andThen] at hrest
    obtain ⟨e, rfl, hrecovery⟩ | ⟨_, _, d₅, recoveryEntry, -, hrecovery, hrest⟩ := hrest
    · exact ⟨keeps_bound (hspare _) happart hrecovery hd₄, fun _ _ _ _ habs => by cases habs⟩
    have hd₅ := keeps_bound (hspare _) happart hrecovery hd₄
    obtain ⟨-, rfl, rfl⟩ := hrest
    refine ⟨hd₅, ?_⟩
    rintro _ _ _ _ ⟨⟩
    exact ⟨hname, hne, entry_path (protect_ok_runs hentry).runs entry rfl,
      entry_path (protect_ok_runs hrecovery).runs recoveryEntry rfl⟩
  obtain ⟨hd₁, hpaths⟩ := hsetup
  cases prepared with
  | error error =>
    obtain ⟨-, rfl, heq⟩ := h
    cases heq
    exact ⟨hd₁, ⟨SameSession.refl b, fun _ habs => (by cases habs), fun _ _ => .inl rfl⟩⟩
  | ok made =>
    obtain ⟨name, copy, entry, recoveryEntry⟩ := made
    obtain ⟨hname, hne, hentry, hrecovery⟩ := hpaths name copy entry recoveryEntry rfl
    have hd' := (observes_copyCandidate name copy entry recoveryEntry).agreeOff h _ happart
    refine ⟨by rw [hd', hd₁], ?_⟩
    exact copyCandidate_runs hname (by rwa [htarget]) hentry hrecovery h.runs

end UnixConditionalBackend

/-! ## 5. Observations that succeed -/

def succeeds : (c : Syscall String I (FileCall I)) → c.Result FileCall.Result → Bool
  | .stat _, answer => answer.isOk
  | .openRead _, answer => answer.isOk
  | .createExclusive _, answer => answer.isOk
  | .rename _ _, answer => answer.isOk
  | .renameNoReplace _ _, answer => answer.isOk
  | .renameExchange _ _, answer => answer.isOk
  | .link _ _, answer => answer.isOk
  | .unlink _, answer => answer.isOk
  | .fileStat _, answer => answer.isOk
  | .randomName, answer => answer.isOk
  | .inert (.cloneParent _), answer => answer.isOk
  | .inert (.adoptReader _), answer => answer.isOk
  | .inert (.copyContents _ _), answer => answer.isOk
  | .inert (.sameContents _ _), answer => answer.isOk
  | .inert (.seekStart _), answer => answer.isOk
  | .inert (.readAll _), answer => answer.isOk
  | .inert (.flush _), answer => answer.isOk
  | .inert (.syncFile _), answer => answer.isOk
  | .inert .syncParent, answer => answer.isOk
  | .inert (.preserveMetadata _ _), answer => answer.isOk

/-- The native calls by which an entry for `name` that leads to `file` is observed. -/
def concerns (name : String) (file : I) : Syscall String I (FileCall I) → Bool
  | .stat n | .openRead n | .inert (.cloneParent n) => n = name
  | .fileStat f | .inert (.adoptReader f) => f = file
  | _ => false

/-- Every observation of `name` and `file` among the calls of `tr` succeeded. -/
def Observed (name : String) (file : I) (tr : NativeTrace I) : Prop :=
  ∀ ev ∈ tr, concerns name file ev.call = true → succeeds ev.call ev.answer = true

theorem observed_append {name : String} {file : I} {tr₁ tr₂ : NativeTrace I}
    (h : Observed name file (tr₁ ++ tr₂)) : Observed name file tr₁ ∧ Observed name file tr₂ :=
  List.forall_mem_append.mp h

/-- A single call that concerns the entry cannot have failed. -/
theorem Observed.ne_error {name : String} {file : I} {c : Syscall String I (FileCall I)}
    {answer : c.Result FileCall.Result} (h : Observed name file [⟨c, answer⟩])
    (hc : concerns name file c = true) : succeeds c answer = true :=
  h _ List.mem_cons_self hc

theorem fileIdentity_observed {file : I} {name : String} {r : IoResult I}
    (h : (fileIdentity file).RunsIn (host target regular).Step d tr d' r)
    (hobs : Observed name file tr) : r = .ok file := by
  rw [fileIdentity, Prog.runsIn_andThen] at h
  obtain ⟨e, rfl, h⟩ | ⟨tr₁, tr₂, d₁, status, rfl, hstat, h⟩ := h
  · obtain ⟨rfl, -⟩ := Prog.runsIn_request.mp h
    cases hobs.ne_error (by simp [concerns])
  · obtain ⟨-, met, -, -, rfl⟩ := Prog.runsIn_request.mp hstat
    obtain ⟨-, -, rfl⟩ := h
    rfl

/-- The entry of a bound name is found when its observation does not fail. -/
theorem entry_observed {space : Namespace I} {role : LocalRecoveryFileRole} {name : String}
    {file : I} {r : IoResult (UnixEntry I)} (hname : name ≠ target) (hd : d name = some file)
    (h : (space.entry role name).RunsIn (host target regular).Step d tr d' r)
    (hobs : Observed name file tr) : r = .ok (space.newEntry role name file) := by
  rw [Namespace.entry, Prog.runsIn_andThen] at h
  obtain ⟨e, rfl, h⟩ | ⟨tr₁, tr₂, d₁, identity, rfl, hidentity, h⟩ := h
  · rw [identityAt, Prog.runsIn_andThen] at h
    obtain ⟨e', heq, h⟩ | ⟨_, _, _, _, -, -, -, -, habs⟩ := h
    · cases heq
      obtain ⟨rfl, -⟩ := Prog.runsIn_request.mp h
      cases hobs.ne_error (by simp [concerns])
    · cases habs
  obtain ⟨hobs₁, hobs₂⟩ := observed_append hobs
  have hidentity' : identity = file := by
    rw [identityAt, Prog.runsIn_andThen] at hidentity
    obtain ⟨_, habs, -⟩ | ⟨_, _, _, status, -, hstat, hidentity⟩ := hidentity
    · cases habs
    obtain ⟨-, met, hmet, -, hbound, -⟩ := Prog.runsIn_request.mp hstat
    obtain ⟨-, -, heq⟩ := hidentity
    cases heq
    rw [hmet name hname, hd] at hbound
    exact (Option.some.inj hbound).symm
  subst hidentity'
  rw [Prog.runsIn_andThen] at h
  obtain ⟨e, rfl, h⟩ | ⟨tr₃, tr₄, d₂, _, rfl, hclone, h⟩ := h
  · obtain ⟨rfl, -⟩ := Prog.runsIn_request.mp h
    cases hobs₂.ne_error (by simp [concerns])
  · obtain ⟨-, -, rfl⟩ := h
    rfl

/-- The identity behind an entry that is still in place is found when its observation does not
    fail. -/
theorem entryIdentity_observed {entry : UnixEntry I} {name : String} {file : I} {r : IoResult I}
    (hentry : entry.access.name = name) (hidentity : entry.access.identity = file)
    (hname : name ≠ target) (hregular : regular file = true) (hd : d name = some file)
    (h : (entryIdentity entry).RunsIn (host target regular).Step d tr d' r)
    (hobs : Observed name file tr) : r = .ok file := by
  -- The reader is opened under the name and has the recorded identity.
  have hopen {tr : NativeTrace I} {d₁ : Directory String I} {r : IoResult I}
      (h : entry.access.openFile.RunsIn (host target regular).Step d tr d₁ r)
      (hobs : Observed name file tr) : r = .ok file := by
    rw [EntryAccess.openFile, hentry, hidentity, Prog.runsIn_andThen] at h
    obtain ⟨e, rfl, h⟩ | ⟨tr₁, tr₂, d₂, opened, rfl, hread, h⟩ := h
    · obtain ⟨rfl, -⟩ := Prog.runsIn_request.mp h
      cases hobs.ne_error (by simp [concerns])
    obtain ⟨-, hobs⟩ := observed_append hobs
    obtain ⟨-, met, hmet, -, hbound⟩ := Prog.runsIn_request.mp hread
    rw [hmet name hname, hd] at hbound
    cases hbound
    rw [Prog.runsIn_andThen] at h
    obtain ⟨e, rfl, h⟩ | ⟨tr₃, tr₄, d₃, status, rfl, hstat, h⟩ := h
    · obtain ⟨rfl, -⟩ := Prog.runsIn_request.mp h
      cases hobs.ne_error (by simp [concerns])
    obtain ⟨-, hobs⟩ := observed_append hobs
    obtain ⟨-, met', -, -, rfl⟩ := Prog.runsIn_request.mp hstat
    have hplain : (host target regular).regular file = true := hregular
    rw [hplain, if_neg (by simp), Prog.runsIn_andThen] at h
    obtain ⟨e, rfl, h⟩ | ⟨tr₅, tr₆, d₄, _, rfl, -, h⟩ := h
    · obtain ⟨rfl, -⟩ := Prog.runsIn_request.mp h
      cases hobs.ne_error (by simp [concerns])
    · obtain ⟨-, -, rfl⟩ := h
      rfl
  have hreopen {tr : NativeTrace I} {d₁ : Directory String I} {r : IoResult I}
      (h : (reopen entry).RunsIn (host target regular).Step d tr d₁ r)
      (hobs : Observed name file tr) : r = .ok file := by
    rw [reopen, Prog.runsIn_bind] at h
    obtain ⟨tr₁, tr₂, d₂, reader, rfl, hreader, h⟩ := h
    rw [EntryAccess.openReader, Prog.runsIn_bind] at hreader
    obtain ⟨tr₃, tr₄, d₃, opened, rfl, hfile, hreader⟩ := hreader
    have hopened := hopen hfile (observed_append (observed_append hobs).1).1
    subst hopened
    obtain ⟨-, -, rfl⟩ := hreader
    obtain ⟨-, -, rfl⟩ := h
    rfl
  rw [entryIdentity, Prog.runsIn_andThen] at h
  obtain ⟨e, rfl, h⟩ | ⟨tr₁, tr₂, d₁, opened, rfl, hread, h⟩ := h
  · cases hreopen h hobs
  obtain ⟨hobs₁, hobs₂⟩ := observed_append hobs
  cases hreopen hread hobs₁
  exact fileIdentity_observed h hobs₂

/-! ## 6. The native receipts -/

/-- The condition under which no method leaves the candidate under the staging name beside an
    entry for that name, given the native calls of the method and the directory after it.
    * The link of the link/unlink fallback is followed by the removal of the staging name.
    * An exchange that leaves the candidate in place failed, and after an `EIO` the staging entry
      and the candidate could be observed.
    * A rollback does not bring the candidate back to the staging name, and the target can be
      observed after a reverse exchange that succeeded. -/
def Unaliased (b : UnixConditionalBackend I) (tr : NativeTrace I) (d' : Directory String I) :
    Call (EntryAccess I) → Prop
  | .publishAbsent =>
    ⟨.link b.candidateName b.space.targetName, Except.ok ()⟩ ∈ tr →
      d' b.candidateName ≠ some b.candidate
  | .publishContent =>
    d' b.candidateName = some b.candidate →
      ⟨.renameExchange b.candidateName b.space.targetName, Except.ok ()⟩ ∉ tr ∧
      ∀ error : IoError,
        ⟨.renameExchange b.candidateName b.space.targetName, Except.error error⟩ ∈ tr →
        error.osCode = some eio → Observed b.candidateName b.candidate tr
  | .rollback _ =>
    d' b.candidateName ≠ some b.candidate ∧
      ∀ name pre post,
        tr = pre ++ ⟨.renameExchange name b.space.targetName, Except.ok ()⟩ :: post →
        ∀ ev ∈ post, ev.call = .stat b.space.targetName ∨
          ev.call = .inert (.cloneParent b.space.targetName) → succeeds ev.call ev.answer = true
  | _ => True

/-- The entries of a receipt: one for the target, and one for the staging name only where the
    candidate is no longer under it. -/
structure Receipt (b : UnixConditionalBackend I) (attempt : NativeAttempt (EntryAccess I))
    (d' : Directory String I) : Prop where
  installed : ∀ x ∈ attempt.installed, x.namespacePath = b.space.pathOf b.space.targetName
  displaced : attempt.displaced = [] ∨ ∃ x, attempt.displaced = [x] ∧
    x.namespacePath = b.space.pathOf b.candidateName ∧ d' b.candidateName ≠ some b.candidate

omit [DecidableEq I] in
theorem displaced_of_option {b : UnixConditionalBackend I} {found : Option (UnixEntry I)}
    (hpath : ∀ x ∈ found, x.namespacePath = b.space.pathOf b.candidateName)
    (hstaged : found.isSome → d b.candidateName ≠ some b.candidate) :
    found.toList = [] ∨ ∃ x, found.toList = [x] ∧
      x.namespacePath = b.space.pathOf b.candidateName ∧ d b.candidateName ≠ some b.candidate := by
  cases found with
  | none => exact .inl rfl
  | some x => exact .inr ⟨x, rfl, hpath x rfl, hstaged rfl⟩

omit [DecidableEq I] in
theorem installNew_replaced {system : UnixTarget} {staging destination : String} {error : IoError}
    {staged : AtomicStagingState}
    (h : (installNewAtomicFileAt system staging destination : UnixM I _).Runs tr
      (.error (error, .replaced, staged))) :
    ⟨.link staging destination, Except.ok ()⟩ ∈ tr := by
  -- Only the fallback reports a replaced destination, and only after its link.
  have hfallback {tr : NativeTrace I}
      (h : (linkThenUnlink staging destination : UnixM I _).Runs tr
        (.error (error, .replaced, staged))) :
      ⟨.link staging destination, Except.ok ()⟩ ∈ tr := by
    rw [linkThenUnlink, Prog.runs_bind] at h
    obtain ⟨tr₁, tr₂, linked, rfl, hlink, h⟩ := h
    have hlink : tr₁ = [⟨.link staging destination, linked⟩] := Prog.runs_request.mp hlink
    subst hlink
    cases linked with
    | error e =>
      obtain ⟨-, habs⟩ := Prog.runs_pure.mp h
      cases habs
    | ok _ => exact List.mem_cons_self
  cases system with
  | linux =>
    rw [installNewAtomicFileAt, Prog.runs_bind] at h
    obtain ⟨tr₁, tr₂, renamed, rfl, -, h⟩ := h
    cases renamed with
    | ok _ =>
      obtain ⟨-, habs⟩ := Prog.runs_pure.mp h
      cases habs
    | error e =>
      dsimp only at h
      split at h
      · exact List.mem_append_right _ (hfallback h)
      · obtain ⟨-, habs⟩ := Prog.runs_pure.mp h
        cases habs
  | macos =>
    rw [installNewAtomicFileAt, Prog.runs_bind] at h
    obtain ⟨tr₁, tr₂, renamed, rfl, -, h⟩ := h
    cases renamed with
    | ok _ =>
      obtain ⟨-, habs⟩ := Prog.runs_pure.mp h
      cases habs
    | error e =>
      obtain ⟨-, habs⟩ := Prog.runs_pure.mp h
      cases habs
  | freebsd => exact hfallback h
  | other =>
    obtain ⟨-, habs⟩ := Prog.runs_pure.mp h
    cases habs

namespace UnixConditionalBackend

variable {b b' : UnixConditionalBackend I} {attempt : NativeAttempt (EntryAccess I)}

omit [DecidableEq I] in
theorem installAbsent_published {error : IoError}
    (h : b.installAbsent.Runs tr (.error (error, .published))) :
    ⟨.link b.candidateName b.space.targetName, Except.ok ()⟩ ∈ tr := by
  rw [installAbsent, Prog.runs_bind] at h
  obtain ⟨tr₁, tr₂, result, rfl, hinstall, h⟩ := h
  cases result with
  | ok _ =>
    obtain ⟨-, habs⟩ := Prog.runs_pure.mp h
    cases habs
  | error failure =>
    obtain ⟨e, destination, staged⟩ := failure
    obtain ⟨-, heq⟩ := Prog.runs_pure.mp h
    cases destination with
    | replaced =>
      cases heq
      exact List.mem_append_left _ (installNew_replaced hinstall)
    | unchanged => cases heq
    | missing => cases heq
    | indeterminate => cases heq

omit [DecidableEq I] in
theorem observe_path {role : LocalRecoveryFileRole} {name : String} {found : Option (UnixEntry I)}
    (h : (b.observe role name).Runs tr found) :
    ∀ x ∈ found, x.namespacePath = b.space.pathOf name := by
  obtain ⟨_, _, r, -, hentry, h⟩ := Prog.runs_bind.mp h
  obtain ⟨-, rfl⟩ := Prog.runs_pure.mp h
  exact entry_path hentry

omit [DecidableEq I] in
theorem observeWhen_path {condition : Bool} {role : LocalRecoveryFileRole} {name : String}
    {found : Option (UnixEntry I)} (h : (b.observeWhen condition role name).Runs tr found) :
    (∀ x ∈ found, x.namespacePath = b.space.pathOf name) ∧ (found.isSome → condition = true) := by
  cases condition with
  | true => exact ⟨observe_path h, fun _ => rfl⟩
  | false =>
    obtain ⟨-, rfl⟩ := Prog.runs_pure.mp h
    simp

theorem publishAbsent_runs (h : b.publishAbsent.Runs tr (attempt, b'))
    (hun : Unaliased b tr d' .publishAbsent) :
    SameSession b b' ∧ b'.recoveryEntries = b.recoveryEntries ∧ Receipt b attempt d' := by
  rw [publishAbsent, Prog.runs_bind] at h
  obtain ⟨tr₁, tr₂, result, rfl, hinstall, h⟩ := h
  cases result with
  | ok _ =>
    replace h := Prog.runs_bind.mp h
    obtain ⟨_, _, installed, -, hentry, h⟩ := h
    obtain ⟨-, heq⟩ := Prog.runs_pure.mp h
    cases heq
    exact ⟨⟨rfl, rfl, rfl⟩, rfl, ⟨observe_path hentry, .inl rfl⟩⟩
  | error failure =>
    obtain ⟨error, publication⟩ := failure
    replace h := Prog.runs_bind.mp h
    obtain ⟨tr₃, tr₄, installed, -, hinstalled, h⟩ := h
    replace h := Prog.runs_bind.mp h
    obtain ⟨tr₅, tr₆, stagedAlias, -, halias, h⟩ := h
    obtain ⟨-, heq⟩ := Prog.runs_pure.mp h
    cases heq
    obtain ⟨hpath, hsome⟩ := observeWhen_path halias
    refine ⟨SameSession.refl b, rfl, ⟨(observeWhen_path hinstalled).1, displaced_of_option hpath ?_⟩⟩
    intro halias
    have hpublished : publication = .published := of_decide_eq_true (hsome halias)
    subst hpublished
    exact hun (List.mem_append_left _ (installAbsent_published hinstall))

/-- A candidate that is still under its staging name is recognised there, so that a failed
    exchange is reported as not published. -/
theorem attemptAfterExchange_recognised {error : IoError} (happart : b.candidateName ≠ target)
    (hregular : regular b.candidate = true) (hd : d b.candidateName = some b.candidate)
    (h : (b.attemptAfterExchange (some error)).RunsIn (host target regular).Step d tr d' attempt)
    (hobs : Observed b.candidateName b.candidate tr) : attempt.displaced = [] := by
  rw [attemptAfterExchange, Prog.runsIn_bind] at h
  obtain ⟨tr₁, _, d₁, installed, rfl, hinstalled, h⟩ := h
  obtain ⟨tr₂, _, d₂, displaced, rfl, hdisplaced, h⟩ := Prog.runsIn_bind.mp h
  obtain ⟨tr₃, _, d₃, candidate, rfl, hcandidate, h⟩ := Prog.runsIn_bind.mp h
  obtain ⟨tr₄, _, d₄, installedIdentity, rfl, hidentity, h⟩ := Prog.runsIn_bind.mp h
  obtain ⟨tr₅, _, d₅, staged, rfl, hstaged, h⟩ := Prog.runsIn_bind.mp h
  obtain ⟨tr₆, _, d₆, stagedIdentity, rfl, hstagedIdentity, h⟩ := Prog.runsIn_bind.mp h
  obtain ⟨rfl, -, rfl⟩ := h
  -- The observations leave the staging name where it is.
  have hd₄ : d₄ b.candidateName = some b.candidate := by
    rw [(observes_observedIdentity _).agreeOff hidentity _ happart,
      (observes_fileIdentity _).agreeOff hcandidate _ happart,
      (b.observes_observe _ _).agreeOff hdisplaced _ happart,
      (b.observes_observe _ _).agreeOff hinstalled _ happart, hd]
  have hd₅ : d₅ b.candidateName = some b.candidate := by
    rw [(b.observes_observe _ _).agreeOff hstaged _ happart, hd₄]
  obtain ⟨-, hobs⟩ := observed_append hobs
  obtain ⟨-, hobs⟩ := observed_append hobs
  obtain ⟨hobs₃, hobs⟩ := observed_append hobs
  obtain ⟨-, hobs⟩ := observed_append hobs
  obtain ⟨hobs₅, hobs⟩ := observed_append hobs
  obtain ⟨hobs₆, -⟩ := observed_append hobs
  have hcandidate' : candidate = .ok b.candidate := fileIdentity_observed hcandidate hobs₃
  have hstaged' : staged = some (b.space.newEntry .stagedCandidate b.candidateName b.candidate) := by
    obtain ⟨_, _, _, r, rfl, hentry, hstaged⟩ := Prog.runsIn_bind.mp hstaged
    obtain ⟨-, -, rfl⟩ := hstaged
    rw [entry_observed happart hd₄ hentry (observed_append hobs₅).1]
    rfl
  subst hstaged'
  have hstagedIdentity' : stagedIdentity = some b.candidate := by
    obtain ⟨_, _, _, r, rfl, hentry, hstagedIdentity⟩ := Prog.runsIn_bind.mp hstagedIdentity
    obtain ⟨-, -, rfl⟩ := hstagedIdentity
    rw [entryIdentity_observed rfl rfl happart hregular hd₅ hentry (observed_append hobs₆).1]
    rfl
  have hpublication (x y : Bool) : publicationAfterExchange true x true y = .notPublished := by
    cases x <;> cases y <;> rfl
  simp [hcandidate', hstagedIdentity', Except.toOption, hpublication]

theorem attemptAfterExchange_paths {error : Option IoError}
    (h : (b.attemptAfterExchange error).Runs tr attempt) :
    (∀ x ∈ attempt.installed, x.namespacePath = b.space.pathOf b.space.targetName) ∧
      ∃ found : Option (UnixEntry I), attempt.displaced = found.toList ∧
        ∀ x ∈ found, x.namespacePath = b.space.pathOf b.candidateName := by
  rw [attemptAfterExchange, Prog.runs_bind] at h
  obtain ⟨_, _, installed, -, hinstalled, h⟩ := h
  obtain ⟨_, _, displaced, -, hdisplaced, h⟩ := Prog.runs_bind.mp h
  obtain ⟨_, _, candidate, -, -, h⟩ := Prog.runs_bind.mp h
  obtain ⟨_, _, installedIdentity, -, -, h⟩ := Prog.runs_bind.mp h
  obtain ⟨_, _, staged, -, -, h⟩ := Prog.runs_bind.mp h
  obtain ⟨_, _, stagedIdentity, -, -, h⟩ := Prog.runs_bind.mp h
  obtain ⟨-, rfl⟩ := h
  constructor
  · intro x hx
    dsimp only at hx
    split at hx
    · cases hx
    · exact observe_path hinstalled x hx
  · dsimp only
    split
    · exact ⟨none, rfl, by simp⟩
    · exact ⟨displaced, rfl, observe_path hdisplaced⟩

omit [DecidableEq I] in
theorem exchange_runs {left right : String} {r : IoResult Unit}
    (h : (b.exchange left right).Runs tr r) :
    tr = [⟨.renameExchange left right, r⟩] ∨ tr = [] ∧ ∃ error : IoError,
      r = .error error ∧ error.osCode = none := by
  rw [exchange] at h
  cases hsystem : b.system with
  | linux =>
    rw [hsystem] at h
    exact .inl (Prog.runs_request.mp h)
  | macos =>
    rw [hsystem] at h
    exact .inl (Prog.runs_request.mp h)
  | freebsd =>
    rw [hsystem] at h
    obtain ⟨rfl, rfl⟩ := Prog.runs_pure.mp h
    exact .inr ⟨rfl, _, rfl, rfl⟩
  | other =>
    rw [hsystem] at h
    obtain ⟨rfl, rfl⟩ := Prog.runs_pure.mp h
    exact .inr ⟨rfl, _, rfl, rfl⟩

theorem publishContent_runs (happart : b.candidateName ≠ target)
    (hregular : regular b.candidate = true)
    (h : b.publishContent.RunsIn (host target regular).Step d tr d' (attempt, b'))
    (hun : Unaliased b tr d' .publishContent) :
    SameSession b b' ∧ b'.recoveryEntries = b.recoveryEntries ∧ Receipt b attempt d' := by
  rw [publishContent, Prog.runsIn_bind] at h
  obtain ⟨tr₁, tr₂, d₁, exchanged, rfl, hexchange, h⟩ := h
  have hcall := exchange_runs hexchange.runs
  cases exchanged with
  | ok _ =>
    have hcall : tr₁ = [⟨.renameExchange b.candidateName b.space.targetName, Except.ok ()⟩] := by
      obtain hcall | ⟨-, _, habs, -⟩ := hcall
      · exact hcall
      · cases habs
    obtain ⟨tr₃, tr₄, d₂, made, rfl, hattempt, h⟩ := Prog.runsIn_bind.mp h
    obtain ⟨-, rfl, heq⟩ := h
    cases heq
    obtain ⟨hinstalled, found, hdisplaced, hpath⟩ := attemptAfterExchange_paths hattempt.runs
    refine ⟨⟨rfl, rfl, rfl⟩, rfl, ⟨hinstalled, ?_⟩⟩
    rw [hdisplaced]
    apply displaced_of_option hpath
    intro _ hstaged
    exact (hun hstaged).1 (by rw [hcall]; exact List.mem_cons_self)
  | error error =>
    dsimp only at h
    split at h
    · rename_i hcode
      have hcall : tr₁ = [⟨.renameExchange b.candidateName b.space.targetName,
          Except.error error⟩] := by
        obtain hcall | ⟨-, _, heq, hnone⟩ := hcall
        · exact hcall
        · cases heq
          rw [hnone] at hcode
          cases hcode
      obtain ⟨tr₃, tr₄, d₂, made, rfl, hattempt, h⟩ := Prog.runsIn_bind.mp h
      obtain ⟨-, rfl, heq⟩ := h
      cases heq
      obtain ⟨hinstalled, found, hdisplaced, hpath⟩ := attemptAfterExchange_paths hattempt.runs
      refine ⟨SameSession.refl b, rfl, ⟨hinstalled, ?_⟩⟩
      rw [hdisplaced]
      apply displaced_of_option hpath
      intro hsome hstaged
      -- The candidate is still in place, so the observations had to recognise it.
      have hobs := (hun hstaged).2 error (by rw [hcall]; exact List.mem_cons_self) hcode
      have hd₁ : d₁ b.candidateName = some b.candidate := by
        rw [← hstaged, (b.observes_attemptAfterExchange _).agreeOff hattempt _ happart]
      have hnil := attemptAfterExchange_recognised happart hregular hd₁ hattempt
        (observed_append (observed_append hobs).2).1
      rw [hdisplaced] at hnil
      rw [Option.toList_eq_nil_iff.mp hnil] at hsome
      cases hsome
    · obtain ⟨-, rfl, heq⟩ := h
      cases heq
      exact ⟨SameSession.refl b, rfl, ⟨by simp, .inl rfl⟩⟩

theorem rollbackReceipt_paths {oldIdentity : I} {error : Option IoError}
    (h : (b.rollbackReceipt oldIdentity error).Runs tr attempt) :
    attempt.error = error ∧
      (∀ x ∈ attempt.installed, x.namespacePath = b.space.pathOf b.space.targetName) ∧
      (∃ found : Option (UnixEntry I), attempt.displaced = found.toList ∧
        ∀ x ∈ found, x.namespacePath = b.space.pathOf b.candidateName) ∧
      (attempt.installed = none → ∃ ev ∈ tr, (ev.call = .stat b.space.targetName ∨
        ev.call = .inert (.cloneParent b.space.targetName)) ∧
        succeeds ev.call ev.answer = false) := by
  rw [rollbackReceipt, Prog.runs_bind] at h
  obtain ⟨tr₁, _, restored, rfl, hrestored, h⟩ := h
  obtain ⟨_, _, moved, -, hmoved, h⟩ := Prog.runs_bind.mp h
  obtain ⟨_, _, restoredIdentity, -, -, h⟩ := Prog.runs_bind.mp h
  obtain ⟨_, _, movedIdentity, -, -, h⟩ := Prog.runs_bind.mp h
  obtain ⟨_, _, movedMatches, -, -, h⟩ := Prog.runs_bind.mp h
  obtain ⟨-, rfl⟩ := h
  refine ⟨rfl, observe_path hrestored, ⟨moved, rfl, observe_path hmoved⟩, ?_⟩
  intro hnone
  dsimp only at hnone
  subst hnone
  -- The target was not observed: its status or the descriptor for its entry failed.
  obtain ⟨tr₂, tr₃, found, rfl, hentry, hrestored⟩ := Prog.runs_bind.mp hrestored
  obtain ⟨rfl, hfound⟩ := Prog.runs_pure.mp hrestored
  cases found with
  | ok entry => cases hfound
  | error e =>
    suffices hfailed : ∃ ev ∈ tr₂, (ev.call = .stat b.space.targetName ∨
        ev.call = .inert (.cloneParent b.space.targetName)) ∧
        succeeds ev.call ev.answer = false by
      obtain ⟨ev, hev, hcall⟩ := hfailed
      exact ⟨ev, by simp [hev], hcall⟩
    rw [UnixConditionalBackend.entry, Namespace.entry, Prog.runs_andThen] at hentry
    obtain ⟨_, heq, hentry⟩ | ⟨tr₄, tr₅, identity, rfl, -, hentry⟩ := hentry
    · cases heq
      rw [identityAt, Prog.runs_andThen] at hentry
      obtain ⟨_, heq, hentry⟩ | ⟨_, _, _, -, -, habs⟩ := hentry
      · cases heq
        rw [Prog.runs_request.mp hentry]
        exact ⟨_, List.mem_cons_self, .inl rfl, rfl⟩
      · obtain ⟨-, habs⟩ := Prog.runs_pure.mp habs
        cases habs
    · rw [Prog.runs_andThen] at hentry
      obtain ⟨_, heq, hentry⟩ | ⟨_, _, _, -, -, habs⟩ := hentry
      · cases heq
        rw [Prog.runs_request.mp hentry]
        exact ⟨_, List.mem_append_right _ List.mem_cons_self, .inr rfl, rfl⟩
      · obtain ⟨-, habs⟩ := Prog.runs_pure.mp habs
        cases habs

/-- The receipt of a rollback that left the candidate away from the staging name. -/
theorem rollback_runs {displaced : UnixEntry I} (h : (b.rollback displaced).Runs tr attempt)
    (hun : Unaliased b tr d' (.rollback displaced)) :
    Receipt b attempt d' ∧ (attempt.error = none → attempt.installed ≠ none) := by
  obtain ⟨haway, hobserved⟩ := hun
  rw [rollback, Prog.runs_bind] at h
  obtain ⟨tr₁, _, prepared, rfl, -, h⟩ := h
  cases prepared with
  | error error =>
    obtain ⟨-, rfl⟩ := Prog.runs_pure.mp h
    exact ⟨⟨by simp [indeterminateRollback], .inl rfl⟩, fun habs => by cases habs⟩
  | ok facts =>
    obtain ⟨oldIdentity, displacedName⟩ := facts
    obtain ⟨tr₂, tr₃, exchanged, rfl, hexchange, h⟩ := Prog.runs_bind.mp h
    have hcall := exchange_runs hexchange
    cases exchanged with
    | ok _ =>
      obtain ⟨-, hinstalled, ⟨found, hdisplaced, hpath⟩, hnone⟩ := rollbackReceipt_paths h
      refine ⟨⟨hinstalled, ?_⟩, ?_⟩
      · rw [hdisplaced]
        exact displaced_of_option hpath fun _ => haway
      · intro _ hinstalled
        obtain rfl | ⟨-, _, habs, -⟩ := hcall
        · obtain ⟨ev, hev, hcall, hfailed⟩ := hnone hinstalled
          have hok := hobserved displacedName tr₁ tr₃ rfl ev hev hcall
          rw [hfailed] at hok
          cases hok
        · cases habs
    | error error =>
      obtain ⟨herror, hinstalled, ⟨found, hdisplaced, hpath⟩, -⟩ := rollbackReceipt_paths h
      refine ⟨⟨hinstalled, ?_⟩, fun habs => by rw [herror] at habs; cases habs⟩
      rw [hdisplaced]
      exact displaced_of_option hpath fun _ => haway

/-- The entries handed over at the end: the registered ones, and the staging entry only when the
    candidate is under the staging name. -/
theorem takeRecoveryEntries_runs {taken : List (UnixEntry I)} (happart : b.candidateName ≠ target)
    (h : b.takeRecoveryEntries.RunsIn (host target regular).Step d tr d' (taken, b')) :
    ∃ staged : Option (UnixEntry I), taken = b.recoveryEntries ++ staged.toList ∧
      (∀ x ∈ staged, x.namespacePath = b.space.pathOf b.candidateName) ∧
      (staged.isSome → d b.candidateName = some b.candidate) := by
  rw [takeRecoveryEntries, Prog.runsIn_bind] at h
  obtain ⟨_, _, d₁, remains, -, hremains, h⟩ := h
  obtain ⟨_, _, d₂, staged, -, hstaged, h⟩ := Prog.runsIn_bind.mp h
  obtain ⟨-, -, heq⟩ := h
  cases heq
  obtain ⟨hpath, hsome⟩ := observeWhen_path hstaged.runs
  refine ⟨staged, rfl, hpath, fun h => ?_⟩
  have hremains' := hsome h
  subst hremains'
  rw [stagedCandidateRemains, Prog.runsIn_bind] at hremains
  obtain ⟨_, _, d₃, found, -, hfound, hremains⟩ := hremains
  cases found with
  | error error =>
    obtain ⟨-, -, habs⟩ := hremains
    cases habs
  | ok identity =>
    obtain ⟨_, _, d₄, candidate, -, hcandidate, hremains⟩ := Prog.runsIn_bind.mp hremains
    cases candidate with
    | error error =>
      obtain ⟨-, -, habs⟩ := hremains
      cases habs
    | ok candidate =>
      obtain ⟨-, -, hcheck⟩ := hremains
      have hidentity : candidate = identity := by
        have hand := (Bool.and_eq_true _ _).mp hcheck.symm
        exact of_decide_eq_true hand.1
      subst hidentity
      -- The open candidate has its own identity, and that is what the staging name leads to.
      rw [fileIdentity, Prog.runsIn_andThen] at hcandidate
      obtain ⟨_, habs, -⟩ | ⟨_, _, _, status, -, hstat, hcandidate⟩ := hcandidate
      · cases habs
      obtain ⟨-, met, -, -, rfl⟩ := Prog.runsIn_request.mp hstat
      obtain ⟨-, -, heq⟩ := hcandidate
      cases heq
      rw [identityAt, Prog.runsIn_andThen] at hfound
      obtain ⟨_, habs, -⟩ | ⟨_, _, _, status, -, hstat, hfound⟩ := hfound
      · cases habs
      obtain ⟨-, met', hmet', -, hbound, -⟩ := Prog.runsIn_request.mp hstat
      obtain ⟨-, -, heq⟩ := hfound
      have hstatus : b.candidate = status.identity := Except.ok.inj heq
      rw [← hmet' _ happart, hbound, hstatus]

end UnixConditionalBackend

end Host

end LocalFiles.Conditional.Unix
