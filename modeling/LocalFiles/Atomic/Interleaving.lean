import LocalFiles.Contract
import LocalFiles.Atomic.Durability

/-!
# Interleaving — an atomic commit between the calls of another process

Another process may do to every name but the staging name what it likes.  The attempt then installs
its own file once or not at all, says which, replaces nothing where it found nothing, and leaves no
staging name that it does not mention.
-/

namespace LocalFiles.Atomic.Interleaving

open Interaction UnixAtomicWriter

/-! ## 1. The directory and what is noted about it -/

section World

variable {I : Type} [DecidableEq I]

/-- The other process does not know the staging name: it leaves that entry alone and gives no
    name to the staged file.  A failed call has no effect. -/
def competing (target staging : String) (staged : I) (regular : I → Bool) : Posix String I where
  target := target
  meddles d d' := d' staging = d staging ∧ (d' target = some staged → d target = some staged)
  regular := regular
  late _ := False

/-- `installed` lists what the destination name was bound to by each install call that succeeded,
    `clobbered` records that a call of ours took a bound destination name from its file. -/
structure InstallWorld (I : Type) where
  dir : Directory String I
  installed : List (Option I) := []
  clobbered : Bool := false

/-- The successful calls that give the destination name. -/
def gives (target : String) : (c : Syscall String I (AtomicCall I)) →
    c.Result AtomicCall.Result → Bool
  | .rename _ destination, .ok _ => destination = target
  | .renameNoReplace _ destination, .ok _ => destination = target
  | .link _ destination, .ok _ => destination = target
  | _, _ => false

def InstallStep (p : Posix String I) (w : InstallWorld I) (c : Syscall String I (AtomicCall I))
    (answer : c.Result AtomicCall.Result) (w' : InstallWorld I) : Prop :=
  ∃ met, p.meddles w.dir met ∧ p.Effect met c answer w'.dir ∧
    w'.installed = w.installed ++ (if gives p.target c answer then [w'.dir p.target] else []) ∧
    w'.clobbered = (w.clobbered || ((met p.target).isSome && w'.dir p.target ≠ met p.target))

end World

/-! ## 2. Where an attempt stands -/

section Phases

variable {I : Type} [DecidableEq I] {target staging : String} {staged : I} {regular : I → Bool}
  {existed : Bool} {file : Option I} {log : List (Option I)} {w w' : InstallWorld I}

/-- The staging entry and what was installed so far.  Until the staged file is installed the
    destination name is not one of its names. -/
structure Phase (target staging : String) (staged : I) (existed : Bool) (file : Option I)
    (log : List (Option I)) (w : InstallWorld I) : Prop where
  entry : w.dir staging = file
  installed : w.installed = log
  fresh : log = [] → w.dir target ≠ some staged
  spared : existed = false → w.clobbered = false

abbrev Env (target staging : String) (staged : I) (regular : I → Bool) (w : InstallWorld I)
    (c : Syscall String I (AtomicCall I)) (answer : c.Result AtomicCall.Result)
    (w' : InstallWorld I) : Prop :=
  InstallStep (competing target staging staged regular) w c answer w'

omit [DecidableEq I] in
theorem gives_of_observes {c : Syscall String I (AtomicCall I)}
    {answer : c.Result AtomicCall.Result} (hc : c.mutates = false) :
    gives target c answer = false := by
  cases c with
  | createExclusive n => cases hc
  | rename a b => cases hc
  | renameNoReplace a b => cases hc
  | renameExchange a b => cases hc
  | link a b => cases hc
  | unlink n => cases hc
  | _ => rfl

theorem Phase.quiet (h : Phase target staging staged existed file log w)
    {c : Syscall String I (AtomicCall I)} {answer : c.Result AtomicCall.Result}
    (hE : Env target staging staged regular w c answer w') (hc : c.mutates = false) :
    Phase target staging staged existed file log w' := by
  obtain ⟨met, ⟨hstaging, htarget⟩, heffect, hinstalled, hclobbered⟩ := hE
  have hdir : w'.dir = met := heffect.observes hc
  rw [gives_of_observes hc, if_neg Bool.false_ne_true, List.append_nil] at hinstalled
  refine ⟨?_, hinstalled.trans h.installed, fun hnone hbound => ?_, fun hnew => ?_⟩
  · rw [hdir, hstaging, h.entry]
  · rw [hdir] at hbound
    exact h.fresh hnone (htarget hbound)
  · rw [hclobbered, h.spared hnew, hdir]
    simp

/-- What a look at the staging name finds. -/
theorem Phase.stat (h : Phase target staging staged existed file log w)
    {answer : IoResult (Status I)}
    (hE : Env target staging staged regular w (.stat staging) answer w') :
    Phase target staging staged existed file log w' ∧
    ((∃ status, answer = .ok status ∧ file = some status.identity ∧
      status.regular = regular status.identity) ∨
    ∃ error, answer = .error error ∧ (error.kind = .notFound → file = none)) := by
  refine ⟨h.quiet hE rfl, ?_⟩
  obtain ⟨met, hmeddles, heffect, -, -⟩ := hE
  have hentry : met staging = file := hmeddles.1.trans h.entry
  cases answer with
  | ok status => exact .inl ⟨status, rfl, hentry ▸ heffect.2.1, heffect.2.2⟩
  | error error => exact .inr ⟨error, rfl, fun hkind => hentry ▸ heffect.2 hkind⟩

/-- A call on the staging name alone. -/
theorem Phase.unlink (hne : staging ≠ target)
    (h : Phase target staging staged existed file log w) {answer : IoResult Unit}
    (hE : Env target staging staged regular w (.unlink staging) answer w') :
    (answer = .ok () ∧ Phase target staging staged existed none log w') ∨
    ∃ error, answer = .error error ∧
      Phase target staging staged existed file log w' ∧
      (error.kind = .notFound → file = none) := by
  obtain ⟨met, ⟨hstaging, htarget⟩, ⟨hperforms, hgone⟩, hinstalled, hclobbered⟩ := hE
  have hkept : w'.dir target = met target →
      (log = [] → w'.dir target ≠ some staged) ∧ (existed = false → w'.clobbered = false) := by
    intro hsame
    refine ⟨fun hnone hbound => h.fresh hnone (htarget (hsame ▸ hbound)), fun hnew => ?_⟩
    rw [hclobbered, h.spared hnew, show (competing target staging staged regular).target = target
      from rfl, hsame]
    simp
  have hlog : w'.installed = log := by
    rw [hinstalled, ← h.installed]
    exact List.append_nil _
  cases answer with
  | ok _ =>
    obtain ⟨-, hdir⟩ := hperforms
    have hsame : w'.dir target = met target := by rw [hdir, Directory.unbind_of_ne hne.symm]
    obtain ⟨hfresh, hspared⟩ := hkept hsame
    exact .inl ⟨rfl, by rw [hdir, Directory.unbind_self], hlog, hfresh, hspared⟩
  | error error =>
    have hdir : w'.dir = met := hperforms.resolve_right fun hlate => hlate.1
    obtain ⟨hfresh, hspared⟩ := hkept (by rw [hdir])
    have hentry : met staging = file := hstaging.trans h.entry
    exact .inr ⟨error, rfl, ⟨by rw [hdir, hentry], hlog, hfresh, hspared⟩,
      fun hkind => hentry ▸ hgone error rfl hkind⟩

/-- An install call that fails has no effect. -/
theorem Phase.refused (h : Phase target staging staged existed file log w) {met : Directory String I}
    {c : Syscall String I (AtomicCall I)} {answer : c.Result AtomicCall.Result}
    (hmeddles : (competing target staging staged regular).meddles w.dir met)
    (hgives : gives target c answer = false)
    (hinstalled : w'.installed = w.installed ++
      (if gives target c answer then [w'.dir target] else []))
    (hclobbered : w'.clobbered = (w.clobbered || ((met target).isSome && w'.dir target ≠ met target)))
    (hdir : w'.dir = met) : Phase target staging staged existed file log w' := by
  rw [hgives, if_neg Bool.false_ne_true, List.append_nil] at hinstalled
  refine ⟨?_, hinstalled.trans h.installed, fun hnone hbound => ?_, fun hnew => ?_⟩
  · rw [hdir, hmeddles.1, h.entry]
  · rw [hdir] at hbound
    exact h.fresh hnone (hmeddles.2 hbound)
  · rw [hclobbered, h.spared hnew, hdir]
    simp

/-- One that takes effect gives the name to the staged file. -/
theorem Phase.given (h : Phase target staging staged existed file [] w)
    {next met : Directory String I} {c : Syscall String I (AtomicCall I)}
    {answer : c.Result AtomicCall.Result} (hgives : gives target c answer = true)
    (hinstalled : w'.installed = w.installed ++
      (if gives target c answer then [w'.dir target] else []))
    (hclobbered : w'.clobbered = (w.clobbered || ((met target).isSome && w'.dir target ≠ met target)))
    (hdir : w'.dir = next) (htarget : next target = some staged)
    (hnew : existed = false → met target = none) :
    Phase target staging staged existed (next staging) [some staged] w' := by
  refine ⟨by rw [hdir], ?_, nofun, fun hexisted => ?_⟩
  · rw [hinstalled, h.installed, if_pos hgives, hdir, htarget]
    rfl
  · rw [hclobbered, h.spared hexisted, hnew hexisted]
    rfl

/-- A replacing rename is made where the destination was there when the writer was opened. -/
theorem Phase.rename (hne : staging ≠ target) (hexisted : existed = true)
    (h : Phase target staging staged existed (some staged) [] w) {answer : IoResult Unit}
    (hE : Env target staging staged regular w (.rename staging target) answer w') :
    (answer = .ok () ∧ Phase target staging staged existed none [some staged] w') ∨
    ∃ error, answer = .error error ∧
      Phase target staging staged existed (some staged) [] w' := by
  obtain ⟨met, hmeddles, hperforms, hinstalled, hclobbered⟩ := hE
  have hstaging : met staging = some staged := hmeddles.1.trans h.entry
  have hdiffers : met staging ≠ met target := fun hsame =>
    h.fresh rfl (hmeddles.2 (hsame ▸ hstaging))
  cases answer with
  | ok _ =>
    have hgiven := h.given (by exact decide_eq_true rfl) hinstalled hclobbered hperforms.2
      ((Directory.rename_destination hne hdiffers).trans hstaging) (by rw [hexisted]; nofun)
    rw [Directory.rename_source hdiffers] at hgiven
    exact .inl ⟨rfl, hgiven⟩
  | error error =>
    have hdir := hperforms.resolve_right fun hlate => hlate.1
    exact .inr ⟨error, rfl, h.refused hmeddles rfl hinstalled hclobbered hdir⟩

theorem Phase.renameNoReplace (hne : staging ≠ target)
    (h : Phase target staging staged existed (some staged) [] w) {answer : IoResult Unit}
    (hE : Env target staging staged regular w (.renameNoReplace staging target) answer w') :
    (answer = .ok () ∧ Phase target staging staged existed none [some staged] w') ∨
    ∃ error, answer = .error error ∧
      Phase target staging staged existed (some staged) [] w' := by
  obtain ⟨met, hmeddles, hperforms, hinstalled, hclobbered⟩ := hE
  have hstaging : met staging = some staged := hmeddles.1.trans h.entry
  have hdiffers : met staging ≠ met target := fun hsame =>
    h.fresh rfl (hmeddles.2 (hsame ▸ hstaging))
  cases answer with
  | ok _ =>
    have hgiven := h.given (by exact decide_eq_true rfl) hinstalled hclobbered hperforms.2
      ((Directory.rename_destination hne hdiffers).trans hstaging) fun _ => hperforms.1.2
    rw [Directory.rename_source hdiffers] at hgiven
    exact .inl ⟨rfl, hgiven⟩
  | error error =>
    have hdir := hperforms.resolve_right fun hlate => hlate.1
    exact .inr ⟨error, rfl, h.refused hmeddles rfl hinstalled hclobbered hdir⟩

/-- A link leaves the staging name bound. -/
theorem Phase.link (hne : staging ≠ target)
    (h : Phase target staging staged existed (some staged) [] w) {answer : IoResult Unit}
    (hE : Env target staging staged regular w (.link staging target) answer w') :
    (answer = .ok () ∧ Phase target staging staged existed (some staged) [some staged] w') ∨
    ∃ error, answer = .error error ∧
      Phase target staging staged existed (some staged) [] w' := by
  obtain ⟨met, hmeddles, hperforms, hinstalled, hclobbered⟩ := hE
  have hstaging : met staging = some staged := hmeddles.1.trans h.entry
  cases answer with
  | ok _ =>
    have htarget : met.link staging target target = some staged := by
      rw [Directory.link, Function.update_self, hstaging]
    have hgiven := h.given (by exact decide_eq_true rfl) hinstalled hclobbered hperforms.2 htarget
      fun _ => hperforms.1.2
    rw [Directory.link, Function.update_of_ne hne, hstaging] at hgiven
    exact .inl ⟨rfl, hgiven⟩
  | error error =>
    have hdir := hperforms.resolve_right fun hlate => hlate.1
    exact .inr ⟨error, rfl, h.refused hmeddles rfl hinstalled hclobbered hdir⟩

end Phases

/-! ## 3. The installation -/

section Installation

variable {I : Type} [DecidableEq I] {target staging : String} {staged : I} {regular : I → Bool}
  {existed : Bool} {file : Option I} {log : List (Option I)} {w : InstallWorld I}

omit [DecidableEq I] in
theorem not_mutates_of_kind {c : Syscall String I (AtomicCall I)} (h : callKind c ≠ .mutates) :
    c.mutates = false := by
  cases c <;> first | rfl | exact absurd rfl h

/-- A program without calls that change names. -/
theorem wp_quiet {α : Type} (kinds : List CallKind) {p : AtomicM I α} (hp : Confined kinds p)
    (hkinds : .mutates ∉ kinds) (h : Phase target staging staged existed file log w) :
    p.Wp (Env target staging staged regular)
      (fun _ w' => Phase target staging staged existed file log w') w := by
  refine hp.wp (fun w c answer w' hc hphase hE => hphase.quiet hE ?_) h
  exact not_mutates_of_kind fun hkind => hkinds (hkind ▸ hc)

/-- What an installation comes to. -/
inductive InstallEnd (target staging : String) (staged : I) (existed : Bool) :
    Except InstallFailure Unit → InstallWorld I → Prop
  | done {w' : InstallWorld I}
      (h : Phase target staging staged existed none [some staged] w') :
      InstallEnd target staging staged existed (.ok ()) w'
  | unchanged {w' : InstallWorld I} {error : IoError}
      (h : Phase target staging staged existed (some staged) [] w') :
      InstallEnd target staging staged existed (.error (unchangedError error)) w'
  | linked {w' : InstallWorld I} {error : IoError}
      (h : Phase target staging staged existed (some staged) [some staged] w') :
      InstallEnd target staging staged existed (.error (error, .replaced, .present)) w'

theorem wp_unlinkAttempts (hne : staging ≠ target) (more : Nat)
    (h : Phase target staging staged existed file log w) :
    (unlinkAttempts staging more).Wp (Env target staging staged regular) (fun r w' =>
      (r = .ok () ∧ Phase target staging staged existed none log w') ∨
      ∃ error, r = .error error ∧ Phase target staging staged existed file log w') w := by
  induction more generalizing w with
  | zero =>
    refine Prog.wp_bind.mpr fun (answer : IoResult Unit) w₁ hE => ?_
    obtain ⟨rfl, h₁⟩ | ⟨error, rfl, h₁, hgone⟩ := h.unlink hne hE
    · exact .inl ⟨rfl, h₁⟩
    · show Prog.Wp _ _ (if _ then _ else _) _
      split
      next hkind => exact .inl ⟨rfl, hgone hkind ▸ h₁⟩
      next => exact .inr ⟨error, rfl, h₁⟩
  | succ more ih =>
    refine Prog.wp_bind.mpr fun (answer : IoResult Unit) w₁ hE => ?_
    obtain ⟨rfl, h₁⟩ | ⟨error, rfl, h₁, hgone⟩ := h.unlink hne hE
    · exact .inl ⟨rfl, h₁⟩
    · show Prog.Wp _ _ (if _ then _ else _) _
      split
      next hkind => exact .inl ⟨rfl, hgone hkind ▸ h₁⟩
      next => exact ih h₁

theorem wp_linkThenUnlink (hne : staging ≠ target)
    (h : Phase target staging staged existed (some staged) [] w) :
    (linkThenUnlink staging target).Wp (Env target staging staged regular)
      (InstallEnd target staging staged existed) w := by
  refine Prog.wp_bind.mpr fun (answer : IoResult Unit) w₁ hE => ?_
  obtain ⟨rfl, h₁⟩ | ⟨error, rfl, h₁⟩ := h.link hne hE
  · refine Prog.wp_bind.mpr ((wp_unlinkAttempts hne _ h₁).mono fun r w₂ hr => ?_)
    obtain ⟨rfl, h₂⟩ | ⟨error, rfl, h₂⟩ := hr
    · exact .done h₂
    · exact .linked h₂
  · exact .unchanged h₁

theorem wp_installNewAtomicFileAt (system : UnixTarget) (hne : staging ≠ target)
    (h : Phase target staging staged existed (some staged) [] w) :
    (installNewAtomicFileAt system staging target).Wp (Env target staging staged regular)
      (InstallEnd target staging staged existed) w := by
  cases system with
  | linux =>
    refine Prog.wp_bind.mpr fun (answer : IoResult Unit) w₁ hE => ?_
    obtain ⟨rfl, h₁⟩ | ⟨error, rfl, h₁⟩ := h.renameNoReplace hne hE
    · exact .done h₁
    · show Prog.Wp _ _ (if _ then _ else _) _
      split
      · exact wp_linkThenUnlink hne h₁
      · exact .unchanged h₁
  | macos =>
    refine Prog.wp_bind.mpr fun (answer : IoResult Unit) w₁ hE => ?_
    obtain ⟨rfl, h₁⟩ | ⟨error, rfl, h₁⟩ := h.renameNoReplace hne hE
    · exact .done h₁
    · exact .unchanged h₁
  | freebsd => exact wp_linkThenUnlink hne h
  | other => exact .unchanged h

theorem wp_replaceExisting (hne : staging ≠ target) (hexisted : existed = true)
    (h : Phase target staging staged existed (some staged) [] w) :
    (replaceExisting staging target).Wp (Env target staging staged regular)
      (InstallEnd target staging staged existed) w := by
  refine Prog.wp_bind.mpr fun (answer : IoResult Unit) w₁ hE => ?_
  obtain ⟨rfl, h₁⟩ | ⟨error, rfl, h₁⟩ := h.rename hne hexisted hE
  · exact .done h₁
  · exact .unchanged h₁

theorem wp_install (scope : Scope) (system : UnixTarget) (hne : staging ≠ target)
    (h : Phase target staging staged existed (some staged) [] w) :
    (scope.install system staging target existed).Wp (Env target staging staged regular)
      (InstallEnd target staging staged existed) w := by
  cases existed with
  | true => cases scope <;> exact wp_replaceExisting hne rfl h
  | false =>
    cases scope with
    | rooted => exact wp_installNewAtomicFileAt system hne h
    | host =>
      show (installNewAtomicFile system staging target).Wp _ _ w
      unfold installNewAtomicFile
      split
      next => exact .unchanged h
      next => exact .unchanged h
      next hstaging htarget =>
        rw [nativePath_ok hstaging, nativePath_ok htarget]
        exact wp_installNewAtomicFileAt system hne h

/-! ## 4. Cleanup -/

theorem wp_remove (hne : staging ≠ target) {guard : StagedFile I}
    (h : Phase target staging staged existed file log w) :
    (guard.remove staging).Wp (Env target staging staged regular) (fun r w' =>
      (r = (.ok (), { guard with name := none }) ∧
        Phase target staging staged existed none log w') ∨
      ∃ error, r = (.error error, guard) ∧ Phase target staging staged existed file log w') w := by
  refine Prog.wp_bind.mpr fun (answer : IoResult Unit) w₁ hE => ?_
  obtain ⟨rfl, h₁⟩ | ⟨error, rfl, h₁, -⟩ := h.unlink hne hE
  · exact .inl ⟨rfl, h₁⟩
  · exact .inr ⟨error, rfl, h₁⟩

/-- A path without an identity is free: the staged file is a regular one. -/
theorem wp_pathIdentity (hregular : regular staged = true)
    (h : Phase target staging staged existed file log w) (hfile : ∀ i ∈ file, i = staged) :
    (pathIdentity staging).Wp (Env target staging staged regular) (fun r w' =>
      Phase target staging staged existed file log w' ∧ (r = .ok none → file = none)) w := by
  refine Prog.wp_bind.mpr fun (answer : IoResult (Status I)) w₁ hE => ?_
  obtain ⟨h₁, ⟨status, rfl, rfl, hstatus⟩ | ⟨error, rfl, hgone⟩⟩ := h.stat hE
  · refine ⟨h₁, fun hnone => ?_⟩
    rw [hstatus, hfile status.identity rfl, hregular] at hnone
    cases hnone
  · show Prog.Wp _ _ (if _ then _ else _) _
    split
    next hkind => exact ⟨h₁, fun _ => hgone hkind⟩
    next => exact ⟨h₁, nofun⟩

/-- After a cleanup without error the staging name is free. -/
theorem wp_cleanup (scope : Scope) (hne : staging ≠ target) (hregular : regular staged = true)
    {guard : StagedFile I} (hname : guard.name = some staging)
    (h : Phase target staging staged existed file log w) (hfile : ∀ i ∈ file, i = staged) :
    (scope.cleanup guard).Wp (Env target staging staged regular) (fun r w' =>
      (r = (.ok (), { guard.close with name := none }) ∧
        Phase target staging staged existed none log w') ∨
      ∃ error, r = (.error error, guard.close) ∧
        Phase target staging staged existed file log w') w := by
  have hclosed : guard.close.name = some staging := hname
  cases scope with
  | host =>
    simp only [Scope.cleanup, StagedFile.cleanup, StagedFile.cleanupBy, hclosed]
    refine Prog.wp_bind.mpr ((wp_pathIdentity hregular h hfile).mono fun r w₁ hr => ?_)
    obtain ⟨h₁, hgone⟩ := hr
    cases r with
    | error error => exact .inr ⟨error, rfl, h₁⟩
    | ok found =>
      cases found with
      | none => exact .inl ⟨rfl, hgone rfl ▸ h₁⟩
      | some current =>
        show Prog.Wp _ _ (if _ then _ else _) _
        split
        · exact .inr ⟨_, rfl, h₁⟩
        · exact wp_remove hne h₁
  | rooted =>
    simp only [Scope.cleanup, RootedStagedFile.cleanup, hclosed]
    split
    next => exact .inr ⟨_, rfl, h⟩
    next identity hidentity =>
      refine Prog.wp_bind.mpr fun (answer : IoResult (Status I)) w₁ hE => ?_
      obtain ⟨h₁, ⟨status, rfl, -, -⟩ | ⟨error, rfl, hgone⟩⟩ := h.stat hE
      · show Prog.Wp _ _ (if _ then _ else _) _
        split
        · exact .inr ⟨_, rfl, h₁⟩
        · exact wp_remove hne h₁
      · show Prog.Wp _ _ (if _ then _ else _) _
        split
        next hkind => exact .inl ⟨rfl, hgone hkind ▸ h₁⟩
        next => exact .inr ⟨error, rfl, h₁⟩

end Installation

/-! ## 5. What an error says -/

section Errors

variable {S I α : Type} {E : S → (c : Syscall String I (AtomicCall I)) →
  c.Result AtomicCall.Result → S → Prop} {s : S} {scope : Scope} {w : UnixAtomicWriter I}

/-- The destination is as it was, as far as this writer is concerned. -/
def Untouched (error : LocalAtomicWriteError) : Prop :=
  error.destinationState = .unchanged ∨ error.destinationState = .missing

/-- Every error of the program is one of these. -/
def Fails (P : LocalAtomicWriteError → Prop) (r : Except LocalAtomicWriteError α) (_ : S) : Prop :=
  ∀ error, r = .error error → P error

theorem fails_ok {P : LocalAtomicWriteError → Prop} (a : α) : Fails P (.ok a) s := by
  intro error h
  cases h

theorem fails_error {P : LocalAtomicWriteError → Prop} {error : LocalAtomicWriteError}
    (h : P error) : Fails (α := α) P (.error error) s := by
  rintro _ ⟨⟩
  exact h

theorem wp_any (p : AtomicM I α) : p.Wp E (fun _ _ => True) s :=
  Prog.Wp.keeps p (fun _ _ _ _ _ _ => trivial) trivial

theorem wp_fails_andThen {β : Type} {P : LocalAtomicWriteError → Prop}
    {p : AtomicM I (Except LocalAtomicWriteError α)}
    {f : α → AtomicM I (Except LocalAtomicWriteError β)} (hp : p.Wp E (Fails P) s)
    (hf : ∀ a s, (f a).Wp E (Fails P) s) : (p.andThen f).Wp E (Fails P) s := by
  refine Prog.wp_andThen.mpr (hp.mono fun r s' hr => ⟨?_, fun a _ => hf a s'⟩)
  rintro error rfl
  exact fails_error (hr error rfl)

/-- What an error from before the installation says. -/
structure Early (w : UnixAtomicWriter I) (error : LocalAtomicWriteError) : Prop where
  untouched : Untouched error
  temporaryPath : error.temporaryPath = some w.stagedFile.diagnosticPath

theorem wp_temporaryPath {post : Path → S → Prop} (h : ∀ s, post w.stagedFile.diagnosticPath s) :
    (w.stagedFile.temporaryPath scope).Wp E post s := by
  cases scope with
  | host => exact Prog.wp_bind.mpr ((wp_any _).mono fun _ s' _ => h s')
  | rooted => exact h s

theorem mapAtomicError_early (result : IoResult α) (stage : LocalAtomicWriteStage) :
    Fails (Early w) (mapAtomicError result stage w.path (some w.stagedFile.diagnosticPath)
      .unchanged) s := by
  cases result with
  | ok a => exact fails_ok a
  | error error => exact fails_error ⟨.inl rfl, rfl⟩

theorem wp_openDestinationForCommit :
    (w.openDestinationForCommit scope).Wp E (Fails (Early w)) s := by
  unfold UnixAtomicWriter.openDestinationForCommit
  split
  · exact fails_ok _
  · refine Prog.wp_bind.mpr (wp_temporaryPath fun s₁ => ?_)
    refine Prog.wp_bind.mpr ((wp_any _).mono fun opened s₂ _ => ?_)
    split
    · exact fails_error ⟨.inl rfl, rfl⟩
    · exact fails_error ⟨.inr rfl, rfl⟩
    · exact fails_ok _

theorem wp_applyDestinationMetadata (destination : Option (OpenedAtomicDestination I)) :
    (w.applyDestinationMetadata scope destination).Wp E (Fails (Early w)) s := by
  unfold UnixAtomicWriter.applyDestinationMetadata
  split
  · exact fails_ok _
  · refine Prog.wp_bind.mpr ((wp_any _).mono fun handle s₁ _ => ?_)
    refine Prog.wp_bind.mpr ((wp_any _).mono fun result s₂ _ => ?_)
    refine Prog.wp_bind.mpr (wp_temporaryPath fun s₃ => ?_)
    exact mapAtomicError_early _ _

theorem wp_applyCopyPermissions : (w.applyCopyPermissions scope).Wp E (Fails (Early w)) s := by
  unfold UnixAtomicWriter.applyCopyPermissions
  split
  · exact fails_ok _
  · split
    · exact fails_ok _
    · refine Prog.wp_bind.mpr ((wp_any _).mono fun handle s₁ _ => ?_)
      refine Prog.wp_bind.mpr ((wp_any _).mono fun result s₂ _ => ?_)
      exact mapAtomicError_early _ _

theorem wp_syncTemporaryFile : (w.syncTemporaryFile scope).Wp E (Fails (Early w)) s := by
  unfold UnixAtomicWriter.syncTemporaryFile synchronizeStagingFile
  refine Prog.wp_bind.mpr (wp_temporaryPath fun s₁ => ?_)
  refine Prog.wp_bind.mpr ((wp_any _).mono fun handle s₂ _ => ?_)
  split
  · exact fails_ok _
  · refine Prog.wp_bind.mpr ((wp_any _).mono fun result s₃ _ => ?_)
    split <;> exact fails_ok _
  · refine Prog.wp_bind.mpr ((wp_any _).mono fun result s₃ _ => ?_)
    cases result with
    | ok _ => exact fails_ok _
    | error error => exact fails_error ⟨.inl rfl, rfl⟩

theorem wp_mismatchState (name : String) :
    (mismatchState scope name).Wp E (fun state _ => state = .unchanged ∨ state = .missing) s := by
  unfold mismatchState
  cases scope with
  | host =>
    refine Prog.wp_bind.mpr ((wp_any _).mono fun status s₁ _ => ?_)
    split
    · exact .inr rfl
    · exact .inl rfl
  | rooted =>
    refine Prog.wp_bind.mpr ((wp_any _).mono fun status s₁ _ => ?_)
    split
    · exact .inr rfl
    · exact .inl rfl

variable [DecidableEq I]

theorem wp_verifyDestinationForCommit (destination : Option (OpenedAtomicDestination I)) :
    (w.verifyDestinationForCommit scope destination).Wp E (Fails (Early w)) s := by
  unfold UnixAtomicWriter.verifyDestinationForCommit
  split
  · exact fails_ok _
  · refine Prog.wp_bind.mpr (wp_temporaryPath fun s₁ => ?_)
    refine Prog.wp_bind.mpr ((wp_any _).mono fun same s₂ _ => ?_)
    split
    · exact fails_ok _
    · refine Prog.wp_bind.mpr ((wp_mismatchState _).mono fun state s₃ hstate => ?_)
      exact fails_error ⟨hstate, rfl⟩
    · exact fails_error ⟨.inl rfl, rfl⟩

/-- Before the installation no error says that the destination was replaced. -/
theorem wp_prepareCommit : (w.prepareCommit scope).Wp E (Fails (Early w)) s := by
  refine wp_fails_andThen wp_openDestinationForCommit fun destination _ => ?_
  refine wp_fails_andThen (wp_applyDestinationMetadata destination) fun _ _ => ?_
  refine wp_fails_andThen wp_applyCopyPermissions fun _ _ => ?_
  refine wp_fails_andThen wp_syncTemporaryFile fun fileSynced _ => ?_
  exact wp_fails_andThen (wp_verifyDestinationForCommit destination) fun _ _ => fails_ok _

omit [DecidableEq I] in
theorem wp_syncAsRequired {P : LocalAtomicWriteError → Prop} (durability : LocalDurabilityRequirement)
    (sync : AtomicM I (IoResult Unit)) {failure : IoError → LocalAtomicWriteError}
    (hfailure : ∀ error, P (failure error)) :
    (syncAsRequired durability sync failure).Wp E (Fails P) s := by
  cases durability with
  | notRequired => exact fails_ok _
  | preferred =>
    refine Prog.wp_bind.mpr ((wp_any _).mono fun result s₁ _ => ?_)
    cases result <;> exact fails_ok _
  | required =>
    refine Prog.wp_bind.mpr ((wp_any _).mono fun result s₁ _ => ?_)
    cases result with
    | ok _ => exact fails_ok _
    | error error => exact fails_error (hfailure error)

end Errors

/-! ## 6. The attempt -/

section Attempts

variable {I : Type} [DecidableEq I] {target staging : String} {staged : I} {regular : I → Bool}
  {existed : Bool} {log : List (Option I)} {w : InstallWorld I}

/-- The error says whether an install took effect. -/
def Reports (log : List (Option I)) (staged : I) (error : LocalAtomicWriteError) : Prop :=
  log = [] ∧ Untouched error ∨ log = [some staged] ∧ error.destinationState = .replaced

/-- What is left behind an installation, with the guard of the staging file: it is free of its
    name, or the error mentions the name. -/
inductive AttemptEnd (target staging : String) (staged : I) (existed : Bool) (temporary : Path)
    {α : Type} : Except LocalAtomicWriteError α → StagedFile I → InstallWorld I → Prop
  | published {a : α} {guard : StagedFile I} {w' : InstallWorld I} (hname : guard.name = none)
      (h : Phase target staging staged existed none [some staged] w') :
      AttemptEnd target staging staged existed temporary (.ok a) guard w'
  | cleaned {error : LocalAtomicWriteError} {guard : StagedFile I} {w' : InstallWorld I}
      {log : List (Option I)} (hfile : guard.file = none) (hname : guard.name = none)
      (h : Phase target staging staged existed none log w') (hreports : Reports log staged error) :
      AttemptEnd target staging staged existed temporary (.error error) guard w'
  | left {error : LocalAtomicWriteError} {guard : StagedFile I} {w' : InstallWorld I}
      {log : List (Option I)} (hfile : guard.file = none) (hname : guard.name = some staging)
      (h : Phase target staging staged existed (some staged) log w')
      (hreports : Reports log staged error) (hcleanup : error.cleanupError.isSome)
      (hpath : error.temporaryPath = some temporary) :
      AttemptEnd target staging staged existed temporary (.error error) guard w'

omit [DecidableEq I] in
theorem confined_syncDirectories (dirs : List Path) :
    Confined [.syncsParents] (syncDirectories dirs : AtomicM I (IoResult Unit)) := by
  induction dirs with
  | nil => trivial
  | cons directory rest ih => exact Prog.Makes.andThen (confined_native rfl) fun _ => ih

omit [DecidableEq I] in
theorem confined_syncParentChain (dirs : List Path) :
    Confined [.syncsParents] (syncParentChain dirs : AtomicM I (IoResult Unit)) :=
  Prog.Makes.andThen (confined_native rfl) fun _ => confined_syncDirectories _

/-- The synchronization behind an installation changes no entry, and its error is the one given. -/
theorem wp_syncBehind (durability : LocalDurabilityRequirement) (dirs : List Path)
    {failure : IoError → LocalAtomicWriteError} {P : LocalAtomicWriteError → Prop}
    (hfailure : ∀ error, P (failure error))
    (h : Phase target staging staged existed none log w) :
    (syncAsRequired durability (syncParentChain dirs) failure).Wp
      (Env target staging staged regular) (fun r w' => Fails P r w' ∧
        Phase target staging staged existed none log w') w := by
  refine (wp_syncAsRequired durability _ hfailure).and ?_
  refine wp_quiet [.syncsParents] ?_ (by decide) h
  unfold syncAsRequired
  cases durability with
  | notRequired => trivial
  | preferred =>
    refine Prog.Makes.bind (confined_syncParentChain dirs) fun answer => ?_
    cases answer <;> trivial
  | required =>
    refine Prog.Makes.bind (confined_syncParentChain dirs) fun answer => ?_
    cases answer <;> trivial

/-- A reported failure keeps the states that the installation gave. -/
theorem wp_reportFailure (context : AtomicInstallRecovery) (durability : LocalDurabilityRequirement)
    (dirs : List Path) (cleanupError : Option IoError) {file : Option I}
    (h : Phase target staging staged existed file log w) :
    (context.reportFailure durability (syncParentChain dirs) cleanupError).Wp
      (Env target staging staged regular) (fun r w' => (∃ error, r = .error error ∧
        error.destinationState = context.destinationState ∧ error.cleanupError = cleanupError ∧
        error.temporaryPath = some context.temporaryPath) ∧
        Phase target staging staged existed file log w') w := by
  refine Prog.wp_bind.mpr ((wp_quiet [.syncsParents] ?_ (by decide) h).mono ?_)
  · unfold AtomicInstallRecovery.parentSyncError
    split
    · refine Prog.Makes.bind (confined_syncParentChain dirs) fun answer => ?_
      cases answer <;> trivial
    · trivial
  · exact fun parentSyncError w' h' => ⟨⟨_, rfl, rfl, rfl, rfl⟩, h'⟩

theorem wp_recover {scope : Scope} {context : AtomicInstallRecovery}
    {durability : LocalDurabilityRequirement} {dirs : List Path} {guard : StagedFile I}
    (hne : staging ≠ target) (hregular : regular staged = true)
    (hname : guard.name = some staging) (hpresent : context.stagingState = .present)
    (hlog : log = [] ∧ context.destinationState = .unchanged ∨
      log = [some staged] ∧ context.destinationState = .replaced)
    (h : Phase target staging staged existed (some staged) log w) :
    (recoverAtomicInstallError context guard durability scope.cleanup StagedFile.disarm
      (syncParentChain dirs)).Wp (Env target staging staged regular)
      (fun r w' => AttemptEnd target staging staged existed context.temporaryPath r.1 r.2 w')
      w := by
  have hreports : ∀ error : LocalAtomicWriteError,
      error.destinationState = context.destinationState → Reports log staged error := by
    intro error hstate
    rcases hlog with ⟨hnone, hunchanged⟩ | ⟨hinstalled, hreplaced⟩
    · exact .inl ⟨hnone, .inl (hstate.trans hunchanged)⟩
    · exact .inr ⟨hinstalled, hstate.trans hreplaced⟩
  unfold recoverAtomicInstallError
  rw [hpresent]
  have hstaged : ∀ i ∈ some staged, i = staged := fun i hi => (Option.some.inj hi).symm
  refine Prog.wp_bind.mpr ((wp_cleanup scope hne hregular hname h hstaged).mono ?_)
  rintro r w₁ (⟨rfl, h₁⟩ | ⟨error, rfl, h₁⟩)
  · show Prog.Wp _ _ (if _ then _ else _) _
    split
    next hreplaced =>
      -- The link succeeded and the staging name is gone by now: only durability is left to fail.
      rw [finishPublished_eq]
      refine Prog.wp_bind.mpr ((wp_syncBehind durability dirs
        (P := fun error => error.destinationState = .replaced) (fun _ => hreplaced) h₁).mono ?_)
      rintro (error | durable) w₂ ⟨hfails, h₂⟩
      · exact .cleaned rfl rfl h₂ (hreports error ((hfails error rfl).trans hreplaced.symm))
      · have hinstalled : log = [some staged] := by
          rcases hlog with ⟨-, hunchanged⟩ | ⟨hinstalled, -⟩
          · rw [hunchanged] at hreplaced
            cases hreplaced
          · exact hinstalled
        exact .published rfl (hinstalled ▸ h₂)
    next =>
      refine Prog.wp_bind.mpr ((wp_reportFailure context durability dirs none h₁).mono ?_)
      rintro r w₂ ⟨⟨error, rfl, hstate, -, -⟩, h₂⟩
      exact .cleaned rfl rfl h₂ (hreports error hstate)
  · refine Prog.wp_bind.mpr ((wp_reportFailure context durability dirs (some error) h₁).mono ?_)
    rintro r w₂ ⟨⟨reported, rfl, hstate, hcleanup, hpath⟩, h₂⟩
    exact .left rfl hname h₂ (hreports reported hstate) (by rw [hcleanup]; rfl) hpath

theorem wp_installAndSyncParent {scope : Scope} (system : UnixTarget)
    {writer : UnixAtomicWriter I} (hne : staging ≠ writer.name) (hregular : regular staged = true)
    (hname : writer.stagedFile.name = some staging)
    (h : Phase writer.name staging staged writer.destinationExisted (some staged) [] w) :
    (writer.installAndSyncParent scope system).Wp (Env writer.name staging staged regular)
      (fun r w' => AttemptEnd writer.name staging staged writer.destinationExisted
        writer.stagedFile.diagnosticPath r.1 r.2.stagedFile w') w := by
  have hclosed : writer.stagedFile.close.name = some staging := hname
  have harmed : writer.stagedFile.close.armedName scope = pure staging := by
    cases scope <;> simp only [StagedFile.armedName, StagedFile.close, hname, expectSome]
  refine Prog.wp_bind.mpr ?_
  rw [harmed]
  refine Prog.wp_bind.mpr ((wp_install scope system hne h).mono ?_)
  intro r w₁ hend
  cases hend with
  | done h₁ =>
    rw [finishInstalled_eq]
    refine Prog.wp_bind.mpr ((wp_syncBehind writer.durability writer.parentDirsToSync
      (P := fun error => error.destinationState = .replaced) (fun _ => rfl) h₁).mono ?_)
    rintro (error | durable) w₂ ⟨hfails, h₂⟩
    · exact .cleaned rfl rfl h₂ (.inr ⟨rfl, hfails error rfl⟩)
    · exact .published rfl h₂
  | unchanged h₁ =>
    refine Prog.wp_bind.mpr (Prog.Wp.mono (by
      exact wp_recover hne hregular hclosed rfl (.inl ⟨rfl, rfl⟩) h₁) ?_)
    exact fun _ _ hend => hend
  | linked h₁ =>
    refine Prog.wp_bind.mpr (Prog.Wp.mono (by
      exact wp_recover hne hregular hclosed rfl (.inr ⟨rfl, rfl⟩) h₁) ?_)
    exact fun _ _ hend => hend

/-- A guard that kept its name tries once more to remove the file when it is dropped. -/
theorem wp_drop (scope : Scope) {guard : StagedFile I} (hne : staging ≠ target)
    (hregular : regular staged = true) (hname : guard.name = some staging)
    (h : Phase target staging staged existed (some staged) log w) :
    (scope.drop guard).Wp (Env target staging staged regular) (fun _ w' =>
      ∃ file, Phase target staging staged existed file log w') w := by
  have hstaged : ∀ i ∈ some staged, i = staged := fun i hi => (Option.some.inj hi).symm
  refine Prog.wp_bind.mpr ((wp_cleanup scope hne hregular hname h hstaged).mono ?_)
  rintro r w₁ (⟨rfl, h₁⟩ | ⟨error, rfl, h₁⟩)
  · exact ⟨none, h₁⟩
  · exact ⟨some staged, h₁⟩

theorem wp_drop_disarmed {scope : Scope} {guard : StagedFile I} {post : Unit → InstallWorld I → Prop}
    (hname : guard.name = none) (h : post () w) :
    (scope.drop guard).Wp (Env target staging staged regular) post w := by
  have hclosed : guard.close.name = none := hname
  have hdrop : scope.drop guard = pure () := by
    cases scope with
    | host => simp only [Scope.drop, Scope.cleanup, StagedFile.cleanup, StagedFile.cleanupBy,
        hclosed]; rfl
    | rooted => simp only [Scope.drop, Scope.cleanup, RootedStagedFile.cleanup, hclosed]; rfl
  rw [hdrop]
  exact h

/-- What a commit comes to for its caller. -/
inductive CommitEnd (staging : String) (staged : I) (writer : UnixAtomicWriter I) :
    Except (LocalAtomicCommitError (UnixAtomicWriter I)) LocalCommitSyncOutcome →
    InstallWorld I → Prop
  | published {outcome : LocalCommitSyncOutcome} {w' : InstallWorld I}
      (h : Phase writer.name staging staged writer.destinationExisted none [some staged] w') :
      CommitEnd staging staged writer (.ok outcome) w'
  | kept {error : LocalAtomicWriteError} {w' : InstallWorld I}
      (h : Phase writer.name staging staged writer.destinationExisted (some staged) [] w')
      (hearly : Early writer error) : CommitEnd staging staged writer (.error ⟨error, some writer⟩) w'
  | failed {error : LocalAtomicWriteError} {w' : InstallWorld I} {file : Option I}
      {log : List (Option I)}
      (h : Phase writer.name staging staged writer.destinationExisted file log w')
      (hreports : Reports log staged error)
      (horphan : file = none ∨ error.cleanupError.isSome ∧
        error.temporaryPath = some writer.stagedFile.diagnosticPath) :
      CommitEnd staging staged writer (.error ⟨error, none⟩) w'

theorem wp_commit (scope : Scope) (system : UnixTarget) {writer : UnixAtomicWriter I}
    (hne : staging ≠ writer.name) (hregular : regular staged = true)
    (hname : writer.stagedFile.name = some staging) (hfile : writer.stagedFile.file = some staged)
    (h : Phase writer.name staging staged writer.destinationExisted (some staged) [] w) :
    (writer.commitRecoverableWithSync scope system).Wp (Env writer.name staging staged regular)
      (CommitEnd staging staged writer) w := by
  have hopen : writer.stagedFile.isOpen = true := by rw [StagedFile.isOpen, hfile]; rfl
  refine Prog.wp_bind.mpr (Prog.wp_bind.mpr (Prog.Wp.mono (wp_prepareCommit.and
    (wp_quiet _ confined_prepareCommit (by decide) h)) ?_))
  rintro (error | fileSynced) w₁ ⟨hfails, h₁⟩
  · show Prog.Wp _ _ (if writer.stagedFile.isOpen then _ else _) _
    rw [if_pos hopen]
    exact .kept h₁ (hfails error rfl)
  · refine Prog.wp_bind.mpr ((wp_installAndSyncParent system hne hregular hname h₁).mono ?_)
    rintro ⟨r, writer'⟩ w₂ hend
    cases hend with
    | published hgone h₂ =>
      exact Prog.wp_bind.mpr (wp_drop_disarmed hgone (.published h₂))
    | cleaned hclosed hgone h₂ hreports =>
      show Prog.Wp _ _ (if writer'.stagedFile.file.isSome then _ else _) _
      rw [hclosed, Option.isSome_none, if_neg Bool.false_ne_true]
      exact Prog.wp_bind.mpr (wp_drop_disarmed hgone (.failed h₂ hreports (.inl rfl)))
    | left hclosed harmed h₂ hreports hcleanup hpath =>
      show Prog.Wp _ _ (if writer'.stagedFile.file.isSome then _ else _) _
      rw [hclosed, Option.isSome_none, if_neg Bool.false_ne_true]
      refine Prog.wp_bind.mpr ((wp_drop scope hne hregular harmed h₂).mono ?_)
      rintro _ w₃ ⟨file, h₃⟩
      exact .failed h₃ hreports (.inr ⟨hcleanup, hpath⟩)

/-- What a consuming commit comes to.  Where the destination was found missing it releases the
    staging file instead of removing it. -/
inductive ConsumedEnd (staging : String) (staged : I) (writer : UnixAtomicWriter I) :
    Except LocalAtomicWriteError Bool → InstallWorld I → Prop
  | published {durable : Bool} {w' : InstallWorld I}
      (h : Phase writer.name staging staged writer.destinationExisted none [some staged] w') :
      ConsumedEnd staging staged writer (.ok durable) w'
  | failed {error : LocalAtomicWriteError} {w' : InstallWorld I} {file : Option I}
      {log : List (Option I)}
      (h : Phase writer.name staging staged writer.destinationExisted file log w')
      (hreports : Reports log staged error)
      (horphan : file = none ∨ error.temporaryPath = some writer.stagedFile.diagnosticPath ∧
        (error.cleanupError.isSome ∨ error.destinationState = .missing)) :
      ConsumedEnd staging staged writer (.error error) w'

theorem wp_finalizeFailed {writer : UnixAtomicWriter I} {error : LocalAtomicWriteError}
    (hne : staging ≠ writer.name) (hregular : regular staged = true)
    (hname : writer.stagedFile.name = some staging) (hearly : Early writer error)
    (h : Phase writer.name staging staged writer.destinationExisted (some staged) [] w) :
    (writer.finalizeFailed .rooted error).Wp (Env writer.name staging staged regular)
      (fun error w' => ConsumedEnd staging staged writer (.error error) w') w := by
  have hstaged : ∀ i ∈ some staged, i = staged := fun i hi => (Option.some.inj hi).symm
  unfold finalizeFailed finalizeFailedCommit
  split
  next hunchanged =>
    refine Prog.wp_bind.mpr (Prog.wp_bind.mpr
      ((wp_cleanup .rooted hne hregular hname h hstaged).mono ?_))
    rintro r w₁ (⟨rfl, h₁⟩ | ⟨cleanupError, rfl, h₁⟩)
    · refine Prog.wp_bind.mpr (wp_drop_disarmed rfl ?_)
      exact .failed h₁ (.inl ⟨rfl, .inl hunchanged⟩) (.inl rfl)
    · have hclosed : writer.stagedFile.close.name = some staging := hname
      refine Prog.wp_bind.mpr (Prog.Wp.mono (wp_drop .rooted hne hregular hclosed h₁) ?_)
      rintro _ w₂ ⟨file, h₂⟩
      exact .failed h₂ (.inl ⟨rfl, .inl hunchanged⟩) (.inr ⟨hearly.temporaryPath, .inl rfl⟩)
  next hchanged =>
    have hmissing := hearly.untouched.resolve_left hchanged
    refine Prog.wp_bind.mpr (wp_drop_disarmed rfl ?_)
    exact .failed h (.inl ⟨rfl, .inr hmissing⟩) (.inr ⟨hearly.temporaryPath, .inr hmissing⟩)

theorem wp_commitWithDurability (system : UnixTarget) {writer : UnixAtomicWriter I}
    (hne : staging ≠ writer.name) (hregular : regular staged = true)
    (hname : writer.stagedFile.name = some staging) (hfile : writer.stagedFile.file = some staged)
    (h : Phase writer.name staging staged writer.destinationExisted (some staged) [] w) :
    (writer.commitWithDurability system).Wp (Env writer.name staging staged regular)
      (ConsumedEnd staging staged writer) w := by
  refine Prog.wp_bind.mpr ((wp_commit .rooted system hne hregular hname hfile h).mono ?_)
  intro r w₁ hend
  cases hend with
  | published h₁ => exact .published h₁
  | kept h₁ hearly =>
    exact Prog.wp_bind.mpr ((wp_finalizeFailed hne hregular hname hearly h₁).mono
      fun _ _ hend => hend)
  | failed h₁ hreports horphan =>
    exact .failed h₁ hreports (horphan.imp_right fun ⟨hcleanup, hpath⟩ => ⟨hpath, .inl hcleanup⟩)

end Attempts

/-! ## 7. The opening -/

section Opening

variable {I : Type} [DecidableEq I] {target staging : String} {staged : I} {regular : I → Bool}
  {w w' : InstallWorld I}

/-- Nothing was installed and no entry replaced. -/
structure Blank (w : InstallWorld I) : Prop where
  installed : w.installed = []
  spared : w.clobbered = false

/-- A call that does not touch the destination name. -/
theorem Blank.step (h : Blank w) {met : Directory String I}
    {c : Syscall String I (AtomicCall I)} {answer : c.Result AtomicCall.Result}
    (hgives : gives target c answer = false)
    (hinstalled : w'.installed = w.installed ++
      (if gives target c answer then [w'.dir target] else []))
    (hclobbered : w'.clobbered = (w.clobbered || ((met target).isSome && w'.dir target ≠ met target)))
    (hdir : w'.dir target = met target) : Blank w' := by
  rw [hgives, if_neg Bool.false_ne_true, List.append_nil] at hinstalled
  refine ⟨hinstalled.trans h.installed, ?_⟩
  rw [hclobbered, h.spared, hdir]
  simp

theorem Blank.quiet (h : Blank w) {c : Syscall String I (AtomicCall I)}
    {answer : c.Result AtomicCall.Result}
    (hE : Env target staging staged regular w c answer w') (hc : c.mutates = false) : Blank w' := by
  obtain ⟨met, -, heffect, hinstalled, hclobbered⟩ := hE
  exact h.step (gives_of_observes hc) hinstalled hclobbered (by rw [heffect.observes hc])

theorem Blank.wp {α : Type} {p : AtomicM I α} (h : Blank w) (hp : Observes p) :
    p.Wp (Env target staging staged regular) (fun _ w' => Blank w') w := by
  refine hp.wp (fun w c answer w' hc hblank hE => hblank.quiet hE ?_) h
  refine not_mutates_of_kind fun hkind => ?_
  rw [hkind] at hc
  exact absurd hc (by decide)

omit [DecidableEq I] in
theorem observes_destination (scope : Scope) (options : LocalAtomicWriteOptions)
    (deferDestinationCheck : Bool) (path : Path) (name : String) :
    Observes ((prepareParentFor path).andThen fun _ =>
      inspect scope options deferDestinationCheck path name :
      AtomicM I (Except LocalAtomicWriteError (Bool × Bool))) := by
  refine Prog.Makes.andThen (Prog.Makes.bind (confined_native rfl) fun _ => trivial) fun _ => ?_
  cases scope with
  | host =>
    refine Prog.Makes.bind ?_ fun _ => trivial
    unfold inspectForHost
    split
    · refine Prog.Makes.bind (looks_destinationStatus name).observes fun answer => ?_
      split <;> trivial
    · exact (looks_inspectDestination _ _ name).observes
  | rooted =>
    refine Prog.Makes.bind ?_ fun _ => trivial
    unfold inspectForRooted
    split
    · trivial
    · refine Prog.Makes.andThen (looks_inspectDestination _ _ name).observes fun found => ?_
      dsimp only
      split <;> trivial

/-- The staging file gets a name of its own, and is a regular file without another name. -/
theorem wp_createStaging (existed : Bool) (attempts : Nat) (h : Blank w) :
    (createStaging attempts).Wp (Env target staging staged regular) (fun r w' =>
      Blank w' ∧ (r = some (.ok (staging, staged)) → staging ≠ target ∧ regular staged = true ∧
        Phase target staging staged existed (some staged) [] w')) w := by
  induction attempts generalizing w with
  | zero => exact ⟨h, nofun⟩
  | succ attempts ih =>
    refine Prog.wp_bind.mpr fun (answer : IoResult String) w₁ hE => ?_
    have h₁ : Blank w₁ := h.quiet hE rfl
    match answer, hE with
    | .error error, _ => exact ⟨h₁, nofun⟩
    | .ok name, ⟨_, _, ⟨_, hname⟩, _⟩ =>
      refine Prog.wp_bind.mpr fun (created : IoResult I) w₂ hE => ?_
      obtain ⟨met, hmeddles, heffect, hinstalled, hclobbered⟩ := hE
      cases created with
      | error error =>
        have h₂ : Blank w₂ := h₁.step rfl hinstalled hclobbered (by rw [heffect])
        show Prog.Wp _ _ (if _ then _ else _) _
        split
        · exact ih h₂
        · exact ⟨h₂, nofun⟩
      | ok file =>
        obtain ⟨-, hfresh, hregular, hdir⟩ := heffect
        have hname : name ≠ target := hname
        have hkept : w₂.dir target = met target := by rw [hdir, Directory.bind_of_ne hname.symm]
        have h₂ : Blank w₂ := h₁.step rfl hinstalled hclobbered hkept
        refine ⟨h₂, fun hr => ?_⟩
        cases hr
        refine ⟨hname, hregular, ?_, h₂.installed, fun _ => ?_, fun _ => h₂.spared⟩
        · rw [hdir, Directory.bind_self]
        · rw [hkept]
          exact hfresh target

/-- The opened writer owns the staging file. -/
theorem wp_new (scope : Scope) (options : LocalAtomicWriteOptions) (deferDestinationCheck : Bool)
    (path parent : Path) (dirs : List Path) (attempts : Nat) (h : Blank w) :
    (UnixAtomicWriter.new scope options deferDestinationCheck path parent target dirs attempts).Wp
      (Env target staging staged regular) (fun r w' => ∀ writer, r = some (.ok writer) →
        writer.stagedFile.name = some staging → writer.stagedFile.file = some staged →
        staging ≠ target ∧ regular staged = true ∧ writer.name = target ∧
        writer.stagedFile.diagnosticPath = parent ++ [staging] ∧
        Phase target staging staged writer.destinationExisted (some staged) [] w') w := by
  refine Prog.wp_bind.mpr ((h.wp (observes_destination scope options _ path target)).mono ?_)
  rintro (error | destination) w₁ h₁
  · intro writer hr
    cases hr
  refine Prog.wp_bind.mpr ((wp_createStaging destination.1 attempts h₁).mono ?_)
  rintro (_ | error | ⟨name, file⟩) w₂ ⟨-, hstaged⟩
  · intro writer hr
    cases hr
  · intro writer hr
    cases hr
  refine Prog.wp_bind.mpr (Prog.wp_bind.mpr fun (answer : IoResult (Status I)) w₃ hE => ?_)
  intro writer hr hname hfile
  cases hr
  cases hname
  cases hfile
  obtain ⟨hne, hregular, h₂⟩ := hstaged rfl
  exact ⟨hne, hregular, rfl, rfl, h₂.quiet hE rfl⟩

end Opening

/-! ## 8. The destination as the opening found it -/

section Absence

variable {I : Type} {name : String}

/-- A look at the destination name that finds an entry. -/
def Finds (name : String) (ev : AtomicEvent I) : Prop :=
  ∃ status : Status I, ev = ⟨.stat name, (.ok status : IoResult (Status I))⟩

/-- The environment in which no look finds one. -/
def Absent (name : String) (_ : Unit) (c : Syscall String I (AtomicCall I))
    (answer : c.Result AtomicCall.Result) (_ : Unit) : Prop := ¬ Finds name ⟨c, answer⟩

theorem along_absent {tr : AtomicTrace I} (h : ∀ ev ∈ tr, ¬ Finds name ev) :
    Along (Absent name) () tr () := by
  induction tr with
  | nil => rfl
  | cons ev rest ih =>
    obtain ⟨hev, hrest⟩ := List.forall_mem_cons.mp h
    exact ⟨(), hev, ih hrest⟩

theorem absent_destinationStatus : (destinationStatus name).Wp (Absent (I := I) name)
    (fun r _ => ∀ status, r ≠ .ok (some status)) () := by
  refine Prog.wp_bind.mpr fun (answer : IoResult (Status I)) _ hE => ?_
  cases answer with
  | ok status => exact absurd ⟨status, rfl⟩ hE
  | error error =>
    show Prog.Wp _ _ (if _ then _ else _) _
    split
    · exact fun status hr => by cases hr
    · exact fun status hr => by cases hr

theorem absent_inspectDestination (refused : IoError) (replaceTargetSymlink : Bool) :
    (inspectDestination refused replaceTargetSymlink name).Wp (Absent (I := I) name)
      (fun r _ => ∀ found, r = .ok found → found.1 = false) () := by
  refine Prog.wp_andThen.mpr (absent_destinationStatus.mono fun r _ hr => ⟨?_, ?_⟩)
  · rintro error - found hfound
    cases hfound
  · rintro (_ | status) rfl
    · rintro found ⟨⟩
      rfl
    · exact absurd rfl (hr status)

theorem absent_inspect (scope : Scope) (options : LocalAtomicWriteOptions)
    (deferDestinationCheck : Bool) (path : Path) :
    (inspect scope options deferDestinationCheck path name).Wp (Absent (I := I) name)
      (fun r _ => ∀ found, r = .ok found → found.1 = false) () := by
  have hcontext {r : IoResult (Bool × Bool)} (h : ∀ found, r = .ok found → found.1 = false)
      (found : Bool × Bool)
      (hfound : mapAtomicError r .inspectDestination path none .unchanged = .ok found) :
      found.1 = false := by
    cases r with
    | error error => cases hfound
    | ok _ =>
      cases hfound
      exact h _ rfl
  cases scope with
  | host =>
    refine Prog.wp_bind.mpr (Prog.Wp.mono ?_ fun r _ => hcontext)
    unfold inspectForHost
    split
    · refine Prog.wp_bind.mpr (absent_destinationStatus.mono fun r _ hr => ?_)
      split
      · rintro found ⟨⟩
        rfl
      · exact absurd rfl (hr _)
      · rintro found ⟨⟩
    · exact absent_inspectDestination _ _
  | rooted =>
    refine Prog.wp_bind.mpr (Prog.Wp.mono ?_ fun r _ => hcontext)
    unfold inspectForRooted
    split
    · rintro found ⟨⟩
      rfl
    · refine Prog.wp_andThen.mpr ((absent_inspectDestination _ _).mono fun r _ hr => ⟨?_, ?_⟩)
      · rintro error - found hfound
        cases hfound
      · rintro ⟨existed, isRegular⟩ rfl
        have hexisted : existed = false := hr _ rfl
        show Prog.Wp _ _ (if _ then _ else _) _
        split
        · rintro found ⟨⟩
        · rintro found ⟨⟩
          exact hexisted

theorem absent_new (scope : Scope) (options : LocalAtomicWriteOptions)
    (deferDestinationCheck : Bool) (path parent : Path) (dirs : List Path) (attempts : Nat) :
    (UnixAtomicWriter.new scope options deferDestinationCheck path parent name dirs attempts).Wp
      (Absent (I := I) name) (fun r _ => ∀ writer, r = some (.ok writer) →
        writer.destinationExisted = false) () := by
  refine Prog.wp_bind.mpr (Prog.Wp.mono (Prog.wp_andThen.mpr ((wp_any _).mono
    fun r _ _ => ⟨?_, fun _ _ => absent_inspect scope options _ path⟩)) ?_)
  · rintro error - found hfound
    cases hfound
  rintro (error | found) _ hfound
  · intro writer hr
    cases hr
  refine Prog.wp_bind.mpr ((wp_any _).mono fun r _ _ => ?_)
  match r with
  | none =>
    intro writer hr
    cases hr
  | some (.error error) =>
    intro writer hr
    cases hr
  | some (.ok (staging, file)) =>
    refine Prog.wp_bind.mpr ((wp_any _).mono fun guard _ _ => ?_)
    intro writer hr
    cases hr
    exact hfound found rfl

/-- A writer that found no entry does not replace one. -/
theorem destinationExisted_of_absent {scope : Scope} {options : LocalAtomicWriteOptions}
    {deferDestinationCheck : Bool} {path parent : Path} {dirs : List Path} {attempts : Nat}
    {opening : AtomicTrace I} {writer : UnixAtomicWriter I}
    (hruns : (UnixAtomicWriter.new scope options deferDestinationCheck path parent name dirs
      attempts).Runs opening (some (.ok writer)))
    (habsent : ∀ ev ∈ opening, ¬ Finds name ev) : writer.destinationExisted = false := by
  have hrunsIn := Prog.runsIn_iff.mpr ⟨hruns, along_absent habsent⟩
  exact (absent_new scope options deferDestinationCheck path parent dirs attempts).runsIn hrunsIn
    writer rfl

end Absence

/-! ## 9. Any interleaving -/

section Interleaved

variable {I : Type}

/-- What is reported about the destination by the error of a commit, or by its success, where
    `w` is the state before the commit and `w'` the one after it. -/
structure TrueReport (staging : String) (staged : I) (w w' : InstallWorld I)
    (error : Option LocalAtomicWriteError) : Prop where
  fresh : w.installed = []
  published : error = none → w'.installed = [some staged] ∧ w'.dir staging = none
  untouched : ∀ e ∈ error, Untouched e → w'.installed = []
  replaced : ∀ e ∈ error, e.destinationState = .replaced → w'.installed = [some staged]

theorem not_untouched_of_replaced {error : LocalAtomicWriteError}
    (h : error.destinationState = .replaced) : ¬ Untouched error := by
  rintro (hstate | hstate)
  · rw [h] at hstate
    cases hstate
  · rw [h] at hstate
    cases hstate

theorem trueReport_published {staging target : String} {staged : I} {existed : Bool}
    {w w' : InstallWorld I} (hfresh : w.installed = [])
    (h : Phase target staging staged existed none [some staged] w') :
    TrueReport staging staged w w' none where
  fresh := hfresh
  published := fun _ => ⟨h.installed, h.entry⟩
  untouched := by
    rintro _ ⟨⟩
  replaced := by
    rintro _ ⟨⟩

theorem trueReport_failed {staging target : String} {staged : I} {existed : Bool}
    {file : Option I} {log : List (Option I)} {w w' : InstallWorld I}
    {error : LocalAtomicWriteError} (hfresh : w.installed = [])
    (h : Phase target staging staged existed file log w') (hreports : Reports log staged error) :
    TrueReport staging staged w w' (some error) where
  fresh := hfresh
  published := by
    rintro ⟨⟩
  untouched := by
    rintro _ ⟨⟩ huntouched
    rcases hreports with ⟨rfl, -⟩ | ⟨-, hreplaced⟩
    · exact h.installed
    · exact absurd huntouched (not_untouched_of_replaced hreplaced)
  replaced := by
    rintro _ ⟨⟩ hreplaced
    rcases hreports with ⟨-, huntouched⟩ | ⟨rfl, -⟩
    · exact absurd huntouched (not_untouched_of_replaced hreplaced)
    · exact h.installed

/-- The error of a result. -/
def failure? {ε α : Type} : Except ε α → Option ε
  | .ok _ => none
  | .error error => some error

variable [DecidableEq I]

theorem Session.destinationExisted {scope : Scope} {system : UnixTarget}
    {w w' : UnixAtomicWriter I} {past : AtomicTrace I} (h : Session scope system w past w') :
    w'.destinationExisted = w.destinationExisted := by
  induction h with
  | opened => rfl
  | write _ _ ih => exact ih
  | writeVectored _ _ ih => exact ih
  | flush _ _ ih => exact ih
  | permissions _ ih => exact ih
  | retry _ hrun ih =>
    obtain ⟨rfl, -⟩ := commit_retains hrun
    exact ih

/-- Another process may give the destination name to files of its own, replace it and remove it
    before every call.  An opened writer, after whatever output and failed attempts, then commits
    as it reports.  Where the opening found no entry, none is replaced; success binds the
    destination name to the staged file once and frees the staging name; an error says whether it
    was bound.  A staging name that is left behind is mentioned with the failure of its cleanup,
    except that the consuming commit releases it where the destination was found missing. -/
theorem atomic_commit_interleaved {scope : Scope} {system : UnixTarget}
    {options : LocalAtomicWriteOptions} {deferDestinationCheck : Bool} {path parent : Path}
    {name staging : String} {staged : I} {regular : I → Bool} {dirs : List Path} {attempts : Nat}
    {dir : Directory String I} {w₁ w₂ : InstallWorld I} {opening past : AtomicTrace I}
    {writer writer' : UnixAtomicWriter I}
    (hopen : (UnixAtomicWriter.new scope options deferDestinationCheck path parent name dirs
      attempts).RunsIn (Env name staging staged regular) { dir := dir } opening w₁
      (some (.ok writer)))
    (hname : writer.stagedFile.name = some staging) (hfile : writer.stagedFile.file = some staged)
    (hsession : Session scope system writer past writer')
    (hpast : Along (Env name staging staged regular) w₁ past w₂) :
    (∀ tr w₃ r, (writer'.commitRecoverableWithSync scope system).RunsIn
      (Env name staging staged regular) w₂ tr w₃ r →
      ((∀ ev ∈ opening, ¬ Finds name ev) → w₃.clobbered = false) ∧
      TrueReport staging staged w₂ w₃ ((failure? r).map LocalAtomicCommitError.error) ∧
      ∀ error, r = .error ⟨error, none⟩ → w₃.dir staging = none ∨
        error.cleanupError.isSome ∧ error.temporaryPath = some (parent ++ [staging])) ∧
    (scope = .rooted → ∀ tr w₃ r, (writer'.commitWithDurability system).RunsIn
      (Env name staging staged regular) w₂ tr w₃ r →
      ((∀ ev ∈ opening, ¬ Finds name ev) → w₃.clobbered = false) ∧
      TrueReport staging staged w₂ w₃ (failure? r) ∧
      ∀ error, r = .error error → w₃.dir staging = none ∨
        error.temporaryPath = some (parent ++ [staging]) ∧
        (error.cleanupError.isSome ∨ error.destinationState = .missing)) := by
  obtain ⟨hne, hregular, hwriter, hpath, h₁⟩ :=
    (wp_new scope options deferDestinationCheck path parent dirs attempts ⟨rfl, rfl⟩).runsIn
      hopen writer rfl hname hfile
  have habsent := fun h => destinationExisted_of_absent hopen.runs h
  obtain ⟨hsame, hkinds⟩ := hsession.spec
  have hexisted := Session.destinationExisted hsession
  -- opening and writing leave the phase as it is, whatever the others do meanwhile
  have h₂ : Phase name staging staged writer.destinationExisted (some staged) [] w₂ :=
    hpast.invariant (fun w c answer w' hc hE hphase => hphase.quiet hE hc)
      (fun ev hev => not_mutates_of_kind (hkinds.not_mutates (by decide) hev)) h₁
  rw [← hexisted] at habsent h₂
  obtain rfl := hsame.name.trans hwriter
  have hname' : writer'.stagedFile.name = some staging := by rw [hsame.stagedFile, hname]
  have hfile' : writer'.stagedFile.file = some staged := by rw [hsame.stagedFile, hfile]
  have hpath' : writer'.stagedFile.diagnosticPath = parent ++ [staging] := by
    rw [hsame.stagedFile, hpath]
  constructor
  · intro tr w₃ r hrun
    have hend := (wp_commit scope system hne hregular hname' hfile' h₂).runsIn hrun
    cases hend with
    | published h₃ =>
      exact ⟨fun h => h₃.spared (habsent h), trueReport_published h₂.installed h₃,
        by rintro _ ⟨⟩⟩
    | kept h₃ hearly =>
      refine ⟨fun h => h₃.spared (habsent h), ?_, by rintro _ ⟨⟩⟩
      exact trueReport_failed h₂.installed h₃ (.inl ⟨rfl, hearly.untouched⟩)
    | failed h₃ hreports horphan =>
      refine ⟨fun h => h₃.spared (habsent h), trueReport_failed h₂.installed h₃ hreports, ?_⟩
      rintro _ ⟨⟩
      rw [h₃.entry, ← hpath']
      exact horphan
  · rintro rfl tr w₃ r hrun
    have hend := (wp_commitWithDurability system hne hregular hname' hfile' h₂).runsIn hrun
    cases hend with
    | published h₃ =>
      exact ⟨fun h => h₃.spared (habsent h), trueReport_published h₂.installed h₃,
        by rintro _ ⟨⟩⟩
    | failed h₃ hreports horphan =>
      refine ⟨fun h => h₃.spared (habsent h), trueReport_failed h₂.installed h₃ hreports, ?_⟩
      rintro _ ⟨⟩
      rw [h₃.entry, ← hpath']
      exact horphan

def occupied : IoError := ⟨.alreadyExists, "file exists", some 17⟩

def openingOfNew : AtomicTrace Nat :=
  [⟨.inert .prepareParent, (.ok () : IoResult Unit)⟩,
    ⟨.stat "target", (.error ⟨.notFound, "no such file or directory", some 2⟩ :
      IoResult (Status Nat))⟩,
    ⟨.randomName, (.ok "staging" : IoResult String)⟩,
    ⟨.createExclusive "staging", (.ok 1 : IoResult Nat)⟩,
    ⟨.fileStat 1, (.ok ⟨true, 1⟩ : IoResult (Status Nat))⟩]

/-- The other process was first: the installation fails and the staging file is removed. -/
def occupiedCommit : AtomicTrace Nat :=
  [⟨.renameNoReplace "staging" "target", (.error occupied : IoResult Unit)⟩,
    ⟨.stat "staging", (.ok ⟨true, 1⟩ : IoResult (Status Nat))⟩,
    ⟨.unlink "staging", (.ok () : IoResult Unit)⟩]

def openedWorld : InstallWorld Nat := { dir := Directory.bind (fun _ => none) "staging" 1 }

def occupiedWorld : InstallWorld Nat :=
  { dir := (Directory.bind openedWorld.dir "target" 5).unbind "staging" }

def occupiedWriter : UnixAtomicWriter Nat where
  path := ["target"]
  name := "target"
  parentDirsToSync := []
  destinationExisted := false
  destinationIsRegular := false
  metadataPolicy := .preserveExisting
  durability := .notRequired
  fileSync := .notRequired
  openRetryTimeout := none
  copyPermissions := false
  stagedFile := ⟨some "staging", some 1, some 1, ["staging"]⟩

def occupiedError : LocalAtomicWriteError :=
  ⟨.replaceDestination, ["target"], some ["staging"], .unchanged, occupied, none, none⟩

theorem opening_runsIn : (UnixAtomicWriter.new .host { durability := .notRequired } false
    ["target"] [] "target" [] 1).RunsIn (Env "target" "staging" 1 fun _ => true)
    { dir := fun _ => none } openingOfNew openedWorld (some (.ok occupiedWriter)) := by
  refine Prog.runsIn_iff.mpr ⟨Prog.replay_runs rfl, ?_⟩
  have hquiet (w : InstallWorld Nat) : (competing "target" "staging" 1 fun _ => true).meddles
      w.dir w.dir := ⟨rfl, id⟩
  refine ⟨_, ⟨_, hquiet _, rfl, rfl, rfl⟩, _, ⟨_, hquiet _, ⟨rfl, fun _ => rfl⟩, rfl, rfl⟩,
    _, ⟨_, hquiet _, ⟨rfl, by decide⟩, rfl, rfl⟩, openedWorld,
    ⟨_, hquiet _, ⟨rfl, nofun, rfl, rfl⟩, rfl, rfl⟩, openedWorld,
    ⟨_, hquiet _, ⟨rfl, rfl⟩, rfl, rfl⟩, rfl⟩

theorem occupied_runsIn : (occupiedWriter.commitRecoverableWithSync .host .linux).RunsIn
    (Env "target" "staging" 1 fun _ => true) openedWorld occupiedCommit occupiedWorld
    (.error ⟨occupiedError, none⟩) := by
  refine Prog.runsIn_iff.mpr ⟨Prog.replay_runs rfl, ?_⟩
  have hquiet (w : InstallWorld Nat) : (competing "target" "staging" 1 fun _ => true).meddles
      w.dir w.dir := ⟨rfl, id⟩
  have htaken : (competing "target" "staging" 1 fun _ => true).meddles openedWorld.dir
      (Directory.bind openedWorld.dir "target" 5) := ⟨rfl, nofun⟩
  refine ⟨{ dir := Directory.bind openedWorld.dir "target" 5 },
    ⟨_, htaken, .inl rfl, rfl, rfl⟩, { dir := Directory.bind openedWorld.dir "target" 5 },
    ⟨_, hquiet _, ⟨rfl, rfl, rfl⟩, rfl, rfl⟩, occupiedWorld,
    ⟨_, hquiet _, ⟨⟨rfl, rfl⟩, nofun⟩, rfl, rfl⟩, rfl⟩

theorem atomic_commit_interleaved_occupied :
    occupiedWorld.dir "target" = some 5 ∧ occupiedWorld.clobbered = false ∧
    TrueReport "staging" 1 openedWorld occupiedWorld (some occupiedError) ∧
    (occupiedWorld.dir "staging" = none ∨
      occupiedError.cleanupError.isSome ∧ occupiedError.temporaryPath = some ["staging"]) := by
  obtain ⟨hspared, hreport, horphan⟩ := (atomic_commit_interleaved opening_runsIn rfl rfl
    Session.opened rfl).1 occupiedCommit occupiedWorld _ occupied_runsIn
  refine ⟨rfl, hspared ?_, hreport, horphan _ rfl⟩
  rintro ev hev ⟨status, rfl⟩
  simp only [openingOfNew, List.mem_cons, List.not_mem_nil, or_false] at hev
  rcases hev with hev | hev | hev | hev | hev <;> cases hev

end Interleaved

end LocalFiles.Atomic.Interleaving
