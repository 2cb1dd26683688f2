import LocalFiles.Conditional.UnixMethods
import LocalFiles.Conditional.Displaced

/-!
# UnixRecovery — the recovery files of a failed commit over the Unix backend

A run over the Unix backend is a run of the commit in the environment that the backend makes out
of the directory.  Along such a run the staging name leads to the candidate until the publication,
and afterwards an entry for the staging name is only kept where the candidate has left it, as long
as the native calls meet `Unaliased`.
-/

namespace LocalFiles.Conditional.Unix

open Interaction UnixConditionalBackend

/-! ## 1. Steps and quiet traces -/

variable {I : Type} [DecidableEq I] {target : String} {regular : I → Bool}

/-- One answered call of the protocol whose native calls meet the condition. -/
def UnixStep (target : String) (regular : I → Bool)
    (s : UnixConditionalBackend I × Directory String I) (c : Call (EntryAccess I))
    (answer : Answer (EntryAccess I) c) (s' : UnixConditionalBackend I × Directory String I) :
    Prop :=
  ∃ tr, (handle c s.1).RunsIn (host target regular).Step s.2 tr s'.2 (answer, s'.1) ∧
    Unaliased s.1 tr s'.2 c

/-- Between two states of a session: the names outside the target are the same, and no recovery
    entry was added. -/
structure Undisturbed (target : String) (s s' : UnixConditionalBackend I × Directory String I) :
    Prop where
  same : SameSession s.1 s'.1
  recovery : s'.1.recoveryEntries.Sublist s.1.recoveryEntries
  names : Directory.AgreeOff target s.2 s'.2

variable {s s' : UnixConditionalBackend I × Directory String I} {tr : Trace (EntryAccess I)}

theorem step_quiet {c : Call (EntryAccess I)} {answer : Answer (EntryAccess I) c}
    (hc : c.effect = none) (h : UnixStep target regular s c answer s') :
    Undisturbed target s s' := by
  obtain ⟨calls, hrun, -⟩ := h
  obtain ⟨hsame, hrecovery⟩ := handle_session _ hc hrun.runs
  exact ⟨hsame, hrecovery, (handle_observes _ hc).agreeOff hrun⟩

/-- A trace without effects on the namespace disturbs nothing. -/
theorem along_quiet (htr : effects tr = []) (h : Along (UnixStep target regular) s tr s') :
    Undisturbed target s s' := by
  induction tr generalizing s with
  | nil =>
    cases h
    exact ⟨SameSession.refl _, List.Sublist.refl _, fun _ _ => rfl⟩
  | cons ev rest ih =>
    obtain ⟨next, hstep, hrest⟩ := h
    rw [effects_cons, List.append_eq_nil_iff] at htr
    have hnone : ev.call.effect = none := by
      cases heffect : ev.call.effect with
      | none => rfl
      | some effect =>
        rw [heffect] at htr
        cases htr.1
    have hfirst := step_quiet hnone hstep
    have hsecond := ih htr.2 hrest
    refine ⟨hfirst.same.trans hsecond.same, hsecond.recovery.trans hfirst.recovery, ?_⟩
    intro n hn
    rw [hsecond.names n hn, hfirst.names n hn]

/-! ## 2. Up to the publication -/

omit [DecidableEq I] in
theorem Staged.undisturbed (hs : Staged target regular s.1 s.2) (h : Undisturbed target s s') :
    Staged target regular s'.1 s'.2 := by
  have hbound : s'.2 s'.1.candidateName = some s'.1.candidate := by
    rw [h.same.candidateName, h.same.candidate, h.names _ hs.apart, hs.bound]
  have hnil : s'.1.recoveryEntries = [] := by
    have hsub := h.recovery
    rw [hs.unrecovered] at hsub
    exact List.sublist_nil.mp hsub
  exact ⟨by rw [h.same.space, hs.destination], by rw [h.same.candidateName]; exact hs.apart, hbound,
    by rw [h.same.candidate]; exact hs.plain, hnil⟩

/-- The path of an entry other than the staging entry. -/
def Elsewhere (b : UnixConditionalBackend I) (path : Path) : Prop :=
  ∃ name, name ≠ b.candidateName ∧ path = b.space.pathOf name

/-- After the one candidate copy of a run: the candidate is still staged, and the copy or what is
    left of it has a path of its own. -/
structure AfterCopy (s : UnixConditionalBackend I × Directory String I)
    (r : IoResult (UnixEntry I)) (s' : UnixConditionalBackend I × Directory String I) : Prop where
  same : SameSession s.1 s'.1
  bound : s'.2 s'.1.candidateName = some s'.1.candidate
  created : ∀ created, r = .ok created → s'.1.recoveryEntries = [] ∧
    ∃ name, name ≠ s.1.candidateName ∧ name ≠ s.1.space.targetName ∧
      created.namespacePath = s.1.space.pathOf name
  failed : ∀ error, r = .error error → ∃ entries : List (UnixEntry I), entries.length ≤ 1 ∧
    (∀ x ∈ entries, Elsewhere s.1 x.namespacePath) ∧ s'.1.recoveryEntries.Sublist entries

theorem along_copy {r : IoResult (UnixEntry I)} (hs : Staged target regular s.1 s.2)
    (heffects : effects tr = [.copies]) (hmem : ⟨.createCandidateCopy, r⟩ ∈ tr)
    (h : Along (UnixStep target regular) s tr s') : AfterCopy s r s' := by
  obtain ⟨pre, post, rfl⟩ := List.append_of_mem hmem
  have hquiet : effects pre = [] ∧ effects post = [] := by
    have hlength := congrArg List.length heffects
    simp only [effects_append, effects_cons, Call.effect, Option.toList_some, List.length_append,
      List.length_cons, List.length_nil] at hlength
    exact ⟨List.eq_nil_of_length_eq_zero (by omega), List.eq_nil_of_length_eq_zero (by omega)⟩
  obtain ⟨s₁, hpre, s₂, ⟨calls, hcopy, -⟩, hpost⟩ := along_append.mp h
  have hfirst := along_quiet hquiet.1 hpre
  have hs₁ := Staged.undisturbed hs hfirst
  obtain ⟨hbound, hcopied⟩ := createCandidateCopy_runs hs₁.destination hs₁.apart hs₁.bound hcopy
  have hlast := along_quiet hquiet.2 hpost
  have hsame := (hfirst.same.trans hcopied.same).trans hlast.same
  refine ⟨hsame, ?_, ?_, ?_⟩
  · have hapart : s₂.1.candidateName ≠ target := by
      rw [hcopied.same.candidateName]
      exact hs₁.apart
    rw [hlast.same.candidateName, hlast.same.candidate, hlast.names _ hapart,
      hcopied.same.candidateName, hcopied.same.candidate, hbound]
  · intro created hr
    obtain ⟨hnil, name, hname, htarget, hpath⟩ := hcopied.created created hr
    have hsub := hlast.recovery
    rw [hnil, hs₁.unrecovered] at hsub
    rw [hfirst.same.candidateName] at hname
    rw [hfirst.same.space] at htarget hpath
    exact ⟨List.sublist_nil.mp hsub, name, hname, htarget, hpath⟩
  · intro error hr
    have hsub := hlast.recovery
    obtain hnil | ⟨name, entry, hname, hpath, hadded⟩ := hcopied.failed error hr
    · rw [hnil, hs₁.unrecovered] at hsub
      exact ⟨[], by simp, by simp, hsub⟩
    · rw [hadded, hs₁.unrecovered, List.nil_append] at hsub
      rw [hfirst.same.candidateName] at hname
      rw [hfirst.same.space] at hpath
      refine ⟨[entry], by simp, ?_, hsub⟩
      rintro x hx
      rw [List.mem_singleton.mp hx]
      exact ⟨name, hname, hpath⟩

/-! ## 3. After the publication -/

/-- The entries kept after the publication: at most one for the target and one for the staging
    name, the latter only where the candidate has left it. -/
structure KeptPaths (b : UnixConditionalBackend I) (d : Directory String I)
    (kept : List (UnixEntry I)) : Prop where
  nodup : (kept.map (·.namespacePath)).Nodup
  paths : ∀ x ∈ kept, x.namespacePath = b.space.pathOf b.space.targetName ∨
    x.namespacePath = b.space.pathOf b.candidateName ∧ d b.candidateName ≠ some b.candidate

variable {b : UnixConditionalBackend I} {d : Directory String I}

omit [DecidableEq I] in
/-- The target entry alone, with the staging entry, or neither, in any order. -/
theorem keptPaths_of {kept installed displaced : List (UnixEntry I)}
    (hne : b.candidateName ≠ b.space.targetName)
    (hperm : (kept.map (·.namespacePath)).Perm
      ((installed ++ displaced).map (·.namespacePath)))
    (hinstalled : installed = [] ∨ ∃ x, installed = [x] ∧
      x.namespacePath = b.space.pathOf b.space.targetName)
    (hdisplaced : displaced = [] ∨ ∃ x, displaced = [x] ∧
      x.namespacePath = b.space.pathOf b.candidateName ∧ d b.candidateName ≠ some b.candidate) :
    KeptPaths b d kept := by
  have hpaths : b.space.pathOf b.space.targetName ≠ b.space.pathOf b.candidateName := by
    rw [ne_eq, pathOf_inj]
    exact hne.symm
  have hnodup : ((installed ++ displaced).map (·.namespacePath)).Nodup := by
    obtain rfl | ⟨x, rfl, hx⟩ := hinstalled
    · obtain rfl | ⟨y, rfl, hy, -⟩ := hdisplaced
      · simp
      · simp
    · obtain rfl | ⟨y, rfl, hy, -⟩ := hdisplaced
      · simp
      · simp [hx, hy, hpaths]
  refine ⟨hperm.nodup_iff.mpr hnodup, fun x hx => ?_⟩
  have hmem : x.namespacePath ∈ (installed ++ displaced).map (·.namespacePath) :=
    hperm.mem_iff.mp (List.mem_map_of_mem hx)
  rw [List.map_append, List.mem_append] at hmem
  obtain hmem | hmem := hmem
  · obtain rfl | ⟨y, rfl, hy⟩ := hinstalled
    · simp at hmem
    · rw [List.map_singleton, List.mem_singleton] at hmem
      exact .inl (hmem.trans hy)
  · obtain rfl | ⟨y, rfl, hy, haway⟩ := hdisplaced
    · simp at hmem
    · rw [List.map_singleton, List.mem_singleton] at hmem
      exact .inr ⟨hmem.trans hy, haway⟩

theorem checkpoint_answer {point : ConditionalPoint} {answer : IoResult Unit}
    (h : UnixStep target regular s (.checkpoint point) answer s') : answer = .ok () := by
  obtain ⟨calls, hrun, -⟩ := h
  obtain ⟨-, heq⟩ := Prog.runs_pure.mp hrun.runs
  exact (Prod.mk.inj heq).1

variable {δ : Type} (D : List UInt8 → δ)

section Receipts

variable {attempt : NativeAttempt (EntryAccess I)}

omit [DecidableEq I] in
theorem Receipt.installed_list (h : Receipt b attempt d) (role : UnixEntry I → UnixEntry I)
    (hrole : ∀ x, (role x).namespacePath = x.namespacePath) :
    (attempt.installed.map role).toList = [] ∨ ∃ x, (attempt.installed.map role).toList = [x] ∧
      x.namespacePath = b.space.pathOf b.space.targetName := by
  have hinstalled := h.installed
  cases hsome : attempt.installed with
  | none => exact .inl rfl
  | some x =>
    rw [hsome] at hinstalled
    exact .inr ⟨role x, rfl, by rw [hrole, hinstalled x rfl]⟩

omit [DecidableEq I] in
theorem Receipt.installed_path (h : Receipt b attempt d) {x : UnixEntry I}
    (hx : attempt.installed = some x) :
    [x] = [] ∨ ∃ y, [x] = [y] ∧ y.namespacePath = b.space.pathOf b.space.targetName :=
  .inr ⟨x, rfl, h.installed x hx⟩

omit [DecidableEq I] in
/-- The displaced entries as they are kept after their verification. -/
theorem Receipt.verified [DecidableEq δ] (h : Receipt b attempt d)
    {precondition : LocalWritePrecondition δ}
    {verified : List (UnixEntry I)} {found : Bool}
    (hverified : Verified D precondition attempt.displaced tr verified found) :
    verified = [] ∨ ∃ x, verified = [x] ∧ x.namespacePath = b.space.pathOf b.candidateName ∧
      d b.candidateName ≠ some b.candidate := by
  have hsame := hverified.same
  obtain hnil | ⟨x, hx, hpath, haway⟩ := h.displaced
  · rw [hnil] at hsame
    cases hsame
    exact .inl rfl
  · rw [hx] at hsame
    cases hsame with
    | cons hsame hrest =>
      cases hrest
      exact .inr ⟨_, rfl, hsame.1.trans hpath, haway⟩

omit [DecidableEq I] in
theorem Receipt.mono {d' : Directory String I} (h : Receipt b attempt d)
    (hd : d' b.candidateName = d b.candidateName) : Receipt b attempt d' := by
  refine ⟨h.installed, ?_⟩
  obtain hnil | ⟨x, hx, hpath, haway⟩ := h.displaced
  · exact .inl hnil
  · exact .inr ⟨x, hx, hpath, by rwa [hd]⟩

omit [DecidableEq I] in
theorem Receipt.displaced_list (h : Receipt b attempt d) (role : LocalRecoveryFileRole) :
    attempt.displaced.map (·.setRole role) = [] ∨
      ∃ x, attempt.displaced.map (·.setRole role) = [x] ∧
        x.namespacePath = b.space.pathOf b.candidateName ∧
        d b.candidateName ≠ some b.candidate := by
  obtain hnil | ⟨x, hx, hpath, haway⟩ := h.displaced
  · exact .inl (by rw [hnil]; rfl)
  · exact .inr ⟨x.setRole role, by rw [hx]; rfl, hpath, haway⟩

omit [DecidableEq I] in
/-- What is kept after a rollback, for a receipt that leaves the candidate away. -/
theorem RolledBack.keptPaths {installed displaced : UnixEntry I} {kept : List (UnixEntry I)}
    (hne : b.candidateName ≠ b.space.targetName) (h : Receipt b attempt d)
    (hreported : attempt.error = none → attempt.installed ≠ none)
    (haway : d b.candidateName ≠ some b.candidate)
    (hpath : displaced.namespacePath = b.space.pathOf b.candidateName)
    (hpoint : ∀ err, ⟨.checkpoint .rollbackCompleted, Except.error err⟩ ∉ tr)
    (hback : RolledBack installed [displaced] attempt tr kept) : KeptPaths b d kept := by
  cases hback with
  | interrupted err => exact absurd List.mem_cons_self (hpoint err)
  | unreported herror hinstalled => exact absurd hinstalled (hreported herror)
  | restored restored checked herror hinstalled =>
    apply keptPaths_of hne _ (h.installed_path hinstalled) (h.displaced_list .rollbackDisplaced)
    exact (List.perm_append_comm).map _
  | failed verified beside herror hbeside =>
    have hinstalled := h.installed_list (ConditionalEntry.setRole .displaced) fun _ => rfl
    cases hbeside with
    | named _ _ htail =>
      cases htail
      exact keptPaths_of hne (List.Perm.refl _) hinstalled (h.displaced_list _)
    | lost _ _ htail =>
      cases htail
      exact keptPaths_of hne (List.Perm.refl _) hinstalled (h.displaced_list _)
    | kept _ hnamed htail =>
      cases htail
      -- The receipt does not name the staging entry, so the kept one is the only one.
      have hnil : attempt.displaced = [] := by
        obtain hnil | ⟨x, hx, hxpath, -⟩ := h.displaced
        · exact hnil
        · exact absurd ⟨x, by simp [hx], hxpath.trans hpath.symm⟩ hnamed
      rw [hnil, List.map_nil, List.append_nil, if_pos rfl]
      apply keptPaths_of hne _ hinstalled
        (.inr ⟨displaced.setRole .displaced, rfl, hpath, haway⟩)
      exact (List.perm_append_comm).map _

end Receipts

variable [DecidableEq δ] {precondition : LocalWritePrecondition δ} {options : LocalWriteOptions}

section Settled

variable {attempt : NativeAttempt (EntryAccess I)} {locals locals' : Locals (EntryAccess I)}
  {candidateDigest : δ} {installed : UnixEntry I}

/-- Without a rollback the staging name stays as the publication left it. -/
theorem Receipt.calm (happart : s.1.candidateName ≠ target) (hreceipt : Receipt s.1 attempt s.2)
    (h : Along (UnixStep target regular) s tr s') (hquiet : effects tr = []) :
    Receipt s.1 attempt s'.2 ∧ SameSession s.1 s'.1 ∧
      s'.1.recoveryEntries.Sublist s.1.recoveryEntries := by
  have hundisturbed := along_quiet hquiet h
  exact ⟨hreceipt.mono (hundisturbed.names _ happart), hundisturbed.same, hundisturbed.recovery⟩

omit [DecidableEq I] [DecidableEq δ] in
theorem refused_keptPaths {answer : IoResult Unit} {err : IoError}
    (hne : b.candidateName ≠ b.space.targetName) (hreceipt : Receipt b attempt d)
    (hrefused : ReceiptRefused precondition attempt answer err locals locals') :
    ∃ kept, locals'.entries = locals.entries ++ kept ∧ KeptPaths b d kept := by
  obtain ⟨role, hrole, hentries⟩ := hrefused.kept
  have hpath : ∀ x, (role x).namespacePath = x.namespacePath := by
    intro x
    obtain rfl | rfl := hrole
    · rfl
    · rfl
  exact ⟨_, hentries, keptPaths_of hne (List.Perm.refl _) (hreceipt.installed_list role hpath)
    hreceipt.displaced⟩

omit [DecidableEq I] in
/-- There is one displaced entry at most, so the one whose verification failed is alone. -/
theorem Receipt.keptPaths_unverified {current : UnixEntry I} {done rest kept : List (UnixEntry I)}
    {found : Bool} (hne : b.candidateName ≠ b.space.targetName) (hreceipt : Receipt b attempt d)
    (haccepted : ReceiptAccepted precondition attempt installed)
    (hsplit : attempt.displaced = done ++ current :: rest)
    (hdone : Verified D precondition done tr kept found) :
    KeptPaths b d (installed :: current :: kept) := by
  obtain hnil | ⟨x, hx, hpath, haway⟩ := hreceipt.displaced
  · rw [hnil] at hsplit
    simp at hsplit
  · rw [hx] at hsplit
    cases hdone with
    | cons y bytes htail => simp at hsplit
    | nil =>
      obtain ⟨rfl, rfl⟩ := List.cons.inj hsplit
      exact keptPaths_of hne (List.Perm.refl _) (hreceipt.installed_path haccepted.installed)
        (.inr ⟨x, rfl, hpath, haway⟩)

/-- The receipt of a rollback is about the directory that the rollback left. -/
theorem rollbackStep_receipt {displaced : UnixEntry I} {receipt : NativeAttempt (EntryAccess I)}
    (h : UnixStep target regular s (.rollback displaced) receipt s') :
    s'.1 = s.1 ∧ Receipt s.1 receipt s'.2 ∧ (receipt.error = none → receipt.installed ≠ none) ∧
      s'.2 s.1.candidateName ≠ some s.1.candidate := by
  obtain ⟨calls, hrun, hun⟩ := h
  obtain ⟨calls₁, calls₂, d₁, receipt', rfl, hrollback, hreturn⟩ := Prog.runsIn_bind.mp hrun
  obtain ⟨rfl, hd₁, heq⟩ := hreturn
  obtain ⟨rfl, hsame⟩ := Prod.mk.inj heq
  rw [List.append_nil] at hun
  obtain ⟨hreceipt, hreported⟩ := rollback_runs hrollback.runs hun
  exact ⟨hsame, hreceipt, hreported, hun.1⟩

/-- What is kept behind a rollback that was attempted. -/
theorem rollback_keptPaths {displaced : UnixEntry I} {others kept : List (UnixEntry I)}
    {receipt : NativeAttempt (EntryAccess I)} {tr₁ tr₂ after : Trace (EntryAccess I)}
    (hne : s.1.candidateName ≠ s.1.space.targetName) (happart : s.1.candidateName ≠ target)
    (hverified : displaced :: others = [] ∨ ∃ x, displaced :: others = [x] ∧
      x.namespacePath = s.1.space.pathOf s.1.candidateName ∧
      s.2 s.1.candidateName ≠ some s.1.candidate)
    (hbefore : effects tr₁ = []) (hprecheck : effects tr₂ = []) (hquiet : effects after = [])
    (hafter : RolledBack installed (displaced :: others) receipt after kept)
    (h : Along (UnixStep target regular) s
      (tr₁ ++ (tr₂ ++ ⟨.rollback displaced, receipt⟩ :: after)) s') :
    KeptPaths s.1 s'.2 kept ∧ SameSession s.1 s'.1 ∧
      s'.1.recoveryEntries.Sublist s.1.recoveryEntries := by
  obtain hnil | ⟨x, hx, hpath, -⟩ := hverified
  · cases hnil
  obtain ⟨rfl, rfl⟩ := List.cons.inj hx
  obtain ⟨s₁, hfirst, hback⟩ := along_append.mp h
  obtain ⟨s₂, hsecond, s₃, hstep, hrest⟩ := along_append.mp hback
  have hfirst := along_quiet hbefore hfirst
  have hsecond := along_quiet hprecheck hsecond
  have hlast := along_quiet hquiet hrest
  have hsame := hfirst.same.trans hsecond.same
  obtain ⟨hb₃, hreceipt, hreported, haway⟩ := rollbackStep_receipt hstep
  have hnames : s'.2 s.1.candidateName = s₃.2 s.1.candidateName := hlast.names _ happart
  have hpoint : ∀ err, ⟨.checkpoint .rollbackCompleted, Except.error err⟩ ∉ after := by
    intro err hmem
    obtain ⟨pre, post, rfl⟩ := List.append_of_mem hmem
    obtain ⟨s₄, -, s₅, hstep, -⟩ := along_append.mp hrest
    cases checkpoint_answer hstep
  have hkept : KeptPaths s₂.1 s₃.2 kept := by
    apply RolledBack.keptPaths _ hreceipt hreported haway _ hpoint hafter
    · rw [hsame.candidateName, hsame.space]
      exact hne
    · rw [hsame.candidateName, hsame.space]
      exact hpath
  refine ⟨⟨hkept.nodup, fun x hx => ?_⟩, ?_, ?_⟩
  · have hx' := hkept.paths x hx
    rw [hsame.space, hsame.candidateName, hsame.candidate, ← hnames] at hx'
    exact hx'
  · have hlastSame := hlast.same
    rw [hb₃] at hlastSame
    exact hsame.trans hlastSame
  · have hrecovery := hlast.recovery
    rw [hb₃] at hrecovery
    exact (hrecovery.trans hsecond.recovery).trans hfirst.recovery

end Settled

/-- From the receipt of the publication to the end of the body: what is kept besides the copy. -/
theorem settlement_keptPaths {candidateDigest : δ} {attempt : NativeAttempt (EntryAccess I)}
    {locals locals' : Locals (EntryAccess I)} {failure : LocalConditionalWriteStage × IoError}
    (hdestination : s.1.space.targetName = target) (happart : s.1.candidateName ≠ target)
    (hreceipt : Receipt s.1 attempt s.2)
    (hsettled : Settlement D precondition options candidateDigest attempt locals tr
      (.error failure) locals')
    (h : Along (UnixStep target regular) s tr s') :
    ∃ kept, locals'.entries = locals.entries ++ kept ∧ KeptPaths s.1 s'.2 kept ∧
      SameSession s.1 s'.1 ∧ s'.1.recoveryEntries.Sublist s.1.recoveryEntries := by
  have hne : s.1.candidateName ≠ s.1.space.targetName := by rwa [hdestination]
  generalize hresult : Except.error failure = result at hsettled
  cases hsettled with
  | settled hchecked hsynced => cases hresult
  | refused hrefused =>
    obtain ⟨hreceipt', hsession⟩ := hreceipt.calm happart h (by simp)
    obtain ⟨kept, hentries, hkept⟩ := refused_keptPaths hne hreceipt' hrefused
    exact ⟨kept, hentries, hkept, hsession⟩
  | unverified haccepted hsplit hdone hcurrent hentries hconflict =>
    obtain ⟨hreceipt', hsession⟩ :=
      hreceipt.calm happart h (by simp [hdone.quiet.1, hcurrent.quiet])
    exact ⟨_, hentries, hreceipt'.keptPaths_unverified D hne haccepted hsplit hdone, hsession⟩
  | unchecked haccepted hdone hinstalled hentries hconflict =>
    obtain ⟨hreceipt', hsession⟩ :=
      hreceipt.calm happart h (by simp [hdone.quiet.1, hinstalled.quiet])
    exact ⟨_, hentries, keptPaths_of hne (List.Perm.refl _)
      (hreceipt'.installed_path haccepted.installed) (hreceipt'.verified D hdone), hsession⟩
  | unsynced hchecked honly hstage hcause hentries hconflict =>
    obtain ⟨hreceipt', hsession⟩ :=
      hreceipt.calm happart h (by simp [hchecked.quiet.1, effects_of_onlySyncs honly])
    refine ⟨_, hentries, ?_, hsession⟩
    obtain ⟨verified, identity, bytes, found, hverified, -, -⟩ := hchecked.calls
    apply keptPaths_of hne _ (hreceipt'.installed_path hchecked.accepted.installed)
      (hreceipt'.verified D hverified)
    exact (List.perm_append_comm).map _
  | rolledBack hchecked hend hstage hcause hentries hconflict =>
    obtain ⟨verifiedTr, identity, bytes, found, hverified, -, -⟩ := hchecked.calls
    have hinstalled := hchecked.accepted.installed
    cases hend with
    | undisplaced =>
      obtain ⟨hreceipt', hsession⟩ := hreceipt.calm happart h (by simp [hchecked.quiet.1])
      exact ⟨_, hentries, keptPaths_of hne (List.Perm.refl _)
        (hreceipt'.installed_path hinstalled) (.inl rfl), hsession⟩
    | withheld _ _ hquiet =>
      obtain ⟨hreceipt', hsession⟩ :=
        hreceipt.calm happart h (by simp [hchecked.quiet.1, hquiet])
      exact ⟨_, hentries, keptPaths_of hne (List.Perm.refl _)
        (hreceipt'.installed_path hinstalled) (hreceipt'.verified D hverified), hsession⟩
    | attempted displaced others oldBytes bytes' receipt after _ hdigest hafter hquiet =>
      exact ⟨_, hentries, rollback_keptPaths hne happart (hreceipt.verified D hverified)
        hchecked.quiet.1 (by simp [rollbackTrace]) hquiet hafter h⟩

/-! ## 4. The recovery files -/

omit [DecidableEq I] in
theorem recoveryPaths {taken entries : List (UnixEntry I)} :
    ((taken.map (·.intoRecovery) ++ entries.map (·.intoRecovery)).map (·.namespacePath)) =
      taken.map (·.namespacePath) ++ entries.map (·.namespacePath) := by
  simp [Function.comp_def]

omit [DecidableEq I] in
/-- The staging entry from the last look, the copy and the entries kept after the publication. -/
theorem nodup_of_kept {staged : Option (UnixEntry I)} {copy : UnixEntry I}
    {kept : List (UnixEntry I)} {name : String}
    (hstaged : ∀ x ∈ staged, x.namespacePath = b.space.pathOf b.candidateName)
    (hremains : staged.isSome → d b.candidateName = some b.candidate)
    (hname : name ≠ b.candidateName) (htarget : name ≠ b.space.targetName)
    (hne : b.candidateName ≠ b.space.targetName)
    (hcopy : copy.namespacePath = b.space.pathOf name) (hkept : KeptPaths b d kept) :
    (staged.toList.map (·.namespacePath) ++ (copy :: kept).map (·.namespacePath)).Nodup := by
  have hcopied : copy.namespacePath ∉ kept.map (·.namespacePath) := by
    intro hmem
    obtain ⟨x, hx, heq⟩ := List.mem_map.mp hmem
    rw [hcopy] at heq
    obtain hpath | ⟨hpath, -⟩ := hkept.paths x hx
    · rw [hpath, pathOf_inj] at heq
      exact htarget heq.symm
    · rw [hpath, pathOf_inj] at heq
      exact hname heq.symm
  cases staged with
  | none => simpa using ⟨by simpa using hcopied, hkept.nodup⟩
  | some x =>
    have hx := hstaged x rfl
    -- The candidate is under the staging name, so no kept entry has that path.
    have hfree : x.namespacePath ∉ kept.map (·.namespacePath) := by
      intro hmem
      obtain ⟨y, hy, heq⟩ := List.mem_map.mp hmem
      rw [hx] at heq
      obtain hpath | ⟨-, haway⟩ := hkept.paths y hy
      · rw [hpath, pathOf_inj] at heq
        exact hne heq.symm
      · exact haway (hremains rfl)
    have hxcopy : x.namespacePath ≠ copy.namespacePath := by
      rw [hx, hcopy, ne_eq, pathOf_inj]
      exact hname.symm
    have hsplit : (x :: copy :: kept).map (·.namespacePath) =
        x.namespacePath :: copy.namespacePath :: kept.map (·.namespacePath) := rfl
    show ((x :: copy :: kept).map (·.namespacePath)).Nodup
    rw [hsplit, List.nodup_cons, List.nodup_cons, List.mem_cons, not_or]
    exact ⟨⟨hxcopy, hfree⟩, hcopied, hkept.nodup⟩

/-- The end of a run that made its copy: the last look at the staging name adds nothing that is
    already there. -/
theorem taken_nodup {s s₁ s₂ : UnixConditionalBackend I × Directory String I}
    {calls : NativeTrace I} {taken kept : List (UnixEntry I)} {copy : UnixEntry I} {name : String}
    (hdestination : s.1.space.targetName = target) (happart : s.1.candidateName ≠ target)
    (hsame : SameSession s.1 s₁.1) (hrecovery : s₁.1.recoveryEntries = [])
    (hname : name ≠ s.1.candidateName) (htarget : name ≠ s.1.space.targetName)
    (hcopy : copy.namespacePath = s.1.space.pathOf name) (hkept : KeptPaths s.1 s₁.2 kept)
    (htake : (handle .takeRecoveryEntries s₁.1).RunsIn (host target regular).Step s₁.2 calls s₂.2
      (taken, s₂.1)) :
    (taken.map (·.namespacePath) ++ (copy :: kept).map (·.namespacePath)).Nodup := by
  have happart₁ : s₁.1.candidateName ≠ target := by
    rw [hsame.candidateName]
    exact happart
  obtain ⟨staged, rfl, hstaged, hremains⟩ := takeRecoveryEntries_runs happart₁ htake
  rw [hsame.space, hsame.candidateName] at hstaged
  rw [hsame.candidateName, hsame.candidate] at hremains
  rw [hrecovery, List.nil_append]
  have hne : s.1.candidateName ≠ s.1.space.targetName := by rwa [hdestination]
  exact nodup_of_kept hstaged hremains hname htarget hne hcopy hkept

omit [DecidableEq I] in
theorem exists_copy_event (heffects : effects tr = [.copies]) :
    ∃ r : IoResult (UnixEntry I), ⟨.createCandidateCopy, r⟩ ∈ tr := by
  have hmem : NamespaceEffect.copies ∈ effects tr := by
    rw [heffects]
    exact List.mem_singleton_self _
  obtain ⟨⟨c, answer⟩, hev, heffect⟩ := List.mem_filterMap.mp hmem
  cases c with
  | createCandidateCopy => exact ⟨answer, hev⟩
  | publishAbsent => cases heffect
  | publishContent => cases heffect
  | rollback displaced => cases heffect
  | removeObserved entry => cases heffect
  | _ => cases heffect

/-- A run without a copy ends with at most the staging entry and what is left of the copy. -/
theorem taken_nodup_uncopied {s s₁ s₂ : UnixConditionalBackend I × Directory String I}
    {calls : NativeTrace I} {taken : List (UnixEntry I)} (hs : Staged target regular s.1 s.2)
    (heffects : effects tr = [] ∨ effects tr = [.copies])
    (hcopy : ∀ created, ⟨.createCandidateCopy, Except.ok created⟩ ∉ tr)
    (hbody : Along (UnixStep target regular) s tr s₁)
    (htake : (handle .takeRecoveryEntries s₁.1).RunsIn (host target regular).Step s₁.2 calls s₂.2
      (taken, s₂.1)) :
    (taken.map (·.namespacePath)).Nodup := by
  have hrest : SameSession s.1 s₁.1 ∧ ∃ entries : List (UnixEntry I), entries.length ≤ 1 ∧
      (∀ x ∈ entries, Elsewhere s.1 x.namespacePath) ∧
      s₁.1.recoveryEntries.Sublist entries := by
    obtain hquiet | hcopied := heffects
    · have hundisturbed := along_quiet hquiet hbody
      refine ⟨hundisturbed.same, [], by simp, by simp, ?_⟩
      have hsub := hundisturbed.recovery
      rwa [hs.unrecovered] at hsub
    · obtain ⟨r, hmem⟩ := exists_copy_event hcopied
      have hafter := along_copy hs hcopied hmem hbody
      cases r with
      | ok created => exact absurd hmem (hcopy created)
      | error error => exact ⟨hafter.same, hafter.failed error rfl⟩
  obtain ⟨hsame, entries, hlength, helsewhere, hsub⟩ := hrest
  have happart₁ : s₁.1.candidateName ≠ target := by
    rw [hsame.candidateName]
    exact hs.apart
  obtain ⟨staged, rfl, hstaged, -⟩ := takeRecoveryEntries_runs happart₁ htake
  rw [hsame.space, hsame.candidateName] at hstaged
  have hall : ((entries ++ staged.toList).map (·.namespacePath)).Nodup := by
    match entries, hlength, helsewhere with
    | [], _, _ => cases staged <;> simp
    | [x], _, helsewhere =>
      obtain ⟨name, hname, hpath⟩ := helsewhere x List.mem_cons_self
      cases staged with
      | none => simp
      | some y =>
        have hy := hstaged y rfl
        have hxy : x.namespacePath ≠ y.namespacePath := by
          rw [hpath, hy, ne_eq, pathOf_inj]
          exact hname
        simpa using hxy
  exact hall.sublist ((hsub.append (List.Sublist.refl _)).map _)

omit [DecidableEq δ] in
theorem publish_step {attempt : NativeAttempt (EntryAccess I)}
    (happart : s.1.candidateName ≠ target) (hplain : regular s.1.candidate = true)
    (h : UnixStep target regular s (publishEvent precondition attempt).call
      (publishEvent precondition attempt).answer s') :
    SameSession s.1 s'.1 ∧ s'.1.recoveryEntries = s.1.recoveryEntries ∧
      Receipt s'.1 attempt s'.2 := by
  have hreceipt : SameSession s.1 s'.1 ∧ s'.1.recoveryEntries = s.1.recoveryEntries ∧
      Receipt s.1 attempt s'.2 := by
    cases precondition with
    | absent =>
      obtain ⟨calls, hrun, hun⟩ := h
      exact publishAbsent_runs hrun.runs hun
    | content expected =>
      obtain ⟨calls, hrun, hun⟩ := h
      exact publishContent_runs happart hplain hrun hun
  obtain ⟨hsame, hrecovery, hreceipt⟩ := hreceipt
  refine ⟨hsame, hrecovery, ?_, ?_⟩
  · rw [hsame.space]
    exact hreceipt.installed
  · rw [hsame.space, hsame.candidateName, hsame.candidate]
    exact hreceipt.displaced

/-- Every run of the commit over the Unix backend whose native calls meet `Unaliased` and that
    fails reports recovery files with pairwise different namespace paths. -/
theorem commit_recovery_distinct {system : Atomic.UnixTarget} {space : Namespace I}
    {regular : I → Bool} {d₀ d : Directory String I} {opening : NativeTrace I}
    {b : UnixConditionalBackend I} {precondition : LocalWritePrecondition δ}
    {options : LocalWriteOptions} {bytesWritten : UInt64} {currentDirectory : Option Path}
    {tr : Trace (EntryAccess I)} {s' : UnixConditionalBackend I × Directory String I}
    {e : LocalConditionalCommitError (EntryAccess I)}
    (hopen : (openIn system space).RunsIn (host space.targetName regular).Step d₀ opening d (.ok b))
    (hrun : (commitConditionalWithDirectory D precondition options bytesWritten
      currentDirectory).RunsIn (UnixStep space.targetName regular) (b, d) tr s' (.error e)) :
    (e.recoveryFiles.map (·.namespacePath)).Nodup := by
  have hstaged : Staged space.targetName regular b d := openIn_staged rfl hopen
  have hne : b.candidateName ≠ b.space.targetName := by
    rw [hstaged.destination]
    exact hstaged.apart
  obtain ⟨hruns, halong⟩ := Prog.runsIn_iff.mp hrun
  obtain ⟨body, stage, source, locals, taken, rfl, rfl, hcases⟩ := commit_error_runs D hruns
  obtain ⟨s₁, hbody, s₂, ⟨calls, htake, -⟩, -⟩ := along_append.mp halong
  unfold commitError
  dsimp only
  rw [recoveryPaths]
  obtain ⟨hunpublished, -⟩ | ⟨candidate, created, bytes, before, attempt, after, hready, rfl,
      hsettled⟩ := hcases
  · -- Nothing was published: besides the staging entry there is at most the copy.
    have hcopied {created : UnixEntry I} {role : LocalRecoveryFileRole}
        (heffects : effects body = [.copies])
        (hmem : ⟨.createCandidateCopy, Except.ok created⟩ ∈ body) :
        (taken.map (·.namespacePath) ++ [created.setRole role].map (·.namespacePath)).Nodup := by
      have hafter := along_copy (s := (b, d)) hstaged heffects hmem hbody
      obtain ⟨hnil, name, hname, htarget, hpath⟩ := hafter.created created rfl
      exact taken_nodup (s := (b, d)) hstaged.destination hstaged.apart hafter.same hnil hname
        htarget hpath ⟨by simp, by simp⟩ htake
    generalize hentries : locals.entries = entries at hunpublished
    cases hunpublished with
    | uncopied hstage hblame hcopy heffects =>
      rw [List.map_nil, List.append_nil]
      exact taken_nodup_uncopied (s := (b, d)) hstaged heffects hcopy hbody htake
    | unverified hmade =>
      obtain ⟨_, habs, -⟩ | ⟨created, err, heq, hmem, heffects, -⟩ | ⟨_, _, habs, -⟩ :=
        prepareCopy_runs D hmade
      · cases habs
      · cases heq
        exact hcopied (by simp [candidateTrace, heffects]) (by simp [hmem])
      · cases habs
    | unready hdigest hstage hquiet hblame =>
      exact hcopied (by simp [copiedTrace, candidateTrace, copyTrace, hquiet])
        (by simp [copiedTrace, copyTrace])
    | refused hdigest hsynced hcalls hstarts hrefused =>
      exact hcopied
        (by simp [copiedTrace, candidateTrace, copyTrace, effects_of_onlySyncs hsynced.onlySyncs,
          effects_of_prechecks hcalls])
        (by simp [copiedTrace, copyTrace])
  · -- Published: what the receipts named is away from the candidate.
    obtain ⟨s₃, hbefore, s₄, hpublish, hafter⟩ := along_append.mp hbody
    have hmem : ⟨.createCandidateCopy, Except.ok created⟩ ∈ before := by
      obtain ⟨copyBytes, synced, checked, current, -, -, -, -, rfl⟩ := hready.calls
      simp [copiedTrace, copyTrace]
    have hcopied := along_copy (s := (b, d)) hstaged (hready.effects_eq D) hmem hbefore
    obtain ⟨hnil, name, hname, htarget, hpath⟩ := hcopied.created created rfl
    obtain ⟨hsame, hrecovery, hreceipt⟩ := publish_step (by
      rw [hcopied.same.candidateName]
      exact hstaged.apart) (by
      rw [hcopied.same.candidate]
      exact hstaged.plain) hpublish
    have hsession := hcopied.same.trans hsame
    obtain ⟨kept, hentries, hkept, hlast, hsub⟩ := settlement_keptPaths D
      (by rw [hsession.space]; exact hstaged.destination)
      (by rw [hsession.candidateName]; exact hstaged.apart) hreceipt hsettled hafter
    rw [hrecovery, hnil] at hsub
    have hkept' : KeptPaths b s₁.2 kept := by
      refine ⟨hkept.nodup, fun x hx => ?_⟩
      have hx' := hkept.paths x hx
      rw [hsession.space, hsession.candidateName, hsession.candidate] at hx'
      exact hx'
    rw [hentries]
    exact taken_nodup (s := (b, d)) hstaged.destination hstaged.apart (hsession.trans hlast)
      (List.sublist_nil.mp hsub) hname htarget hpath hkept' htake

/-! ## 5. A run over a concrete directory -/

/-- A directory whose files have been numbered in the order of their creation. -/
structure World where
  dir : Directory String Nat
  used : Nat
  bounded : ∀ n i, dir n = some i → i < used

namespace World

def create (w : World) (name : String) : World where
  dir := w.dir.bind name w.used
  used := w.used + 1
  bounded := by
    intro n i h
    by_cases hn : n = name
    · subst hn
      rw [Directory.bind_self] at h
      cases h
      omega
    · rw [Directory.bind_of_ne hn] at h
      have := w.bounded n i h
      omega

def swap (w : World) (left right : String) : World where
  dir := w.dir.exchange left right
  used := w.used
  bounded := by
    intro n i h
    unfold Directory.exchange at h
    by_cases hright : n = right
    · subst hright
      rw [Function.update_self] at h
      exact w.bounded left i h
    · rw [Function.update_of_ne hright] at h
      by_cases hleft : n = left
      · subst hleft
        rw [Function.update_self] at h
        exact w.bounded right i h
      · rw [Function.update_of_ne hleft] at h
        exact w.bounded n i h

/-- The file behind a name. -/
def find (w : World) (name : String) : IoResult Nat :=
  match w.dir name with
  | some file => .ok file
  | none => .error ⟨.notFound, "no such file", some 2⟩

end World

def sampleContent (file : Nat) : List UInt8 :=
  if file = 0 then [0] else if file = 3 then [2] else [1]

def sampleFileCall : (o : FileCall Nat) → o.Result
  | .sameContents left right => Except.ok (sampleContent left = sampleContent right)
  | .readAll file => Except.ok (sampleContent file)
  | .cloneParent _ => Except.ok ()
  | .adoptReader _ => Except.ok ()
  | .copyContents _ _ => Except.ok ()
  | .seekStart _ => Except.ok ()
  | .flush _ => Except.ok ()
  | .syncFile _ => Except.ok ()
  | .syncParent => Except.ok ()
  | .preserveMetadata _ _ => Except.ok ()

/-- The competitor: it replaces the file `0` under the target. -/
def sampleMet (w : World) : World := if w.dir "target" = some 0 then w.create "target" else w

theorem sampleMet_meddles (w : World) :
    (host "target" fun _ : Nat => true).meddles w.dir (sampleMet w).dir := by
  intro n hn
  unfold sampleMet
  split
  · exact Directory.bind_of_ne hn
  · rfl

/-- A file system on which everything that is tried with regular files works, but for the exchanges
    that it denies; the competitor acts just before any other exchange. -/
def sampleNative (denies : World → Bool) (w : World) :
    (c : Syscall String Nat (FileCall Nat)) → c.Result FileCall.Result × World
  | .stat name => ((w.find name).map (⟨true, ·⟩), w)
  | .openRead name => (w.find name, w)
  | .createExclusive name =>
    if w.dir name = none then (Except.ok w.used, w.create name)
    else (Except.error ⟨.alreadyExists, "file exists", some 17⟩, w)
  | .renameExchange left right =>
    if denies w then (Except.error ⟨.permissionDenied, "denied", some 13⟩, w)
    else if ((sampleMet w).dir left).isSome ∧ ((sampleMet w).dir right).isSome then
      (Except.ok (), (sampleMet w).swap left right)
    else (Except.error ⟨.notFound, "no such file", some 2⟩, sampleMet w)
  | .rename _ _ => (Except.error ⟨.permissionDenied, "denied", some 13⟩, w)
  | .renameNoReplace _ _ => (Except.error ⟨.permissionDenied, "denied", some 13⟩, w)
  | .link _ _ => (Except.error ⟨.permissionDenied, "denied", some 13⟩, w)
  | .unlink _ => (Except.error ⟨.permissionDenied, "denied", some 13⟩, w)
  | .fileStat file => (Except.ok ⟨true, file⟩, w)
  | .randomName => (Except.ok (if w.dir ".candidate" = none then ".candidate" else ".copy"), w)
  | .inert o => (sampleFileCall o, w)

variable (denies : World → Bool)

theorem sampleNative_step (w : World) (c : Syscall String Nat (FileCall Nat)) :
    (host "target" fun _ => true).Step w.dir c (sampleNative denies w c).1
      (sampleNative denies w c).2.dir := by
  have hstill : (host "target" fun _ : Nat => true).meddles w.dir w.dir := fun _ _ => rfl
  cases c with
  | stat name =>
    refine ⟨w.dir, hstill, ?_⟩
    show Posix.Effect _ w.dir (.stat name) ((w.find name).map (⟨true, ·⟩)) w.dir
    unfold World.find
    cases hname : w.dir name with
    | some file =>
      show w.dir = w.dir ∧ w.dir name = some file ∧ true = true
      exact ⟨rfl, hname, rfl⟩
    | none =>
      show w.dir = w.dir ∧ (_ → w.dir name = none)
      exact ⟨rfl, fun _ => hname⟩
  | openRead name =>
    refine ⟨w.dir, hstill, ?_⟩
    show Posix.Effect _ w.dir (.openRead name) (w.find name) w.dir
    unfold World.find
    cases hname : w.dir name with
    | some file =>
      show w.dir = w.dir ∧ w.dir name = some file
      exact ⟨rfl, hname⟩
    | none => rfl
  | createExclusive name =>
    refine ⟨w.dir, hstill, ?_⟩
    by_cases hname : w.dir name = none
    · have hnative : sampleNative denies w (.createExclusive name) = (Except.ok w.used, w.create name) :=
        if_pos hname
      rw [hnative]
      refine ⟨hname, fun m hm => ?_, rfl, rfl⟩
      have := w.bounded m _ hm
      omega
    · have hnative : sampleNative denies w (.createExclusive name) =
          (Except.error ⟨.alreadyExists, "file exists", some 17⟩, w) := if_neg hname
      rw [hnative]
      rfl
  | renameExchange left right =>
    by_cases hdenied : denies w = true
    · have hnative : sampleNative denies w (.renameExchange left right) =
          (Except.error ⟨.permissionDenied, "denied", some 13⟩, w) := if_pos hdenied
      rw [hnative]
      exact ⟨w.dir, hstill, .inl rfl⟩
    refine ⟨(sampleMet w).dir, sampleMet_meddles w, ?_⟩
    by_cases hbound : ((sampleMet w).dir left).isSome ∧ ((sampleMet w).dir right).isSome
    · have hnative : sampleNative denies w (.renameExchange left right) =
          (Except.ok (), (sampleMet w).swap left right) :=
        (if_neg hdenied).trans (if_pos hbound)
      rw [hnative]
      exact ⟨hbound, rfl⟩
    · have hnative : sampleNative denies w (.renameExchange left right) =
          (Except.error ⟨.notFound, "no such file", some 2⟩, sampleMet w) :=
        (if_neg hdenied).trans (if_neg hbound)
      rw [hnative]
      exact .inl rfl
  | rename a b => exact ⟨w.dir, hstill, .inl rfl⟩
  | renameNoReplace a b => exact ⟨w.dir, hstill, .inl rfl⟩
  | link a b => exact ⟨w.dir, hstill, .inl rfl⟩
  | unlink a =>
    refine ⟨w.dir, hstill, .inl rfl, ?_⟩
    rintro _ ⟨⟩ habs
    cases habs
  | fileStat file => exact ⟨w.dir, hstill, rfl, rfl⟩
  | randomName =>
    refine ⟨w.dir, hstill, rfl, ?_⟩
    show (if w.dir ".candidate" = none then ".candidate" else ".copy") ≠ "target"
    split
    · decide
    · decide
  | inert o => exact ⟨w.dir, hstill, rfl⟩

theorem sampleNative_runs {α : Type} (p : UnixM Nat α) (w : World) :
    p.RunsIn (host "target" fun _ => true).Step w.dir (p.execIn (sampleNative denies) w).1
      (p.execIn (sampleNative denies) w).2.1.dir (p.execIn (sampleNative denies) w).2.2 := by
  have hrun := Prog.execIn_runsIn (sampleNative denies)
    (E := fun w c answer w' => (host "target" fun _ => true).Step w.dir c answer w'.dir)
    (sampleNative_step denies) p w
  exact hrun.map World.dir fun _ _ _ _ hstep => hstep

def exchanges : Syscall String Nat (FileCall Nat) → Bool
  | .renameExchange _ _ => true
  | _ => false

/-- Whether the native calls `calls` of one call meet `Unaliased`: the candidate has left the
    staging name behind every call that publishes or rolls back, and no rollback took effect. -/
def meetsUnaliased (b : UnixConditionalBackend Nat) (calls : NativeTrace Nat) (w : World) :
    Call (EntryAccess Nat) → Bool
  | .publishAbsent | .publishContent => w.dir b.candidateName ≠ some b.candidate
  | .rollback _ => w.dir b.candidateName ≠ some b.candidate &&
      calls.all fun ev => !(exchanges ev.call && succeeds ev.call ev.answer)
  | _ => true

theorem unaliased_of_meets {b : UnixConditionalBackend Nat} {calls : NativeTrace Nat} {w : World}
    {c : Call (EntryAccess Nat)} (h : meetsUnaliased b calls w c = true) :
    Unaliased b calls w.dir c := by
  cases c with
  | publishAbsent => exact fun _ => of_decide_eq_true h
  | publishContent => exact fun hbound => absurd hbound (of_decide_eq_true h)
  | rollback displaced =>
    obtain ⟨haway, hnone⟩ := (Bool.and_eq_true _ _).mp h
    refine ⟨of_decide_eq_true haway, fun name pre post hcalls => ?_⟩
    have hexchange := List.all_eq_true.mp hnone
      ⟨.renameExchange name b.space.targetName, Except.ok ()⟩ (by simp [hcalls])
    cases hexchange
  | _ => trivial

/-- The backend over the sample file system; the flag stays set as long as `Unaliased` is met. -/
def sampleUnix (s : (UnixConditionalBackend Nat × World) × Bool) (c : Call (EntryAccess Nat)) :
    Answer (EntryAccess Nat) c × ((UnixConditionalBackend Nat × World) × Bool) :=
  let (calls, w, answer, b) := (handle c s.1.1).execIn (sampleNative denies) s.1.2
  (answer, (b, w), s.2 && meetsUnaliased s.1.1 calls w c)

/-- A step of the backend with the flag behind it. -/
def SampleStep (s : (UnixConditionalBackend Nat × Directory String Nat) × Bool)
    (c : Call (EntryAccess Nat)) (answer : Answer (EntryAccess Nat) c)
    (s' : (UnixConditionalBackend Nat × Directory String Nat) × Bool) : Prop :=
  ∃ calls, (handle c s.1.1).RunsIn (host "target" fun _ => true).Step s.1.2 calls s'.1.2
      (answer, s'.1.1) ∧ (s'.2 = true → s.2 = true ∧ Unaliased s.1.1 calls s'.1.2 c)

def sampleSpace : Namespace Nat where
  targetName := "target"
  syncDirs := []
  namespacePath := ["dir", "target"]
  diagnosticPath := none

def sampleWorld : World where
  dir name := if name = "target" then some 0 else none
  used := 1
  bounded := by
    intro n i h
    split at h
    · cases h
      omega
    · cases h

theorem sampleUnix_runs {α : Type} (p : BackendM (EntryAccess Nat) α)
    (s : (UnixConditionalBackend Nat × World) × Bool) :
    p.RunsIn SampleStep ((s.1.1, s.1.2.dir), s.2) (p.execIn (sampleUnix denies) s).1
      (((p.execIn (sampleUnix denies) s).2.1.1.1, (p.execIn (sampleUnix denies) s).2.1.1.2.dir),
        (p.execIn (sampleUnix denies) s).2.1.2)
      (p.execIn (sampleUnix denies) s).2.2 := by
  have hrun := Prog.execIn_runsIn (sampleUnix denies)
    (E := fun s c answer s' =>
      SampleStep ((s.1.1, s.1.2.dir), s.2) c answer ((s'.1.1, s'.1.2.dir), s'.2))
    (fun s c => ⟨_, sampleNative_runs denies (handle c s.1.1) s.1.2, fun hflag =>
      have hparts := (Bool.and_eq_true _ _).mp hflag
      ⟨hparts.1, unaliased_of_meets hparts.2⟩⟩) p s
  exact hrun.map (fun s : (UnixConditionalBackend Nat × World) × Bool =>
    ((s.1.1, s.1.2.dir), s.2)) fun _ _ _ _ hstep => hstep

abbrev SampleResult := Except (LocalConditionalCommitError (EntryAccess Nat))
  (LocalConditionalWriteOutcome (EntryAccess Nat) (List UInt8))

/-- Opening the backend on the sample directory and committing over it. -/
def sampleCommit (precondition : LocalWritePrecondition (List UInt8)) :
    Option (Trace (EntryAccess Nat) × Bool × SampleResult) :=
  match ((openIn .linux sampleSpace).execIn (sampleNative denies) sampleWorld).2 with
  | (w, .ok b) =>
    let run := (commitConditionalWithDirectory id precondition {} 1 none).execIn
      (sampleUnix denies) ((b, w), true)
    some (run.1, run.2.1.2, run.2.2)
  | (_, .error _) => none

variable {denies}

/-- What `sampleCommit` computes is a run over the Unix backend. -/
theorem sampleCommit_runs {precondition : LocalWritePrecondition (List UInt8)}
    {tr : Trace (EntryAccess Nat)} {met : Bool} {result : SampleResult}
    (h : sampleCommit denies precondition = some (tr, met, result)) :
    ∃ opening d b s', (openIn .linux sampleSpace).RunsIn (host "target" fun _ => true).Step
        sampleWorld.dir opening d (.ok b) ∧
      (commitConditionalWithDirectory id precondition {} 1 none).RunsIn SampleStep
        ((b, d), true) tr (s', met) result := by
  have hopen := sampleNative_runs denies (openIn .linux sampleSpace) sampleWorld
  unfold sampleCommit at h
  split at h
  · rename_i w b hexec
    rw [hexec] at hopen
    have hcommit := sampleUnix_runs denies
      (commitConditionalWithDirectory id precondition {} 1 none) ((b, w), true)
    obtain ⟨htr, hrest⟩ := Prod.mk.inj (Option.some.inj h)
    obtain ⟨hmet, hresult⟩ := Prod.mk.inj hrest
    rw [htr, hmet, hresult] at hcommit
    exact ⟨_, w.dir, b, _, hopen, hcommit⟩
  · cases h

/-- The property of the recovery files that a failed commit should have. -/
def distinctPaths (e : LocalConditionalCommitError (EntryAccess Nat)) : Bool :=
  (e.recoveryFiles.map (·.namespacePath)).Nodup

/-- The trace, the flag and the error of a failed sample commit. -/
def failsWith
    (p : Trace (EntryAccess Nat) → Bool → LocalConditionalCommitError (EntryAccess Nat) → Bool) :
    Option (Trace (EntryAccess Nat) × Bool × SampleResult) → Bool
  | some (tr, met, .error e) => p tr met e
  | _ => false

theorem exists_of_failsWith
    {p : Trace (EntryAccess Nat) → Bool → LocalConditionalCommitError (EntryAccess Nat) → Bool}
    {run : Option (Trace (EntryAccess Nat) × Bool × SampleResult)} (h : failsWith p run = true) :
    ∃ tr met e, run = some (tr, met, .error e) ∧ p tr met e = true := by
  unfold failsWith at h
  split at h
  · exact ⟨_, _, _, rfl, h⟩
  · cases h

/-- A competitor overtakes the publication and the rollback succeeds: the staging name is reported
    by the receipt of the rollback and by the last look at the staging name. -/
theorem commit_recovery_duplicated :
    ∃ opening d b tr s' e, (openIn .linux sampleSpace).RunsIn (host "target" fun _ => true).Step
        sampleWorld.dir opening d (.ok b) ∧
      (commitConditionalWithDirectory id (.content [0]) {} 1 none).RunsIn
        (Implemented handle (host "target" fun _ => true).Step) (b, d) tr s' (.error e) ∧
      ¬ (e.recoveryFiles.map (·.namespacePath)).Nodup := by
  have hfails : failsWith (fun _ _ e => !distinctPaths e)
      (sampleCommit (fun _ => false) (.content [0])) = true := by
    decide +kernel
  obtain ⟨tr, met, e, hrun, hpaths⟩ := exists_of_failsWith hfails
  obtain ⟨opening, d, b, s', hopen, hcommit⟩ := sampleCommit_runs hrun
  have himplemented : (commitConditionalWithDirectory id (.content [0]) {} 1 none).RunsIn
      (Implemented handle (host "target" fun _ => true).Step) (b, d) tr s' (.error e) :=
    hcommit.map Prod.fst fun _ _ _ _ ⟨calls, hcall, _⟩ => ⟨calls, hcall⟩
  exact ⟨opening, d, b, tr, s', e, hopen, himplemented, by simpa [distinctPaths] using hpaths⟩

/-- The reverse exchange is denied once the competitor's file is under the staging name. -/
def deniesReverse (w : World) : Bool := w.dir ".candidate" = some 3

/-- A commit that the precheck refuses, and one that is overtaken by the competitor and whose
    rollback then fails. -/
theorem commit_recovery_distinct_refused :
    (∃ tr e, sampleCommit (fun _ => false) .absent = some (tr, true, .error e) ∧
      e.recoveryFiles.length = 2 ∧ (e.recoveryFiles.map (·.namespacePath)).Nodup) ∧
    ∃ tr e, sampleCommit deniesReverse (.content [0]) = some (tr, true, .error e) ∧
      .rollsBack ∈ effects tr ∧ (e.recoveryFiles.map (·.namespacePath)).Nodup := by
  have hdistinct {denies : World → Bool} {precondition : LocalWritePrecondition (List UInt8)}
      {tr : Trace (EntryAccess Nat)} {e : LocalConditionalCommitError (EntryAccess Nat)}
      (hrun : sampleCommit denies precondition = some (tr, true, .error e)) :
      (e.recoveryFiles.map (·.namespacePath)).Nodup := by
    obtain ⟨opening, d, b, s', hopen, hcommit⟩ := sampleCommit_runs hrun
    have hmet := hcommit.checked (E := UnixStep "target" fun _ => true)
      (fun _ _ _ _ ⟨calls, hcall, hmeets⟩ hflag =>
        ⟨(hmeets hflag).1, calls, hcall, (hmeets hflag).2⟩) rfl
    have hopen' : (openIn .linux sampleSpace).RunsIn
        (host sampleSpace.targetName fun _ => true).Step sampleWorld.dir opening d (.ok b) := hopen
    exact commit_recovery_distinct id hopen' hmet.2
  have hrefused : failsWith (fun _ met e => met && e.recoveryFiles.length == 2)
      (sampleCommit (fun _ => false) .absent) = true := by
    decide +kernel
  have hovertaken : failsWith (fun tr met _ => met && decide (.rollsBack ∈ effects tr))
      (sampleCommit deniesReverse (.content [0])) = true := by
    decide +kernel
  constructor
  · obtain ⟨tr, met, e, hrun, hcheck⟩ := exists_of_failsWith hrefused
    obtain ⟨rfl, hlength⟩ := (Bool.and_eq_true _ _).mp hcheck
    exact ⟨tr, e, hrun, eq_of_beq hlength, hdistinct hrun⟩
  · obtain ⟨tr, met, e, hrun, hcheck⟩ := exists_of_failsWith hovertaken
    obtain ⟨rfl, hrolls⟩ := (Bool.and_eq_true _ _).mp hcheck
    exact ⟨tr, e, hrun, of_decide_eq_true hrolls, hdistinct hrun⟩

end LocalFiles.Conditional.Unix
