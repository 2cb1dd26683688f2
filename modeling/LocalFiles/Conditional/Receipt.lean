import LocalFiles.Contract
import LocalFiles.Conditional.UnixMethods

/-!
# Receipt — what the backend reports about an exchange

After the exchange of the staging name and the target the backend looks at both names and at the
candidate, and each of these observations may fail.  Without a competitor the directory stays as
the exchange left it, so that an observation that succeeds shows where the candidate is.
-/

namespace LocalFiles.Conditional.Unix

open Interaction Atomic

variable {I : Type} [DecidableEq I]

/-! ## 1. Observations without a competitor -/

/-- Nobody else changes the directory, and an `EIO` says nothing about the effect of the call. -/
def alone (target : String) (regular : I → Bool) : Posix String I where
  target := target
  meddles d met := met = d
  regular := regular
  late error := error.osCode = some eio

/-- The observations that fail by themselves: of a free name, and the opening of what is not a
    regular file. -/
def Unobservable (regular : I → Bool) (d : Directory String I) :
    Syscall String I (FileCall I) → Prop
  | .stat name => d name = none
  | .openRead name => ∀ i, d name = some i → regular i = false
  | _ => False

/-- The calls as `alone` answers them, where only the observations in `failing` fail without a
    reason in the directory. -/
def Witnessed (target : String) (regular : I → Bool)
    (failing : Syscall String I (FileCall I) → Prop) (d : Directory String I)
    (c : Syscall String I (FileCall I)) (answer : c.Result FileCall.Result)
    (d' : Directory String I) : Prop :=
  (alone target regular).Step d c answer d' ∧
    (c.mutates = false → ¬ failing c → ¬ Unobservable regular d c → succeeds c answer = true)

section Observations

variable {target : String} {regular : I → Bool}
  {failing : Syscall String I (FileCall I) → Prop} {d : Directory String I}

theorem wp_identityAt (name : String) :
    (identityAt name).Wp (Witnessed target regular failing) (fun r d' => d' = d ∧
      (∀ i, r = .ok i → d name = some i) ∧
      ((∀ c, ¬ failing c) → (d name).isSome → r.isOk = true)) d := by
  rw [identityAt, Prog.wp_andThen]
  rintro answer d' ⟨⟨met, rfl, heffect⟩, hclean⟩
  cases answer with
  | error e =>
    obtain ⟨rfl, -⟩ := heffect
    refine ⟨?_, by rintro _ ⟨⟩⟩
    rintro _ ⟨⟩
    refine ⟨rfl, by rintro _ ⟨⟩, fun hnone hbound => ?_⟩
    cases hclean rfl (hnone _) (fun habs : d' name = none => by rw [habs] at hbound; cases hbound)
  | ok status =>
    obtain ⟨rfl, hbound, -⟩ := heffect
    refine ⟨by rintro _ ⟨⟩, ?_⟩
    rintro _ ⟨⟩
    refine ⟨rfl, ?_, fun _ _ => rfl⟩
    rintro _ ⟨⟩
    exact hbound

theorem wp_fileIdentity (file : I) :
    (fileIdentity file).Wp (Witnessed target regular failing) (fun r d' => d' = d ∧
      (∀ i, r = .ok i → i = file) ∧ ((∀ c, ¬ failing c) → r.isOk = true)) d := by
  rw [fileIdentity, Prog.wp_andThen]
  rintro answer d' ⟨⟨met, rfl, heffect⟩, hclean⟩
  cases answer with
  | error e =>
    refine ⟨?_, by rintro _ ⟨⟩⟩
    rintro _ ⟨⟩
    refine ⟨heffect, by rintro _ ⟨⟩, fun hnone => ?_⟩
    cases hclean rfl (hnone _) id
  | ok status =>
    obtain ⟨rfl, rfl⟩ := heffect
    refine ⟨by rintro _ ⟨⟩, ?_⟩
    rintro _ ⟨⟩
    refine ⟨rfl, ?_, fun _ => rfl⟩
    rintro _ ⟨⟩
    rfl

theorem wp_fileCall (o : FileCall I) (post : o.Result → Directory String I → Prop)
    (h : ∀ answer : o.Result, ((∀ c, ¬ failing c) → succeeds (.inert o) answer = true) →
      post answer d) :
    (fileCall o).Wp (Witnessed target regular failing) post d := by
  rintro answer d' ⟨⟨met, rfl, heffect⟩, hclean⟩
  obtain rfl : d' = met := heffect
  exact h answer fun hnone => hclean rfl (hnone _) id

/-- An entry tells the identity its name has. -/
theorem wp_entry (space : Namespace I) (role : LocalRecoveryFileRole) (name : String) :
    (space.entry role name).Wp (Witnessed target regular failing) (fun r d' => d' = d ∧
      (∀ e, r = .ok e → e.access.name = name ∧ d name = some e.access.identity) ∧
      ((∀ c, ¬ failing c) → (d name).isSome → r.isOk = true)) d := by
  rw [Namespace.entry, Prog.wp_andThen]
  apply (wp_identityAt name).mono
  rintro r d' ⟨rfl, hidentity, hfound⟩
  constructor
  · rintro e rfl
    exact ⟨rfl, by rintro _ ⟨⟩, fun hnone hbound => by cases hfound hnone hbound⟩
  · rintro identity rfl
    rw [Prog.wp_andThen]
    apply wp_fileCall
    intro answer hclean
    constructor
    · rintro e rfl
      exact ⟨rfl, by rintro _ ⟨⟩, fun hnone _ => by cases hclean hnone⟩
    · rintro ⟨⟩ rfl
      refine ⟨rfl, ?_, fun _ _ => rfl⟩
      rintro _ ⟨⟩
      exact ⟨rfl, hidentity _ rfl⟩

theorem wp_observe (b : UnixConditionalBackend I) (role : LocalRecoveryFileRole) (name : String) :
    (b.observe role name).Wp (Witnessed target regular failing) (fun found d' => d' = d ∧
      (∀ e, found = some e → e.access.name = name ∧ d name = some e.access.identity) ∧
      ((∀ c, ¬ failing c) → (d name).isSome → found.isSome = true)) d := by
  rw [UnixConditionalBackend.observe, Prog.wp_bind]
  apply (wp_entry b.space role name).mono
  rintro r d' ⟨rfl, hentry, hfound⟩
  cases r with
  | error e => exact ⟨rfl, by rintro _ ⟨⟩, fun hnone hbound => by cases hfound hnone hbound⟩
  | ok e =>
    refine ⟨rfl, ?_, fun _ _ => rfl⟩
    rintro _ ⟨⟩
    exact hentry e rfl

/-- Reopening an entry confirms that its name still leads to the file it was observed with. -/
theorem wp_openFile (access : EntryAccess I) :
    access.openFile.Wp (Witnessed target regular failing) (fun r d' => d' = d ∧
      (∀ file, r = .ok file → file = access.identity ∧ d access.name = some file) ∧
      ((∀ c, ¬ failing c) → d access.name = some access.identity →
        regular access.identity = true → r.isOk = true)) d := by
  rw [EntryAccess.openFile, Prog.wp_andThen]
  rintro opened d' ⟨⟨met, rfl, heffect⟩, hclean⟩
  cases opened with
  | error e =>
    obtain rfl : d' = met := heffect
    refine ⟨?_, by rintro _ ⟨⟩⟩
    rintro _ ⟨⟩
    refine ⟨rfl, by rintro _ ⟨⟩, fun hnone hbound hregular => ?_⟩
    cases hclean rfl (hnone _) fun habs => by rw [habs _ hbound] at hregular; cases hregular
  | ok file =>
    obtain ⟨rfl, hbound⟩ := heffect
    refine ⟨by rintro _ ⟨⟩, ?_⟩
    rintro _ ⟨⟩
    rw [Prog.wp_andThen]
    rintro answer d₁ ⟨⟨met, rfl, heffect⟩, hclean⟩
    cases answer with
    | error e =>
      obtain rfl : d₁ = met := heffect
      refine ⟨?_, by rintro _ ⟨⟩⟩
      rintro _ ⟨⟩
      exact ⟨rfl, by rintro _ ⟨⟩, fun hnone _ _ => by cases hclean rfl (hnone _) id⟩
    | ok status =>
      obtain ⟨rfl, rfl⟩ := heffect
      refine ⟨by rintro _ ⟨⟩, ?_⟩
      rintro _ ⟨⟩
      split
      · next hchanged =>
        refine ⟨rfl, by rintro _ ⟨⟩, fun _ hsame hregular => ?_⟩
        rw [hbound] at hsame
        cases hsame
        have hplain : (alone target regular).regular access.identity = true := hregular
        rw [hplain] at hchanged
        simp at hchanged
      · next hsame =>
        have hidentity : file = access.identity := by
          by_contra hne
          simp [hne] at hsame
        rw [Prog.wp_andThen]
        apply wp_fileCall
        intro adopted hclean
        constructor
        · rintro e rfl
          exact ⟨rfl, by rintro _ ⟨⟩, fun hnone _ _ => by cases hclean hnone⟩
        · rintro ⟨⟩ rfl
          refine ⟨rfl, ?_, fun _ _ _ => rfl⟩
          rintro _ ⟨⟩
          exact ⟨hidentity, hbound⟩

theorem wp_reopen (entry : UnixEntry I) :
    (reopen entry).Wp (Witnessed target regular failing) (fun r d' => d' = d ∧
      (∀ file, r = .ok file →
        file = entry.access.identity ∧ d entry.access.name = some file) ∧
      ((∀ c, ¬ failing c) → d entry.access.name = some entry.access.identity →
        regular entry.access.identity = true → r.isOk = true)) d := by
  rw [reopen, Prog.wp_bind, EntryAccess.openReader, Prog.wp_bind]
  apply (wp_openFile entry.access).mono
  rintro r d' ⟨rfl, hfile, hopens⟩
  cases r with
  | error e =>
    exact ⟨rfl, by rintro _ ⟨⟩, fun hnone hbound hregular => by cases hopens hnone hbound hregular⟩
  | ok file =>
    refine ⟨rfl, ?_, fun _ _ _ => rfl⟩
    rintro _ ⟨⟩
    exact hfile file rfl

theorem wp_entryIdentity (entry : UnixEntry I) :
    (entryIdentity entry).Wp (Witnessed target regular failing) (fun r d' => d' = d ∧
      (∀ i, r = .ok i → i = entry.access.identity ∧ d entry.access.name = some i) ∧
      ((∀ c, ¬ failing c) → d entry.access.name = some entry.access.identity →
        regular entry.access.identity = true → r.isOk = true)) d := by
  rw [entryIdentity, Prog.wp_andThen]
  apply (wp_reopen entry).mono
  rintro r d' ⟨rfl, hfile, hopens⟩
  constructor
  · rintro e rfl
    exact ⟨rfl, by rintro _ ⟨⟩, fun hnone hbound hregular => by cases hopens hnone hbound hregular⟩
  · rintro file rfl
    apply (wp_fileIdentity file).mono
    rintro r d₁ ⟨rfl, hidentity, hfound⟩
    refine ⟨rfl, ?_, fun hnone _ _ => hfound hnone⟩
    rintro i rfl
    rw [hidentity i rfl]
    exact hfile file rfl

theorem wp_observedIdentity (found : Option (UnixEntry I)) :
    (observedIdentity found).Wp (Witnessed target regular failing) (fun r d' => d' = d ∧
      (∀ i, r = some i → ∃ e, found = some e ∧ d e.access.name = some i) ∧
      ((∀ c, ¬ failing c) → ∀ e, found = some e → d e.access.name = some e.access.identity →
        regular e.access.identity = true → r = some e.access.identity)) d := by
  cases found with
  | none => exact ⟨rfl, by rintro _ ⟨⟩, by rintro _ _ ⟨⟩⟩
  | some entry =>
    rw [observedIdentity, Prog.wp_bind]
    apply (wp_entryIdentity entry).mono
    rintro r d' ⟨rfl, hidentity, hfound⟩
    cases r with
    | error e =>
      refine ⟨rfl, by rintro _ ⟨⟩, ?_⟩
      rintro hnone _ ⟨⟩ hbound hregular
      cases hfound hnone hbound hregular
    | ok i =>
      refine ⟨rfl, ?_, ?_⟩
      · rintro _ ⟨⟩
        exact ⟨entry, rfl, (hidentity i rfl).2⟩
      · rintro - _ ⟨⟩ - -
        exact congrArg some (hidentity i rfl).1

end Observations

/-! ## 2. The receipt of an exchange -/

namespace UnixConditionalBackend

variable {regular : I → Bool} {failing : Syscall String I (FileCall I) → Prop}
  {b b' : UnixConditionalBackend I} {d d' : Directory String I}

/-- What the receipt of an exchange may say when it leaves the directory `d` behind. -/
structure TruthfulReceipt (b : UnixConditionalBackend I) (d : Directory String I)
    (attempt : NativeAttempt (EntryAccess I)) : Prop where
  published : attempt.publication = .published → d b.space.targetName = some b.candidate ∧
    ∃ installed displaced, attempt.installed = some installed ∧
      installed.access.name = b.space.targetName ∧ installed.access.identity = b.candidate ∧
      attempt.displaced = [displaced] ∧ displaced.access.name = b.candidateName ∧
      d b.candidateName = some displaced.access.identity
  notPublished : attempt.publication = .notPublished → d b.candidateName = some b.candidate
  known : attempt.publication = .published ∨ attempt.publication = .notPublished ∨
    attempt.publication = .indeterminate

theorem publicationAfterExchange_published {failed installed staged displaced : Bool}
    (h : publicationAfterExchange failed installed staged displaced = .published) :
    installed = true ∧ displaced = true := by
  revert h
  cases failed <;> cases installed <;> cases staged <;> cases displaced <;> decide

theorem publicationAfterExchange_notPublished {failed installed staged displaced : Bool}
    (h : publicationAfterExchange failed installed staged displaced = .notPublished) :
    failed = true ∧ staged = true := by
  revert h
  cases failed <;> cases installed <;> cases staged <;> cases displaced <;> decide

theorem publicationAfterExchange_known (failed installed staged displaced : Bool) :
    publicationAfterExchange failed installed staged displaced = .published ∨
      publicationAfterExchange failed installed staged displaced = .notPublished ∨
      publicationAfterExchange failed installed staged displaced = .indeterminate := by
  cases failed <;> cases installed <;> cases staged <;> cases displaced <;> decide

/-- What was seen under a name: the entry observed there, and the identity it was reopened with. -/
structure Seen (regular : I → Bool) (failing : Syscall String I (FileCall I) → Prop)
    (d : Directory String I) (name : String) (found : Option (UnixEntry I))
    (identity : Option I) : Prop where
  entry : ∀ e, found = some e → e.access.name = name ∧ d name = some e.access.identity
  finds : (∀ c, ¬ failing c) → (d name).isSome → found.isSome
  reopens : ∀ i, identity = some i → ∃ e, found = some e ∧ d e.access.name = some i
  known : (∀ c, ¬ failing c) → ∀ e, found = some e → d e.access.name = some e.access.identity →
    regular e.access.identity = true → identity = some e.access.identity

section Seen

variable {name : String} {found installed displaced staged : Option (UnixEntry I)}
  {identity candidate installedIdentity stagedIdentity : Option I} {error : Option IoError}
  {publication : LocalConditionalPublicationState}

/-- A name under which the candidate is recognised leads to it. -/
theorem Seen.recognised (h : Seen regular failing d name found identity)
    (hcandidate : ∀ i, candidate = some i → i = b.candidate)
    (hsame : (candidate.isSome && decide (identity = candidate)) = true) :
    d name = some b.candidate ∧
      ∃ e, found = some e ∧ e.access.name = name ∧ e.access.identity = b.candidate := by
  cases candidate with
  | none => cases hsame
  | some i =>
    obtain rfl := hcandidate i rfl
    obtain ⟨e, rfl, hbound⟩ := h.reopens b.candidate (of_decide_eq_true hsame)
    obtain ⟨hname, hidentity⟩ := h.entry e rfl
    rw [hname] at hbound
    rw [hbound] at hidentity
    exact ⟨hbound, e, rfl, hname, (Option.some.inj hidentity).symm⟩

omit [DecidableEq I] in
/-- Where no call fails, the candidate is recognised under a name that leads to it. -/
theorem Seen.recognises (h : Seen regular failing d name found identity)
    (hnone : ∀ c, ¬ failing c) (hregular : regular b.candidate = true)
    (hbound : d name = some b.candidate) : identity = some b.candidate := by
  obtain ⟨e, rfl⟩ := Option.isSome_iff_exists.mp (h.finds hnone (by rw [hbound]; rfl))
  obtain ⟨hname, hidentity⟩ := h.entry e rfl
  have hsame : e.access.identity = b.candidate := by
    rw [hbound] at hidentity
    exact (Option.some.inj hidentity).symm
  rw [h.known hnone e rfl (by rw [hname]; exact hidentity) (by rw [hsame]; exact hregular), hsame]

theorem truthfulReceipt_of_seen (hcandidate : ∀ i, candidate = some i → i = b.candidate)
    (hinstalled : Seen regular failing d b.space.targetName installed installedIdentity)
    (hdisplaced : ∀ e, displaced = some e →
      e.access.name = b.candidateName ∧ d b.candidateName = some e.access.identity)
    (hstaged : Seen regular failing d b.candidateName staged stagedIdentity)
    (hpublication : publication = publicationAfterExchange error.isSome
      (candidate.isSome && installedIdentity = candidate)
      (candidate.isSome && stagedIdentity = candidate) displaced.isSome) :
    TruthfulReceipt b d {
      publicationMethod := .atomicExchange
      error := error
      publication := publication
      installed := if publication = .notPublished then none else installed
      displaced := if publication = .notPublished then [] else displaced.toList } := by
  refine ⟨fun hpublished => ?_, fun hnot => ?_, ?_⟩
  · obtain rfl : publication = .published := hpublished
    obtain ⟨hinstalledIs, hdisplacedSome⟩ := publicationAfterExchange_published hpublication.symm
    obtain ⟨hbound, e, he, hname, hidentity⟩ := hinstalled.recognised hcandidate hinstalledIs
    obtain ⟨old, rfl⟩ := Option.isSome_iff_exists.mp hdisplacedSome
    obtain ⟨holdName, holdIdentity⟩ := hdisplaced old rfl
    refine ⟨hbound, e, old, ?_, hname, hidentity, ?_, holdName, holdIdentity⟩
    · rw [if_neg (by decide)]
      exact he
    · rw [if_neg (by decide)]
      rfl
  · obtain rfl : publication = .notPublished := hnot
    exact (hstaged.recognised hcandidate
      (publicationAfterExchange_notPublished hpublication.symm).2).1
  · rw [hpublication]
    exact publicationAfterExchange_known ..

/-- Where no call fails, the receipt tells which of the two states an exchange leaves it found. -/
theorem determinate_of_seen (hnone : ∀ c, ¬ failing c) (hregular : regular b.candidate = true)
    (hinstalled : Seen regular failing d b.space.targetName installed installedIdentity)
    (hdisplaced : (d b.candidateName).isSome → displaced.isSome)
    (hstaged : Seen regular failing d b.candidateName staged stagedIdentity)
    (hplaced : (d b.space.targetName = some b.candidate ∧ (d b.candidateName).isSome ∧
        d b.candidateName ≠ some b.candidate) ∨
      (error.isSome ∧ d b.candidateName = some b.candidate)) :
    publicationAfterExchange error.isSome (decide (installedIdentity = some b.candidate))
      (decide (stagedIdentity = some b.candidate)) displaced.isSome ≠ .indeterminate := by
  obtain ⟨htarget, hstaging, haway⟩ | ⟨hfailed, hstaging⟩ := hplaced
  · have hself : ∀ i, some b.candidate = some i → i = b.candidate :=
      fun i hi => (Option.some.inj hi).symm
    have hstagedIs : stagedIdentity ≠ some b.candidate := fun heq =>
      haway (hstaged.recognised hself (decide_eq_true heq)).1
    rw [hinstalled.recognises hnone hregular htarget, hdisplaced hstaging]
    cases error.isSome <;> simp [hstagedIs, publicationAfterExchange]
  · rw [hstaged.recognises hnone hregular hstaging, hfailed]
    cases decide (installedIdentity = some b.candidate) <;> cases displaced.isSome <;>
      simp [publicationAfterExchange]

end Seen

theorem wp_attemptAfterExchange (error : Option IoError) :
    (b.attemptAfterExchange error).Wp (Witnessed b.space.targetName regular failing)
      (fun attempt d' => d' = d ∧ TruthfulReceipt b d attempt ∧
        ((∀ c, ¬ failing c) → regular b.candidate = true →
          (d b.space.targetName = some b.candidate ∧ (d b.candidateName).isSome ∧
              d b.candidateName ≠ some b.candidate) ∨
            (error.isSome ∧ d b.candidateName = some b.candidate) →
          attempt.publication ≠ .indeterminate)) d := by
  rw [attemptAfterExchange, Prog.wp_bind]
  apply (wp_observe b _ _).mono
  rintro installed _ ⟨rfl, hinstalled, hinstalledFound⟩
  rw [Prog.wp_bind]
  apply (wp_observe b _ _).mono
  rintro displaced _ ⟨rfl, hdisplaced, hdisplacedFound⟩
  rw [Prog.wp_bind]
  apply (wp_fileIdentity _).mono
  rintro candidate _ ⟨rfl, hcandidate, hcandidateFound⟩
  rw [Prog.wp_bind]
  apply (wp_observedIdentity _).mono
  rintro installedIdentity _ ⟨rfl, hinstalledIdentity, hinstalledKnown⟩
  rw [Prog.wp_bind]
  apply (wp_observe b _ _).mono
  rintro staged _ ⟨rfl, hstaged, hstagedFound⟩
  rw [Prog.wp_bind]
  apply (wp_observedIdentity _).mono
  rintro stagedIdentity d ⟨rfl, hstagedIdentity, hstagedKnown⟩
  have hseenInstalled : Seen regular failing d b.space.targetName installed installedIdentity :=
    ⟨hinstalled, hinstalledFound, hinstalledIdentity, hinstalledKnown⟩
  have hseenStaged : Seen regular failing d b.candidateName staged stagedIdentity :=
    ⟨hstaged, hstagedFound, hstagedIdentity, hstagedKnown⟩
  refine ⟨rfl, truthfulReceipt_of_seen ?_ hseenInstalled hdisplaced hseenStaged rfl, ?_⟩
  · intro i hi
    cases candidate with
    | error e => cases hi
    | ok j => exact (Option.some.inj hi) ▸ hcandidate j rfl
  · intro hnone hregular hplaced
    obtain rfl : candidate = .ok b.candidate := by
      cases candidate with
      | error e => cases hcandidateFound hnone
      | ok i => rw [hcandidate i rfl]
    exact determinate_of_seen hnone hregular hseenInstalled (hdisplacedFound hnone) hseenStaged
      hplaced

/-- The exchange of the staging name and the target took effect between the two directories. -/
def Exchanged (b : UnixConditionalBackend I) (d d' : Directory String I) : Prop :=
  (d b.candidateName).isSome ∧ (d b.space.targetName).isSome ∧
    d' = d.exchange b.candidateName b.space.targetName

/-- The candidate has one name, which is not the target's. -/
structure CandidateStaged (b : UnixConditionalBackend I) (regular : I → Bool)
    (d : Directory String I) : Prop where
  bound : d b.candidateName = some b.candidate
  only : ∀ name, d name = some b.candidate → name = b.candidateName
  regular : regular b.candidate = true
  apart : b.candidateName ≠ b.space.targetName

namespace CandidateStaged

variable (hstaged : CandidateStaged b regular d)
include hstaged

omit [DecidableEq I] in
theorem target_ne : d b.space.targetName ≠ some b.candidate := fun heq =>
  hstaged.apart (hstaged.only _ heq).symm

omit [DecidableEq I] in
/-- The exchange swaps the two names, so that the candidate shows whether it took effect. -/
theorem exchanged (h : Exchanged b d d') :
    d' b.space.targetName = some b.candidate ∧ d' b.candidateName = d b.space.targetName := by
  obtain ⟨-, -, rfl⟩ := h
  unfold Directory.exchange
  rw [Function.update_self, Function.update_of_ne hstaged.apart, Function.update_self]
  exact ⟨hstaged.bound, rfl⟩

omit [DecidableEq I] in
theorem not_exchanged : ¬ Exchanged b d d := by
  intro h
  exact hstaged.target_ne (hstaged.exchanged h).1

end CandidateStaged

theorem wp_exchange :
    (b.exchange b.candidateName b.space.targetName).Wp
      (Witnessed b.space.targetName regular failing) (fun r d' =>
        (d' = d ∨ Exchanged b d d') ∧ (r = .ok () → Exchanged b d d') ∧
        ∀ error : IoError, r = .error error → error.osCode ≠ some eio → d' = d) d := by
  have hcall : (renameExchange b.candidateName b.space.targetName).Wp
      (Witnessed b.space.targetName regular failing) (fun r d' =>
        (d' = d ∨ Exchanged b d d') ∧ (r = .ok () → Exchanged b d d') ∧
        ∀ error : IoError, r = .error error → error.osCode ≠ some eio → d' = d) d := by
    rintro answer d' ⟨⟨met, rfl, heffect⟩, -⟩
    cases answer with
    | ok _ =>
      obtain ⟨⟨hstaging, htarget⟩, rfl⟩ := heffect
      have htook : Exchanged b met (met.exchange b.candidateName b.space.targetName) :=
        ⟨hstaging, htarget, rfl⟩
      exact ⟨.inr htook, fun _ => htook, by rintro _ ⟨⟩⟩
    | error e =>
      obtain rfl | ⟨hlate, ⟨hstaging, htarget⟩, rfl⟩ := heffect
      · exact ⟨.inl rfl, by rintro ⟨⟩, fun _ _ _ => rfl⟩
      · refine ⟨.inr ⟨hstaging, htarget, rfl⟩, by rintro ⟨⟩, ?_⟩
        rintro _ ⟨⟩ hcode
        exact absurd hlate hcode
  rw [exchange]
  cases b.system with
  | linux => exact hcall
  | macos => exact hcall
  | freebsd => exact ⟨.inl rfl, by rintro ⟨⟩, fun _ _ _ => rfl⟩
  | other => exact ⟨.inl rfl, by rintro ⟨⟩, fun _ _ _ => rfl⟩

/-- What the receipt of a publication over an existing target says about the two directories
    around it. -/
structure ReportsExchange (b : UnixConditionalBackend I)
    (failing : Syscall String I (FileCall I) → Prop) (d d' : Directory String I)
    (attempt : NativeAttempt (EntryAccess I)) : Prop where
  effect : d' = d ∨ Exchanged b d d'
  published : attempt.publication = .published → Exchanged b d d' ∧
    ∃ installed displaced, attempt.installed = some installed ∧
      installed.access.name = b.space.targetName ∧ installed.access.identity = b.candidate ∧
      attempt.displaced = [displaced] ∧ displaced.access.name = b.candidateName ∧
      d b.space.targetName = some displaced.access.identity
  notPublished : attempt.publication = .notPublished → ¬ Exchanged b d d'
  known : attempt.publication = .published ∨ attempt.publication = .notPublished ∨
    attempt.publication = .indeterminate
  decided : (∀ c, ¬ failing c) → attempt.publication ≠ .indeterminate

omit [DecidableEq I] in
/-- A receipt that is true of the directory after the call is one of the call. -/
theorem TruthfulReceipt.reports {attempt : NativeAttempt (EntryAccess I)}
    (htrue : TruthfulReceipt b d' attempt) (hstaged : CandidateStaged b regular d)
    (heffect : d' = d ∨ Exchanged b d d')
    (hdecided : (∀ c, ¬ failing c) → attempt.publication ≠ .indeterminate) :
    ReportsExchange b failing d d' attempt where
  effect := heffect
  published hpublished := by
    obtain ⟨htarget, installed, displaced, hinstalled, hname, hidentity, hdisplaced, hold,
      holdIdentity⟩ := htrue.published hpublished
    have htook : Exchanged b d d' := by
      obtain rfl | htook := heffect
      · exact absurd htarget hstaged.target_ne
      · exact htook
    rw [(hstaged.exchanged htook).2] at holdIdentity
    exact ⟨htook, installed, displaced, hinstalled, hname, hidentity, hdisplaced, hold,
      holdIdentity⟩
  notPublished hnot htook := by
    have hback := htrue.notPublished hnot
    rw [(hstaged.exchanged htook).2] at hback
    exact hstaged.target_ne hback
  known := htrue.known
  decided := hdecided

theorem wp_publishContent (hstaged : CandidateStaged b regular d) :
    b.publishContent.Wp (Witnessed b.space.targetName regular failing)
      (fun r d' => ReportsExchange b failing d d' r.1) d := by
  -- After an exchange that took effect the candidate is the target.
  have hplaced {d' : Directory String I} (htook : Exchanged b d d') :
      d' b.space.targetName = some b.candidate ∧ (d' b.candidateName).isSome ∧
        d' b.candidateName ≠ some b.candidate := by
    obtain ⟨htarget, hstaging⟩ := hstaged.exchanged htook
    rw [hstaging]
    exact ⟨htarget, htook.2.1, hstaged.target_ne⟩
  rw [publishContent, Prog.wp_bind]
  apply wp_exchange.mono
  rintro r d₁ ⟨heffect, hok, hother⟩
  cases r with
  | ok _ =>
    rw [Prog.wp_bind]
    apply (wp_attemptAfterExchange none).mono
    rintro attempt _ ⟨rfl, htrue, hdecided⟩
    exact htrue.reports hstaged heffect fun hnone =>
      hdecided hnone hstaged.regular (.inl (hplaced (hok rfl)))
  | error error =>
    dsimp only
    split
    · rw [Prog.wp_bind]
      apply (wp_attemptAfterExchange (some error)).mono
      rintro attempt _ ⟨rfl, htrue, hdecided⟩
      refine htrue.reports hstaged heffect fun hnone => hdecided hnone hstaged.regular ?_
      obtain rfl | htook := heffect
      · exact .inr ⟨rfl, hstaged.bound⟩
      · exact .inl (hplaced htook)
    · next hcode =>
      obtain rfl := hother error rfl hcode
      exact {
        effect := .inl rfl
        published := by rintro ⟨⟩
        notPublished := fun _ => hstaged.not_exchanged
        known := .inr (.inl rfl)
        decided := by rintro - ⟨⟩ }

/-- Whichever observations fail, the receipt of a publication over an existing target is true. -/
theorem publishContent_truthful (b b' : UnixConditionalBackend I) (regular : I → Bool)
    (failing : Syscall String I (FileCall I) → Prop) (d d' : Directory String I)
    (tr : NativeTrace I) (attempt : NativeAttempt (EntryAccess I))
    (hstaged : CandidateStaged b regular d)
    (h : b.publishContent.RunsIn (Witnessed b.space.targetName regular failing) d tr d'
      (attempt, b')) : ReportsExchange b failing d d' attempt :=
  (wp_publishContent hstaged).runsIn h

/-! ### An exchange that takes effect and reports `EIO` -/

def sampleLookup (d : Directory String Nat) (name : String) : IoResult Nat :=
  match d name with
  | some file => .ok file
  | none => .error ⟨.notFound, "no such file", some 2⟩

def sampleFileAnswer : (o : FileCall Nat) → o.Result
  | .sameContents _ _ => Except.ok true
  | .readAll _ => Except.ok []
  | .cloneParent _ | .adoptReader _ | .copyContents _ _ | .seekStart _ | .flush _ | .syncFile _
  | .syncParent | .preserveMetadata _ _ => Except.ok ()

def sampleExchange (d : Directory String Nat) :
    (c : Syscall String Nat (FileCall Nat)) → c.Result FileCall.Result × Directory String Nat
  | .stat name => ((sampleLookup d name).map (⟨true, ·⟩), d)
  | .openRead name => (sampleLookup d name, d)
  | .fileStat file => (Except.ok ⟨true, file⟩, d)
  | .inert o => (sampleFileAnswer o, d)
  | .renameExchange left right =>
    if (d left).isSome ∧ (d right).isSome then
      (Except.error ⟨.uncategorized, "I/O error", some eio⟩, d.exchange left right)
    else (Except.error ⟨.notFound, "no such file", some 2⟩, d)
  | .createExclusive _ => (Except.error ⟨.permissionDenied, "denied", some 13⟩, d)
  | .rename _ _ => (Except.error ⟨.permissionDenied, "denied", some 13⟩, d)
  | .renameNoReplace _ _ => (Except.error ⟨.permissionDenied, "denied", some 13⟩, d)
  | .link _ _ => (Except.error ⟨.permissionDenied, "denied", some 13⟩, d)
  | .unlink _ => (Except.error ⟨.permissionDenied, "denied", some 13⟩, d)
  | .randomName => (Except.ok ".fresh", d)

theorem sampleExchange_witnessed (d : Directory String Nat)
    (c : Syscall String Nat (FileCall Nat)) :
    Witnessed "target" (fun _ => true) (fun _ => False) d c (sampleExchange d c).1
      (sampleExchange d c).2 := by
  cases c with
  | stat name =>
    dsimp only [sampleExchange, sampleLookup]
    cases hname : d name with
    | some file => exact ⟨⟨d, rfl, rfl, hname, rfl⟩, fun _ _ _ => rfl⟩
    | none => exact ⟨⟨d, rfl, rfl, fun _ => hname⟩, fun _ _ hbound => absurd hname hbound⟩
  | openRead name =>
    dsimp only [sampleExchange, sampleLookup]
    cases hname : d name with
    | some file => exact ⟨⟨d, rfl, rfl, hname⟩, fun _ _ _ => rfl⟩
    | none =>
      refine ⟨⟨d, rfl, rfl⟩, fun _ _ hbound => absurd (fun i hi => ?_) hbound⟩
      rw [hname] at hi
      cases hi
  | renameExchange left right =>
    refine ⟨⟨d, rfl, ?_⟩, by rintro ⟨⟩⟩
    by_cases hbound : (d left).isSome ∧ (d right).isSome
    · have hcall : sampleExchange d (.renameExchange left right) =
          (Except.error ⟨.uncategorized, "I/O error", some eio⟩, d.exchange left right) :=
        if_pos hbound
      rw [hcall]
      exact .inr ⟨rfl, hbound, rfl⟩
    · have hcall : sampleExchange d (.renameExchange left right) =
          (Except.error ⟨.notFound, "no such file", some 2⟩, d) := if_neg hbound
      rw [hcall]
      exact .inl rfl
  | fileStat file => exact ⟨⟨d, rfl, rfl, rfl⟩, fun _ _ _ => rfl⟩
  | inert o =>
    refine ⟨⟨d, rfl, rfl⟩, fun _ _ _ => ?_⟩
    cases o <;> rfl
  | createExclusive name => exact ⟨⟨d, rfl, rfl⟩, by rintro ⟨⟩⟩
  | rename a b => exact ⟨⟨d, rfl, .inl rfl⟩, by rintro ⟨⟩⟩
  | renameNoReplace a b => exact ⟨⟨d, rfl, .inl rfl⟩, by rintro ⟨⟩⟩
  | link a b => exact ⟨⟨d, rfl, .inl rfl⟩, by rintro ⟨⟩⟩
  | unlink a =>
    refine ⟨⟨d, rfl, .inl rfl, ?_⟩, by rintro ⟨⟩⟩
    rintro _ ⟨⟩ habs
    cases habs
  | randomName =>
    have hne : ".fresh" ≠ "target" := by decide
    exact ⟨⟨d, rfl, rfl, hne⟩, fun _ _ _ => rfl⟩

def sampleStaged : UnixConditionalBackend Nat where
  system := .linux
  space := ⟨"target", [], ["dir", "target"], none⟩
  candidateName := ".candidate"
  candidate := 1
  candidateIdentity := 1
  candidateCopyName := none
  candidateCopyIdentity := none
  candidateEntry := ⟨.stagedCandidate, ["dir", ".candidate"], none, ⟨".candidate", 1, none⟩⟩
  candidateGuard := false
  recoveryEntries := []

def sampleNames : Directory String Nat := fun name =>
  if name = ".candidate" then some 1 else if name = "target" then some 0 else none

theorem sampleNames_staged : CandidateStaged sampleStaged (fun _ => true) sampleNames where
  bound := rfl
  only name hname := by
    unfold sampleNames at hname
    split at hname
    · assumption
    · split at hname
      · cases hname
      · cases hname
  regular := rfl
  apart := by decide

/-- The error notwithstanding, the exchange is reported as published, with the old file. -/
theorem publishContent_truthful_eio :
    ReportsExchange sampleStaged (fun _ => False) sampleNames
      (sampleStaged.publishContent.execIn sampleExchange sampleNames).2.1
      (sampleStaged.publishContent.execIn sampleExchange sampleNames).2.2.1 ∧
    (sampleStaged.publishContent.execIn sampleExchange sampleNames).2.2.1.publication =
      .published :=
  ⟨publishContent_truthful sampleStaged
    (sampleStaged.publishContent.execIn sampleExchange sampleNames).2.2.2 (fun _ => true)
    (fun _ => False) sampleNames _ _ _ sampleNames_staged
    (Prog.execIn_runsIn sampleExchange sampleExchange_witnessed _ _), by decide⟩

end UnixConditionalBackend

end LocalFiles.Conditional.Unix
