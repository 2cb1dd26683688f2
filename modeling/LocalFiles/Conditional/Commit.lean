import LocalFiles.Conditional.Backend

/-!
# Commit — `commit_conditional_with_directory` as a program over the backend

The body of the protocol is cut into the pieces its comments name: preparation of the candidate
and its copy, synchronization, precheck, publication, verification, rollback and the final
synchronization.  The mutable variables of the source are the fields of `Locals`; a `return Err`
is `fail`, which leaves them as they stand.
-/

namespace LocalFiles.Conditional

open Interaction

/-! ## 1. Stages, reasons and results -/

inductive LocalConditionalWriteStage where
  | prepare | verifyCandidate | prepareCandidateCopy | verifyCandidateCopy | precheck | publish
  | verifyDisplaced | verifyInstalled | rollbackPrecheck | rollback | verifyRollback | sync
  deriving DecidableEq, Repr

inductive LocalConditionalFailureReason where
  | preconditionMismatch | targetMissing | targetExists | invalidOptions | unsupported
  | invalidState | io | postPublicationConflict
  deriving DecidableEq, Repr

inductive LocalWritePrecondition (δ : Type) where
  | absent
  | content (expected : δ)
  deriving DecidableEq, Repr

structure LocalConditionalCommitError (A : Type) where
  error : LocalFileError
  reason : LocalConditionalFailureReason
  stage : LocalConditionalWriteStage
  publication : LocalConditionalPublicationState
  recoveryFiles : List (LocalRecoveryFile A)
  deriving DecidableEq, Repr

/-- `LocalConditionalCommitError::candidate`. -/
def LocalConditionalCommitError.candidate {A : Type} (e : LocalConditionalCommitError A) :
    Option (LocalRecoveryFile A) :=
  e.recoveryFiles.find? fun file => file.role = .candidateCopy

structure LocalConditionalWriteOutcome (A δ : Type) where
  digest : δ
  writeOutcome : LocalWriteOutcome
  retainedFiles : List (LocalRecoveryFile A)
  cleanupErrors : List LocalFileError
  deriving DecidableEq, Repr

/-- `LocalConditionalWriteOutcome::new`: cleanup errors without a directory get the captured one. -/
def LocalConditionalWriteOutcome.new {A δ : Type} (digest : δ) (writeOutcome : LocalWriteOutcome)
    (retainedFiles : List (LocalRecoveryFile A)) (cleanupErrors : List LocalFileError)
    (currentDirectory : Option Path) : LocalConditionalWriteOutcome A δ where
  digest := digest
  writeOutcome := writeOutcome
  retainedFiles := retainedFiles
  cleanupErrors := cleanupErrors.map fun error =>
    match error.currentDirectory, currentDirectory with
    | none, some directory => error.withCurrentDirectory directory
    | _, _ => error

/-! ## 2. Local variables and exits -/

structure Locals (A : Type) where
  entries : List (ConditionalEntry A) := []
  stage : LocalConditionalWriteStage := .prepare
  publication : LocalConditionalPublicationState := .notPublished
  postPublicationConflict : Bool := false
  publicationAttemptError : Option IoError := none
  publicationMethod : LocalWritePublicationMethod := .atomicRename
  durable : Bool
  fileSynced : Bool := false

abbrev CommitM (A : Type) := Proc (Call A) (Answer A) (Locals A) (LocalConditionalWriteStage × IoError)

section Exits

variable {A α : Type}

def setStage (stage : LocalConditionalWriteStage) : CommitM A Unit :=
  Proc.modify fun s => { s with stage := stage }

def setPublication (publication : LocalConditionalPublicationState) : CommitM A Unit :=
  Proc.modify fun s => { s with publication := publication }

def keep (entries : List (ConditionalEntry A)) : CommitM A Unit :=
  Proc.modify fun s => { s with entries := s.entries ++ entries }

def loseDurability : CommitM A Unit :=
  Proc.modify fun s => { s with durable := false }

def fail (error : IoError) : CommitM A α := do
  let s ← Proc.get
  Proc.exit (s.stage, error)

/-- `.map_err(|error| (stage, error))?` -/
def orFail (p : BackendM A (IoResult α)) : CommitM A α := Proc.attempt p fail

/-- The exit of a publication whose outcome is no longer known: the installed and the displaced
    entries are kept. -/
def abandon (installed : ConditionalEntry A) (displaced : List (ConditionalEntry A))
    (error : IoError) : CommitM A α := do
  keep (installed :: displaced)
  setPublication .indeterminate
  fail error

def orAbandon (installed : ConditionalEntry A) (displaced : List (ConditionalEntry A))
    (p : BackendM A (IoResult α)) : CommitM A α := Proc.attempt p (abandon installed displaced)

end Exits

/-! ## 3. Candidate and candidate copy -/

section Protocol

variable {A δ : Type} [DecidableEq δ] (D : List UInt8 → δ)

/-- `prepare_copy`: a copy that was created but not verified is handed back with the error, under
    the role `stagedCandidate`. -/
def prepareCopy (candidateDigest : δ) :
    BackendM A (Except (IoError × Option (ConditionalEntry A)) (ConditionalEntry A)) := do
  match ← createCandidateCopy with
  | .error error => pure (.error (error, none))
  | .ok created =>
    let copy := created.setRole .stagedCandidate
    match ← checkpoint .candidateCopyCreated with
    | .error error => pure (.error (error, some copy))
    | .ok () =>
      match ← digestEntry D copy with
      | .error error => pure (.error (error, some copy))
      | .ok copiedDigest =>
        if copiedDigest ≠ candidateDigest then
          pure (.error (⟨.invalidData, "candidate copy digest mismatch", none⟩, some copy))
        else
          pure (.ok (copy.setRole .candidateCopy))

def digestCandidate : CommitM A δ := do
  orFail flush
  setStage .verifyCandidate
  let candidate ← Proc.lift candidate
  orFail (digestEntry D candidate)

def registerCopy (candidateDigest : δ) : CommitM A (ConditionalEntry A) := do
  setStage .prepareCandidateCopy
  orFail (checkpoint .prepareCandidateCopy)
  match ← Proc.lift (prepareCopy D candidateDigest) with
  | .error (error, entry) => do
    setStage (if entry.isSome then .verifyCandidateCopy else .prepareCandidateCopy)
    keep entry.toList
    fail error
  | .ok copy => do
    setStage .verifyCandidateCopy
    keep [copy]
    orFail (checkpoint .verifyCandidateCopy)
    pure copy

/-! ## 4. Synchronization before publication -/

def syncRequirement (options : LocalWriteOptions) : LocalFileSyncRequirement :=
  match options.durability, options.fileSync with
  | .required, _ => .required
  | _, .required => .required
  | .preferred, _ => .preferred
  | _, .preferred => .preferred
  | _, _ => .notRequired

/-- What a failed file synchronization before publication costs: the commit when it is required,
    the durability when that is preferred. -/
def settleFileSync (options : LocalWriteOptions) : IoResult Unit → CommitM A Unit
  | .ok () => pure ()
  | .error error =>
    if syncRequirement options = .required then fail error
    else if options.durability = .preferred then loseDurability
    else pure ()

def settleNamespaceSync (options : LocalWriteOptions) : IoResult Unit → CommitM A Unit
  | .ok () => pure ()
  | .error error => if options.durability = .required then fail error else loseDurability

/-- `copy` is `entries[0]`, pushed by `registerCopy`. -/
def syncBeforePublication (options : LocalWriteOptions) (copy : ConditionalEntry A) :
    CommitM A Unit := do
  setStage .sync
  if syncRequirement options = .notRequired then pure ()
  else do
    let sync ← Proc.lift <| (checkpoint .beforeRequiredFileSync).andThen fun _ =>
      syncCandidate.andThen fun _ => syncEntry copy
    settleFileSync options sync
    if options.durability = .notRequired then pure ()
    else do
      let sync ← Proc.lift syncNamespace
      settleNamespaceSync options sync

/-! ## 5. Precheck -/

def preserveTarget (options : LocalWriteOptions) (target : ConditionalEntry A) :
    CommitM A Unit := do
  if options.metadataPolicy = .preserveExisting then do
    orFail (preserveMetadata target)
    if syncRequirement options = .notRequired then pure ()
    else do
      let sync ← Proc.lift syncCandidate
      settleFileSync options sync
  else pure ()

def checkTarget (precondition : LocalWritePrecondition δ) (options : LocalWriteOptions) :
    CommitM A Unit := do
  let observed ← Proc.lift openTarget
  match precondition, observed with
  | .absent, .ok _ => fail ⟨.alreadyExists, "target exists", none⟩
  | .absent, .error error => if error.kind = .notFound then pure () else fail error
  | .content _, .error error => fail error
  | .content expected, .ok target => do
    let actual ← orFail (digestEntry D target)
    if actual ≠ expected then fail ⟨.invalidData, "content precondition mismatch", none⟩
    else preserveTarget options target

def precheck (precondition : LocalWritePrecondition δ) (options : LocalWriteOptions) :
    CommitM A Unit := do
  setStage .precheck
  orFail (checkpoint .precheck)
  checkTarget D precondition options
  orFail (checkpoint .afterPrecheck)
  let candidate ← Proc.lift candidate
  orFail (verifyEntry candidate)

/-! ## 6. Publication -/

def publish (precondition : LocalWritePrecondition δ) : CommitM A (NativeAttempt A) := do
  setStage .publish
  orFail (checkpoint .publish)
  orFail beginPublication
  let attempt ← Proc.lift (match precondition with
    | .absent => publishAbsent
    | .content _ => publishContent)
  Proc.modify fun s =>
    if attempt.publication = .notPublished then s
    else { s with publicationMethod := attempt.publicationMethod }
  pure attempt

def requireInstalled (attempt : NativeAttempt A) : CommitM A (ConditionalEntry A) :=
  match attempt.installed with
  | some installed => pure installed
  | none => do
    keep attempt.displaced
    setPublication .indeterminate
    fail ⟨.invalidData, "backend did not report installed entry", none⟩

/-- What the protocol does with the receipt of the native publication, up to the installed entry
    it goes on with. -/
def acceptAttempt (precondition : LocalWritePrecondition δ) (attempt : NativeAttempt A) :
    CommitM A (ConditionalEntry A) := do
  match ← Proc.lift (checkpoint .afterPublish) with
  | .error error => do
    setPublication attempt.publication
    keep (attempt.installed.toList ++ attempt.displaced)
    fail error
  | .ok () => do
    setPublication attempt.publication
    if precondition ≠ .absent ∧ attempt.publication ≠ .notPublished ∧ attempt.displaced = [] then do
      keep attempt.installed.toList
      setPublication .indeterminate
      fail (attempt.error.getD
        ⟨.invalidData, "content publication did not report the displaced target", none⟩)
    else
      match attempt.error with
      | none => requireInstalled attempt
      | some error =>
        if precondition ≠ .absent ∧ attempt.publication = .published then do
          Proc.modify fun s =>
            { s with publicationAttemptError := some error, postPublicationConflict := true }
          requireInstalled attempt
        else do
          keep ((attempt.installed.map (·.setRole .stagedCandidate)).toList ++ attempt.displaced)
          fail error

/-! ## 7. Verification after publication -/

/-- What a verified displaced entry is kept as: content other than the expected one is a conflict
    and marks the entry. -/
def judgeDisplaced (precondition : LocalWritePrecondition δ) (installed : ConditionalEntry A)
    (verified : List (ConditionalEntry A)) (displaced : ConditionalEntry A) :
    CommitM A (ConditionalEntry A) := do
  match precondition with
  | .absent => pure displaced
  | .content expected => do
    let actual ← orAbandon installed (displaced :: verified) (digestEntry D displaced)
    if actual ≠ expected then do
      Proc.modify fun s => { s with postPublicationConflict := true }
      pure (displaced.setRole .rollbackDisplaced)
    else pure displaced

/-- The loop over the displaced entries; `verified` are those of the earlier iterations. -/
def verifyDisplaced (precondition : LocalWritePrecondition δ) (installed : ConditionalEntry A) :
    List (ConditionalEntry A) → List (ConditionalEntry A) → CommitM A (List (ConditionalEntry A))
  | [], verified => pure verified
  | displaced :: rest, verified => do
    setStage .verifyDisplaced
    orAbandon installed (displaced :: verified)
      ((checkpoint .verifyDisplaced).andThen fun _ => verifyEntry displaced)
    let judged ← judgeDisplaced D precondition installed verified displaced
    verifyDisplaced precondition installed rest (verified ++ [judged])

/-- Identity and content of the installed entry; both must be the candidate's. -/
def verifyInstalled (installed : ConditionalEntry A) (displaced : List (ConditionalEntry A))
    (candidateDigest : δ) : CommitM A Bool := do
  setStage .verifyInstalled
  orAbandon installed displaced (checkpoint .verifyInstalled)
  let candidateIdentity ← orAbandon installed displaced (isCandidate installed)
  let installedDigest ← orAbandon installed displaced (digestEntry D installed)
  let installedValid := candidateIdentity && installedDigest = candidateDigest
  Proc.modify fun s => if installedValid then s else { s with postPublicationConflict := true }
  pure installedValid

/-! ## 8. Rollback of a detected conflict -/

/-- The entries the rollback receipt does not name are looked up once more before they are kept. -/
def keepUnrepresented (receipt : NativeAttempt A) : List (ConditionalEntry A) → CommitM A Unit
  | [] => pure ()
  | entry :: rest => do
    if (receipt.installed.toList ++ receipt.displaced).any
        (·.namespacePath = entry.namespacePath) then
      keepUnrepresented receipt rest
    else do
      match ← Proc.lift (verifyEntry entry) with
      | .error _ => keepUnrepresented receipt rest
      | .ok () => do
        keep [if receipt.displaced = [] then entry.setRole .displaced else entry]
        keepUnrepresented receipt rest

def syncRestored (options : LocalWriteOptions) (restored : ConditionalEntry A) :
    BackendM A (IoResult Unit) :=
  (checkpoint .syncRollback).andThen fun _ => (syncEntry restored).andThen fun _ =>
    if options.durability = .required then syncNamespace else pure (.ok ())

/-- The last part of a rollback that reported the restored entry. -/
def verifyRestored {α : Type} (options : LocalWriteOptions) (oldDigest : δ)
    (restored : ConditionalEntry A) : CommitM A α := do
  setStage .verifyRollback
  match ← Proc.lift ((checkpoint .verifyRollback).andThen fun _ => digestEntry D restored) with
  | .error error => do
    keep [restored]
    setPublication .indeterminate
    fail error
  | .ok restoredDigest => do
    let s ← Proc.get
    if s.publication ≠ .restored ∨ restoredDigest ≠ oldDigest then do
      keep [restored]
      setPublication .indeterminate
      fail ⟨.invalidData, "rollback verification failed", none⟩
    else do
      if options.durability = .required ∨ options.fileSync = .required then do
        setStage .sync
        match ← Proc.lift (syncRestored options restored) with
        | .error error => do
          keep [restored]
          fail error
        | .ok () => do
          keep [restored]
          fail (s.publicationAttemptError.getD
            ⟨.invalidData, "post-publication conflict; prior target restored", none⟩)
      else do
        keep [restored]
        fail (s.publicationAttemptError.getD
          ⟨.invalidData, "post-publication conflict; prior target restored", none⟩)

/-- What the protocol does with the receipt of the native rollback. -/
def acceptRollback {α : Type} (options : LocalWriteOptions) (installed : ConditionalEntry A)
    (displacedEntries : List (ConditionalEntry A)) (oldDigest : δ) (receipt : NativeAttempt A) :
    CommitM A α := do
  setPublication receipt.publication
  match ← Proc.lift (checkpoint .rollbackCompleted) with
  | .error error => do
    keep (receipt.installed.toList ++ receipt.displaced ++ displacedEntries)
    setPublication .indeterminate
    fail error
  | .ok () =>
    match receipt.error with
    | some error => do
      keepUnrepresented receipt displacedEntries
      keep (receipt.installed.map (·.setRole .displaced)).toList
      keep (receipt.displaced.map (·.setRole .rollbackDisplaced))
      fail error
    | none =>
      match receipt.installed with
      | none => do
        keep (installed :: displacedEntries ++ receipt.displaced)
        setPublication .indeterminate
        fail ⟨.invalidData, "rollback did not report restored target", none⟩
      | some restored => do
        keep (receipt.displaced.map (·.setRole .rollbackDisplaced))
        verifyRestored D options oldDigest restored

def rollbackConflict {α : Type} (options : LocalWriteOptions) (installed : ConditionalEntry A)
    (candidateDigest : δ) : List (ConditionalEntry A) → CommitM A α
  | [] => do
    keep [installed]
    fail ⟨.invalidData, "publication verification failed without a displaced entry", none⟩
  | displaced :: others => do
    let orAbandon {β : Type} (p : BackendM A (IoResult β)) : CommitM A β :=
      orAbandon installed (displaced :: others) p
    setStage .rollbackPrecheck
    let oldDigest ← orAbandon (digestEntry D displaced)
    orAbandon (checkpoint .rollbackPrecheck)
    setStage .rollback
    match ← Proc.lift (checkpoint .rollback) with
    | .error error => do
      keep (installed :: displaced :: others)
      fail error
    | .ok () => do
      -- The recheck right before the reverse operation: identity alone misses in-place writes.
      setStage .rollbackPrecheck
      let candidateStillInstalled ← orAbandon (isCandidate installed)
      let currentInstalledDigest ← orAbandon (digestEntry D installed)
      if !candidateStillInstalled || currentInstalledDigest ≠ candidateDigest then
        abandon installed (displaced :: others)
          ⟨.invalidData, "rollback precheck no longer observes the installed candidate", none⟩
      else do
        orAbandon (verifyEntry displaced)
        orAbandon (checkpoint .rollbackValidated)
        setStage .rollback
        let receipt ← Proc.lift (rollback displaced)
        acceptRollback D options installed (displaced :: others) oldDigest receipt

/-! ## 9. Synchronization after publication -/

def syncInstalled (options : LocalWriteOptions) (installed : ConditionalEntry A) :
    CommitM A Unit := do
  if syncRequirement options = .notRequired then pure ()
  else do
    setStage .sync
    match ← Proc.lift ((checkpoint .syncInstalled).andThen fun _ => syncEntry installed) with
    | .ok () => Proc.modify fun s => { s with fileSynced := true }
    | .error error =>
      if syncRequirement options = .required then do
        keep [installed]
        fail error
      else do
        Proc.modify fun s => { s with fileSynced := false }
        if options.durability = .preferred then loseDurability else pure ()

def syncPublishedNamespace (options : LocalWriteOptions) (installed : ConditionalEntry A) :
    CommitM A Unit := do
  match options.durability with
  | .required => do
    setStage .sync
    match ← Proc.lift ((checkpoint .beforeRequiredParentSync).andThen fun _ => syncNamespace) with
    | .ok () => pure ()
    | .error error => do
      keep [installed]
      fail error
  | .preferred => do
    setStage .sync
    match ← Proc.lift syncNamespace with
    | .ok () => pure ()
    | .error _ => loseDurability
  | .notRequired => pure ()

def syncAfterPublication (options : LocalWriteOptions) (installed : ConditionalEntry A) :
    CommitM A Unit := do
  syncInstalled options installed
  syncPublishedNamespace options installed

/-! ## 10. The whole protocol -/

/-- From the publication on: the receipt, the verification and either the rollback or the final
    synchronization. -/
def settlePublication (precondition : LocalWritePrecondition δ) (options : LocalWriteOptions)
    (candidateDigest : δ) (attempt : NativeAttempt A) :
    CommitM A (ConditionalEntry A × δ) := do
  let installed ← acceptAttempt precondition attempt
  let displacedEntries ← verifyDisplaced D precondition installed attempt.displaced []
  let installedValid ← verifyInstalled D installed displacedEntries candidateDigest
  let s ← Proc.get
  if s.postPublicationConflict then
    rollbackConflict D options installed candidateDigest displacedEntries
  else do
    keep displacedEntries
    if installedValid then do
      syncAfterPublication options installed
      pure (installed, candidateDigest)
    else do
      keep [installed]
      fail ⟨.invalidData, "installed candidate verification failed", none⟩

def protocol (precondition : LocalWritePrecondition δ) (options : LocalWriteOptions) :
    CommitM A (ConditionalEntry A × δ) := do
  let candidateDigest ← digestCandidate D
  let copy ← registerCopy D candidateDigest
  syncBeforePublication options copy
  precheck D precondition options
  let attempt ← publish precondition
  settlePublication D precondition options candidateDigest attempt

/-! ## 11. Reports -/

def failureReason (failedStage : LocalConditionalWriteStage) (source : IoError)
    (postPublicationConflict : Bool) : LocalConditionalFailureReason :=
  match failedStage, source.kind with
  | .precheck, .alreadyExists => .targetExists
  | .precheck, .notFound => .targetMissing
  | .precheck, .invalidData => .preconditionMismatch
  | _, .alreadyExists => .targetExists
  | _, _ => if postPublicationConflict then .postPublicationConflict else .io

def reportFailure (failedStage : LocalConditionalWriteStage) (source : IoError) (s : Locals A) :
    BackendM A (LocalConditionalCommitError A) := do
  let taken ← takeRecoveryEntries
  pure {
    error := .fromIo .commit none none source
    reason := failureReason failedStage source s.postPublicationConflict
    stage := failedStage
    publication := s.publication
    recoveryFiles := taken.map (·.intoRecovery) ++ s.entries.map (·.intoRecovery) }

/-- The cleanup loop, with the errors and the retained files of the earlier iterations. -/
def cleanupLoop : List (ConditionalEntry A) → List LocalFileError → List (LocalRecoveryFile A) →
    BackendM A (List LocalFileError × List (LocalRecoveryFile A))
  | [], errors, retained => pure (errors, retained)
  | entry :: rest, errors, retained => do
    let point := if entry.role = .candidateCopy then .cleanupCopy else .cleanupOld
    match ← (checkpoint point).andThen fun _ => (verifyEntry entry).andThen fun _ =>
        removeObserved entry with
    | .ok () => cleanupLoop rest errors retained
    | .error source =>
      cleanupLoop rest
        (errors ++ [.fromIo .cleanup (some entry.namespacePath) none source])
        (retained ++ [entry.intoRecovery])

/-- The stable sort by `role == CandidateCopy`: the copy is removed last. -/
def cleanupOrder (entries : List (ConditionalEntry A)) : List (ConditionalEntry A) :=
  entries.filter (·.role ≠ .candidateCopy) ++ entries.filter (·.role = .candidateCopy)

def cleanupEntries (entries : List (ConditionalEntry A)) :
    BackendM A (List LocalFileError × List (LocalRecoveryFile A)) := do
  let (errors, retained) ← cleanupLoop (cleanupOrder entries) [] []
  let more ← takeCleanupErrors
  pure (errors ++ more, retained)

def finishCleanup (entries : List (ConditionalEntry A)) :
    BackendM A (List LocalFileError × List (LocalRecoveryFile A)) := do
  match ← checkpoint .saveComplete with
  | .ok () => cleanupEntries entries
  | .error source =>
    pure ([.fromIo .cleanup none none source], entries.map (·.intoRecovery))

def syncCleanup (options : LocalWriteOptions) : BackendM A (List LocalFileError) := do
  if options.durability = .notRequired then pure []
  else
    match ← (checkpoint .cleanupSync).andThen fun _ => syncNamespace with
    | .ok () => pure []
    | .error source => pure [.fromIo .commit none none source]

def reportSuccess (options : LocalWriteOptions) (bytesWritten : UInt64)
    (currentDirectory : Option Path) (candidateDigest : δ) (s : Locals A) :
    BackendM A (LocalConditionalWriteOutcome A δ) := do
  let (cleanupErrors, retainedFiles) ← finishCleanup s.entries
  let syncErrors ← syncCleanup options
  let outcome : LocalWriteOutcome := {
    state := .committed
    atomic := true
    publicationMethod := s.publicationMethod
    durable := s.durable
    fileSynced := s.fileSynced
    bytesWritten := bytesWritten
    failureState := none }
  pure (.new candidateDigest outcome retainedFiles (cleanupErrors ++ syncErrors) currentDirectory)

def Locals.start (options : LocalWriteOptions) : Locals A where
  durable := options.durability ≠ .notRequired

def commitConditionalWithDirectory (precondition : LocalWritePrecondition δ)
    (options : LocalWriteOptions) (bytesWritten : UInt64) (currentDirectory : Option Path) :
    BackendM A (Except (LocalConditionalCommitError A) (LocalConditionalWriteOutcome A δ)) := do
  match ← protocol D precondition options (.start options) with
  | (.error (failedStage, source), s) => return .error (← reportFailure failedStage source s)
  | (.ok (_, candidateDigest), s) =>
    return .ok (← reportSuccess options bytesWritten currentDirectory candidateDigest s)

end Protocol

end LocalFiles.Conditional
