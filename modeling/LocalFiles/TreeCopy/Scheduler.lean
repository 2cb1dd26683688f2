import LocalFiles.TreeCopy.Report
import LocalFiles.History
import LocalFiles.Walk.Walker

/-!
# Scheduler — the traversal that both copy pipelines share

`copy_tree` keeps a stack of directory frames; the head of the list is the top of the stack.  The
backend reads, copies and finishes; the scheduler alone changes the stack and charges the entries.
-/

namespace LocalFiles.TreeCopy

open Interaction Walk

/-! ## 1. The budget of a copy -/

variable [QubitBudget]

/-- The whole budget, where `CopyBudget` is the part that the copy of bytes reads. -/
structure CopyTreeBudget extends CopyBudget where
  entries : Option ResourceBudget
  openDirectories : Option ManagedResourcePool
  maxDepth : Option Nat

namespace CopyTreeBudget

/-- `now` is the time of the call; it counts where the options name no start. -/
def new (options : LocalCopyDirOptions) (now : Nat) : CopyTreeBudget where
  bytes := options.maxBytes.map fun limit => .new .copiedBytes limit.toNat
  deadline := options.deadline.map fun duration => (options.startedAt.getD now, duration)
  resource budget h := by
    obtain ⟨limit, -, rfl⟩ := Option.map_eq_some_iff.mp h
    exact ResourceBudget.resource_new _ _
  inRange budget h := by
    obtain ⟨limit, -, rfl⟩ := Option.map_eq_some_iff.mp h
    rw [ResourceBudget.remaining_new]
    exact Nat.le_sub_one_of_lt limit.toNat_lt
  entries := options.maxEntries.map (.new .entry)
  openDirectories := options.maxOpenDirectories.map (.new .openDirectory)
  maxDepth := options.maxDepth

variable (budget : CopyTreeBudget)

def checkDepth (depth : Nat) : Except CopyError Unit :=
  match budget.maxDepth with
  | none => .ok ()
  | some limit => if limit < depth then .error (.limit (.new .depth limit 0 depth)) else .ok ()

def chargeEntry : Except CopyError CopyTreeBudget :=
  match budget.entries with
  | none => .ok budget
  | some entries =>
    match entries.tryConsume 1 with
    | .ok entries => .ok { budget with entries := some entries }
    | .error error => .error (.limit error)

/-- The permit is held by whoever gets the new budget. -/
def acquireDirectory : Except CopyError CopyTreeBudget :=
  match budget.openDirectories with
  | none => .ok budget
  | some pool =>
    match pool.tryAcquire with
    | .ok pool => .ok { budget with openDirectories := some pool }
    | .error error => .error (.limit error)

/-- A permit is dropped. -/
def releaseDirectory : CopyTreeBudget :=
  { budget with openDirectories := budget.openDirectories.map (·.release 1) }

/-- What `copy` of `n` bytes takes from the budget. -/
def chargeCopied (n : Nat) : Except CopyError CopyTreeBudget :=
  match budget.toCopyBudget.chargeBytes n with
  | .ok charged => .ok { budget with toCopyBudget := charged }
  | .error error => .error error

variable {budget} {budget' : CopyTreeBudget}

theorem checkDepth_ok {depth : Nat} (h : budget.checkDepth depth = .ok ()) :
    ∀ limit ∈ budget.maxDepth, depth ≤ limit := by
  intro limit hlimit
  unfold checkDepth at h
  rw [Option.mem_def.mp hlimit] at h
  dsimp only at h
  split at h
  · cases h
  next hle => exact Nat.le_of_not_lt hle

theorem chargeEntry_ok (h : budget.chargeEntry = .ok budget') :
    budget'.toCopyBudget = budget.toCopyBudget ∧ budget'.openDirectories = budget.openDirectories ∧
      budget'.maxDepth = budget.maxDepth ∧ (budget.entries = none → budget'.entries = none) ∧
      ∀ entries ∈ budget.entries, ∃ charged ∈ budget'.entries,
        charged.remaining + 1 = entries.remaining := by
  unfold chargeEntry at h
  split at h
  next hnone =>
    cases h
    refine ⟨rfl, rfl, rfl, id, fun entries hentries => ?_⟩
    rw [hnone] at hentries
    cases hentries
  next entries hsome =>
    split at h
    next charged hcharged =>
      cases h
      have hconsumed := ResourceBudget.tryConsume_ok hcharged
      refine ⟨rfl, rfl, rfl, fun hnone => ?_, fun entries' hentries => ?_⟩
      · rw [hsome] at hnone
        cases hnone
      · rw [hsome] at hentries
        cases hentries
        refine ⟨charged, rfl, ?_⟩
        rw [hconsumed.remaining]
        exact Nat.sub_add_cancel hconsumed.fits
    next => cases h

theorem acquireDirectory_ok (h : budget.acquireDirectory = .ok budget') :
    budget'.toCopyBudget = budget.toCopyBudget ∧ budget'.entries = budget.entries ∧
      budget'.maxDepth = budget.maxDepth ∧ ∀ pool ∈ budget.openDirectories,
        pool.held < pool.limit ∧ ∃ pool' ∈ budget'.openDirectories,
          pool'.limit = pool.limit ∧ pool'.held = pool.held + 1 := by
  unfold acquireDirectory at h
  split at h
  next hnone =>
    cases h
    refine ⟨rfl, rfl, rfl, fun pool hpool => ?_⟩
    rw [hnone] at hpool
    cases hpool
  next pool hsome =>
    split at h
    next pool' hacquired =>
      cases h
      obtain ⟨hlt, hlimit, hheld⟩ := ManagedResourcePool.tryAcquire_ok hacquired
      refine ⟨rfl, rfl, rfl, fun other hother => ?_⟩
      rw [hsome] at hother
      cases hother
      exact ⟨hlt, pool', rfl, hlimit, hheld⟩
    next => cases h

theorem chargeCopied_ok {n : Nat} (h : budget.chargeCopied n = .ok budget') :
    budget'.entries = budget.entries ∧ budget'.openDirectories = budget.openDirectories ∧
      budget'.maxDepth = budget.maxDepth ∧ ∀ bytes ∈ budget.bytes, ∃ charged ∈ budget'.bytes,
        charged.remaining + n = bytes.remaining := by
  unfold chargeCopied at h
  split at h
  next charged hcharged =>
    cases h
    refine ⟨rfl, rfl, rfl, fun bytes hbytes => ?_⟩
    unfold CopyBudget.chargeBytes at hcharged
    split at hcharged
    next hnone =>
      have hsome := Option.mem_def.mp hbytes
      rw [hnone] at hsome
      cases hsome
    next bytes' hsome =>
      split at hcharged
      next charged' hconsume =>
        cases hcharged
        have hconsumed := ResourceBudget.tryConsume_ok hconsume
        obtain rfl : bytes' = bytes := Option.some.inj (hsome.symm.trans hbytes)
        refine ⟨charged', rfl, ?_⟩
        rw [hconsumed.remaining]
        exact Nat.sub_add_cancel hconsumed.fits
      next => cases hcharged
  · cases h

end CopyTreeBudget

/-! ## 2. Backends -/

structure CopyTreeFrameContext where
  source : Path
  destination : Path
  depth : Nat
  deriving DecidableEq, Repr

/-- The local variables of a copy; `backend` is what the backend keeps for itself. -/
structure TreeLocals (B : Type) where
  stats : LocalCopyDirStats := {}
  budget : CopyTreeBudget
  backend : B

/-- An exit without a result stands for a run that is longer than the bound considered. -/
abbrev TreeM (C : Type) (R : C → Type) (B α : Type) :=
  Proc.Recorded C R (TreeLocals B) (Option LocalCopyDirError) α

variable {C : Type} {R : C → Type} {B Frame Entry α : Type}

def copyDirError (stage : LocalCopyDirStage) (source destination : Path)
    (stats : LocalCopyDirStats) (error : CopyError) : LocalCopyDirError where
  stage := stage
  sourcePath := source
  destinationPath := destination
  stats := stats
  error := error

/-- The failure is reported with the statistics so far, as `adjust` completes it. -/
def failAs (adjust : LocalCopyDirError → LocalCopyDirError) (stage : LocalCopyDirStage)
    (source destination : Path) (error : CopyError) : TreeM C R B α := do
  let s ← Proc.get
  Proc.exit (some (adjust (copyDirError stage source destination s.stats error)))

def fail (stage : LocalCopyDirStage) (source destination : Path) (error : CopyError) :
    TreeM C R B α :=
  failAs id stage source destination error

/-- `with_copy_context` -/
def withCopyContext (result : Except CopyError α) (stage : LocalCopyDirStage)
    (source destination : Path) : TreeM C R B α :=
  match result with
  | .ok a => pure a
  | .error error => fail stage source destination error

structure CopyTreeBackend (C : Type) (R : C → Type) (B Frame Entry : Type) where
  now : TreeM C R B Nat
  frameContext : Frame → CopyTreeFrameContext
  nextEntry : Frame → TreeM C R B (Option Entry)
  childContext : CopyTreeFrameContext → Entry → CopyTreeFrameContext
  processEntry : Entry → CopyTreeFrameContext → TreeM C R B (Option Frame)
  finishFrame : Frame → TreeM C R B Unit

/-- The clock is not read where no deadline is set. -/
def checkDeadline (now : TreeM C R B Nat) : TreeM C R B (Except CopyError Unit) := do
  let s ← Proc.get
  match s.budget.deadline with
  | none => pure (.ok ())
  | some deadline => do
    let time ← now
    if CopyBudget.late (some deadline) time then pure (.error CopyBudget.timedOut)
    else pure (.ok ())

/-! ## 3. The scheduler -/

variable (backend : CopyTreeBackend C R B Frame Entry)

/-- One turn with the frame on top.  Without an entry the frame is finished; an entry is completed
    or opens a frame of its own. -/
def copyTreeTurn (frame : Frame) : TreeM C R B (Option (Option Frame)) := do
  let current := backend.frameContext frame
  let inTime ← checkDeadline backend.now
  withCopyContext inTime .readSourceDirectory current.source current.destination
  match ← backend.nextEntry frame with
  | none => do
    let inTime ← checkDeadline backend.now
    withCopyContext inTime .preservePermissions current.source current.destination
    backend.finishFrame frame
    pure none
  | some entry => do
    let child := backend.childContext current entry
    let s ← Proc.get
    withCopyContext (s.budget.checkDepth child.depth) .inspectSourceEntry child.source
      child.destination
    let budget ← withCopyContext s.budget.chargeEntry .updateStatistics child.source
      child.destination
    Proc.modify fun s => { s with budget := budget }
    let frame ← backend.processEntry entry child
    pure (some frame)

/-- For at most `bound` turns. -/
def copyTree : Nat → List Frame → TreeM C R B Unit
  | _, [] => pure ()
  | 0, _ :: _ => Proc.exit none
  | bound + 1, frame :: frames => do
    match ← copyTreeTurn backend frame with
    | none => copyTree bound frames
    | some none => copyTree bound (frame :: frames)
    | some (some child) => copyTree bound (child :: frame :: frames)

/-- The stack after a turn with this result. -/
def stackAfter (frame : Frame) (frames : List Frame) : Option (Option Frame) → List Frame
  | none => frames
  | some none => frame :: frames
  | some (some child) => child :: frame :: frames

/-! ## 4. Rules -/

/-- The calls of a copy so far. -/
abbrev Past (C : Type) (R : C → Type) (B : Type) := Proc.History C R (TreeLocals B)

section Rules

variable {D : Proc.Discipline C R (TreeLocals B)}
  {leave : Option LocalCopyDirError → Past C R B → TreeLocals B → Prop} {backend}

/-- What every turn preserves, the traversal preserves; the invariant may speak about the stack
    and about the turns that are left. -/
theorem upholds_copyTree (Inv : Nat → List Frame → Past C R B → TreeLocals B → Prop)
    {post : Unit → Past C R B → TreeLocals B → Prop}
    (hturn : ∀ bound frame frames, Proc.Upholds D (Inv (bound + 1) (frame :: frames))
      (copyTreeTurn backend frame) (fun r => Inv bound (stackAfter frame frames r)) leave)
    (hend : ∀ bound past s, Inv bound [] past s → post () past s)
    (hbound : ∀ frame frames past s, Inv 0 (frame :: frames) past s → leave none past s)
    (bound : Nat) (frames : List Frame) :
    Proc.Upholds D (Inv bound frames) (copyTree backend bound frames) post leave := by
  induction bound generalizing frames with
  | zero =>
    cases frames with
    | nil => exact .pure (hend 0)
    | cons frame frames => exact .exit (hbound frame frames)
  | succ bound ih =>
    cases frames with
    | nil => exact .pure (hend (bound + 1))
    | cons frame frames =>
      refine .bind (hturn bound frame frames) fun r => ?_
      rcases r with _ | _ | child
      · exact ih frames
      · exact ih (frame :: frames)
      · exact ih (child :: frame :: frames)

theorem upholds_checkDeadline {P : Past C R B → TreeLocals B → Prop} {now : TreeM C R B Nat}
    (hnow : Proc.Upholds D P now (fun _ => P) leave) :
    Proc.Upholds D P (checkDeadline now) (fun _ => P) leave := by
  refine .get fun s => ?_
  split
  · exact .pure fun _ _ hs => hs.1
  · refine .bind (hnow.before fun _ _ hs => hs.1) fun time => ?_
    split
    · exact .pure fun _ _ hs => hs
    · exact .pure fun _ _ hs => hs

end Rules

end LocalFiles.TreeCopy
