import LocalFiles.History
import LocalFiles.QubitBudget

/-!
# DeleteTree — recursive deletion

`remove_directory_tree` removes a directory with everything below it, without following links.
A stack of work items stands for the recursion; the budget counts the entries found and the bytes
of the paths that wait on the stack.
-/

namespace LocalFiles.Delete

open Interaction

/-! ## 1. Backend, options and budget -/

/-- The part of a backend that needs no native call: the path of a coordinate for diagnostics,
    the length of its native encoding, and what metadata says about the type. -/
structure DeleteBackend (P M : Type) where
  path : P → Path
  encodedLen : P → UInt64
  isDirectory : M → Bool

abbrev DeleteBackend.len {P M : Type} (B : DeleteBackend P M) (path : P) : Nat :=
  (B.encodedLen path).toNat

/-- An `io::Error`, which may carry the facts of an exhausted budget. -/
inductive DeleteSource where
  | io (error : IoError)
  | limit (error : LocalResourceLimitError)
  deriving DecidableEq, Repr

inductive DeleteCall (P M R : Type) where
  | metadata (path : P)
  | openDirectory (path : P)
  | nextChild (parent : P) (reader : R)
  | removeNonDirectory (path : P) (metadata : M)
  | removeEmptyDirectory (path : P)
  | beforeRemove (path : P)
  | elapsed
  | discover (depth : Nat)
  deriving DecidableEq, Repr

/-- `next_child` also changes the reader it borrows.  `discover` has no answer: the call to the
    budget is only recorded. -/
def DeleteCall.Result {P M R : Type} : DeleteCall P M R → Type
  | .metadata _ => Except DeleteSource M
  | .openDirectory _ => Except DeleteSource R
  | .nextChild _ _ => Except DeleteSource (Option P) × R
  | .removeNonDirectory _ _ => Except DeleteSource Unit
  | .removeEmptyDirectory _ => Except DeleteSource Unit
  | .beforeRemove _ => Except DeleteSource Unit
  | .elapsed => Nat
  | .discover _ => Unit

structure LocalDeleteOptions where
  maxDepth : Option Nat := none
  maxEntries : Option Nat := none
  maxPendingPathBytes : Option UInt64 := none
  deadline : Option Nat := none
  deriving DecidableEq, Repr

structure DeleteBudget [QubitBudget] where
  options : LocalDeleteOptions
  entries : Option ResourceBudget
  pendingBytes : Nat

namespace DeleteBudget

variable [QubitBudget]

def new (options : LocalDeleteOptions) : DeleteBudget where
  options := options
  entries := options.maxEntries.map (ResourceBudget.new .entry)
  pendingBytes := 0

variable (budget : DeleteBudget)

def timedOut : DeleteSource := .io ⟨.timedOut, "recursive deletion deadline exceeded", none⟩

/-- `discover` behind its deadline check. -/
def charge (depth : Nat) : Except DeleteSource DeleteBudget :=
  match budget.options.maxDepth.filter (· < depth) with
  | some limit => .error (.limit (.new .depth limit 0 depth))
  | none =>
    match budget.entries with
    | none => .ok budget
    | some entries => do
      let entries ← (entries.tryConsume 1).mapError .limit
      return { budget with entries := some entries }

def pendingLimit (options : LocalDeleteOptions) : Nat :=
  (options.maxPendingPathBytes.map UInt64.toNat).getD usizeMax

def reservePath (requested : Nat) : Except (Halt DeleteSource) DeleteBudget :=
  let limit := pendingLimit budget.options
  let remaining := limit - budget.pendingBytes
  if requested > remaining then
    .error (.error (.limit (.new .pendingPathBytes limit remaining requested)))
  else if usizeMax < budget.pendingBytes + requested then
    .error (.panic "attempt to add with overflow")
  else .ok { budget with pendingBytes := budget.pendingBytes + requested }

/-- The only failure is a panic. -/
def releasePath (released : Nat) : Except String DeleteBudget :=
  if budget.pendingBytes < released then .error "attempt to subtract with overflow"
  else .ok { budget with pendingBytes := budget.pendingBytes - released }

end DeleteBudget

/-! ## 2. The algorithm -/

inductive DeleteWork (P : Type) where
  | inspect (path : P)
  | removeDirectory (path : P)
  deriving DecidableEq, Repr

def DeleteWork.path {P : Type} : DeleteWork P → P
  | .inspect path => path
  | .removeDirectory path => path

/-- The local variables; the head of `work` is the end of the vector. -/
structure Locals [QubitBudget] (P : Type) where
  budget : DeleteBudget
  work : List (DeleteWork P × Nat) := []
  changed : Bool := false

/-- An exit without a result stands for a run that is longer than the bound considered. -/
abbrev DeleteM [QubitBudget] (P M R α : Type) :=
  Proc.Recorded (DeleteCall P M R) DeleteCall.Result (Locals P) (Option (Halt LocalFileError)) α

section Algorithm

variable [QubitBudget] {P M R α : Type} (B : DeleteBackend P M)

def directoryMutationError (path : Path) (changed : Bool) (source : DeleteSource) :
    LocalFileError :=
  let error : LocalFileError := match source with
    | .io error => .fromIo .deleteDirectory (some path) none error
    | .limit error => .fromResourceLimit .deleteDirectory (some path) error
  if changed then
    { error with effectState := some .partiallyApplied, kind := .publicationIncomplete }
  else error

/-- The closures `fail` and `fail_during_removal`, which differ in the state of a tree that was
    not changed before. -/
def failure (path : P) (changed : Bool) (source : DeleteSource) (state : LocalFileEffectState) :
    LocalFileError :=
  let error := directoryMutationError (B.path path) changed source
  if changed then error else { error with effectState := some state }

def orFail (state : LocalFileEffectState) (path : P) :
    Except DeleteSource α → DeleteM P M R α
  | .ok a => pure a
  | .error source => do
    let s ← Proc.get
    Proc.exit (some (.error (failure B path s.changed source state)))

def call (c : DeleteCall P M R) : DeleteM P M R (DeleteCall.Result c) := Proc.ask c
def elapsed : DeleteM P M R Nat := call .elapsed
def recordDiscover (depth : Nat) : DeleteM P M R Unit := call (.discover depth)
def metadata (path : P) : DeleteM P M R (Except DeleteSource M) := call (.metadata path)
def openDirectory (path : P) : DeleteM P M R (Except DeleteSource R) := call (.openDirectory path)
def nextChild (parent : P) (reader : R) :
    DeleteM P M R (Except DeleteSource (Option P) × R) := call (.nextChild parent reader)
def beforeRemove (path : P) : DeleteM P M R (Except DeleteSource Unit) := call (.beforeRemove path)
def removeNonDirectory (path : P) (metadata : M) : DeleteM P M R (Except DeleteSource Unit) :=
  call (.removeNonDirectory path metadata)
def removeEmptyDirectory (path : P) : DeleteM P M R (Except DeleteSource Unit) :=
  call (.removeEmptyDirectory path)

def checkDeadline : DeleteM P M R (Except DeleteSource Unit) := do
  let s ← Proc.get
  match s.budget.options.deadline with
  | none => pure (.ok ())
  | some limit =>
    let elapsed ← elapsed
    if limit ≤ elapsed then pure (.error DeleteBudget.timedOut) else pure (.ok ())

def setBudget (budget : DeleteBudget) : DeleteM P M R Unit :=
  Proc.modify fun s => { s with budget := budget }

def discover (depth : Nat) : DeleteM P M R (Except DeleteSource Unit) := do
  recordDiscover depth
  match ← checkDeadline with
  | .error source => pure (.error source)
  | .ok () =>
    let s ← Proc.get
    match s.budget.charge depth with
    | .error source => pure (.error source)
    | .ok budget => do
      setBudget budget
      pure (.ok ())

def reservePath (path : P) : DeleteM P M R (Except DeleteSource Unit) := do
  let s ← Proc.get
  match s.budget.reservePath (B.len path) with
  | .error (.error source) => pure (.error source)
  | .error (.panic message) => Proc.exit (some (.panic message))
  | .ok budget => do
    setBudget budget
    pure (.ok ())

def releasePath (path : P) : DeleteM P M R Unit := do
  let s ← Proc.get
  match s.budget.releasePath (B.len path) with
  | .error message => Proc.exit (some (.panic message))
  | .ok budget => setBudget budget

/-- `discover` and then `reserve_path`, as every new item needs them. -/
def registerEntry (path : P) (depth : Nat) : DeleteM P M R (Except DeleteSource Unit) := do
  match ← discover depth with
  | .error source => pure (.error source)
  | .ok () => reservePath B path

def push (item : DeleteWork P × Nat) : DeleteM P M R Unit :=
  Proc.modify fun s => { s with work := item :: s.work }

def pop : DeleteM P M R (Option (DeleteWork P × Nat)) := do
  let s ← Proc.get
  match s.work with
  | [] => pure none
  | item :: rest => do
    Proc.modify fun s => { s with work := rest }
    pure (some item)

/-- `work[start..].reverse()` -/
def reverseFrom (start : Nat) : DeleteM P M R Unit :=
  Proc.modify fun s =>
    let batch := s.work.length - start
    { s with work := (s.work.take batch).reverse ++ s.work.drop batch }

def setChanged : DeleteM P M R Unit := Proc.modify fun s => { s with changed := true }

/-- The inner loop, for at most `bound` children. -/
def readChildren : Nat → P → R → Nat → DeleteM P M R Unit
  | 0, _, _, _ => Proc.exit none
  | bound + 1, path, reader, depth => do
    orFail B .unchanged path (← checkDeadline)
    let (answer, reader) ← nextChild path reader
    match ← orFail B .unchanged path answer with
    | none => pure ()
    | some child => do
      orFail B .unchanged child (← registerEntry B child (depth + 1))
      push (.inspect child, depth + 1)
      readChildren bound path reader depth

def inspectDirectory (bound : Nat) (path : P) (depth : Nat) : DeleteM P M R Unit := do
  orFail B .unchanged path (← checkDeadline)
  let reader ← orFail B .unchanged path (← openDirectory path)
  orFail B .unchanged path (← reservePath B path)
  push (.removeDirectory path, depth)
  let s ← Proc.get
  readChildren B bound path reader depth
  reverseFrom s.work.length

def inspectNonDirectory (path : P) (metadata : M) : DeleteM P M R Unit := do
  orFail B .unchanged path (← checkDeadline)
  orFail B .unchanged path (← beforeRemove path)
  orFail B .indeterminate path (← removeNonDirectory path metadata)
  setChanged

def notADirectory : DeleteSource := .io ⟨.notADirectory, "not a directory", none⟩

def inspect (bound : Nat) (path : P) (depth : Nat) : DeleteM P M R Unit := do
  let metadata ← orFail B .unchanged path (← metadata path)
  let isDirectory := B.isDirectory metadata
  if depth = 0 && !isDirectory then orFail B .unchanged path (.error notADirectory)
  else if isDirectory then inspectDirectory B bound path depth
  else inspectNonDirectory B path metadata

def removeDirectory (path : P) : DeleteM P M R Unit := do
  orFail B .unchanged path (← beforeRemove path)
  orFail B .indeterminate path (← removeEmptyDirectory path)
  setChanged

def process (bound : Nat) (item : DeleteWork P) (depth : Nat) : DeleteM P M R Unit := do
  releasePath B item.path
  orFail B .unchanged item.path (← checkDeadline)
  match item with
  | .inspect path => inspect B bound path depth
  | .removeDirectory path => removeDirectory B path

/-- The outer loop, for at most so many items. -/
def workLoop (bound : Nat) : Nat → DeleteM P M R Unit
  | 0 => Proc.exit none
  | items + 1 => do
    match ← pop with
    | none => pure ()
    | some (item, depth) => do
      process B bound item depth
      workLoop bound items

/-- `bound` limits the children of a directory and the items processed in the runs considered. -/
def removeDirectoryTree (bound : Nat) (root : P) : DeleteM P M R Unit := do
  orFail B .unchanged root (← registerEntry B root 0)
  push (.inspect root, 0)
  workLoop B bound bound

def start (options : LocalDeleteOptions) : Locals P where
  budget := .new options

end Algorithm

/-! ## 3. The accounting -/

section Accounting

variable {P M R α : Type} (B : DeleteBackend P M)

def weight (work : List (DeleteWork P × Nat)) : Nat :=
  (work.map fun item => B.len item.1.path).sum

@[simp] theorem weight_nil : weight B [] = 0 := rfl

@[simp] theorem weight_cons (item : DeleteWork P × Nat) (work : List (DeleteWork P × Nat)) :
    weight B (item :: work) = B.len item.1.path + weight B work := by
  unfold weight
  rw [List.map_cons, List.sum_cons]

theorem weight_append (work more : List (DeleteWork P × Nat)) :
    weight B (work ++ more) = weight B work + weight B more := by
  unfold weight
  rw [List.map_append, List.sum_append_nat]

theorem weight_reverse_top (work : List (DeleteWork P × Nat)) (n : Nat) :
    weight B ((work.take n).reverse ++ work.drop n) = weight B work := by
  have hperm : ((work.take n).reverse ++ work.drop n).Perm work := by
    have hcut := (List.reverse_perm (work.take n)).append_right (work.drop n)
    rwa [List.take_append_drop] at hcut
  exact (hperm.map _).sum_nat

theorem pendingLimit_le (options : LocalDeleteOptions) :
    DeleteBudget.pendingLimit options ≤ usizeMax := by
  unfold DeleteBudget.pendingLimit
  cases options.maxPendingPathBytes with
  | none => exact Nat.le_refl _
  | some limit =>
    have hlt := UInt64.toNat_lt limit
    show limit.toNat ≤ 2 ^ 64 - 1
    omega

variable [QubitBudget]

/-- The counter is the weight of the stack and `extra` bytes more, and within the limit. -/
structure Accounted (extra : Nat) (s : Locals P) : Prop where
  pending : s.budget.pendingBytes = weight B s.work + extra
  bounded : s.budget.pendingBytes ≤ DeleteBudget.pendingLimit s.budget.options

/-- What may end a run early. -/
def NoPanic : Option (Halt LocalFileError) → Prop
  | some (.panic _) => False
  | _ => True

theorem charge_ok {budget budget' : DeleteBudget} {depth : Nat}
    (h : budget.charge depth = .ok budget') :
    budget'.pendingBytes = budget.pendingBytes ∧ budget'.options = budget.options := by
  unfold DeleteBudget.charge at h
  split at h
  · cases h
  · split at h
    · cases h
      exact ⟨rfl, rfl⟩
    · rename_i entries _
      cases hentries : entries.tryConsume 1 with
      | error e => rw [hentries] at h; cases h
      | ok entries' =>
        rw [hentries] at h
        cases h
        exact ⟨rfl, rfl⟩

/-- A reservation adds what was asked for; it never fails for an overflow. -/
theorem reservePath_spec {budget : DeleteBudget} (requested : Nat)
    (h : budget.pendingBytes ≤ DeleteBudget.pendingLimit budget.options) :
    (∀ budget', budget.reservePath requested = .ok budget' →
      budget' = { budget with pendingBytes := budget.pendingBytes + requested } ∧
      budget.pendingBytes + requested ≤ DeleteBudget.pendingLimit budget.options) ∧
    ∀ message, budget.reservePath requested ≠ .error (.panic message) := by
  have hlimit := pendingLimit_le budget.options
  unfold DeleteBudget.reservePath
  dsimp only
  split
  · constructor
    · rintro _ ⟨⟩
    · rintro _ ⟨⟩
  · rw [if_neg (by omega)]
    constructor
    · rintro _ ⟨⟩
      exact ⟨rfl, by omega⟩
    · rintro _ ⟨⟩

/-- Triples whose invariant is that the counter is the weight of the stack. -/
abbrev Keeps (pre : Locals P → Prop) (t : DeleteM P M R α) (post : α → Locals P → Prop) : Prop :=
  Proc.Safe (Accounted B 0) NoPanic pre t post

variable {B}

theorem keeps_call (c : DeleteCall P M R) :
    Keeps B (Accounted B 0) (call c) fun _ => Accounted B 0 :=
  .ask fun _ hs => ⟨hs, fun _ => hs⟩

theorem keeps_checkDeadline :
    Keeps (R := R) (M := M) B (Accounted B 0) checkDeadline fun _ => Accounted B 0 := by
  apply Proc.Safe.get
  intro s
  split
  · exact .pure fun _ hs => hs.1
  · refine .bind ((keeps_call _).weaken (fun _ hs => hs.1) fun _ _ hs => hs) fun elapsed => ?_
    split
    · exact .pure fun _ hs => hs
    · exact .pure fun _ hs => hs

theorem keeps_discover (depth : Nat) :
    Keeps (R := R) (M := M) B (Accounted B 0) (discover depth) fun _ => Accounted B 0 := by
  refine .bind (keeps_call _) fun _ => .bind keeps_checkDeadline fun result => ?_
  split
  · exact .pure fun _ hs => hs
  · apply Proc.Safe.get
    intro s
    split
    · exact .pure fun _ hs => hs.1
    · rename_i budget hcharge
      refine .modify_bind (Accounted B 0) ?_ (.pure fun _ hs => hs)
      rintro _ ⟨hs, rfl⟩
      obtain ⟨hpending, hoptions⟩ := charge_ok hcharge
      exact ⟨by rw [hpending, hs.pending], by rw [hpending, hoptions]; exact hs.bounded⟩

/-- After a reservation the counter is ahead of the stack by the path, until it is pushed. -/
def Reserved (path : P) (result : Except DeleteSource Unit) (s : Locals P) : Prop :=
  match result with
  | .ok () => Accounted B (B.len path) s
  | .error _ => Accounted B 0 s

theorem keeps_reservePath (path : P) :
    Keeps (R := R) (M := M) B (Accounted B 0) (reservePath B path) (Reserved (B := B) path) := by
  apply Proc.Safe.get
  intro s
  by_cases hs : Accounted B 0 s
  · obtain ⟨hok, hpanic⟩ := reservePath_spec (B.len path) hs.bounded
    split
    · exact .pure fun _ h => h.1
    · rename_i message h
      exact absurd h (hpanic message)
    · rename_i budget h
      obtain ⟨rfl, hbound⟩ := hok budget h
      refine .modify_bind (Accounted B (B.len path)) ?_ (.pure fun _ hs => hs)
      rintro s' ⟨-, rfl⟩
      refine ⟨?_, hbound⟩
      show s'.budget.pendingBytes + _ = _
      rw [hs.pending, Nat.add_zero]
  · intro s' tr r s'' hpre
    exact absurd (hpre.2 ▸ hpre.1) hs

theorem keeps_registerEntry (path : P) (depth : Nat) :
    Keeps (R := R) (M := M) B (Accounted B 0) (registerEntry B path depth) (Reserved (B := B) path) := by
  refine .bind (keeps_discover depth) fun result => ?_
  split
  · exact .pure fun _ hs => hs
  · exact keeps_reservePath path

theorem keeps_orFail {state : LocalFileEffectState} {path : P} {result : Except DeleteSource α}
    {pre : Locals P → Prop} {post : α → Locals P → Prop}
    (hok : ∀ a s, result = .ok a → pre s → post a s)
    (herror : ∀ e s, result = .error e → pre s → Accounted B 0 s) :
    Keeps (R := R) (M := M) B pre (orFail B state path result) post := by
  cases result with
  | ok a => exact .pure fun s hs => hok a s rfl hs
  | error e =>
    apply Proc.Safe.get
    intro s
    exact .exit fun s' hs => ⟨trivial, herror e s' rfl hs.1⟩

theorem keeps_orFail_same {state : LocalFileEffectState} {path : P}
    {result : Except DeleteSource α} :
    Keeps (R := R) (M := M) B (Accounted B 0) (orFail B state path result)
      fun _ => Accounted B 0 :=
  keeps_orFail (fun _ _ _ hs => hs) fun _ _ _ hs => hs

theorem keeps_orFail_reserved {state : LocalFileEffectState} {path path' : P}
    {result : Except DeleteSource Unit} :
    Keeps (R := R) (M := M) B (Reserved (B := B) path result) (orFail B state path' result)
      fun _ => Accounted B (B.len path) := by
  apply keeps_orFail
  · rintro ⟨⟩ s rfl hs
    exact hs
  · rintro e s rfl hs
    exact hs

theorem keeps_push (item : DeleteWork P × Nat) :
    Keeps (R := R) (M := M) B (Accounted B (B.len item.1.path)) (push item)
      fun _ => Accounted B 0 := by
  apply Proc.Safe.modify
  intro s hs
  refine ⟨?_, hs.bounded⟩
  show s.budget.pendingBytes = _
  rw [hs.pending, weight_cons]
  omega

theorem keeps_setChanged :
    Keeps (R := R) (M := M) B (Accounted B 0) setChanged fun _ => Accounted B 0 :=
  .modify fun _ hs => ⟨hs.pending, hs.bounded⟩

theorem keeps_reverseFrom (start : Nat) :
    Keeps (R := R) (M := M) B (Accounted B 0) (reverseFrom start) fun _ => Accounted B 0 := by
  apply Proc.Safe.modify
  intro s hs
  refine ⟨?_, hs.bounded⟩
  rw [weight_reverse_top]
  exact hs.pending

theorem keeps_readChildren (bound : Nat) (path : P) (reader : R) (depth : Nat) :
    Keeps (M := M) B (Accounted B 0) (readChildren B bound path reader depth)
      fun _ => Accounted B 0 := by
  induction bound generalizing reader with
  | zero => exact .exit fun _ hs => ⟨trivial, hs⟩
  | succ bound ih =>
    refine .bind keeps_checkDeadline fun _ => .bind keeps_orFail_same fun _ =>
      .bind (keeps_call _) fun answer => .bind keeps_orFail_same fun child => ?_
    split
    · exact .pure fun _ hs => hs
    · rename_i child
      exact .bind (keeps_registerEntry child (depth + 1)) fun _ => .bind keeps_orFail_reserved fun _ =>
        .bind (keeps_push (.inspect child, depth + 1)) fun _ => ih _

theorem keeps_inspectDirectory (bound : Nat) (path : P) (depth : Nat) :
    Keeps (R := R) (M := M) B (Accounted B 0) (inspectDirectory B bound path depth)
      fun _ => Accounted B 0 := by
  refine .bind keeps_checkDeadline fun _ => .bind keeps_orFail_same fun _ =>
    .bind (keeps_call _) fun _ => .bind keeps_orFail_same fun reader =>
    .bind (keeps_reservePath path) fun _ => .bind keeps_orFail_reserved fun _ =>
    .bind (keeps_push (.removeDirectory path, depth)) fun _ => Proc.Safe.get fun s => ?_
  refine .bind ((keeps_readChildren bound path reader depth).weaken (fun _ hs => hs.1)
    fun _ _ hs => hs) fun _ => keeps_reverseFrom _

theorem keeps_inspectNonDirectory (path : P) (metadata : M) :
    Keeps (R := R) B (Accounted B 0) (inspectNonDirectory B path metadata)
      fun _ => Accounted B 0 :=
  .bind keeps_checkDeadline fun _ => .bind keeps_orFail_same fun _ =>
    .bind (keeps_call _) fun _ => .bind keeps_orFail_same fun _ =>
    .bind (keeps_call _) fun _ => .bind keeps_orFail_same fun _ => keeps_setChanged

theorem keeps_removeDirectory (path : P) :
    Keeps (R := R) (M := M) B (Accounted B 0) (removeDirectory B path) fun _ => Accounted B 0 :=
  .bind (keeps_call _) fun _ => .bind keeps_orFail_same fun _ =>
    .bind (keeps_call _) fun _ => .bind keeps_orFail_same fun _ => keeps_setChanged

theorem keeps_inspect (bound : Nat) (path : P) (depth : Nat) :
    Keeps (R := R) (M := M) B (Accounted B 0) (inspect B bound path depth)
      fun _ => Accounted B 0 := by
  refine .bind (keeps_call _) fun _ => .bind keeps_orFail_same fun metadata => ?_
  dsimp only
  split
  · exact keeps_orFail_same
  · split
    · exact keeps_inspectDirectory bound path depth
    · exact keeps_inspectNonDirectory path metadata

/-- The counter covers the popped item, so its release does not underflow. -/
theorem keeps_releasePath (path : P) :
    Keeps (R := R) (M := M) B (Accounted B (B.len path)) (releasePath B path)
      fun _ => Accounted B 0 := by
  apply Proc.Safe.get
  intro s
  unfold DeleteBudget.releasePath
  by_cases hlt : s.budget.pendingBytes < B.len path
  · intro s' tr r s'' hpre
    obtain ⟨hs, rfl⟩ := hpre
    rw [hs.pending] at hlt
    omega
  · rw [if_neg hlt]
    apply Proc.Safe.modify
    rintro s' ⟨hs, rfl⟩
    constructor
    · show s'.budget.pendingBytes - _ = weight B s'.work + 0
      rw [hs.pending]
      omega
    · have hbound := hs.bounded
      show s'.budget.pendingBytes - _ ≤ DeleteBudget.pendingLimit s'.budget.options
      omega

theorem keeps_process (bound : Nat) (item : DeleteWork P) (depth : Nat) :
    Keeps (R := R) (M := M) B (Accounted B (B.len item.path))
      (process B bound item depth) fun _ => Accounted B 0 := by
  refine .bind (keeps_releasePath item.path) fun _ => .bind keeps_checkDeadline fun _ =>
    .bind keeps_orFail_same fun _ => ?_
  cases item with
  | inspect path => exact keeps_inspect bound path depth
  | removeDirectory path => exact keeps_removeDirectory path

theorem keeps_pop :
    Keeps (R := R) (M := M) B (Accounted B 0) pop fun item s => match item with
      | none => Accounted B 0 s
      | some (item, _) => Accounted B (B.len item.path) s := by
  apply Proc.Safe.get
  intro s
  split
  · exact .pure fun _ hs => hs.1
  · rename_i item rest hwork
    refine .modify_bind (Accounted B (B.len item.1.path)) ?_ (.pure fun _ hs => hs)
    rintro s' ⟨hs, rfl⟩
    refine ⟨?_, hs.bounded⟩
    show s'.budget.pendingBytes = weight B rest + _
    rw [hs.pending, hwork, weight_cons]
    omega

theorem keeps_workLoop (bound items : Nat) :
    Keeps (R := R) (M := M) B (Accounted B 0) (workLoop B bound items) fun _ => Accounted B 0 := by
  induction items with
  | zero => exact .exit fun _ hs => ⟨trivial, hs⟩
  | succ items ih =>
    refine .bind keeps_pop fun item => ?_
    split
    · exact .pure fun _ hs => hs
    · exact .bind (keeps_process bound _ _) fun _ => ih

theorem keeps_removeDirectoryTree (bound : Nat) (root : P) :
    Keeps (R := R) (M := M) B (Accounted B 0) (removeDirectoryTree B bound root)
      fun _ => Accounted B 0 :=
  .bind (keeps_registerEntry root 0) fun _ => .bind keeps_orFail_reserved fun _ =>
    .bind (keeps_push (.inspect root, 0)) fun _ => keeps_workLoop bound bound

theorem accounted_start (options : LocalDeleteOptions) : Accounted B 0 (start options) :=
  ⟨rfl, Nat.zero_le _⟩

end Accounting

/-! ## 4. The root is removed -/

section Root

variable [QubitBudget] {P M R α : Type} {B : DeleteBackend P M} {root : P} {known : Prop}

/-- The directory `root` was removed. -/
def RootRemoved (root : P) (ev : Event (Locals P × DeleteCall P M R) fun c => c.2.Result) : Prop :=
  match ev with
  | ⟨(_, .removeEmptyDirectory path), answer⟩ => path = root ∧ answer = Except.ok ()
  | _ => False

abbrev DeleteHistory (P M R : Type) := Proc.History (DeleteCall P M R) DeleteCall.Result (Locals P)

/-- The root is gone, or an item for it waits. -/
def Owes (root : P) (past : DeleteHistory P M R) (s : Locals P) : Prop :=
  (∃ ev ∈ past, RootRemoved root ev) ∨
  (.removeDirectory root, 0) ∈ s.work ∨ (.inspect root, 0) ∈ s.work

/-- Triples about the root; `known` stands for what is known of the item at hand. -/
abbrev Upkeeps (pre : DeleteHistory P M R → Locals P → Prop) (t : DeleteM P M R α)
    (post : α → DeleteHistory P M R → Locals P → Prop) : Prop :=
  Proc.Upholds ⟨fun _ => True, fun _ _ _ => True⟩ pre t post fun _ _ _ => True

abbrev Due (root : P) (known : Prop) (past : DeleteHistory P M R) (s : Locals P) : Prop :=
  Owes root past s ∨ known

theorem Owes.snoc {past : DeleteHistory P M R} {s : Locals P} (h : Owes root past s)
    (ev : Event (Locals P × DeleteCall P M R) fun c => c.2.Result) :
    Owes root (past ++ [ev]) s := by
  cases h with
  | inl hgone =>
    obtain ⟨gone, hmem, hev⟩ := hgone
    exact .inl ⟨gone, List.mem_append_left _ hmem, hev⟩
  | inr hwork => exact .inr hwork

theorem Due.congr {past : DeleteHistory P M R} {s s' : Locals P} (h : Due root known past s)
    (hwork : ∀ item ∈ s.work, item ∈ s'.work) : Due root known past s' := by
  cases h with
  | inr hknown => exact .inr hknown
  | inl howes =>
    cases howes with
    | inl hgone => exact .inl (.inl hgone)
    | inr hitem => exact .inl (.inr (hitem.imp (hwork _) (hwork _)))

theorem upkeeps_call (c : DeleteCall P M R) :
    Upkeeps (Due root known) (call c) fun _ => Due root known :=
  .ask fun _ _ hs => ⟨trivial, fun _ _ => hs.imp_left fun howes => howes.snoc _⟩

theorem upkeeps_modify {g : Locals P → Locals P} (hg : ∀ s, ∀ item ∈ s.work, item ∈ (g s).work) :
    Upkeeps (M := M) (R := R) (Due root known) (Proc.modify g) fun _ => Due root known :=
  .modify fun _ s hs => hs.congr (hg s)

theorem upkeeps_get {f : Locals P → DeleteM P M R α} {post : α → DeleteHistory P M R → Locals P → Prop}
    (h : ∀ s, Upkeeps (Due root known) (f s) post) :
    Upkeeps (Due root known) (Proc.get >>= f) post :=
  .get fun s => (h s).before fun _ _ hs => hs.1

theorem upkeeps_orFail {state : LocalFileEffectState} {path : P} {result : Except DeleteSource α} :
    Upkeeps (M := M) (R := R) (Due root known) (orFail B state path result)
      fun _ => Due root known := by
  cases result with
  | ok a => exact .pure fun _ _ hs => hs
  | error e => exact upkeeps_get fun s => .exit fun _ _ _ => trivial

theorem upkeeps_checkDeadline :
    Upkeeps (M := M) (R := R) (Due root known) checkDeadline fun _ => Due root known := by
  refine upkeeps_get fun s => ?_
  split
  · exact .pure fun _ _ hs => hs
  · refine .bind (upkeeps_call _) fun elapsed => ?_
    split
    · exact .pure fun _ _ hs => hs
    · exact .pure fun _ _ hs => hs

theorem upkeeps_reservePath (path : P) :
    Upkeeps (M := M) (R := R) (Due root known) (reservePath B path) fun _ => Due root known := by
  refine upkeeps_get fun s => ?_
  split
  · exact .pure fun _ _ hs => hs
  · exact .exit fun _ _ _ => trivial
  · exact .bind (upkeeps_modify fun _ _ hitem => hitem) fun _ => .pure fun _ _ hs => hs

theorem upkeeps_registerEntry (path : P) (depth : Nat) :
    Upkeeps (M := M) (R := R) (Due root known) (registerEntry B path depth)
      fun _ => Due root known := by
  refine .through (fun _ => Due root known)
    (.bind (upkeeps_call _) fun _ => .bind upkeeps_checkDeadline fun checked => ?_) fun result => ?_
  · split
    · exact .pure fun _ _ hs => hs
    · refine upkeeps_get fun s => ?_
      split
      · exact .pure fun _ _ hs => hs
      · exact .bind (upkeeps_modify fun _ _ hitem => hitem) fun _ => .pure fun _ _ hs => hs
  · split
    · exact .pure fun _ _ hs => hs
    · exact upkeeps_reservePath path

theorem upkeeps_push (item : DeleteWork P × Nat) :
    Upkeeps (M := M) (R := R) (Due root known) (push item) fun _ => Due root known :=
  upkeeps_modify fun _ _ hitem => List.mem_cons_of_mem _ hitem

theorem upkeeps_readChildren (bound : Nat) (path : P) (reader : R) (depth : Nat) :
    Upkeeps (M := M) (Due root known) (readChildren B bound path reader depth)
      fun _ => Due root known := by
  induction bound generalizing reader with
  | zero => exact .exit fun _ _ _ => trivial
  | succ bound ih =>
    refine .bind upkeeps_checkDeadline fun _ => .bind upkeeps_orFail fun _ =>
      .bind (upkeeps_call _) fun answer => .bind upkeeps_orFail fun child => ?_
    split
    · exact .pure fun _ _ hs => hs
    · exact .bind (upkeeps_registerEntry _ _) fun _ => .bind upkeeps_orFail fun _ =>
        .bind (upkeeps_push _) fun _ => ih _

theorem upkeeps_reverseFrom (start : Nat) :
    Upkeeps (M := M) (R := R) (Due root known) (reverseFrom start) fun _ => Due root known := by
  refine upkeeps_modify fun s item hitem => ?_
  show item ∈ (s.work.take _).reverse ++ s.work.drop _
  rw [List.mem_append, List.mem_reverse, ← List.mem_append, List.take_append_drop]
  exact hitem

/-- Inspecting the root puts its removal on the stack. -/
theorem upkeeps_inspectDirectory (bound : Nat) (path : P) (depth : Nat)
    (hknown : known → path = root ∧ depth = 0) :
    Upkeeps (M := M) (R := R) (Due root known) (inspectDirectory B bound path depth)
      fun _ => Owes root := by
  refine .bind upkeeps_checkDeadline fun _ => .bind upkeeps_orFail fun _ =>
    .bind (upkeeps_call _) fun _ => .bind upkeeps_orFail fun reader =>
    .bind (upkeeps_reservePath path) fun _ => .bind upkeeps_orFail fun _ =>
    .through (fun _ => Due root False) (.modify fun past s hs => ?_) fun _ =>
    upkeeps_get fun s => .bind (upkeeps_readChildren bound path reader depth) fun _ =>
    (upkeeps_reverseFrom _).weaken (fun _ _ hs => hs) (fun _ _ _ hs => hs.resolve_right id)
      fun _ _ _ hs => hs
  cases hs with
  | inl howes => exact (Due.congr (.inl howes) fun _ hitem => List.mem_cons_of_mem _ hitem)
  | inr hroot =>
    obtain ⟨rfl, rfl⟩ := hknown hroot
    exact .inl (.inr (.inl List.mem_cons_self))

theorem upkeeps_inspect (bound : Nat) (path : P) (depth : Nat)
    (hknown : known → path = root ∧ depth = 0) :
    Upkeeps (M := M) (R := R) (Due root known) (inspect B bound path depth) fun _ => Owes root := by
  refine .bind (upkeeps_call _) fun _ => .bind upkeeps_orFail fun metadata => ?_
  dsimp only
  split
  · exact upkeeps_get fun s => .exit fun _ _ _ => trivial
  · rename_i hnot
    split
    · exact upkeeps_inspectDirectory bound path depth hknown
    · rename_i hleaf
      refine .bind upkeeps_checkDeadline fun _ => .bind upkeeps_orFail fun _ =>
        .bind (upkeeps_call _) fun _ => .bind upkeeps_orFail fun _ =>
        .bind (upkeeps_call _) fun _ => .bind upkeeps_orFail fun _ =>
        .modify fun past s hs => ?_
      have howes : Owes root past s := hs.resolve_right fun hroot => hnot <| by
        rw [(hknown hroot).2]
        simp [hleaf]
      exact howes

theorem upkeeps_removeDirectory (path : P) (hknown : known → path = root) :
    Upkeeps (M := M) (R := R) (Due root known) (removeDirectory B path) fun _ => Owes root := by
  refine .bind (upkeeps_call _) fun _ => .bind upkeeps_orFail fun _ =>
    .through (fun answer past s => answer = .ok () → Owes root past s)
      (.ask fun past s hs => ⟨trivial, fun answer _ hok => ?_⟩) fun answer => ?_
  · cases hs with
    | inl howes => exact howes.snoc _
    | inr hroot => exact .inl ⟨_, List.mem_append_right _ List.mem_cons_self, hknown hroot, hok⟩
  · cases answer with
    | error e =>
      exact .through (fun _ => Owes root) (.get fun s => .exit fun _ _ _ => trivial) fun _ =>
        .modify fun _ _ hs => hs
    | ok u =>
      exact .bind (.pure fun _ _ hs => hs rfl) fun _ => .modify fun _ _ hs => hs

theorem upkeeps_process (bound : Nat) (item : DeleteWork P) (depth : Nat)
    (hknown : known → depth = 0 ∧ (item = .removeDirectory root ∨ item = .inspect root)) :
    Upkeeps (M := M) (R := R) (Due root known) (process B bound item depth) fun _ => Owes root := by
  refine .through (fun _ => Due root known) (upkeeps_get fun s => ?_) fun _ =>
    .bind upkeeps_checkDeadline fun _ => .bind upkeeps_orFail fun _ => ?_
  · split
    · exact .exit fun _ _ _ => trivial
    · exact upkeeps_modify fun _ _ hitem => hitem
  · cases item with
    | inspect path =>
      refine upkeeps_inspect bound path depth fun hroot => ?_
      obtain ⟨hdepth, hitem⟩ := hknown hroot
      cases hitem with
      | inl h => cases h
      | inr h => exact ⟨DeleteWork.inspect.inj h, hdepth⟩
    | removeDirectory path =>
      refine upkeeps_removeDirectory path fun hroot => ?_
      cases (hknown hroot).2 with
      | inl h => exact DeleteWork.removeDirectory.inj h
      | inr h => cases h

/-- The stack is empty at the end, so what was owed is paid. -/
theorem upkeeps_workLoop (bound items : Nat) :
    Upkeeps (M := M) (R := R) (Owes root) (workLoop B bound items) fun _ past _ =>
      ∃ ev ∈ past, RootRemoved root ev := by
  induction items with
  | zero => exact .exit fun _ _ _ => trivial
  | succ items ih =>
    refine .through (fun item past s => match item with
      | none => ∃ ev ∈ past, RootRemoved root ev
      | some (item, depth) => Due root
        (depth = 0 ∧ (item = .removeDirectory root ∨ item = .inspect root)) past s)
      (.get fun s => ?_) fun item => ?_
    · split
      · rename_i hwork
        refine .pure fun past s' hs => ?_
        obtain ⟨howes, rfl⟩ := hs
        unfold Owes at howes
        rw [hwork] at howes
        simpa using howes
      · rename_i item rest hwork
        refine .through (fun _ => Due root
          (item.2 = 0 ∧ (item.1 = .removeDirectory root ∨ item.1 = .inspect root)))
          (.modify fun past s' hs => ?_) fun _ => .pure fun _ _ hs => hs
        obtain ⟨howes, rfl⟩ := hs
        cases howes with
        | inl hgone => exact .inl (.inl hgone)
        | inr hitem =>
          rw [hwork, List.mem_cons, List.mem_cons] at hitem
          obtain (rfl | hrest) | (rfl | hrest) := hitem
          · exact .inr ⟨rfl, .inl rfl⟩
          · exact .inl (.inr (.inl hrest))
          · exact .inr ⟨rfl, .inr rfl⟩
          · exact .inl (.inr (.inr hrest))
    · split
      · exact .pure fun _ _ hs => hs
      · exact .bind (upkeeps_process bound _ _ fun h => h) fun _ => ih

/-- A deletion that succeeds has removed the root itself. -/
theorem removeDirectoryTree_root {bound : Nat} {s s' : Locals P} {tr : DeleteHistory P M R}
    (h : (removeDirectoryTree B bound root).Runs s tr (.ok ()) s') :
    ∃ ev ∈ tr, RootRemoved root ev := by
  have htree : Upkeeps (M := M) (R := R) (Due root True) (removeDirectoryTree B bound root)
      fun _ past _ => ∃ ev ∈ past, RootRemoved root ev :=
    .bind (upkeeps_registerEntry root 0) fun _ => .bind upkeeps_orFail fun _ =>
      .bind (.modify fun _ _ _ => .inr (.inr List.mem_cons_self)) fun _ =>
      upkeeps_workLoop bound bound
  have hrun := htree [] s tr _ s' (.inr trivial) h fun _ _ => trivial
  exact hrun.2.1 () rfl

end Root

end LocalFiles.Delete
