import LocalFiles.Types

/-!
# QubitBudget — the budgets and pools that the library is given

The crate `qubit_budget` is not part of the repository.  Its types are abstract here, and an
instance of `QubitBudget` promises of its operations what its callers rely on.
-/

namespace LocalFiles

/-! ## 1. The crate -/

/-- `ResourceBudget` and `ManagedResourcePool` with their operations.  A permit that is dropped
    goes back to its pool.  An `InsufficientBudgetError` has the four facts that its callers put
    into a `LocalResourceLimitError`. -/
class QubitBudget where
  Budget : Type
  Pool : Type
  newBudget : LocalResourceKind → Nat → Budget
  budgetResource : Budget → LocalResourceKind
  budgetLimit : Budget → Nat
  remaining : Budget → Nat
  tryConsume : Budget → Nat → Except LocalResourceLimitError Budget
  newPool : LocalResourceKind → Nat → Pool
  poolLimit : Pool → Nat
  held : Pool → Nat
  tryAcquire : Pool → Except LocalResourceLimitError Pool
  release : Pool → Nat → Pool
  budgetResource_new : ∀ resource limit, budgetResource (newBudget resource limit) = resource
  budgetLimit_new : ∀ resource limit, budgetLimit (newBudget resource limit) = limit
  remaining_new : ∀ resource limit, remaining (newBudget resource limit) = limit
  /-- A request that fits is deducted. -/
  tryConsume_fits : ∀ budget n, n ≤ remaining budget → ∃ budget', tryConsume budget n = .ok budget' ∧
    budgetResource budget' = budgetResource budget ∧ budgetLimit budget' = budgetLimit budget ∧
    remaining budget' = remaining budget - n
  tryConsume_exceeds : ∀ budget n, remaining budget < n → tryConsume budget n =
    .error (.new (budgetResource budget) (budgetLimit budget) (remaining budget) n)
  poolLimit_new : ∀ resource limit, poolLimit (newPool resource limit) = limit
  held_new : ∀ resource limit, held (newPool resource limit) = 0
  /-- A permit is granted exactly when fewer than the limit are held. -/
  tryAcquire_free : ∀ pool, held pool < poolLimit pool → ∃ pool', tryAcquire pool = .ok pool' ∧
    poolLimit pool' = poolLimit pool ∧ held pool' = held pool + 1
  tryAcquire_full : ∀ pool, poolLimit pool ≤ held pool → ∃ error, tryAcquire pool = .error error
  poolLimit_release : ∀ pool n, poolLimit (release pool n) = poolLimit pool
  held_release : ∀ pool n, held (release pool n) = held pool - n

section Crate

variable [QubitBudget]

/-- `qubit_budget::ResourceBudget` -/
def ResourceBudget : Type := QubitBudget.Budget

/-- `qubit_budget::ManagedResourcePool` -/
def ManagedResourcePool : Type := QubitBudget.Pool

namespace ResourceBudget

def new (resource : LocalResourceKind) (limit : Nat) : ResourceBudget :=
  QubitBudget.newBudget resource limit

variable (budget : ResourceBudget) {budget' : ResourceBudget} {n : Nat}

def resource : LocalResourceKind := QubitBudget.budgetResource budget

def limit : Nat := QubitBudget.budgetLimit budget

def remaining : Nat := QubitBudget.remaining budget

def tryConsume (requested : Nat) : Except LocalResourceLimitError ResourceBudget :=
  QubitBudget.tryConsume budget requested

@[simp] theorem resource_new (resource : LocalResourceKind) (limit : Nat) :
    (new resource limit).resource = resource :=
  QubitBudget.budgetResource_new resource limit

@[simp] theorem remaining_new (resource : LocalResourceKind) (limit : Nat) :
    (new resource limit).remaining = limit :=
  QubitBudget.remaining_new resource limit

variable {budget}

/-- `n` units were taken from the budget. -/
structure Consumed (budget : ResourceBudget) (n : Nat) (budget' : ResourceBudget) : Prop where
  fits : n ≤ budget.remaining
  resource : budget'.resource = budget.resource
  limit : budget'.limit = budget.limit
  remaining : budget'.remaining = budget.remaining - n

theorem exists_consumed (h : n ≤ budget.remaining) :
    ∃ budget', budget.tryConsume n = .ok budget' ∧ budget.Consumed n budget' := by
  obtain ⟨budget', hok, hresource, hlimit, hremaining⟩ := QubitBudget.tryConsume_fits budget n h
  exact ⟨budget', hok, h, hresource, hlimit, hremaining⟩

theorem tryConsume_exceeds (h : budget.remaining < n) : budget.tryConsume n =
    .error (.new budget.resource budget.limit budget.remaining n) :=
  QubitBudget.tryConsume_exceeds budget n h

theorem tryConsume_ok (h : budget.tryConsume n = .ok budget') : budget.Consumed n budget' := by
  by_cases hfits : n ≤ budget.remaining
  · obtain ⟨found, hok, hconsumed⟩ := exists_consumed hfits
    rw [hok] at h
    cases h
    exact hconsumed
  · rw [tryConsume_exceeds (Nat.lt_of_not_le hfits)] at h
    cases h

theorem tryConsume_error {error : LocalResourceLimitError} (h : budget.tryConsume n = .error error) :
    budget.remaining < n ∧ error = .new budget.resource budget.limit budget.remaining n := by
  by_cases hfits : n ≤ budget.remaining
  · obtain ⟨found, hok, -⟩ := exists_consumed hfits
    rw [hok] at h
    cases h
  · have hexceeds := Nat.lt_of_not_le hfits
    rw [tryConsume_exceeds hexceeds] at h
    cases h
    exact ⟨hexceeds, rfl⟩

end ResourceBudget

namespace ManagedResourcePool

def new (resource : LocalResourceKind) (limit : Nat) : ManagedResourcePool :=
  QubitBudget.newPool resource limit

variable (pool : ManagedResourcePool) {pool' : ManagedResourcePool}

def limit : Nat := QubitBudget.poolLimit pool

/-- How many permits are out. -/
def held : Nat := QubitBudget.held pool

def tryAcquire : Except LocalResourceLimitError ManagedResourcePool := QubitBudget.tryAcquire pool

/-- `n` permits are dropped. -/
def release (n : Nat) : ManagedResourcePool := QubitBudget.release pool n

@[simp] theorem limit_new (resource : LocalResourceKind) (limit : Nat) :
    (new resource limit).limit = limit :=
  QubitBudget.poolLimit_new resource limit

@[simp] theorem held_new (resource : LocalResourceKind) (limit : Nat) :
    (new resource limit).held = 0 :=
  QubitBudget.held_new resource limit

@[simp] theorem limit_release (n : Nat) : (pool.release n).limit = pool.limit :=
  QubitBudget.poolLimit_release pool n

@[simp] theorem held_release (n : Nat) : (pool.release n).held = pool.held - n :=
  QubitBudget.held_release pool n

variable {pool}

theorem exists_acquired (h : pool.held < pool.limit) :
    ∃ pool', pool.tryAcquire = .ok pool' ∧ pool'.limit = pool.limit ∧
      pool'.held = pool.held + 1 :=
  QubitBudget.tryAcquire_free pool h

theorem tryAcquire_full (h : pool.limit ≤ pool.held) : ∃ error, pool.tryAcquire = .error error :=
  QubitBudget.tryAcquire_full pool h

theorem tryAcquire_ok (h : pool.tryAcquire = .ok pool') :
    pool.held < pool.limit ∧ pool'.limit = pool.limit ∧ pool'.held = pool.held + 1 := by
  by_cases hfree : pool.held < pool.limit
  · obtain ⟨found, hok, hacquired⟩ := exists_acquired hfree
    rw [hok] at h
    cases h
    exact ⟨hfree, hacquired⟩
  · obtain ⟨error, hfull⟩ := tryAcquire_full (Nat.le_of_not_lt hfree)
    rw [hfull] at h
    cases h

end ManagedResourcePool

end Crate

/-! ## 2. Budgets that count -/

namespace QubitBudget

/-- What is left of a limit. -/
structure Count where
  resource : LocalResourceKind
  limit : Nat
  used : Nat

/-- An instance that keeps the promises by counting what is used. -/
scoped instance counting : QubitBudget where
  Budget := Count
  Pool := Count
  newBudget resource limit := ⟨resource, limit, 0⟩
  budgetResource budget := budget.resource
  budgetLimit budget := budget.limit
  remaining budget := budget.limit - budget.used
  tryConsume budget n :=
    if n ≤ budget.limit - budget.used then .ok { budget with used := budget.used + n }
    else .error (.new budget.resource budget.limit (budget.limit - budget.used) n)
  newPool resource limit := ⟨resource, limit, 0⟩
  poolLimit pool := pool.limit
  held pool := pool.used
  tryAcquire pool :=
    if pool.used < pool.limit then .ok { pool with used := pool.used + 1 }
    else .error (.new pool.resource pool.limit (pool.limit - pool.used) 1)
  release pool n := { pool with used := pool.used - n }
  budgetResource_new _ _ := rfl
  budgetLimit_new _ _ := rfl
  remaining_new _ _ := rfl
  tryConsume_fits _ _ h := ⟨_, if_pos h, rfl, rfl, (Nat.sub_sub _ _ _).symm⟩
  tryConsume_exceeds _ _ h := if_neg (Nat.not_le_of_lt h)
  poolLimit_new _ _ := rfl
  held_new _ _ := rfl
  tryAcquire_free _ h := ⟨_, if_pos h, rfl, rfl⟩
  tryAcquire_full _ h := ⟨_, if_neg (Nat.not_lt_of_le h)⟩
  poolLimit_release _ _ := rfl
  held_release _ _ := rfl

end QubitBudget

end LocalFiles
