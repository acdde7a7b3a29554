import AuthorityKernel.Types
import Mathlib.Logic.Function.Basic

/-! Resource budgets: a limit and a running total for each kind of resource. Checking
and committing are separate calls, and a commit is never refused. -/
namespace AuthorityKernel.Budget

inductive Resource
  | tokens
  | calls
  | inferenceMs
  | fileBytes
  | networkBytes
  | heapBytes
  | heapObjects
  | blobBytes
  | wallTimeMs
  | netBytesOut
  | llmTokensIn
  | llmTokensOut
  | toolCalls
deriving DecidableEq

structure PolicyBudgets where
  tokens : UInt64
  calls : UInt64
  inferenceMs : UInt64
  fileBytes : UInt64
  networkBytes : UInt64
  spawnCount : UInt64
  heapObjects : UInt64
  heapBytes : UInt64
deriving DecidableEq

/-- The tracker's limits and running totals; its timestamps, snapshots and per-tool
breakdown feed reports only. -/
structure BudgetTracker where
  limits : Resource → UInt64
  used : Resource → UInt64

def akBudgetUnlimited : UInt64 := 0xffffffffffffffff

def akBudgetFits (used limit amount : UInt64) : Bool :=
  if used > limit then false else amount ≤ limit - used

def akBudgetTrackerInit : BudgetTracker where
  limits := fun
    | .llmTokensIn => 1000000
    | .llmTokensOut => 100000
    | .toolCalls => 100
    | .wallTimeMs => 300000
    | .heapObjects => 10000
    | .blobBytes => 100 * 1024 * 1024
    | .netBytesOut => 10 * 1024 * 1024
    | _ => 0
  used := fun _ => 0

def akBudgetCreate (policy : Option PolicyBudgets) : BudgetTracker :=
  match policy with
  | none => akBudgetTrackerInit
  | some budgets =>
      { akBudgetTrackerInit with
        limits := fun
          | .tokens => budgets.tokens
          | .calls => budgets.calls
          | .inferenceMs => budgets.inferenceMs
          | .fileBytes => budgets.fileBytes
          | .networkBytes => budgets.networkBytes
          | .heapObjects => budgets.heapObjects
          | .heapBytes => budgets.heapBytes
          | resource => akBudgetTrackerInit.limits resource }

def akBudgetCheck (tracker : Option BudgetTracker) (resource : Resource) (amount : UInt64) : Bool :=
  match tracker with
  | none => false
  | some tracker => akBudgetFits (tracker.used resource) (tracker.limits resource) amount

def committed (used amount : UInt64) : UInt64 :=
  if amount > akBudgetUnlimited - used then akBudgetUnlimited else used + amount

def akBudgetCommit (tracker : BudgetTracker) (resource : Resource) (amount : UInt64) : BudgetTracker :=
  { tracker with used := Function.update tracker.used resource (committed (tracker.used resource) amount) }

def BudgetTracker.Within (tracker : BudgetTracker) : Prop :=
  ∀ resource, tracker.used resource ≤ tracker.limits resource

/-- What a commit may take without passing the limit. A limit at the largest value is
never passed. -/
def BudgetTracker.Affords (tracker : BudgetTracker) (resource : Resource) (amount : UInt64) : Prop :=
  tracker.limits resource = akBudgetUnlimited ∨
    (tracker.used resource).toNat + amount.toNat ≤ (tracker.limits resource).toNat

theorem akBudgetFits_iff (used limit amount : UInt64) :
    akBudgetFits used limit amount = true ↔ used.toNat + amount.toNat ≤ limit.toNat := by
  unfold akBudgetFits
  split
  · rename_i above
    rw [GT.gt,UInt64.lt_iff_toNat_lt] at above
    simp
    omega
  rename_i below
  rw [GT.gt,UInt64.not_lt] at below
  rw [decide_eq_true_iff,UInt64.le_iff_toNat_le,UInt64.toNat_sub_of_le _ _ below]
  rw [UInt64.le_iff_toNat_le] at below
  omega

theorem committed_toNat (used amount : UInt64) :
    (committed used amount).toNat = min (used.toNat + amount.toNat) akBudgetUnlimited.toNat := by
  have top : akBudgetUnlimited.toNat = 18446744073709551615 := rfl
  have usedRange := used.toNat_lt
  have below : used ≤ akBudgetUnlimited := by
    rw [UInt64.le_iff_toNat_le,top]
    omega
  unfold committed
  split
  · rename_i above
    rw [GT.gt,UInt64.lt_iff_toNat_lt,UInt64.toNat_sub_of_le _ _ below] at above
    omega
  rename_i fits
  rw [GT.gt,UInt64.not_lt,UInt64.le_iff_toNat_le,UInt64.toNat_sub_of_le _ _ below] at fits
  rw [UInt64.toNat_add]
  omega

theorem akBudgetCommit_used_same (tracker : BudgetTracker) (resource : Resource) (amount : UInt64) :
    (akBudgetCommit tracker resource amount).used resource = committed (tracker.used resource) amount := by
  simp [akBudgetCommit]

variable {tracker : BudgetTracker} {resource : Resource} {amount : UInt64}

theorem akBudgetCommit_used_other (tracker : BudgetTracker) {other : Resource} (amount : UInt64)
    (different : other ≠ resource) : (akBudgetCommit tracker resource amount).used other = tracker.used other := by
  simp [akBudgetCommit,different]

theorem akBudgetCommit_within_iff (resource : Resource) (amount : UInt64) (within : tracker.Within) :
    (akBudgetCommit tracker resource amount).Within ↔ tracker.Affords resource amount := by
  have range := (tracker.limits resource).toNat_lt
  have top : akBudgetUnlimited.toNat = 18446744073709551615 := rfl
  have total : (akBudgetCommit tracker resource amount).used resource ≤ tracker.limits resource ↔
      tracker.Affords resource amount := by
    rw [akBudgetCommit_used_same,UInt64.le_iff_toNat_le,committed_toNat,BudgetTracker.Affords,← UInt64.toNat_inj,top]
    omega
  constructor
  · intro after
    exact total.mp (after resource)
  · intro affords other
    by_cases same : other = resource
    · exact same ▸ total.mpr affords
    · rw [akBudgetCommit_used_other tracker amount same]
      exact within other

theorem affords_of_check (checked : akBudgetCheck (some tracker) resource amount = true)
    : tracker.Affords resource amount :=
  Or.inr ((akBudgetFits_iff _ _ _).mp checked)

theorem akBudgetCreate_used (policy : Option PolicyBudgets) (resource : Resource) :
    (akBudgetCreate policy).used resource = 0 := by
  cases policy <;> rfl

theorem akBudgetCreate_within (policy : Option PolicyBudgets) : (akBudgetCreate policy).Within := by
  intro resource
  rw [akBudgetCreate_used]
  exact UInt64.zero_le

end AuthorityKernel.Budget
