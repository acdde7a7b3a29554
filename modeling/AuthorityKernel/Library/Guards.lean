import Mathlib.Logic.Basic

/-! Computations that stop at the first guard that fails: a result that the guard does not give
comes from behind it. -/
namespace AuthorityKernel.Library.Guards

variable {α : Type*} {refusal rest result : α} {guard : Prop} [Decidable guard]

theorem passed (done : (if guard then refusal else rest) = result) (differs : refusal ≠ result) :
    ¬guard ∧ rest = result := by
  by_cases holds : guard
  · rw [if_pos holds] at done
    exact absurd done differs
  · rw [if_neg holds] at done
    exact ⟨holds,done⟩

theorem entered (done : (if guard then rest else refusal) = result) (differs : refusal ≠ result) :
    guard ∧ rest = result := by
  by_cases holds : guard
  · rw [if_pos holds] at done
    exact ⟨holds,done⟩
  · rw [if_neg holds] at done
    exact absurd done differs

end AuthorityKernel.Library.Guards
