import Mathlib.Algebra.BigOperators.Group.Finset.Basic
import Mathlib.Algebra.Order.BigOperators.Group.Finset
import Mathlib.Data.Fintype.Basic

namespace Initd.Library

/-! Sums of weights over the elements whose flag is set. -/

section FlagSum

variable {Index : Type} [Fintype Index]

def flagSum (weight : Index → Nat) (flag : Index → Bool) : Nat :=
  ∑ index, if flag index = true then weight index else 0

theorem flagSum_clear (weight : Index → Nat) {flag : Index → Bool}
    (cleared : ∀ index, flag index = false) : flagSum weight flag = 0 := by
  simp [flagSum, cleared]

theorem weight_le_flagSum (weight : Index → Nat) {flag : Index → Bool}
    {index : Index} (set : flag index = true) :
    weight index ≤ flagSum weight flag := by
  have bound := Finset.single_le_sum
    (f := fun other => if flag other = true then weight other else 0)
    (fun _ _ => Nat.zero_le _) (Finset.mem_univ index)
  simpa [flagSum, set] using bound

theorem flagSum_eq_zero {weight : Index → Nat} {flag : Index → Bool} :
    flagSum weight flag = 0 ↔
      ∀ index, flag index = true → weight index = 0 := by
  simp [flagSum, Finset.sum_eq_zero_iff]

theorem flagSum_le_sum (weight : Index → Nat) (flag : Index → Bool) :
    flagSum weight flag ≤ ∑ index, weight index := by
  refine Finset.sum_le_sum fun index _ => ?_
  split <;> omega

variable [DecidableEq Index]

/-- Changing one flag trades that element's old share for its new one. -/
theorem flagSum_update (weight : Index → Nat) (flag : Index → Bool)
    (index : Index) (value : Bool) :
    flagSum weight (Function.update flag index value) +
        (if flag index = true then weight index else 0) =
      flagSum weight flag + (if value = true then weight index else 0) := by
  unfold flagSum
  rw [← Finset.add_sum_erase _ _ (Finset.mem_univ index),
    ← Finset.add_sum_erase Finset.univ
      (fun other => if flag other = true then weight other else 0)
      (Finset.mem_univ index)]
  have others :
      ∑ other ∈ Finset.univ.erase index,
          (if Function.update flag index value other = true then
            weight other else 0) =
        ∑ other ∈ Finset.univ.erase index,
          (if flag other = true then weight other else 0) := by
    refine Finset.sum_congr rfl fun other member => ?_
    rw [Function.update_of_ne (Finset.ne_of_mem_erase member)]
  rw [others, Function.update_self]
  omega

/-- A flag whose clearing cannot have changed the sum still adds nothing. -/
theorem flagSum_eq_zero_of_update {weight : Index → Nat}
    {flag : Index → Bool} {index : Index} {value : Bool}
    (zero : flagSum weight (Function.update flag index value) = 0)
    (kept : weight index = 0 ∨ value = true) : flagSum weight flag = 0 := by
  rw [flagSum_eq_zero] at zero ⊢
  intro other set
  by_cases same : other = index
  · subst other
    rcases kept with weightless | raised
    · exact weightless
    · exact zero index (by simp [raised])
  · exact zero other (by simpa [same] using set)

theorem flagSum_set (weight : Index → Nat) {flag : Index → Bool}
    {index : Index} (clear : flag index = false) :
    flagSum weight (Function.update flag index true) =
      flagSum weight flag + weight index := by
  simpa [clear] using flagSum_update weight flag index true

theorem flagSum_reset (weight : Index → Nat) {flag : Index → Bool}
    {index : Index} (set : flag index = true) :
    flagSum weight (Function.update flag index false) =
      flagSum weight flag - weight index := by
  have trade := flagSum_update weight flag index false
  simp only [set, if_true, Bool.false_eq_true, if_false] at trade
  omega

end FlagSum

end Initd.Library
