import Mathlib.Algebra.Order.BigOperators.Group.List
import Mathlib.Algebra.BigOperators.Ring.List
import Mathlib.Algebra.Order.Ring.Nat
import Mathlib.Data.List.Lattice

/-!
# Weighted averages

Values with their weights, the quotient of the weighed sum and the sum of the weights, and weights
that fall by one step from value to value.
-/

namespace Nexus.Lib.Averages

/-- The sum of the weights. -/
def weight (l : List (Nat × Nat)) : Nat := (l.map Prod.fst).sum

/-- The sum of the values, each as often as its weight says. -/
def weighedSum (l : List (Nat × Nat)) : Nat := (l.map fun e => e.1 * e.2).sum

/-- The values with falling weights, `step * n` for the first, as far as the weights go. -/
def falling (step : Nat) : Nat → List Nat → List (Nat × Nat)
  | n + 1, x :: xs => (step * (n + 1), x) :: falling step n xs
  | _, _ => []

variable {l : List (Nat × Nat)} {step n : Nat} {xs : List Nat}

/-- Some value is not above the average. -/
theorem exists_le_average (hWeight : 0 < weight l) : ∃ e ∈ l, e.2 ≤ weighedSum l / weight l := by
  have hSum : (l.map fun e => e.1 * e.2).sum <
      (l.map fun e => e.1 * (weighedSum l / weight l + 1)).sum := by
    rw [List.sum_map_mul_right]
    show weighedSum l < weight l * (weighedSum l / weight l + 1)
    exact Nat.lt_mul_div_succ _ hWeight
  obtain ⟨e, hMem, hLt⟩ := List.exists_lt_of_sum_lt _ _ hSum
  exact ⟨e, hMem, Nat.lt_succ_iff.mp (Nat.lt_of_mul_lt_mul_left hLt)⟩

/-- Some value is not below the average. -/
theorem exists_average_le (hNe : l ≠ []) (hPos : ∀ e ∈ l, 0 < e.1) :
    ∃ e ∈ l, weighedSum l / weight l ≤ e.2 := by
  have hSum : (l.map fun e => e.1 * (weighedSum l / weight l)).sum ≤
      (l.map fun e => e.1 * e.2).sum := by
    rw [List.sum_map_mul_right]
    exact Nat.mul_div_le _ _
  obtain ⟨e, hMem, hLe⟩ := List.exists_le_of_sum_le hNe _ _ hSum
  exact ⟨e, hMem, Nat.le_of_mul_le_mul_left hLe (hPos e hMem)⟩

theorem map_snd_falling : (falling step n xs).map Prod.snd = xs.take n := by
  induction n generalizing xs with
  | zero => simp [falling]
  | succ n ih =>
      cases xs with
      | nil => simp [falling]
      | cons x xs => rw [falling, List.map_cons, ih, List.take_succ_cons]

theorem falling_pos (hStep : 0 < step) : ∀ e ∈ falling step n xs, 0 < e.1 := by
  induction n generalizing xs with
  | zero => simp [falling]
  | succ n ih =>
      cases xs with
      | nil => simp [falling]
      | cons x xs =>
          intro e he
          rcases List.mem_cons.mp he with hHead | hRest
          · rw [hHead]
            exact Nat.mul_pos hStep (Nat.succ_pos n)
          · exact ih e hRest

/-- The weights are no more than the weighed values if no value is zero. -/
theorem weight_le (hPos : ∀ x ∈ xs, 1 ≤ x) :
    weight (falling step n xs) ≤ weighedSum (falling step n xs) := by
  apply List.sum_le_sum
  intro e he
  have hMem : e.2 ∈ xs.take n := map_snd_falling ▸ List.mem_map_of_mem he
  exact Nat.le_mul_of_pos_right _ (hPos e.2 (List.mem_of_mem_take hMem))

end Nexus.Lib.Averages
