import Mathlib.Algebra.Ring.Parity
import Mathlib.Data.Nat.Choose.Basic

/-!
# Folding a sequence into its first half

One fold adds the element at `2 * i` to the one at `i`, all at once.  Over the field of
two elements, `r` folds carry the element at `2 ^ k * i` to `i` exactly when the binomial
coefficient of `r` and `k` is odd, and they cancel the first element.
-/

namespace Nexus.Lib.Halves

/-- What is at `i` after some folds, from the bits of a sequence. -/
def carried (c : Nat → Bool) (i : Nat) : Nat → Bool
  | 0 => c i
  | r + 1 => carried c i r ^^ carried c (2 * i) r

/-- A fold of the sequence comes first or last. -/
theorem carried_fold (c : Nat → Bool) (i r : Nat) :
    carried (fun j => c j ^^ c (2 * j)) i r = carried c i (r + 1) := by
  induction r generalizing i with
  | zero => rfl
  | succ r ih =>
      rw [carried, ih, ih]
      rfl

theorem carried_congr {c c' : Nat → Bool} {i r : Nat}
    (h : ∀ k ≤ r, c (2 ^ k * i) = c' (2 ^ k * i)) : carried c i r = carried c' i r := by
  induction r generalizing i with
  | zero =>
      have hHere := h 0 (Nat.le_refl 0)
      rwa [pow_zero, Nat.one_mul] at hHere
  | succ r ih =>
      rw [carried, carried, ih fun k hk => h k (by omega), ih]
      intro k hk
      have hNext := h (k + 1) (by omega)
      rwa [pow_succ, Nat.mul_assoc] at hNext

/-- The first element is added to itself. -/
theorem carried_first (c : Nat → Bool) (r : Nat) : carried c 0 (r + 1) = false := by
  rw [carried, Nat.mul_zero, Bool.xor_self]

/-- An element that is not carried to `i`. -/
theorem carried_other {i p : Nat} (h : ∀ k, p ≠ 2 ^ k * i) (r : Nat) :
    carried (fun j => j == p) i r = false := by
  induction r generalizing i with
  | zero =>
      have hHere := h 0
      rw [pow_zero, Nat.one_mul] at hHere
      exact beq_false_of_ne fun hSame => hHere hSame.symm
  | succ r ih =>
      rw [carried, ih h, ih, Bool.xor_self]
      intro k hDouble
      apply h (k + 1)
      rw [hDouble, pow_succ, Nat.mul_assoc]

/-- One element of the sequence, among the elements that are carried to `i`. -/
theorem carried_single {i : Nat} (hi : 0 < i) (k r : Nat) :
    carried (fun j => j == 2 ^ k * i) i r = decide (Odd (r.choose k)) := by
  induction r generalizing i k with
  | zero =>
      cases k with
      | zero => simp [carried]
      | succ k =>
          have hPow : 2 ≤ 2 ^ (k + 1) := by
            rw [pow_succ]
            have hOne := Nat.one_le_two_pow (n := k)
            omega
          have hScaled := Nat.mul_le_mul_right i hPow
          have hOther : (i == 2 ^ (k + 1) * i) = false := beq_false_of_ne (by omega)
          rw [carried, hOther]
          rfl
  | succ r ih =>
      cases k with
      | zero =>
          have hOther : carried (fun j => j == 2 ^ 0 * i) (2 * i) r = false := by
            apply carried_other
            intro k
            have hPow := Nat.one_le_two_pow (n := k)
            have hScaled := Nat.mul_le_mul_right (2 * i) hPow
            omega
          rw [carried, ih hi 0, hOther, Bool.xor_false, Nat.choose_zero_right,
            Nat.choose_zero_right]
      | succ k =>
          have hDouble : 2 ^ (k + 1) * i = 2 ^ k * (2 * i) := by
            rw [pow_succ, Nat.mul_assoc]
          rw [carried, ih hi (k + 1), hDouble, ih (by omega) k, Nat.choose_succ_succ]
          simp only [Nat.odd_add, Bool.xor_comm, ← Nat.not_odd_iff_even]
          by_cases hLow : Odd (r.choose k) <;> by_cases hHigh : Odd (r.choose (k + 1)) <;>
            simp [hLow, hHigh]

end Nexus.Lib.Halves
