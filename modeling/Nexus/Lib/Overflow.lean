import Mathlib.Algebra.Order.Ring.Nat
import Mathlib.Data.UInt

/-!
# Overflow tests on words

The usual tests for an operation on 64-bit words that leaves the words, each
against the operation on the natural numbers.  A word above a sum, a word below a
difference and a quotient below a factor all say that the result wrapped; a word
that did not wrap is the result.
-/

namespace Nexus.Lib.Overflow

variable {a b : UInt64} {n : Nat}

theorem toNat_eq_zero_iff : a.toNat = 0 ↔ a = 0 :=
  ⟨fun h => UInt64.toNat_inj.mp h, fun h => by rw [h, UInt64.toNat_zero]⟩

/-- A sum wraps exactly when it is below its first term. -/
theorem add_wraps_iff : a + b < a ↔ 2 ^ 64 ≤ a.toNat + b.toNat := by
  have hA := a.toNat_lt
  have hB := b.toNat_lt
  rw [UInt64.lt_iff_toNat_lt, UInt64.toNat_add]
  by_cases hWraps : 2 ^ 64 ≤ a.toNat + b.toNat
  · rw [Nat.mod_eq_sub_mod hWraps, Nat.mod_eq_of_lt (by omega)]
    omega
  · rw [Nat.mod_eq_of_lt (by omega)]
    omega

theorem toNat_add_of_not_wraps (h : ¬ a + b < a) : (a + b).toNat = a.toNat + b.toNat := by
  rw [add_wraps_iff, Nat.not_le] at h
  rw [UInt64.toNat_add, Nat.mod_eq_of_lt h]

/-- A difference wraps exactly when it is above its first term. -/
theorem sub_wraps_iff : a < a - b ↔ a.toNat < b.toNat := by
  have hA := a.toNat_lt
  have hB := b.toNat_lt
  rw [UInt64.lt_iff_toNat_lt, UInt64.toNat_sub]
  by_cases hWraps : a.toNat < b.toNat
  · rw [Nat.mod_eq_of_lt (by omega)]
    omega
  · rw [show 2 ^ 64 - b.toNat + a.toNat = a.toNat - b.toNat + 2 ^ 64 by omega, Nat.add_mod_right,
      Nat.mod_eq_of_lt (by omega)]
    omega

theorem toNat_sub_of_not_wraps (h : ¬ a < a - b) : (a - b).toNat = a.toNat - b.toNat := by
  rw [sub_wraps_iff, Nat.not_lt] at h
  exact UInt64.toNat_sub_of_le _ _ (UInt64.le_iff_toNat_le.mpr h)

/-- A product wraps exactly when one factor is above the quotient of the largest word by the
other. -/
theorem mul_wraps_iff : (b ≠ 0 ∧ 0xffffffffffffffff / b < a) ↔ 2 ^ 64 ≤ a.toNat * b.toNat := by
  by_cases hZero : b = 0
  · simp [hZero]
  · have hPos : 0 < b.toNat := Nat.pos_of_ne_zero fun h => hZero (toNat_eq_zero_iff.mp h)
    rw [UInt64.lt_iff_toNat_lt, UInt64.toNat_div]
    show _ ∧ 18446744073709551615 / b.toNat < a.toNat ↔ _
    rw [Nat.div_lt_iff_lt_mul hPos]
    constructor
    · intro h
      omega
    · intro h
      exact ⟨hZero, by omega⟩

theorem toNat_mul_of_lt (h : a.toNat * b.toNat < 2 ^ 64) : (a * b).toNat = a.toNat * b.toNat := by
  rw [UInt64.toNat_mul, Nat.mod_eq_of_lt h]

/-- A sum of words is the sum of the numbers but for a multiple of the words. -/
theorem toNat_sum (words : List UInt64) : words.sum.toNat = (words.map UInt64.toNat).sum % 2 ^ 64 := by
  induction words with
  | nil => rfl
  | cons word words ih =>
      rw [List.map_cons, List.sum_cons, List.sum_cons, UInt64.toNat_add, ih, Nat.add_mod_mod]

/-- A signed word and the word of its bits differ by a multiple of the words. -/
theorem toInt_emod (x : Int64) : x.toInt % 2 ^ 64 = (x.toUInt64.toNat : Int) := by
  have hLt := x.toUInt64.toNat_lt
  show x.toBitVec.toInt % 2 ^ 64 = (x.toBitVec.toNat : Int)
  have hLt' : x.toBitVec.toNat < 2 ^ 64 := hLt
  rw [BitVec.toInt_eq_toNat_cond]
  split
  · omega
  · push_cast
    omega

end Nexus.Lib.Overflow
