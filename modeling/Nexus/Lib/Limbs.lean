import Mathlib.Tactic.Ring
import Mathlib.Tactic.Linarith

/-!
# Numbers in limbs

The number that the limbs `d 0, d 1, …` of `w` bits stand for, cut off at a limb.
The lemmas say what a cut keeps, what one changed limb does to the number, and
where the bits of the number are.
-/

namespace Nexus.Lib.Limbs

variable {w : Nat} {d e : Nat → Nat}

/-- The number of the limbs below `n`, with limbs of `w` bits. -/
def below (w : Nat) (d : Nat → Nat) : Nat → Nat
  | 0 => 0
  | n + 1 => below w d n + d n * 2 ^ (w * n)

theorem below_congr {n : Nat} (h : ∀ i, i < n → d i = e i) : below w d n = below w e n := by
  induction n with
  | zero => rfl
  | succ n ih =>
      rw [below, below, ih fun i hi => h i (by omega), h n (by omega)]

theorem pow_limb (w n : Nat) : 2 ^ (w * (n + 1)) = 2 ^ w * 2 ^ (w * n) := by
  rw [Nat.mul_succ, Nat.pow_add, Nat.mul_comm]

theorem below_lt {n : Nat} (h : ∀ i, i < n → d i < 2 ^ w) : below w d n < 2 ^ (w * n) := by
  induction n with
  | zero => simp [below]
  | succ n ih =>
      have hBelow := ih fun i hi => h i (by omega)
      have hLimb : (d n + 1) * 2 ^ (w * n) ≤ 2 ^ w * 2 ^ (w * n) :=
        Nat.mul_le_mul_right _ (h n (by omega))
      rw [below, pow_limb]
      rw [Nat.add_mul] at hLimb
      omega

/-- A cut keeps the remainder. -/
theorem below_mod {m n : Nat} (h : ∀ i, i < n → d i < 2 ^ w) (hmn : m ≤ n) :
    below w d n % 2 ^ (w * m) = below w d m := by
  induction n with
  | zero =>
      obtain rfl : m = 0 := by omega
      simp [below]
  | succ n ih =>
      by_cases hEq : m = n + 1
      · subst hEq
        exact Nat.mod_eq_of_lt (below_lt h)
      · have hle : m ≤ n := by omega
        have hPow : 2 ^ (w * n) = 2 ^ (w * m) * 2 ^ (w * (n - m)) := by
          rw [← Nat.pow_add, ← Nat.mul_add, Nat.add_sub_cancel' hle]
        have hMul : d n * 2 ^ (w * n) = 2 ^ (w * m) * (2 ^ (w * (n - m)) * d n) := by
          rw [hPow]
          ring
        rw [below, hMul, Nat.add_mul_mod_self_left]
        exact ih (fun i hi => h i (by omega)) hle

/-- One changed limb changes the number by its weight. -/
theorem below_change {n i : Nat} (hi : i < n) (h : ∀ j, j ≠ i → d j = e j) :
    below w d n + e i * 2 ^ (w * i) = below w e n + d i * 2 ^ (w * i) := by
  induction n with
  | zero => omega
  | succ n ih =>
      rw [below, below]
      by_cases hEq : i = n
      · subst hEq
        rw [below_congr fun j hj => h j (by omega)]
        omega
      · have hStep := ih (by omega)
        rw [h n (Ne.symm hEq)]
        omega

/-- The bits of the number are the bits of its limbs. -/
theorem testBit_below {n p : Nat} (hw : 0 < w) (h : ∀ i, i < n → d i < 2 ^ w) :
    (below w d n).testBit p = (decide (p < w * n) && (d (p / w)).testBit (p % w)) := by
  induction n with
  | zero => simp [below]
  | succ n ih =>
      have hBelow := below_lt fun i hi => h i (Nat.lt_succ_of_lt hi)
      have hLimb : w * (n + 1) = w * n + w := Nat.mul_succ w n
      rw [below, Nat.add_comm, Nat.mul_comm, Nat.testBit_two_pow_mul_add _ hBelow,
        ih fun i hi => h i (by omega)]
      by_cases hp : p < w * n
      · have hLess : p < w * (n + 1) := by omega
        simp [hp, hLess]
      · rw [if_neg hp]
        by_cases hLess : p < w * (n + 1)
        · have hDiv : p / w = n := by
            rw [Nat.div_eq_iff hw]
            constructor
            · rw [Nat.mul_comm]
              omega
            · rw [Nat.mul_comm]
              omega
          have hMod : p % w = p - w * n := by
            have hSplit := Nat.div_add_mod p w
            rw [hDiv] at hSplit
            omega
          rw [hDiv, hMod]
          simp [hLess]
        · have hFar : 2 ^ w ≤ 2 ^ (p - w * n) := Nat.pow_le_pow_right (by omega) (by omega)
          rw [Nat.testBit_lt_two_pow (lt_of_lt_of_le (h n (by omega)) hFar)]
          simp [hLess]

end Nexus.Lib.Limbs
