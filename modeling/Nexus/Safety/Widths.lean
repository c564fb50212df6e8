import Nexus.LLC.BaseUint
import Nexus.Lib.Limbs
import Mathlib.Data.Nat.Size
import Mathlib.Data.Nat.Bitwise

/-!
# Wide integers compute exactly

The value of a `base_uint` is the number of its limbs.  Each loop of the operators
keeps an equation between the values below the limb that it has reached, with the
carry at that limb; what runs over the last limb is the multiple of `2 ^ BITS` that
the result is reduced by.  The shifts are compared bit by bit.
-/

namespace Nexus.Safety

open Nexus.LLC
open Nexus.Lib.Limbs

namespace Widths

variable {W : Nat} {a b p : BaseUint W}

/-- The limbs as numbers. -/
def digit (a : BaseUint W) (i : Nat) : Nat := (a.limb i).toNat

/-- The number that the limbs stand for. -/
def value (a : BaseUint W) : Nat := below 32 (digit a) W

theorem digit_lt (a : BaseUint W) (i : Nat) : digit a i < 2 ^ 32 := (a.limb i).toNat_lt

theorem value_lt (a : BaseUint W) : value a < 2 ^ (32 * W) := below_lt fun i _ => digit_lt a i

theorem value_zero : value (BaseUint.zero : BaseUint W) = 0 := by
  have hBelow : ∀ n, below 32 (digit (BaseUint.zero : BaseUint W)) n = 0 := by
    intro n
    induction n with
    | zero => rfl
    | succ n ih => simp [below, ih, digit]
  exact hBelow W

theorem digit_setLimb_of_ne {i j : Nat} (x : UInt32) (h : j ≠ i) :
    digit (a.setLimb i x) j = digit a j := by
  rw [digit, digit, BaseUint.limb_setLimb_of_ne x (Ne.symm h)]

theorem digit_setLimb_self {i : Nat} (x : UInt32) (h : i < W) :
    digit (a.setLimb i x) i = x.toNat := by
  rw [digit, BaseUint.limb_setLimb_self x h]

/-- One limb set changes the value by its weight. -/
theorem value_setLimb {i : Nat} (x : UInt32) (h : i < W) :
    value (a.setLimb i x) + digit a i * 2 ^ (32 * i) = value a + x.toNat * 2 ^ (32 * i) := by
  have hChange := below_change (w := 32) (d := digit (a.setLimb i x)) (e := digit a) h
    fun j hj => digit_setLimb_of_ne x hj
  rwa [digit_setLimb_self x h] at hChange

/-- A limb is what is set there, below it nothing changes. -/
theorem below_setLimb {i : Nat} (x : UInt32) (h : i < W) :
    below 32 (digit (a.setLimb i x)) (i + 1) = below 32 (digit a) i + x.toNat * 2 ^ (32 * i) := by
  rw [below, digit_setLimb_self x h, below_congr fun j hj => digit_setLimb_of_ne x (by omega)]

/-! ## Sums -/

/-- A sum of limbs is split into the limb and the carry. -/
theorem carry_split {n B : Nat} :
    (UInt32.ofNat n).toNat * B + n / 2 ^ 32 * (2 ^ 32 * B) = n * B := by
  have hMod : (UInt32.ofNat n).toNat = n % 2 ^ 32 := UInt32.toNat_ofNat'
  have hSplit : n % 2 ^ 32 + 2 ^ 32 * (n / 2 ^ 32) = n := Nat.mod_add_div n (2 ^ 32)
  rw [hMod]
  calc n % 2 ^ 32 * B + n / 2 ^ 32 * (2 ^ 32 * B)
      = (n % 2 ^ 32 + 2 ^ 32 * (n / 2 ^ 32)) * B := by ring
    _ = n * B := by rw [hSplit]

/-- What the loop of `+=` keeps before the limb `n`. -/
structure Added (a b : BaseUint W) (n : Nat) (s : BaseUint W × Nat) : Prop where
  sum : below 32 (digit s.1) n + s.2 * 2 ^ (32 * n) = below 32 (digit a) n + below 32 (digit b) n
  carry : s.2 < 2 ^ 32
  rest : ∀ i, n ≤ i → digit s.1 i = digit a i

theorem addStep_added {n : Nat} {s : BaseUint W × Nat} (hn : n < W) (h : Added a b n s) :
    Added a b (n + 1) (BaseUint.addStep b n s) := by
  have hA := digit_lt a n
  have hB := digit_lt b n
  have hC := h.carry
  have hSum : (s.2 + (s.1.limb n).toNat + (b.limb n).toNat) % 2 ^ 64 =
      s.2 + digit a n + digit b n := by
    rw [← h.rest n (by omega)] at hA ⊢
    exact Nat.mod_eq_of_lt (by simp only [digit] at hA hB ⊢; omega)
  simp only [BaseUint.addStep, hSum]
  constructor
  · show below 32 (digit (s.1.setLimb n _)) (n + 1) + _ = _
    have hIH := h.sum
    have hSplit := carry_split (n := s.2 + digit a n + digit b n) (B := 2 ^ (32 * n))
    rw [below_setLimb _ hn, pow_limb, below, below]
    rw [Nat.add_mul, Nat.add_mul] at hSplit
    linarith
  · show (s.2 + digit a n + digit b n) / 2 ^ 32 < 2 ^ 32
    omega
  · intro i hi
    show digit (s.1.setLimb n _) i = digit a i
    rw [digit_setLimb_of_ne _ (by omega)]
    exact h.rest i (by omega)

theorem value_add (a b : BaseUint W) :
    value (a.add b) = (value a + value b) % 2 ^ (32 * W) := by
  have hLoop : ∀ n, n ≤ W →
      Added a b n (Nat.fold n (fun i _ s => BaseUint.addStep b i s) (a, 0)) := by
    intro n hn
    induction n with
    | zero => exact ⟨by simp [below], by simp, fun _ _ => rfl⟩
    | succ n ih => exact addStep_added (by omega) (ih (by omega))
  have hSum := (hLoop W le_rfl).sum
  have hLt := value_lt (a.add b)
  show value (a.add b) = (below 32 (digit a) W + below 32 (digit b) W) % 2 ^ (32 * W)
  rw [← hSum, Nat.add_mul_mod_self_right]
  exact (Nat.mod_eq_of_lt hLt).symm

/-! ## Differences -/

theorem value_complement (a : BaseUint W) : value a.complement + value a + 1 = 2 ^ (32 * W) := by
  have hLoop : ∀ n, n ≤ W → below 32 (digit (Nat.fold n
      (fun i _ (r : BaseUint W) => r.setLimb i (~~~ a.limb i)) BaseUint.zero)) n +
        below 32 (digit a) n + 1 = 2 ^ (32 * n) := by
    intro n hn
    induction n with
    | zero => simp [below]
    | succ n ih =>
        have hIH := ih (by omega)
        have hLimb : (~~~ a.limb n).toNat + digit a n + 1 = 2 ^ 32 := by
          have hlt := digit_lt a n
          simp only [digit, UInt32.toNat_not, UInt32.size] at hlt ⊢
          omega
        have hWeight : (~~~ a.limb n).toNat * 2 ^ (32 * n) + digit a n * 2 ^ (32 * n) +
            2 ^ (32 * n) = 2 ^ 32 * 2 ^ (32 * n) := by
          rw [← hLimb]
          ring
        rw [Nat.fold_succ, below_setLimb _ (by omega), below, pow_limb]
        omega
  exact hLoop W le_rfl

/-- From the limb that the loop has reached, `++` adds its weight. -/
theorem value_incrementLoop (left : Nat) (a : BaseUint W) (h : left ≤ W) (hPos : 0 < left) :
    value (BaseUint.incrementLoop left a) =
      (value a + 2 ^ (32 * (W - left))) % 2 ^ (32 * W) := by
  induction left generalizing a with
  | zero => omega
  | succ left ih =>
      have hi : W - (left + 1) < W := by omega
      have hSet := value_setLimb (a := a) (a.limb (W - (left + 1)) + 1) hi
      have hNew : (a.setLimb (W - (left + 1)) (a.limb (W - (left + 1)) + 1)).limb (W - (left + 1)) =
          a.limb (W - (left + 1)) + 1 := BaseUint.limb_setLimb_self _ hi
      have hPow : 2 ^ (32 * (W - left)) = 2 ^ 32 * 2 ^ (32 * (W - (left + 1))) := by
        rw [← pow_limb]
        congr 2
        omega
      have hLimb := digit_lt a (W - (left + 1))
      have hLt := value_lt (a.setLimb (W - (left + 1)) (a.limb (W - (left + 1)) + 1))
      simp only [BaseUint.incrementLoop, hNew]
      by_cases hWrap : a.limb (W - (left + 1)) + 1 = 0
      · have hMax : digit a (W - (left + 1)) = 2 ^ 32 - 1 := by
          have hToNat := congrArg UInt32.toNat hWrap
          simp only [UInt32.toNat_add, UInt32.toNat_ofNat] at hToNat
          simp only [digit] at hLimb ⊢
          omega
        rw [hWrap, hMax] at hSet
        rw [UInt32.toNat_zero, Nat.zero_mul, Nat.add_zero, Nat.sub_mul, Nat.one_mul] at hSet
        have hOne : 2 ^ (32 * (W - (left + 1))) ≤ 2 ^ 32 * 2 ^ (32 * (W - (left + 1))) :=
          Nat.le_mul_of_pos_left _ (by norm_num)
        by_cases hLast : W - (left + 1) < W - 1
        · rw [if_pos ⟨hWrap, hLast⟩, ih _ (by omega) (by omega), hPow]
          congr 1
          rw [hWrap]
          omega
        · obtain rfl : left = 0 := by omega
          rw [if_neg fun h => hLast h.2]
          have hTop : 2 ^ (32 * W) = 2 ^ 32 * 2 ^ (32 * (W - 1)) := by
            rw [← pow_limb]
            congr 2
            omega
          rw [hWrap] at hLt ⊢
          rw [← Nat.mod_eq_of_lt hLt, ← Nat.add_mod_right, hTop]
          congr 1
          simp only [Nat.zero_add] at hSet hOne ⊢
          omega
      · have hStep : (a.limb (W - (left + 1)) + 1).toNat = digit a (W - (left + 1)) + 1 := by
          rw [UInt32.toNat_add]
          refine Nat.mod_eq_of_lt ?_
          by_contra hBig
          apply hWrap
          apply UInt32.toNat_inj.mp
          rw [UInt32.toNat_add]
          simp only [digit, UInt32.toNat_ofNat] at hLimb hBig ⊢
          omega
        rw [hStep, Nat.add_mul, Nat.one_mul] at hSet
        rw [if_neg fun h => hWrap h.1]
        have hSum : value a + 2 ^ (32 * (W - (left + 1))) =
            value (a.setLimb (W - (left + 1)) (a.limb (W - (left + 1)) + 1)) := by omega
        rw [hSum, Nat.mod_eq_of_lt hLt]

theorem value_negate (a : BaseUint W) : value a.negate = (2 ^ (32 * W) - value a) % 2 ^ (32 * W) := by
  have hNot := value_complement a
  have hOne : 2 ^ (32 * W) - value a = value a.complement + 1 := by omega
  by_cases hW : W = 0
  · subst hW
    simp [value, below]
  · rw [BaseUint.negate, BaseUint.increment, value_incrementLoop W _ le_rfl (by omega), hOne]
    simp

theorem value_sub (a b : BaseUint W) :
    value (a.sub b) = (value a + (2 ^ (32 * W) - value b)) % 2 ^ (32 * W) := by
  rw [BaseUint.sub, value_add, value_negate, Nat.add_mod_mod]

theorem value_sub_of_le (h : value b ≤ value a) : value (a.sub b) = value a - value b := by
  have hA := value_lt a
  have hB := value_lt b
  have hSum : value a + (2 ^ (32 * W) - value b) = value a - value b + 2 ^ (32 * W) := by omega
  rw [value_sub, hSum, Nat.add_mod_right]
  exact Nat.mod_eq_of_lt (by omega)

/-! ## Products -/

/-- What the inner loop of `*=` keeps before the limb `j + n`. -/
structure Multiplied (a b : BaseUint W) (x : UInt32) (j n : Nat) (s : BaseUint W × Nat) : Prop where
  sum : below 32 (digit s.1) (n + j) + s.2 * 2 ^ (32 * (n + j)) =
    below 32 (digit a) (n + j) + x.toNat * (2 ^ (32 * j) * below 32 (digit b) n)
  carry : s.2 < 2 ^ 32
  rest : ∀ i, n + j ≤ i → digit s.1 i = digit a i

theorem mulStep_multiplied {x : UInt32} {j n : Nat} {s : BaseUint W × Nat} (hn : n + j < W)
    (h : Multiplied a b x j n s) : Multiplied a b x j (n + 1) (BaseUint.mulStep x b j n s) := by
  have hA := digit_lt a (n + j)
  have hB := digit_lt b n
  have hX : x.toNat < 2 ^ 32 := x.toNat_lt
  have hC := h.carry
  -- The 64-bit product of two limbs has room for two more limbs.
  have hProduct : x.toNat * digit b n ≤ (2 ^ 32 - 1) * (2 ^ 32 - 1) :=
    Nat.mul_le_mul (by omega) (by omega)
  have hSum : (s.2 + (s.1.limb (n + j)).toNat + x.toNat * (b.limb n).toNat) % 2 ^ 64 =
      s.2 + digit a (n + j) + x.toNat * digit b n := by
    rw [← h.rest (n + j) le_rfl] at hA ⊢
    exact Nat.mod_eq_of_lt (by simp only [digit] at hA hProduct ⊢; omega)
  simp only [BaseUint.mulStep, hSum]
  have hNext : n + 1 + j = n + j + 1 := by omega
  constructor
  · show below 32 (digit (s.1.setLimb (n + j) _)) (n + 1 + j) + _ = _
    have hIH := h.sum
    have hSplit := carry_split (n := s.2 + digit a (n + j) + x.toNat * digit b n)
      (B := 2 ^ (32 * (n + j)))
    have hShift : 2 ^ (32 * (n + j)) = 2 ^ (32 * n) * 2 ^ (32 * j) := by
      rw [← Nat.pow_add, ← Nat.mul_add]
    rw [hNext, below_setLimb _ hn, pow_limb, below, below, Nat.mul_add (2 ^ (32 * j)),
      Nat.mul_add x.toNat]
    rw [Nat.add_mul, Nat.add_mul] at hSplit
    have hTerm : x.toNat * digit b n * 2 ^ (32 * (n + j)) =
        x.toNat * (2 ^ (32 * j) * (digit b n * 2 ^ (32 * n))) := by
      rw [hShift]
      ring
    rw [hTerm] at hSplit
    generalize 2 ^ (32 * (n + j)) = P at hIH hSplit ⊢
    linarith
  · show (s.2 + digit a (n + j) + x.toNat * digit b n) / 2 ^ 32 < 2 ^ 32
    omega
  · intro i hi
    show digit (s.1.setLimb (n + j) _) i = digit a i
    rw [digit_setLimb_of_ne _ (by omega)]
    exact h.rest i (by omega)

/-- A row adds the product with one limb at the place of this limb. -/
theorem value_mulRow (x : UInt32) (a b : BaseUint W) {j : Nat} (hj : j ≤ W) :
    value (BaseUint.mulRow x b j a) =
      (value a + x.toNat * (2 ^ (32 * j) * value b)) % 2 ^ (32 * W) := by
  have hLoop : ∀ n, n + j ≤ W →
      Multiplied a b x j n (Nat.fold n (fun i _ s => BaseUint.mulStep x b j i s) (a, 0)) := by
    intro n hn
    induction n with
    | zero => exact ⟨by simp [below], by simp, fun _ _ => rfl⟩
    | succ n ih => exact mulStep_multiplied (by omega) (ih (by omega))
  have hSum := (hLoop (W - j) (by omega)).sum
  have hLt := value_lt (BaseUint.mulRow x b j a)
  have hPow : 2 ^ (32 * W) = 2 ^ (32 * j) * 2 ^ (32 * (W - j)) := by
    rw [← Nat.pow_add, ← Nat.mul_add]
    congr 2
    omega
  have hCut : 2 ^ (32 * j) * value b % 2 ^ (32 * W) = 2 ^ (32 * j) * below 32 (digit b) (W - j) := by
    rw [hPow, Nat.mul_mod_mul_left, value, below_mod (fun i _ => digit_lt b i) (by omega)]
  have hRow : x.toNat * (2 ^ (32 * j) * value b) % 2 ^ (32 * W) =
      x.toNat * (2 ^ (32 * j) * below 32 (digit b) (W - j)) % 2 ^ (32 * W) := by
    rw [Nat.mul_mod, hCut, Nat.mod_mul_mod]
  rw [Nat.sub_add_cancel hj] at hSum
  rw [Nat.add_mod, hRow, ← Nat.add_mod]
  show value (BaseUint.mulRow x b j a) = (below 32 (digit a) W + _) % 2 ^ (32 * W)
  rw [← hSum, Nat.add_mul_mod_self_right]
  exact (Nat.mod_eq_of_lt hLt).symm

theorem value_mul (a b : BaseUint W) :
    value (a.mul b) = value a * value b % 2 ^ (32 * W) := by
  have hLoop : ∀ n, n ≤ W → value (Nat.fold n
      (fun j _ r => BaseUint.mulRow (a.limb j) b j r) (BaseUint.zero : BaseUint W)) =
        below 32 (digit a) n * value b % 2 ^ (32 * W) := by
    intro n hn
    induction n with
    | zero => simp [value_zero, below]
    | succ n ih =>
        rw [Nat.fold_succ, value_mulRow _ _ _ (by omega), ih (by omega), Nat.mod_add_mod, below,
          Nat.add_mul, Nat.mul_assoc (digit a n)]
        rfl
  exact hLoop W le_rfl

/-! ## Comparisons -/

theorem ltLoop_iff (a b : BaseUint W) (n : Nat) :
    BaseUint.ltLoop a b n = true ↔ below 32 (digit a) n < below 32 (digit b) n := by
  induction n with
  | zero => simp [BaseUint.ltLoop, below]
  | succ n ih =>
      have hA := below_lt (w := 32) (n := n) fun i _ => digit_lt a i
      have hB := below_lt (w := 32) (n := n) fun i _ => digit_lt b i
      rw [BaseUint.ltLoop, below, below]
      by_cases hLess : a.limb n < b.limb n
      · have hWeight : (digit a n + 1) * 2 ^ (32 * n) ≤ digit b n * 2 ^ (32 * n) :=
          Nat.mul_le_mul_right _ (UInt32.lt_iff_toNat_lt.mp hLess)
        rw [Nat.add_mul] at hWeight
        simp only [hLess, if_true, true_iff]
        omega
      · rw [if_neg hLess]
        by_cases hMore : a.limb n > b.limb n
        · have hWeight : (digit b n + 1) * 2 ^ (32 * n) ≤ digit a n * 2 ^ (32 * n) :=
            Nat.mul_le_mul_right _ (UInt32.lt_iff_toNat_lt.mp hMore)
          rw [Nat.add_mul] at hWeight
          simp only [hMore, if_true, Bool.false_eq_true, false_iff]
          omega
        · have hEq : digit a n = digit b n :=
            Nat.le_antisymm (Nat.le_of_not_lt fun h => hMore (UInt32.lt_iff_toNat_lt.mpr h))
              (Nat.le_of_not_lt fun h => hLess (UInt32.lt_iff_toNat_lt.mpr h))
          rw [if_neg hMore, ih, hEq]
          omega

/-- `>` is `<` with the sides exchanged. -/
theorem gtLoop_eq (a b : BaseUint W) (n : Nat) :
    BaseUint.gtLoop a b n = BaseUint.ltLoop b a n := by
  induction n with
  | zero => rfl
  | succ n ih => rw [BaseUint.gtLoop, BaseUint.ltLoop, ih]

/-- `<=` is the negation of `>`. -/
theorem leLoop_eq (a b : BaseUint W) (n : Nat) :
    BaseUint.leLoop a b n = !BaseUint.gtLoop a b n := by
  induction n with
  | zero => rfl
  | succ n ih =>
      rw [BaseUint.leLoop, BaseUint.gtLoop, ih]
      by_cases hLess : a.limb n < b.limb n
      · have hMore : ¬ a.limb n > b.limb n := fun h => absurd (UInt32.lt_trans h hLess) (UInt32.lt_irrefl _)
        simp [hLess, hMore]
      · by_cases hMore : a.limb n > b.limb n
        · simp [hLess, hMore]
        · simp [hLess, hMore]

/-- `>=` is `<=` with the sides exchanged. -/
theorem geLoop_eq (a b : BaseUint W) (n : Nat) :
    BaseUint.geLoop a b n = BaseUint.leLoop b a n := by
  induction n with
  | zero => rfl
  | succ n ih => rw [BaseUint.geLoop, BaseUint.leLoop, ih]

theorem lt_iff (a b : BaseUint W) : a.lt b = true ↔ value a < value b := ltLoop_iff a b W

theorem gt_iff (a b : BaseUint W) : a.gt b = true ↔ value b < value a := by
  rw [BaseUint.gt, gtLoop_eq]
  exact ltLoop_iff b a W

theorem le_iff (a b : BaseUint W) : a.le b = true ↔ value a ≤ value b := by
  have hGt := gt_iff a b
  rw [BaseUint.gt] at hGt
  rw [BaseUint.le, leLoop_eq, Bool.not_eq_true', ← Bool.not_eq_true, hGt, Nat.not_lt]

theorem ge_iff (a b : BaseUint W) : a.ge b = true ↔ value b ≤ value a := by
  rw [BaseUint.ge, geLoop_eq]
  exact le_iff b a

/-- Equal values have equal limbs. -/
theorem digit_eq_of_value (h : value a = value b) {i : Nat} (hi : i < W) : digit a i = digit b i := by
  have hCut : ∀ m, m ≤ W → below 32 (digit a) m = below 32 (digit b) m := by
    intro m hm
    rw [← below_mod (fun i _ => digit_lt a i) hm, ← below_mod (fun i _ => digit_lt b i) hm]
    exact congrArg (· % 2 ^ (32 * m)) h
  have hNext := hCut (i + 1) hi
  rw [below, below, hCut i (by omega)] at hNext
  exact Nat.eq_of_mul_eq_mul_right (by positivity) (Nat.add_left_cancel hNext)

theorem eq_iff (a b : BaseUint W) : a.eq b = true ↔ value a = value b := by
  simp only [BaseUint.eq, List.all_eq_true, List.mem_range, beq_iff_eq]
  constructor
  · intro h
    exact below_congr fun i hi => congrArg UInt32.toNat (h i hi)
  · intro h i hi
    exact UInt32.toNat_inj.mp (digit_eq_of_value h hi)

/-! ## Shifts -/

theorem testBit_value (a : BaseUint W) (p : Nat) :
    (value a).testBit p = (decide (p < 32 * W) && (digit a (p / 32)).testBit (p % 32)) :=
  testBit_below (by norm_num) fun i _ => digit_lt a i

/-- The limbs past the width are zero, so the bound on the place may be left out. -/
theorem testBit_value' (a : BaseUint W) (p : Nat) :
    (value a).testBit p = (digit a (p / 32)).testBit (p % 32) := by
  rw [testBit_value]
  by_cases hp : p < 32 * W
  · simp [hp]
  · have hZero : digit a (p / 32) = 0 := by
      rw [digit, BaseUint.limb_of_le (by omega)]
      rfl
    simp [hp, hZero]

theorem limb_orLimb (a : BaseUint W) (i j : Nat) (x : UInt32) :
    (a.orLimb i x).limb j = if i = j ∧ i < W then a.limb j ||| x else a.limb j := by
  rw [BaseUint.orLimb, BaseUint.limb_setLimb]
  by_cases hij : i = j ∧ i < W
  · rw [if_pos hij, if_pos hij, hij.1]
  · rw [if_neg hij, if_neg hij]

theorem testBit_shiftLeft {x : UInt32} {s q : Nat} (hs : s < 32) (hq : q < 32) :
    (x <<< UInt32.ofNat s).toNat.testBit q = (decide (s ≤ q) && x.toNat.testBit (q - s)) := by
  have hToNat : (UInt32.ofNat s).toNat = s := UInt32.toNat_ofNat_of_lt' (by
    show s < 2 ^ 32
    omega)
  rw [UInt32.toNat_shiftLeft, hToNat, Nat.mod_eq_of_lt hs, Nat.testBit_mod_two_pow,
    Nat.testBit_shiftLeft]
  simp [hq]

theorem testBit_shiftRight {x : UInt32} {s q : Nat} (hs : s < 32) :
    (x >>> UInt32.ofNat s).toNat.testBit q = x.toNat.testBit (q + s) := by
  have hToNat : (UInt32.ofNat s).toNat = s := UInt32.toNat_ofNat_of_lt' (by
    show s < 2 ^ 32
    omega)
  rw [UInt32.toNat_shiftRight, hToNat, Nat.mod_eq_of_lt hs, Nat.testBit_shiftRight, Nat.add_comm]

/-- Bits above the limb are clear. -/
theorem testBit_limb {x : UInt32} {q : Nat} (hq : 32 ≤ q) : x.toNat.testBit q = false := by
  have hPow : 2 ^ 32 ≤ 2 ^ q := Nat.pow_le_pow_right (by norm_num) hq
  exact Nat.testBit_lt_two_pow (lt_of_lt_of_le x.toNat_lt hPow)

/-- The limbs of `<<=` after `n` turns. -/
theorem limb_shlLoop (a : BaseUint W) (k s n : Nat) {m : Nat} (hm : m < W) :
    (Nat.fold n (fun i _ r => BaseUint.shlStep a k s i r) BaseUint.zero).limb m =
      (if k ≤ m ∧ m - k < n then a.limb (m - k) <<< UInt32.ofNat s else 0) |||
        (if k + 1 ≤ m ∧ m - k - 1 < n ∧ s ≠ 0 then
          a.limb (m - k - 1) >>> UInt32.ofNat (32 - s) else 0) := by
  induction n with
  | zero => simp
  | succ n ih =>
      rw [Nat.fold_succ]
      generalize Nat.fold n (fun i _ r => BaseUint.shlStep a k s i r) BaseUint.zero = r at ih
      simp only [BaseUint.shlStep]
      by_cases hHigh : n + k + 1 = m
      · -- the bits that leave the limb `n` at the top
        subst hHigh
        rw [if_pos (by omega), limb_orLimb, if_neg (by omega)]
        by_cases hs : s = 0
        · rw [if_neg fun h => h.2 hs, ih]
          simp [hs, show ¬ n + k + 1 - k < n + 1 by omega, show ¬ n + k + 1 - k < n by omega]
        · rw [if_pos ⟨hm, hs⟩, limb_orLimb, if_pos ⟨rfl, hm⟩, ih]
          have hAt : n + k + 1 - k - 1 = n := by omega
          simp [hs, hAt, show ¬ n + k + 1 - k < n + 1 by omega, show ¬ n + k + 1 - k < n by omega]
      · have hSame : (if n + k + 1 < W ∧ s ≠ 0 then
            r.orLimb (n + k + 1) (a.limb n >>> UInt32.ofNat (32 - s)) else r).limb m = r.limb m := by
          split
          · rw [limb_orLimb, if_neg fun h => hHigh h.1]
          · rfl
        by_cases hLow : n + k = m
        · -- the bits that stay in their limb
          subst hLow
          have hAt : n + k - k = n := by omega
          rw [if_pos hm, limb_orLimb, if_pos ⟨rfl, hm⟩, hSame, ih, hAt]
          by_cases hFirst : n = 0
          · simp [hFirst]
          · simp [show k + 1 ≤ n + k by omega, show n - 1 < n by omega,
              show n - 1 < n + 1 by omega, UInt32.or_comm]
        · have hOther : (m - k < n + 1 ∧ k ≤ m) ↔ (m - k < n ∧ k ≤ m) := by omega
          have hNext : (m - k - 1 < n + 1 ∧ k + 1 ≤ m) ↔ (m - k - 1 < n ∧ k + 1 ≤ m) := by omega
          have hFrame : ∀ u : BaseUint W, (if n + k < W then
              u.orLimb (n + k) (a.limb n <<< UInt32.ofNat s) else u).limb m = u.limb m := by
            intro u
            split
            · rw [limb_orLimb, if_neg fun h => hLow h.1]
            · rfl
          rw [hFrame, hSame, ih]
          congr 1
          · exact if_congr (by rw [and_comm, ← hOther, and_comm]) rfl rfl
          · exact if_congr (by rw [← and_assoc, ← and_assoc, and_comm (a := k + 1 ≤ m), ← hNext,
              and_comm (a := k + 1 ≤ m)]) rfl rfl

theorem value_shl (a : BaseUint W) (shift : UInt32) :
    value (a.shl shift) = value a * 2 ^ shift.toNat % 2 ^ (32 * W) := by
  apply Nat.eq_of_testBit_eq
  intro p
  rw [testBit_value, Nat.testBit_mod_two_pow, Nat.testBit_mul_two_pow]
  by_cases hp : p < 32 * W
  · have hm : p / 32 < W := by omega
    have hs : shift.toNat % 32 < 32 := Nat.mod_lt _ (by norm_num)
    have hq : p % 32 < 32 := Nat.mod_lt _ (by norm_num)
    rw [testBit_value']
    simp only [hp, decide_true, Bool.true_and, digit, BaseUint.shl, limb_shlLoop a _ _ _ hm,
      UInt32.toNat_or, Nat.testBit_or]
    by_cases hLow : shift.toNat % 32 ≤ p % 32
    · have hHigh : (if shift.toNat / 32 + 1 ≤ p / 32 ∧ p / 32 - shift.toNat / 32 - 1 < W ∧
          shift.toNat % 32 ≠ 0 then a.limb (p / 32 - shift.toNat / 32 - 1) >>>
            UInt32.ofNat (32 - shift.toNat % 32) else 0).toNat.testBit (p % 32) = false := by
        split
        · rw [testBit_shiftRight (by omega), testBit_limb (by omega)]
        · simp
      rw [hHigh, Bool.or_false]
      by_cases hk : shift.toNat / 32 ≤ p / 32
      · have hLess : shift.toNat ≤ p := by omega
        have hDiv : (p - shift.toNat) / 32 = p / 32 - shift.toNat / 32 := by omega
        have hMod : (p - shift.toNat) % 32 = p % 32 - shift.toNat % 32 := by omega
        rw [if_pos ⟨hk, by omega⟩, testBit_shiftLeft hs hq, hDiv, hMod]
        simp [hLow, hLess]
      · have hLess : ¬ shift.toNat ≤ p := by omega
        simp [hk, hLess]
    · have hZero : (if shift.toNat / 32 ≤ p / 32 ∧ p / 32 - shift.toNat / 32 < W then
          a.limb (p / 32 - shift.toNat / 32) <<< UInt32.ofNat (shift.toNat % 32)
            else 0).toNat.testBit (p % 32) = false := by
        split
        · rw [testBit_shiftLeft hs hq]
          simp [hLow]
        · simp
      rw [hZero, Bool.false_or]
      by_cases hk : shift.toNat / 32 + 1 ≤ p / 32
      · have hLess : shift.toNat ≤ p := by omega
        have hDiv : (p - shift.toNat) / 32 = p / 32 - shift.toNat / 32 - 1 := by omega
        have hMod : (p - shift.toNat) % 32 = p % 32 + (32 - shift.toNat % 32) := by omega
        rw [if_pos ⟨hk, by omega, by omega⟩, testBit_shiftRight (by omega), hDiv, hMod]
        simp [hLess]
      · have hLess : ¬ shift.toNat ≤ p := by omega
        simp [hk, hLess]
  · simp [hp]

/-- The limbs of `>>=` after `n` turns. -/
theorem limb_shrLoop (a : BaseUint W) (k s n : Nat) {m : Nat} (hm : m < W) :
    (Nat.fold n (fun i _ r => BaseUint.shrStep a k s i r) BaseUint.zero).limb m =
      (if m + k < n then a.limb (m + k) >>> UInt32.ofNat s else 0) |||
        (if m + k + 1 < n ∧ s ≠ 0 then
          a.limb (m + k + 1) <<< UInt32.ofNat (32 - s) else 0) := by
  induction n with
  | zero => simp
  | succ n ih =>
      rw [Nat.fold_succ]
      generalize Nat.fold n (fun i _ r => BaseUint.shrStep a k s i r) BaseUint.zero = r at ih
      simp only [BaseUint.shrStep]
      by_cases hLow : m + k = n
      · -- the bits that stay in their limb
        have hAt : n - k = m := by omega
        have hSame : (if k + 1 ≤ n ∧ s ≠ 0 then
            r.orLimb (n - k - 1) (a.limb n <<< UInt32.ofNat (32 - s)) else r).limb m = r.limb m := by
          split
          · rw [limb_orLimb, if_neg (by omega)]
          · rfl
        rw [if_pos (by omega), limb_orLimb, if_pos ⟨hAt, hAt ▸ hm⟩, hSame, ih, hLow]
        simp
      · have hSame : ∀ u : BaseUint W, (if k ≤ n then
            u.orLimb (n - k) (a.limb n >>> UInt32.ofNat s) else u).limb m = u.limb m := by
          intro u
          split
          · rw [limb_orLimb, if_neg (by omega)]
          · rfl
        rw [hSame]
        by_cases hHigh : m + k + 1 = n
        · -- the bits that leave the limb `n` at the bottom
          have hAt : n - k - 1 = m := by omega
          by_cases hs : s = 0
          · rw [if_neg fun h => h.2 hs, ih]
            simp [hs, show m + k < n by omega, show m + k < n + 1 by omega]
          · rw [if_pos ⟨by omega, hs⟩, hAt, limb_orLimb, if_pos ⟨rfl, hm⟩, ih, hHigh]
            simp [hs, show m + k < n by omega, show m + k < n + 1 by omega]
        · have hFrame : (if k + 1 ≤ n ∧ s ≠ 0 then
              r.orLimb (n - k - 1) (a.limb n <<< UInt32.ofNat (32 - s)) else r).limb m =
                r.limb m := by
            split
            · rw [limb_orLimb, if_neg (by omega)]
            · rfl
          have hFirst : m + k < n + 1 ↔ m + k < n := by omega
          have hNext : m + k + 1 < n + 1 ↔ m + k + 1 < n := by omega
          rw [hFrame, ih]
          simp only [hFirst, hNext]

theorem value_shr (a : BaseUint W) (shift : UInt32) :
    value (a.shr shift) = value a / 2 ^ shift.toNat := by
  apply Nat.eq_of_testBit_eq
  intro p
  rw [testBit_value, Nat.testBit_div_two_pow]
  have hs : shift.toNat % 32 < 32 := Nat.mod_lt _ (by norm_num)
  have hq : p % 32 < 32 := Nat.mod_lt _ (by norm_num)
  by_cases hp : p < 32 * W
  · have hm : p / 32 < W := by omega
    rw [testBit_value' a]
    simp only [hp, decide_true, Bool.true_and, digit, BaseUint.shr, limb_shrLoop a _ _ _ hm,
      UInt32.toNat_or, Nat.testBit_or]
    -- Past the width the limbs of `a` are zero, as the limbs that the loop leaves alone.
    have hLowLimb : (if p / 32 + shift.toNat / 32 < W then a.limb (p / 32 + shift.toNat / 32) >>>
        UInt32.ofNat (shift.toNat % 32) else 0) =
          a.limb (p / 32 + shift.toNat / 32) >>> UInt32.ofNat (shift.toNat % 32) := by
      split
      · rfl
      · rw [BaseUint.limb_of_le (by omega), UInt32.zero_shiftRight]
    rw [hLowLimb, testBit_shiftRight hs]
    by_cases hIn : p % 32 + shift.toNat % 32 < 32
    · have hDiv : (p + shift.toNat) / 32 = p / 32 + shift.toNat / 32 := by omega
      have hMod : (p + shift.toNat) % 32 = p % 32 + shift.toNat % 32 := by omega
      have hHigh : (if p / 32 + shift.toNat / 32 + 1 < W ∧ shift.toNat % 32 ≠ 0 then
          a.limb (p / 32 + shift.toNat / 32 + 1) <<< UInt32.ofNat (32 - shift.toNat % 32)
            else 0).toNat.testBit (p % 32) = false := by
        split
        · rw [testBit_shiftLeft (by omega) hq]
          simp [show ¬ 32 - shift.toNat % 32 ≤ p % 32 by omega]
        · simp
      rw [hHigh, Bool.or_false, hDiv, hMod]
    · have hDiv : (p + shift.toNat) / 32 = p / 32 + shift.toNat / 32 + 1 := by omega
      have hMod : (p + shift.toNat) % 32 = p % 32 - (32 - shift.toNat % 32) := by omega
      rw [testBit_limb (by omega), Bool.false_or, hDiv, hMod]
      by_cases hIn' : p / 32 + shift.toNat / 32 + 1 < W
      · rw [if_pos ⟨hIn', by omega⟩, testBit_shiftLeft (by omega) hq]
        simp [show 32 - shift.toNat % 32 ≤ p % 32 by omega]
      · rw [if_neg fun h => hIn' h.1, BaseUint.limb_of_le (by omega)]
        simp
  · rw [testBit_value]
    simp [hp, show ¬ p + shift.toNat < 32 * W by omega]

/-! ## Bits -/

theorem topBit_spec {x : UInt32} {n : Nat} (hn : n < 32) (h0 : x ≠ 0) (h : x.toNat < 2 ^ (n + 1)) :
    2 ^ BaseUint.topBit x n ≤ x.toNat ∧ x.toNat < 2 ^ (BaseUint.topBit x n + 1) := by
  induction n with
  | zero =>
      have hPos : x.toNat ≠ 0 := fun h => h0 (UInt32.toNat_inj.mp h)
      simp only [BaseUint.topBit]
      omega
  | succ n ih =>
      have hMask : x &&& (1 <<< UInt32.ofNat (n + 1)) ≠ 0 ↔ x.toNat.testBit (n + 1) = true := by
        have hToNat : (UInt32.ofNat (n + 1)).toNat = n + 1 := UInt32.toNat_ofNat_of_lt' (by
          show n + 1 < 2 ^ 32
          omega)
        have hPow : 2 ^ (n + 1) < 2 ^ 32 := Nat.pow_lt_pow_right (by norm_num) hn
        have hAnd : (x &&& (1 <<< UInt32.ofNat (n + 1))).toNat = x.toNat &&& 2 ^ (n + 1) := by
          rw [UInt32.toNat_and, UInt32.toNat_shiftLeft, hToNat, Nat.mod_eq_of_lt hn,
            UInt32.toNat_one, Nat.one_shiftLeft, Nat.mod_eq_of_lt hPow]
        rw [ne_eq, ← UInt32.toNat_inj, hAnd, UInt32.toNat_zero, Nat.and_two_pow]
        cases x.toNat.testBit (n + 1) <;> simp
      rw [BaseUint.topBit]
      by_cases hBit : x.toNat.testBit (n + 1) = true
      · rw [if_pos (hMask.mpr hBit)]
        exact ⟨Nat.ge_two_pow_of_testBit hBit, h⟩
      · rw [if_neg fun hSet => hBit (hMask.mp hSet)]
        apply ih (by omega)
        apply Nat.lt_pow_two_of_testBit
        intro i hi
        by_cases hAt : i = n + 1
        · rw [hAt]
          exact Bool.eq_false_iff.mpr hBit
        · have hPow : 2 ^ (n + 1 + 1) ≤ 2 ^ i := Nat.pow_le_pow_right (by norm_num) (by omega)
          exact Nat.testBit_lt_two_pow (lt_of_lt_of_le h hPow)

theorem bitsLoop_spec (a : BaseUint W) (n : Nat) :
    BaseUint.bitsLoop a n = (below 32 (digit a) n).size := by
  induction n with
  | zero => simp [BaseUint.bitsLoop, below]
  | succ n ih =>
      have hBelow := below_lt (w := 32) (n := n) fun i _ => digit_lt a i
      rw [BaseUint.bitsLoop, below]
      by_cases hZero : a.limb n = 0
      · have hDigit : digit a n = 0 := congrArg UInt32.toNat hZero
        rw [if_neg fun h => h hZero, hDigit, ih]
        simp
      · obtain ⟨hLow, hHigh⟩ := topBit_spec (n := 31) (by norm_num) hZero (a.limb n).toNat_lt
        generalize BaseUint.topBit (a.limb n) 31 = t at hLow hHigh ⊢
        have hLowSum : 2 ^ t * 2 ^ (32 * n) ≤ digit a n * 2 ^ (32 * n) :=
          Nat.mul_le_mul_right _ hLow
        have hHighSum : (digit a n + 1) * 2 ^ (32 * n) ≤ 2 ^ (t + 1) * 2 ^ (32 * n) :=
          Nat.mul_le_mul_right _ hHigh
        rw [← Nat.pow_add, Nat.add_mul] at hHighSum
        rw [← Nat.pow_add] at hLowSum
        rw [if_pos hZero]
        apply Nat.le_antisymm
        · apply Nat.lt_size.mpr
          have hExp : 32 * n + t = t + 32 * n := Nat.add_comm _ _
          rw [hExp]
          omega
        · apply Nat.size_le.mpr
          have hExp : 32 * n + t + 1 = t + 1 + 32 * n := by omega
          rw [hExp]
          omega

/-- `bits` is the place of the highest bit that is set, counted from 1. -/
theorem bits_eq (a : BaseUint W) : a.bits = (value a).size := bitsLoop_spec a W

/-! ## Quotients -/

/-- A bit of the quotient is set where no lower bit is set yet. -/
theorem value_orLimb {q : BaseUint W} {s : Nat} (hs : s < 32 * W) (h : 2 ^ (s + 1) ∣ value q) :
    value (q.orLimb (s / 32) (1 <<< UInt32.ofNat (s % 32))) = value q + 2 ^ s := by
  have hBits : value (q.orLimb (s / 32) (1 <<< UInt32.ofNat (s % 32))) = value q ||| 2 ^ s := by
    apply Nat.eq_of_testBit_eq
    intro p
    have hq : p % 32 < 32 := Nat.mod_lt _ (by norm_num)
    rw [Nat.testBit_or, testBit_value', testBit_value', digit, limb_orLimb, Nat.testBit_two_pow]
    by_cases hLimb : s / 32 = p / 32
    · rw [if_pos ⟨hLimb, by omega⟩, UInt32.toNat_or, Nat.testBit_or,
        testBit_shiftLeft (Nat.mod_lt _ (by norm_num)) hq, UInt32.toNat_one]
      congr 1
      by_cases hAt : s = p
      · simp [hAt]
      · have hOne : (1 : Nat).testBit (p % 32 - s % 32) = decide (p % 32 - s % 32 = 0) := by
          rw [Bool.eq_iff_iff, Nat.testBit_one_eq_true_iff_self_eq_zero, decide_eq_true_eq]
        by_cases hle : s % 32 ≤ p % 32
        · simp [hle, hAt, hOne, show ¬ p % 32 - s % 32 = 0 by omega]
        · simp [hle, hAt]
    · rw [if_neg fun h => hLimb h.1]
      simp [digit, show ¬ s = p by omega]
  obtain ⟨c, hc⟩ := h
  rw [hBits, hc, ← Nat.two_pow_add_eq_or_of_lt (Nat.pow_lt_pow_right (by norm_num) (by omega))]

/-- What the loop of `/=` keeps, with `n` turns left. -/
structure Dividing (A D n : Nat) (num div q : BaseUint W) : Prop where
  split : D * value q + value num = A
  small : value num < D * 2 ^ n
  clear : 2 ^ n ∣ value q
  aligned : 0 < n → value div = D * 2 ^ (n - 1)

theorem value_divLoop {A D : Nat} (hD : 0 < D) (n : Nat) (num div q : BaseUint W)
    (h : Dividing A D n num div q) : value (BaseUint.divLoop n num div q) = A / D := by
  induction n generalizing num div q with
  | zero =>
      have hSplit := h.split
      have hSmall : value num < D := by simpa using h.small
      rw [BaseUint.divLoop, ← hSplit, Nat.mul_add_div hD, Nat.div_eq_of_lt hSmall, Nat.add_zero]
  | succ shift ih =>
      have hDiv : value div = D * 2 ^ shift := h.aligned (by omega)
      have hHalf : 0 < shift → value (div.shr 1) = D * 2 ^ (shift - 1) := by
        intro hPos
        have hPow : 2 ^ shift = 2 ^ (shift - 1) * 2 := by
          rw [← Nat.pow_succ]
          congr 1
          omega
        rw [value_shr, hDiv, UInt32.toNat_one, Nat.pow_one, hPow, ← Nat.mul_assoc,
          Nat.mul_div_cancel _ (by norm_num)]
      have hBound : shift < 32 * W := by
        have hLt := value_lt div
        have hOne : 2 ^ shift ≤ D * 2 ^ shift := Nat.le_mul_of_pos_left _ hD
        rw [hDiv] at hLt
        exact (Nat.pow_lt_pow_iff_right (by norm_num)).mp (lt_of_le_of_lt hOne hLt)
      have hSmall := h.small
      have hDouble : D * 2 ^ (shift + 1) = D * 2 ^ shift + D * 2 ^ shift := by
        rw [Nat.pow_succ]
        ring
      have hClear : 2 ^ shift ∣ value q := dvd_trans (pow_dvd_pow 2 (by omega)) h.clear
      rw [BaseUint.divLoop]
      by_cases hGe : num.ge div = true
      · have hle := (ge_iff num div).mp hGe
        have hSub := value_sub_of_le hle
        have hSplit := h.split
        rw [if_pos hGe]
        apply ih
        constructor
        · rw [value_orLimb hBound h.clear, hSub, hDiv, Nat.mul_add]
          rw [hDiv] at hle
          omega
        · rw [hSub, hDiv]
          omega
        · rw [value_orLimb hBound h.clear]
          exact Nat.dvd_add hClear dvd_rfl
        · exact hHalf
      · have hLt : value num < value div := by
          rw [← Nat.not_le]
          exact fun hle => hGe ((ge_iff num div).mpr hle)
        rw [if_neg hGe]
        apply ih
        exact ⟨h.split, hDiv ▸ hLt, hClear, hHalf⟩

theorem div_eq_error (a b : BaseUint W) :
    a.div b = .error "Division by zero" ↔ value b = 0 := by
  have hBits : b.bits = 0 ↔ value b = 0 := by rw [bits_eq, Nat.size_eq_zero]
  rw [← hBits, BaseUint.div]
  by_cases h0 : b.bits = 0
  · simp [h0]
  · by_cases hLess : a.bits < b.bits
    · simp [h0, hLess]
    · simp [h0, hLess]

/-- The shift that aligns the divisor is below `2 ^ 32` for every width below `2 ^ 27` limbs. -/
theorem value_div (hW : 32 * W < 2 ^ 32) (a b : BaseUint W) (hb : value b ≠ 0) :
    ∃ q, a.div b = .ok q ∧ value q = value a / value b := by
  have h0 : b.bits ≠ 0 := by rwa [bits_eq, ne_eq, Nat.size_eq_zero]
  rw [BaseUint.div, if_neg h0]
  have hSizeA : value a < 2 ^ a.bits := by
    rw [bits_eq]
    exact Nat.lt_size_self _
  have hSizeB : 2 ^ (b.bits - 1) ≤ value b := by
    rw [← Nat.lt_size, ← bits_eq]
    omega
  have hWidth : a.bits ≤ 32 * W := by
    rw [bits_eq]
    exact Nat.size_le.mpr (value_lt a)
  by_cases hLess : a.bits < b.bits
  · have hPow : 2 ^ a.bits ≤ 2 ^ (b.bits - 1) := Nat.pow_le_pow_right (by norm_num) (by omega)
    rw [if_pos hLess]
    exact ⟨_, rfl, by rw [value_zero, Nat.div_eq_of_lt (by omega)]⟩
  · have hShift : (UInt32.ofNat (a.bits - b.bits)).toNat = a.bits - b.bits :=
      UInt32.toNat_ofNat_of_lt' (by
        show a.bits - b.bits < 2 ^ 32
        omega)
    have hSizeB' : value b < 2 ^ b.bits := by
      rw [bits_eq]
      exact Nat.lt_size_self _
    have hFits : value b * 2 ^ (a.bits - b.bits) < 2 ^ (32 * W) := by
      have hMul : value b * 2 ^ (a.bits - b.bits) < 2 ^ b.bits * 2 ^ (a.bits - b.bits) :=
        Nat.mul_lt_mul_of_pos_right hSizeB' (by positivity)
      rw [← Nat.pow_add, Nat.add_sub_cancel' (by omega)] at hMul
      exact lt_of_lt_of_le hMul (Nat.pow_le_pow_right (by norm_num) hWidth)
    rw [if_neg hLess]
    refine ⟨_, rfl, value_divLoop (Nat.pos_of_ne_zero hb) _ _ _ _ ⟨?_, ?_, ?_, ?_⟩⟩
    · rw [value_zero]
      omega
    · have hMul : 2 ^ (b.bits - 1) * 2 ^ (a.bits - b.bits + 1) ≤
          value b * 2 ^ (a.bits - b.bits + 1) := Nat.mul_le_mul_right _ hSizeB
      have hExp : b.bits - 1 + (a.bits - b.bits + 1) = a.bits := by omega
      rw [← Nat.pow_add, hExp] at hMul
      omega
    · rw [value_zero]
      exact Nat.dvd_zero _
    · intro _
      rw [value_shl, hShift, Nat.mod_eq_of_lt hFits]
      rfl

theorem int_value_sub (a b : BaseUint W) :
    (value (a.sub b) : Int) = ((value a : Int) - value b) % 2 ^ (32 * W) := by
  have hB := value_lt b
  have hCast : ((value a + (2 ^ (32 * W) - value b) : Nat) : Int) =
      (value a : Int) - value b + 2 ^ (32 * W) := by
    rw [Nat.cast_add, Nat.cast_sub hB.le, Nat.cast_pow, Nat.cast_ofNat]
    ring
  rw [value_sub, Int.natCast_mod, hCast, Nat.cast_pow, Nat.cast_ofNat, Int.add_emod_right]

end Widths

open Widths in
/-- Sums, differences, products and left shifts are exact modulo `2 ^ BITS`; right shifts and
quotients are exact; the comparisons are those of the values. -/
theorem wide_exact {WIDTH : Nat} (hWidth : WIDTH ∈ BaseUint.widths) (a b : BaseUint WIDTH) :
    value (a.add b) = (value a + value b) % 2 ^ (32 * WIDTH) ∧
    (value (a.sub b) : Int) = ((value a : Int) - value b) % 2 ^ (32 * WIDTH) ∧
    value (a.mul b) = value a * value b % 2 ^ (32 * WIDTH) ∧
    (∀ shift : UInt32, value (a.shl shift) = value a * 2 ^ shift.toNat % 2 ^ (32 * WIDTH)) ∧
    (∀ shift : UInt32, value (a.shr shift) = value a / 2 ^ shift.toNat) ∧
    (a.div b = .error "Division by zero" ↔ value b = 0) ∧
    (value b ≠ 0 → ∃ q, a.div b = .ok q ∧ value q = value a / value b ∧
      value q * value b ≤ value a ∧ value a < value q * value b + value b) ∧
    (value a < 2 ^ a.bits ∧ (value a ≠ 0 → 2 ^ (a.bits - 1) ≤ value a)) ∧
    (a.lt b = true ↔ value a < value b) ∧ (a.le b = true ↔ value a ≤ value b) ∧
    (a.gt b = true ↔ value b < value a) ∧ (a.ge b = true ↔ value b ≤ value a) ∧
    (a.eq b = true ↔ value a = value b) := by
  have hSmall : 32 * WIDTH < 2 ^ 32 := by
    have hMax : ∀ n ∈ BaseUint.widths, 32 * n < 2 ^ 32 := by decide
    exact hMax WIDTH hWidth
  refine ⟨value_add a b, int_value_sub a b, value_mul a b, value_shl a, value_shr a,
    div_eq_error a b, ?_, ⟨?_, ?_⟩, lt_iff a b, le_iff a b, gt_iff a b, ge_iff a b, eq_iff a b⟩
  · intro hb
    obtain ⟨q, hq, hValue⟩ := value_div hSmall a b hb
    refine ⟨q, hq, hValue, ?_, ?_⟩
    · rw [hValue]
      exact Nat.div_mul_le_self _ _
    · rw [hValue]
      exact Nat.lt_div_mul_add (Nat.pos_of_ne_zero hb)
  · rw [bits_eq]
    exact Nat.lt_size_self _
  · intro ha
    have hPos : 0 < (value a).size := Nat.size_pos.mpr (Nat.pos_of_ne_zero ha)
    rw [bits_eq, ← Nat.lt_size]
    omega

open Widths in
/-- Five over two in four limbs. -/
theorem wide_exact_four :
    ∃ q, (⟨#v[5, 0, 0, 0]⟩ : BaseUint 4).div ⟨#v[2, 0, 0, 0]⟩ = .ok q ∧ value q = 5 / 2 := by
  obtain ⟨-, -, -, -, -, -, hDiv, -⟩ := wide_exact (by decide : 4 ∈ BaseUint.widths)
    ⟨#v[5, 0, 0, 0]⟩ ⟨#v[2, 0, 0, 0]⟩
  obtain ⟨q, hq, hValue, -⟩ := hDiv (by decide)
  exact ⟨q, hq, hValue⟩

end Nexus.Safety
