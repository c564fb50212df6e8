import Nexus.Lib.Bytes

/-!
# Numbers in words

A number of many words is ordered by the highest word that differs.  Subtracting the
words instead, and reading the difference as a signed word, gives the same order where
the words are close, and the opposite one where they are not.
-/

namespace Nexus.Lib.Words

open Nexus.Lib.Bytes

/-! ## Bytes in two parts -/

theorem leNat_append (bs cs : List UInt8) :
    leNat (bs ++ cs) = leNat bs + 256 ^ bs.length * leNat cs := by
  induction bs with
  | nil => simp [leNat]
  | cons b bs ih =>
      rw [List.cons_append, leNat, leNat, ih, List.length_cons, pow_succ]
      ring

/-- Zero bytes at the end do not count. -/
theorem leNat_zeros {bs : List UInt8} (h : ∀ b ∈ bs, b = 0) : leNat bs = 0 := by
  induction bs with
  | nil => rfl
  | cons b bs ih =>
      have hHead : b = 0 := h b List.mem_cons_self
      have hTail := ih fun c hMem => h c (List.mem_cons_of_mem _ hMem)
      rw [leNat, hHead, hTail]
      rfl

/-! ## Words -/

/-- The number of the first `n` words, the lowest word first. -/
def wordsNat (w : Nat → UInt64) : Nat → Nat
  | 0 => 0
  | n + 1 => wordsNat w n + 2 ^ (64 * n) * (w n).toNat

theorem wordsNat_congr {w w' : Nat → UInt64} {n : Nat} (h : ∀ m < n, w m = w' m) :
    wordsNat w n = wordsNat w' n := by
  induction n with
  | zero => rfl
  | succ n ih =>
      rw [wordsNat, wordsNat, h n (by omega), ih fun m hm => h m (by omega)]

theorem wordsNat_lt (w : Nat → UInt64) (n : Nat) : wordsNat w n < 2 ^ (64 * n) := by
  induction n with
  | zero => simp [wordsNat]
  | succ n ih =>
      have hWord : (w n).toNat + 1 ≤ 2 ^ 64 := (w n).toNat_lt
      have hScaled : 2 ^ (64 * n) * ((w n).toNat + 1) ≤ 2 ^ (64 * n) * 2 ^ 64 :=
        Nat.mul_le_mul_left _ hWord
      rw [wordsNat, show 64 * (n + 1) = 64 * n + 64 from by omega, pow_add]
      rw [Nat.mul_add, Nat.mul_one] at hScaled
      omega

/-- A number is ordered by its highest word, when that differs. -/
theorem wordsNat_lt_of_top {w w' : Nat → UInt64} {n : Nat} (h : (w n).toNat < (w' n).toNat) :
    wordsNat w (n + 1) < wordsNat w' (n + 1) := by
  have hLow := wordsNat_lt w n
  have hScaled : 2 ^ (64 * n) * ((w n).toNat + 1) ≤ 2 ^ (64 * n) * (w' n).toNat :=
    Nat.mul_le_mul_left _ h
  rw [wordsNat, wordsNat]
  rw [Nat.mul_add, Nat.mul_one] at hScaled
  omega

/-- The bytes of words are the number of the words. -/
theorem leNat_words (bs : List UInt8) (n : Nat) (h : 8 * n ≤ bs.length) :
    leNat (bs.take (8 * n)) =
      wordsNat (fun i => FixedWidth.decode ((bs.drop (8 * i)).take 8)) n := by
  induction n with
  | zero => simp [wordsNat, leNat]
  | succ n ih =>
      have hWord : ((bs.drop (8 * n)).take 8).length = FixedWidth.width UInt64 := by
        rw [List.length_take, List.length_drop]
        show min 8 (bs.length - 8 * n) = 8
        omega
      have hTop : (FixedWidth.decode ((bs.drop (8 * n)).take 8) : UInt64).toNat =
          leNat ((bs.drop (8 * n)).take 8) := FixedWidth.toNat_decode hWord
      have hLength : (bs.take (8 * n)).length = 8 * n := by
        rw [List.length_take]
        omega
      rw [wordsNat, hTop, ← ih (by omega), show 8 * (n + 1) = 8 * n + 8 from by omega, List.take_add,
        leNat_append, hLength, show (256 : Nat) = 2 ^ 8 from rfl, ← pow_mul,
        show 8 * (8 * n) = 64 * n from by omega]

/-! ## The signed difference of words -/

/-- The difference of two words has the sign of their order. -/
def Near (x y : UInt64) : Prop :=
  if x < y then y.toNat - x.toNat ≤ 2 ^ 63 else x.toNat - y.toNat < 2 ^ 63

instance (x y : UInt64) : Decidable (Near x y) := by
  unfold Near
  infer_instance

theorem toInt_sub (x y : UInt64) :
    ((x - y).toInt64).toInt = ((x.toNat : Int) - y.toNat).bmod (2 ^ 64) := by
  rw [← Int64.toInt_toBitVec, UInt64.toBitVec_toInt64, UInt64.toBitVec_sub, BitVec.toInt_sub]
  simp [BitVec.toInt_eq_toNat_bmod]

/-- The difference is negative exactly when the first word is less and near, or greater and
far. -/
theorem sub_neg_iff {x y : UInt64} (h : x ≠ y) :
    (x - y).toInt64 < 0 ↔ (x.toNat < y.toNat ↔ Near x y) := by
  have hx := x.toNat_lt
  have hy := y.toNat_lt
  have hNe : x.toNat ≠ y.toNat := fun hEqual => h (UInt64.toNat_inj.mp hEqual)
  rw [Int64.lt_iff_toInt_lt, toInt_sub, Int.bmod_def]
  simp only [Near, UInt64.lt_iff_toNat_lt, Int64.toInt_zero]
  split <;> split <;> omega

theorem sub_ne_zero {x y : UInt64} (h : x ≠ y) : (x - y).toInt64 ≠ 0 := by
  intro hZero
  apply h
  have hDiff : ((x - y).toInt64).toUInt64 = 0 := congrArg Int64.toUInt64 hZero
  rw [UInt64.toUInt64_toInt64] at hDiff
  exact sub_eq_zero.mp hDiff

/-! ## Low words -/

/-- The low half of a word, read as a signed number. -/
def low (x : UInt64) : Int32 := x.toUInt32.toInt32

theorem low_eq (x : UInt64) : low x = Int32.ofInt x.toNat := by
  apply Int32.toBitVec.inj
  rw [Int32.toBitVec_ofInt, BitVec.ofInt_natCast]
  show x.toUInt32.toBitVec = _
  rw [UInt64.toBitVec_toUInt32]
  rfl

theorem ofInt_congr {m n : Nat} (h : m % 2 ^ 32 = n % 2 ^ 32) :
    Int32.ofInt m = Int32.ofInt n := by
  apply Int32.toBitVec.inj
  rw [Int32.toBitVec_ofInt, Int32.toBitVec_ofInt, BitVec.ofInt_natCast, BitVec.ofInt_natCast]
  apply BitVec.eq_of_toNat_eq
  rwa [BitVec.toNat_ofNat, BitVec.toNat_ofNat]

theorem low_add (x y : UInt64) : low (x + y) = low x + low y := by
  apply Int32.toBitVec.inj
  show ((x + y).toUInt32).toBitVec = x.toUInt32.toBitVec + y.toUInt32.toBitVec
  rw [UInt64.toUInt32_add]
  rfl

theorem low_sub (x y : UInt64) : low (x - y) = low x - low y := by
  apply Int32.toBitVec.inj
  show ((x - y).toUInt32).toBitVec = x.toUInt32.toBitVec - y.toUInt32.toBitVec
  rw [UInt64.toUInt32_sub]
  rfl

/-- A number that is kept in a signed word is exact when it fits. -/
theorem toInt_ofInt_iff {n : Int} : (Int32.ofInt n).toInt = n ↔ -2 ^ 31 ≤ n ∧ n < 2 ^ 31 := by
  rw [Int32.toInt_ofInt]
  show n.bmod 4294967296 = n ↔ _
  rw [Int.bmod_def]
  split <;> omega

theorem toUInt64_toNat {v : Int64} (h : 0 ≤ v.toInt) : (v.toUInt64.toNat : Int) = v.toInt := by
  rw [← Int64.toNat_toBitVec]
  show _ = v.toBitVec.toInt
  have hPos : 0 ≤ v.toBitVec.toInt := h
  rw [BitVec.toInt_eq_toNat_cond] at hPos ⊢
  split
  · rfl
  · omega

theorem toNat_add_toUInt64 (x : UInt64) (m : Int32) :
    ((x + m.toInt64.toUInt64).toNat : Int) = (x.toNat + m.toInt) % 2 ^ 64 := by
  have h : (m.toInt64.toUInt64.toNat : Int) = m.toInt % 2 ^ 64 := by
    rw [← Int64.toNat_toBitVec]
    rw [← Int32.toInt_toInt64 m]
    have h2 := BitVec.toInt_eq_toNat_cond m.toInt64.toBitVec
    have h3 : m.toInt64.toInt = m.toInt64.toBitVec.toInt := rfl
    have h4 := m.toInt64.toBitVec.isLt
    rw [h3, h2]
    split <;> omega
  rw [UInt64.toNat_add]
  omega

end Nexus.Lib.Words
