import Mathlib.Data.UInt
import Mathlib.Tactic.Ring
import Mathlib.Tactic.Linarith

/-!
# Little-endian bytes

The number a byte string stands for, the bytes of a number in a given width,
and the two round trips.  `FixedWidth` packages a type whose values are exactly
the numbers below `256 ^ width`; its codec is then a round trip by the general
laws, whatever the width.
-/

namespace Nexus.Lib.Bytes

/-- The number written by `bs`, least significant byte first. -/
def leNat : List UInt8 → Nat
  | [] => 0
  | b :: bs => b.toNat + 256 * leNat bs

/-- The `n` low bytes of `x`, least significant byte first. -/
def leBytes : Nat → Nat → List UInt8
  | 0, _ => []
  | n + 1, x => UInt8.ofNat x :: leBytes n (x / 256)

@[simp] theorem leBytes_length (n x : Nat) : (leBytes n x).length = n := by
  induction n generalizing x with
  | zero => rfl
  | succ n ih => simp [leBytes, ih]

theorem leNat_lt (bs : List UInt8) : leNat bs < 256 ^ bs.length := by
  induction bs with
  | nil => simp [leNat]
  | cons b bs ih =>
      have hb : b.toNat < 256 := b.toNat_lt
      simp only [leNat, List.length_cons, pow_succ]
      omega

/-- A byte weighs in by its position. -/
theorem le_leNat {bs : List UInt8} {i : Nat} {b : UInt8} (h : bs[i]? = some b) :
    256 ^ i * b.toNat ≤ leNat bs := by
  induction bs generalizing i with
  | nil => simp at h
  | cons c bs ih =>
      cases i with
      | zero =>
          obtain rfl : c = b := by simpa using h
          simp [leNat]
      | succ i =>
          have hTail := ih (i := i) (by simpa using h)
          rw [leNat, pow_succ, mul_right_comm]
          omega

theorem leNat_leBytes {n x : Nat} (hx : x < 256 ^ n) : leNat (leBytes n x) = x := by
  induction n generalizing x with
  | zero => simp only [pow_zero, Nat.lt_one_iff] at hx; simp [leBytes, leNat, hx]
  | succ n ih =>
      have hdiv : x / 256 < 256 ^ n := by
        rw [pow_succ] at hx
        exact Nat.div_lt_of_lt_mul (by linarith)
      have hb : (UInt8.ofNat x).toNat = x % 256 := by simp
      rw [leBytes, leNat, ih hdiv, hb]
      omega

theorem leBytes_leNat (bs : List UInt8) : leBytes bs.length (leNat bs) = bs := by
  induction bs with
  | nil => rfl
  | cons b bs ih =>
      have hb : b.toNat < 256 := b.toNat_lt
      have hdiv : (b.toNat + 256 * leNat bs) / 256 = leNat bs := by omega
      have hhead : UInt8.ofNat (b.toNat + 256 * leNat bs) = b := by
        apply UInt8.toNat_inj.mp
        simp only [UInt8.toNat_ofNat']
        omega
      simp only [List.length_cons, leNat, leBytes, hdiv, ih, hhead]

/-! ## Overwriting a block -/

section Overwrite

variable {β : Type} {xs ys : List β} {n : Nat}

/-- `xs` with the block at `n` replaced by `ys`. -/
def overwrite (xs : List β) (n : Nat) (ys : List β) : List β :=
  xs.take n ++ ys ++ xs.drop (n + ys.length)

theorem overwrite_length (h : n + ys.length ≤ xs.length) :
    (overwrite xs n ys).length = xs.length := by
  simp only [overwrite, List.length_append, List.length_take, List.length_drop]
  omega

/-- Outside the block nothing changes. -/
theorem overwrite_getElem? (h : n + ys.length ≤ xs.length) {i : Nat}
    (hi : i < n ∨ n + ys.length ≤ i) : (overwrite xs n ys)[i]? = xs[i]? := by
  have hTake : (xs.take n).length = n := by
    rw [List.length_take]
    omega
  rw [overwrite]
  rcases hi with hi | hi
  · rw [List.append_assoc, List.getElem?_append_left (by omega), List.getElem?_take, if_pos hi]
  · rw [List.getElem?_append_right (by rw [List.length_append, hTake]; omega),
      List.getElem?_drop, List.length_append, hTake]
    congr 1
    omega

/-- The block reads back what was written. -/
theorem overwrite_block (h : n ≤ xs.length) :
    ((overwrite xs n ys).drop n).take ys.length = ys := by
  have hTake : (xs.take n).length = n := by
    rw [List.length_take]
    omega
  rw [overwrite, List.append_assoc, List.drop_left' hTake, List.take_left]

/-- The block in the middle is replaced by one of its length. -/
theorem overwrite_append {zs ys' : List β} (h : ys'.length = ys.length) :
    overwrite (xs ++ ys ++ zs) xs.length ys' = xs ++ ys' ++ zs := by
  have hDrop : (xs ++ ys ++ zs).drop (xs.length + ys'.length) = zs := by
    rw [h, ← List.length_append, List.drop_left]
  rw [overwrite, hDrop, List.append_assoc xs ys zs, List.take_left]

end Overwrite

/-! ## Fixed-width values -/

/-- A type whose values are the numbers of `width` bytes. -/
class FixedWidth (α : Type) where
  width : Nat
  toNat : α → Nat
  ofNat : Nat → α
  toNat_lt : ∀ a, toNat a < 256 ^ width
  ofNat_toNat : ∀ a, ofNat (toNat a) = a
  toNat_ofNat : ∀ n, n < 256 ^ width → toNat (ofNat n) = n

namespace FixedWidth

variable {α : Type} [FixedWidth α]

/-- The bytes of a value. -/
def encode (a : α) : List UInt8 := leBytes (width α) (toNat a)

/-- The value written by some bytes. -/
def decode (bs : List UInt8) : α := ofNat (leNat bs)

@[simp] theorem encode_length (a : α) : (encode a).length = width α :=
  leBytes_length _ _

@[simp] theorem decode_encode (a : α) : decode (encode a) = a := by
  rw [decode, encode, leNat_leBytes (toNat_lt a), ofNat_toNat]

theorem toNat_decode {bs : List UInt8} (h : bs.length = width α) :
    toNat (decode bs : α) = leNat bs :=
  toNat_ofNat _ (h ▸ leNat_lt bs)

theorem encode_inj {a b : α} (h : encode a = encode b) : a = b := by
  rw [← decode_encode a, h, decode_encode]

end FixedWidth

/-- Bit vectors of a whole number of bytes. -/
@[reducible]
def FixedWidth.ofBitVec (w n : Nat) (h : w = 8 * n) : FixedWidth (BitVec w) where
  width := n
  toNat := BitVec.toNat
  ofNat := BitVec.ofNat w
  toNat_lt a := by
    have hpow : (256 : Nat) ^ n = 2 ^ w := by
      rw [h, pow_mul]
      norm_num
    rw [hpow]
    exact a.isLt
  ofNat_toNat a := by simp
  toNat_ofNat x hx := by
    rw [BitVec.toNat_ofNat, Nat.mod_eq_of_lt]
    rwa [h, pow_mul]

instance : FixedWidth UInt8 where
  width := 1
  toNat := UInt8.toNat
  ofNat := UInt8.ofNat
  toNat_lt a := a.toNat_lt
  ofNat_toNat _ := UInt8.ofNat_toNat
  toNat_ofNat n hn := UInt8.toNat_ofNat_of_lt' (by simpa using hn)

instance : FixedWidth UInt16 where
  width := 2
  toNat := UInt16.toNat
  ofNat := UInt16.ofNat
  toNat_lt a := a.toNat_lt
  ofNat_toNat _ := UInt16.ofNat_toNat
  toNat_ofNat n hn := UInt16.toNat_ofNat_of_lt' (by simpa using hn)

instance : FixedWidth UInt32 where
  width := 4
  toNat := UInt32.toNat
  ofNat := UInt32.ofNat
  toNat_lt a := a.toNat_lt
  ofNat_toNat _ := UInt32.ofNat_toNat
  toNat_ofNat n hn := UInt32.toNat_ofNat_of_lt' (by simpa using hn)

instance : FixedWidth UInt64 where
  width := 8
  toNat := UInt64.toNat
  ofNat := UInt64.ofNat
  toNat_lt a := a.toNat_lt
  ofNat_toNat _ := UInt64.ofNat_toNat
  toNat_ofNat n hn := UInt64.toNat_ofNat_of_lt' (by simpa using hn)

/-- Signed words are stored as their two's complement. -/
instance : FixedWidth Int64 where
  width := 8
  toNat a := a.toUInt64.toNat
  ofNat n := (UInt64.ofNat n).toInt64
  toNat_lt a := a.toUInt64.toNat_lt
  ofNat_toNat a := by simp
  toNat_ofNat n hn := by simpa using hn

end Nexus.Lib.Bytes
