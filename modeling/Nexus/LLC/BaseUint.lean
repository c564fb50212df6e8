import Mathlib.Data.UInt

/-!
# Wide unsigned integers

`base_uint<BITS>` is an array of 32-bit limbs, the least significant first.  The
operators are the loops of the source over the limbs; the carries and products of
two limbs are 64-bit values, written here as naturals reduced modulo `2 ^ 64`.

The loop counters of 8 bits are exact for the widths that the program instantiates,
which have at most 34 limbs.
-/

namespace Nexus.LLC

/-- `base_uint<BITS>` with `WIDTH = BITS / 32` limbs. -/
structure BaseUint (WIDTH : Nat) where
  pn : Vector UInt32 WIDTH
  deriving DecidableEq

namespace BaseUint

/-- `BITS / 32` for the classes that are instantiated: 128, 256, 512, 576, 1024, 1056 and 1088
bits. -/
def widths : List Nat := [4, 8, 16, 18, 32, 33, 34]

variable {WIDTH : Nat}

/-- `pn[i]`. -/
def limb (a : BaseUint WIDTH) (i : Nat) : UInt32 := a.pn[i]?.getD 0

/-- `pn[i] = x`. -/
def setLimb (a : BaseUint WIDTH) (i : Nat) (x : UInt32) : BaseUint WIDTH :=
  ⟨a.pn.setIfInBounds i x⟩

/-- `base_uint()`: every limb is zero. -/
def zero : BaseUint WIDTH := ⟨Vector.replicate WIDTH 0⟩

theorem limb_setLimb (a : BaseUint WIDTH) (i j : Nat) (x : UInt32) :
    (a.setLimb i x).limb j = if i = j ∧ i < WIDTH then x else a.limb j := by
  simp only [limb, setLimb, Vector.getElem?_setIfInBounds]
  by_cases hij : i = j
  · subst hij
    by_cases hi : i < WIDTH
    · simp [hi]
    · simp [hi]
  · simp [hij]

theorem limb_setLimb_self {a : BaseUint WIDTH} {i : Nat} (x : UInt32) (h : i < WIDTH) :
    (a.setLimb i x).limb i = x := by
  rw [limb_setLimb, if_pos ⟨rfl, h⟩]

theorem limb_setLimb_of_ne {a : BaseUint WIDTH} {i j : Nat} (x : UInt32) (h : i ≠ j) :
    (a.setLimb i x).limb j = a.limb j := by
  rw [limb_setLimb, if_neg fun hij => h hij.1]

@[simp] theorem limb_zero (i : Nat) : (zero : BaseUint WIDTH).limb i = 0 := by
  by_cases h : i < WIDTH <;> simp [limb, zero, h]

theorem limb_of_le {a : BaseUint WIDTH} {i : Nat} (h : WIDTH ≤ i) : a.limb i = 0 := by
  simp [limb, h]

/-! ## Sums and differences -/

/-- One turn of the loop of `+=`: the sum of two limbs and the carry. -/
def addStep (b : BaseUint WIDTH) (i : Nat) (s : BaseUint WIDTH × Nat) : BaseUint WIDTH × Nat :=
  let n := (s.2 + (s.1.limb i).toNat + (b.limb i).toNat) % 2 ^ 64
  (s.1.setLimb i (UInt32.ofNat n), n / 2 ^ 32)

/-- `a += b` -/
def add (a b : BaseUint WIDTH) : BaseUint WIDTH :=
  (Nat.fold WIDTH (fun i _ s => addStep b i s) (a, 0)).1

/-- `~a` -/
def complement (a : BaseUint WIDTH) : BaseUint WIDTH :=
  Nat.fold WIDTH (fun i _ ret => ret.setLimb i (~~~ a.limb i)) zero

/-- The loop of `++a`, with so many limbs left: it goes on while a limb wraps to zero. -/
def incrementLoop : Nat → BaseUint WIDTH → BaseUint WIDTH
  | 0, a => a
  | left + 1, a =>
    let i := WIDTH - (left + 1)
    let a' := a.setLimb i (a.limb i + 1)
    if a'.limb i = 0 ∧ i < WIDTH - 1 then incrementLoop left a' else a'

/-- `++a` -/
def increment (a : BaseUint WIDTH) : BaseUint WIDTH := incrementLoop WIDTH a

/-- `-a` -/
def negate (a : BaseUint WIDTH) : BaseUint WIDTH := increment (complement a)

/-- `a -= b` -/
def sub (a b : BaseUint WIDTH) : BaseUint WIDTH := add a (negate b)

/-! ## Products -/

/-- One turn of the inner loop of `*=`. -/
def mulStep (p : UInt32) (b : BaseUint WIDTH) (j i : Nat) (s : BaseUint WIDTH × Nat) :
    BaseUint WIDTH × Nat :=
  let n := (s.2 + (s.1.limb (i + j)).toNat + p.toNat * (b.limb i).toNat) % 2 ^ 64
  (s.1.setLimb (i + j) (UInt32.ofNat n), n / 2 ^ 32)

/-- The inner loop of `*=`, which adds `pn[j] * b` at the limb `j`. -/
def mulRow (p : UInt32) (b : BaseUint WIDTH) (j : Nat) (a : BaseUint WIDTH) : BaseUint WIDTH :=
  (Nat.fold (WIDTH - j) (fun i _ s => mulStep p b j i s) (a, 0)).1

/-- `a *= b` -/
def mul (a b : BaseUint WIDTH) : BaseUint WIDTH :=
  Nat.fold WIDTH (fun j _ r => mulRow (a.limb j) b j r) zero

/-! ## Shifts -/

/-- `pn[i] |= x` -/
def orLimb (a : BaseUint WIDTH) (i : Nat) (x : UInt32) : BaseUint WIDTH :=
  a.setLimb i (a.limb i ||| x)

/-- One turn of the loop of `<<=`, for a shift of `k` limbs and `s` bits. -/
def shlStep (a : BaseUint WIDTH) (k s i : Nat) (r : BaseUint WIDTH) : BaseUint WIDTH :=
  let r' := if i + k + 1 < WIDTH ∧ s ≠ 0 then
      r.orLimb (i + k + 1) (a.limb i >>> UInt32.ofNat (32 - s)) else r
  if i + k < WIDTH then r'.orLimb (i + k) (a.limb i <<< UInt32.ofNat s) else r'

/-- `a <<= shift` -/
def shl (a : BaseUint WIDTH) (shift : UInt32) : BaseUint WIDTH :=
  Nat.fold WIDTH (fun i _ r => shlStep a (shift.toNat / 32) (shift.toNat % 32) i r) zero

/-- One turn of the loop of `>>=`, for a shift of `k` limbs and `s` bits. -/
def shrStep (a : BaseUint WIDTH) (k s i : Nat) (r : BaseUint WIDTH) : BaseUint WIDTH :=
  let r' := if k + 1 ≤ i ∧ s ≠ 0 then
      r.orLimb (i - k - 1) (a.limb i <<< UInt32.ofNat (32 - s)) else r
  if k ≤ i then r'.orLimb (i - k) (a.limb i >>> UInt32.ofNat s) else r'

/-- `a >>= shift` -/
def shr (a : BaseUint WIDTH) (shift : UInt32) : BaseUint WIDTH :=
  Nat.fold WIDTH (fun i _ r => shrStep a (shift.toNat / 32) (shift.toNat % 32) i r) zero

/-! ## Comparisons -/

/-- The loop of `<` over the limbs below `i`, from the most significant on. -/
def ltLoop (a n : BaseUint WIDTH) : Nat → Bool
  | 0 => false
  | i + 1 =>
    if a.limb i < n.limb i then true else if a.limb i > n.limb i then false else ltLoop a n i

/-- The loop of `<=`, which answers `true` for equal limbs. -/
def leLoop (a n : BaseUint WIDTH) : Nat → Bool
  | 0 => true
  | i + 1 =>
    if a.limb i < n.limb i then true else if a.limb i > n.limb i then false else leLoop a n i

/-- The loop of `>`. -/
def gtLoop (a n : BaseUint WIDTH) : Nat → Bool
  | 0 => false
  | i + 1 =>
    if a.limb i > n.limb i then true else if a.limb i < n.limb i then false else gtLoop a n i

/-- The loop of `>=`. -/
def geLoop (a n : BaseUint WIDTH) : Nat → Bool
  | 0 => true
  | i + 1 =>
    if a.limb i > n.limb i then true else if a.limb i < n.limb i then false else geLoop a n i

/-- `a < n` -/
def lt (a n : BaseUint WIDTH) : Bool := ltLoop a n WIDTH

/-- `a <= n` -/
def le (a n : BaseUint WIDTH) : Bool := leLoop a n WIDTH

/-- `a > n` -/
def gt (a n : BaseUint WIDTH) : Bool := gtLoop a n WIDTH

/-- `a >= n` -/
def ge (a n : BaseUint WIDTH) : Bool := geLoop a n WIDTH

/-- `a == n` -/
def eq (a n : BaseUint WIDTH) : Bool := (List.range WIDTH).all fun i => a.limb i == n.limb i

/-! ## Bits and quotients -/

/-- The loop of `bits` over the bits of one limb, from `nbits` down to 1. -/
def topBit (x : UInt32) : Nat → Nat
  | 0 => 0
  | nbits + 1 =>
    if x &&& (1 <<< UInt32.ofNat (nbits + 1)) ≠ 0 then nbits + 1 else topBit x nbits

/-- The loop of `bits` over the limbs below `pos`. -/
def bitsLoop (a : BaseUint WIDTH) : Nat → Nat
  | 0 => 0
  | pos + 1 => if a.limb pos ≠ 0 then 32 * pos + topBit (a.limb pos) 31 + 1 else bitsLoop a pos

/-- `a.bits()` -/
def bits (a : BaseUint WIDTH) : Nat := bitsLoop a WIDTH

/-- `while(shift >= 0)` of `/=`, with `shift + 1` turns left: the remainder, the shifted
divisor and the quotient. -/
def divLoop : Nat → BaseUint WIDTH → BaseUint WIDTH → BaseUint WIDTH → BaseUint WIDTH
  | 0, _, _, q => q
  | shift + 1, num, div, q =>
    if num.ge div then
      divLoop shift (num.sub div) (div.shr 1)
        (q.orLimb (shift / 32) (1 <<< UInt32.ofNat (shift % 32)))
    else divLoop shift num (div.shr 1) q

/-- `a /= b` -/
def div (a b : BaseUint WIDTH) : Except String (BaseUint WIDTH) :=
  if b.bits = 0 then .error "Division by zero"
  else if a.bits < b.bits then .ok zero
  else
    let shift := a.bits - b.bits
    .ok (divLoop (shift + 1) a (b.shl (UInt32.ofNat shift)) zero)

end BaseUint

end Nexus.LLC
