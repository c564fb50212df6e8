import Nexus.LLD.BinaryHashMap
import Nexus.Lib.Halves
import Nexus.Safety.Buckets

/-!
# Compressed keys

`CompressKey` folds a key until it has the size of a slot.  One turn of its loop adds the byte
at `2 * i` to the byte at `i`, and then drops the second half.  The first byte is added to
itself, so that it is lost in every key; of the others, those are kept that the folds carry
to a byte of the result.

## Main results

* `compress_keeps_iff`: which bytes of a key the compressed key depends on.
-/

namespace Nexus.Safety

open Nexus.Lib.Bytes
open Nexus.Lib.Halves
open Nexus.Util
open Nexus.LLD

/-! ## The turns of the loop -/

/-- The length of a key after one turn. -/
def nextLength (nSize nLength : Nat) : Nat := max (nLength / 2 % 2 ^ 16) nSize

theorem nextLength_lt {nSize nLength : Nat} (h : nSize < nLength) :
    nextLength nSize nLength < nLength := by
  have hMod := Nat.mod_le (nLength / 2) (2 ^ 16)
  rw [nextLength]
  omega

/-- The number of turns in which the position `i` is folded. -/
def folds (nSize i nLength : Nat) : Nat :=
  if h : nSize < nLength then
    have := nextLength_lt h
    folds nSize i (nextLength nSize nLength) + if i < nLength / 2 then 1 else 0
  else 0
termination_by nLength

/-- The folds carry the byte at a position to one of the result, and it is not the first. -/
def Kept (nSize nLength nPos : Nat) : Prop :=
  ∃ k i, 0 < i ∧ i < nSize ∧ nPos = 2 ^ k * i ∧ Odd ((folds nSize i nLength).choose k)

/-- The compressed keys of two keys that differ in one byte have the size of a slot and are told
apart by every slot. -/
structure ToldApart (vKey : Bytes) (nSize nPos : Nat) (b : UInt8) : Prop where
  size : (CompressKey vKey nSize).length = nSize
  changedSize : (CompressKey (vKey.set nPos b) nSize).length = nSize
  changed : CompressKey (vKey.set nPos b) nSize ≠ CompressKey vKey nSize
  slots : ∀ header : Bytes, header.length = 13 →
    BinaryHashMap.matchKey (header ++ CompressKey (vKey.set nPos b) nSize)
      (CompressKey vKey nSize) = false

/-- A turn before the last one folds every position of the result. -/
theorem half_of_nextLength {nSize nLength i : Nat} (hi : i < nSize)
    (h : nSize < nextLength nSize nLength) :
    i < nLength / 2 ∧ nextLength nSize nLength ≤ nLength / 2 := by
  have hMod := Nat.mod_le (nLength / 2) (2 ^ 16)
  rw [nextLength] at h ⊢
  omega

theorem folds_long {nSize i nLength : Nat} (h : nSize < nLength) :
    folds nSize i nLength =
      folds nSize i (nextLength nSize nLength) + if i < nLength / 2 then 1 else 0 := by
  rw [folds, dif_pos h]

theorem folds_short {nSize i nLength : Nat} (h : ¬ nSize < nLength) :
    folds nSize i nLength = 0 := by
  rw [folds, dif_neg h]

/-- What is carried to a position of the result is in the key. -/
theorem carried_bound {nSize i nLength : Nat} (hi : i < nSize) (hLength : nSize ≤ nLength) :
    2 ^ folds nSize i nLength * i < nLength := by
  fun_induction folds nSize i nLength with
  | case1 nLength h hNext ih =>
      have hSize : nSize ≤ nextLength nSize nLength := Nat.le_max_right ..
      have hBound := ih hSize
      by_cases hLast : nSize < nextLength nSize nLength
      · have hHalf := half_of_nextLength hi hLast
        rw [if_pos hHalf.1, pow_succ, Nat.mul_assoc, Nat.mul_left_comm]
        omega
      · rw [folds_short hLast]
        by_cases hHalf : i < nLength / 2
        · rw [if_pos hHalf]
          omega
        · rw [if_neg hHalf]
          omega
  | case2 nLength h => omega

theorem CompressKey_long {vData : Bytes} {nSize : Nat} (h : nSize < vData.length) :
    CompressKey vData nSize =
      CompressKey ((foldHalf vData).take (nextLength nSize vData.length)) nSize := by
  rw [CompressKey, dif_pos h]
  rfl

theorem CompressKey_short {vData : Bytes} {nSize : Nat} (h : ¬ nSize < vData.length) :
    CompressKey vData nSize = vData := by
  rw [CompressKey, dif_neg h]

/-! ## The bytes of a fold -/

/-- A byte of a key, zero outside. -/
def byteOf (vData : Bytes) (n : Nat) : UInt8 := vData[n]?.getD 0

/-- The first turns of the loop over half of a key. -/
def foldFirst (vData : Bytes) (m : Nat) : Bytes :=
  (List.range m).foldl (fun v i => v.set i (v[i]?.getD 0 ^^^ v[2 * i]?.getD 0)) vData

theorem foldFirst_succ (vData : Bytes) (m : Nat) :
    foldFirst vData (m + 1) = (foldFirst vData m).set m
      (byteOf (foldFirst vData m) m ^^^ byteOf (foldFirst vData m) (2 * m)) := by
  rw [foldFirst, List.range_succ, List.foldl_append]
  rfl

theorem foldFirst_length (vData : Bytes) (m : Nat) :
    (foldFirst vData m).length = vData.length := by
  induction m with
  | zero => rfl
  | succ m ih => rw [foldFirst_succ, List.length_set, ih]

theorem byteOf_foldFirst (vData : Bytes) {m : Nat} (hm : m ≤ vData.length / 2) (n : Nat) :
    byteOf (foldFirst vData m) n =
      if n < m then byteOf vData n ^^^ byteOf vData (2 * n) else byteOf vData n := by
  induction m generalizing n with
  | zero => rfl
  | succ m ih =>
      rw [foldFirst_succ, byteOf, List.getElem?_set, foldFirst_length]
      by_cases hHere : m = n
      · have hInside : m < vData.length := by omega
        have hByte : byteOf (foldFirst vData m) m = byteOf vData m := by
          rw [ih (by omega), if_neg (Nat.lt_irrefl m)]
        have hDouble : byteOf (foldFirst vData m) (2 * m) = byteOf vData (2 * m) := by
          rw [ih (by omega), if_neg (by omega)]
        rw [if_pos hHere, if_pos hInside, hByte, hDouble, if_pos (by omega), ← hHere]
        rfl
      · rw [if_neg hHere]
        change byteOf (foldFirst vData m) n = _
        rw [ih (by omega)]
        by_cases hBefore : n < m
        · rw [if_pos hBefore, if_pos (by omega)]
        · rw [if_neg hBefore, if_neg (by omega)]

theorem byteOf_foldHalf (vData : Bytes) (n : Nat) :
    byteOf (foldHalf vData) n =
      if n < vData.length / 2 then byteOf vData n ^^^ byteOf vData (2 * n)
      else byteOf vData n :=
  byteOf_foldFirst vData (Nat.le_refl _) n

theorem byteOf_take {vData : Bytes} {m n : Nat} (h : n < m) :
    byteOf (vData.take m) n = byteOf vData n := by
  rw [byteOf, List.getElem?_take_of_lt h]
  rfl

/-! ## Two keys -/

/-- Two keys of one length differ by `d` in some bytes. -/
structure DifferBy (d : UInt8) (c : Nat → Bool) (vKey vKey' : Bytes) : Prop where
  length : vKey'.length = vKey.length
  bytes : ∀ n < vKey.length, byteOf vKey' n = byteOf vKey n ^^^ if c n then d else 0

theorem xor_bits (x y d : UInt8) (p q : Bool) :
    (x ^^^ if p then d else 0) ^^^ (y ^^^ if q then d else 0) =
      (x ^^^ y) ^^^ if p ^^ q then d else 0 := by
  have hRegroup : ∀ e f : UInt8, (x ^^^ e) ^^^ (y ^^^ f) = (x ^^^ y) ^^^ (e ^^^ f) := by
    intro e f
    rw [UInt8.xor_assoc, ← UInt8.xor_assoc e, UInt8.xor_comm e y, UInt8.xor_assoc y,
      ← UInt8.xor_assoc]
  rw [hRegroup]
  cases p <;> cases q <;> simp

/-- One turn of the loop. -/
theorem DifferBy.fold {d : UInt8} {c : Nat → Bool} {vKey vKey' : Bytes} {m : Nat}
    (h : DifferBy d c vKey vKey') (hm : m ≤ vKey.length) :
    DifferBy d (fun n => if n < vKey.length / 2 then c n ^^ c (2 * n) else c n)
      ((foldHalf vKey).take m) ((foldHalf vKey').take m) := by
  constructor
  · rw [List.length_take, List.length_take, foldHalf_length, foldHalf_length, h.length]
  · intro n hn
    rw [List.length_take, foldHalf_length] at hn
    have hInside : n < m := by omega
    rw [byteOf_take hInside, byteOf_take hInside, byteOf_foldHalf, byteOf_foldHalf, h.length]
    by_cases hHalf : n < vKey.length / 2
    · rw [if_pos hHalf, if_pos hHalf, h.bytes n (by omega), h.bytes (2 * n) (by omega), xor_bits]
      simp only [hHalf, if_true]
    · rw [if_neg hHalf, if_neg hHalf, h.bytes n (by omega)]
      simp only [hHalf, if_false]

/-- What the rest of the turns carries after one turn. -/
theorem carried_turn {c : Nat → Bool} {nSize i nLength : Nat} (hi : i < nSize)
    (h : nSize < nLength) :
    carried (fun n => if n < nLength / 2 then c n ^^ c (2 * n) else c n) i
        (folds nSize i (nextLength nSize nLength)) = carried c i (folds nSize i nLength) := by
  rw [folds_long h]
  by_cases hLast : nSize < nextLength nSize nLength
  · have hHalf := half_of_nextLength hi hLast
    rw [if_pos hHalf.1, ← carried_fold]
    apply carried_congr
    intro k hk
    have hPow : 2 ^ k * i ≤ 2 ^ folds nSize i (nextLength nSize nLength) * i :=
      Nat.mul_le_mul_right i (Nat.pow_le_pow_right (by decide) hk)
    have hBound := carried_bound hi (Nat.le_of_lt hLast)
    rw [if_pos (by omega)]
  · rw [folds_short hLast]
    by_cases hHalf : i < nLength / 2
    · simp only [carried, hHalf, if_true, Nat.zero_add]
    · simp only [carried, hHalf, if_false, Nat.zero_add]

/-- The compressed keys differ where the folds carry the difference to. -/
theorem DifferBy.compress {d : UInt8} {c : Nat → Bool} {vKey vKey' : Bytes} {nSize i : Nat}
    (h : DifferBy d c vKey vKey') (hi : i < nSize) (hLength : nSize ≤ vKey.length) :
    byteOf (CompressKey vKey' nSize) i = byteOf (CompressKey vKey nSize) i ^^^
      if carried c i (folds nSize i vKey.length) then d else 0 := by
  fun_induction CompressKey vKey nSize generalizing c vKey' with
  | case1 vKey hLong hNext ih =>
      have hSize : nSize ≤ nextLength nSize vKey.length := Nat.le_max_right ..
      have hShrinks := nextLength_lt hLong
      have hTurn := h.fold (m := nextLength nSize vKey.length) (by omega)
      have hTurnLength : ((foldHalf vKey).take (nextLength nSize vKey.length)).length =
          nextLength nSize vKey.length := by
        rw [List.length_take, foldHalf_length]
        omega
      have hRest := ih hTurn (by rw [nextLength] at hTurnLength; omega)
      change _ = byteOf (CompressKey ((foldHalf vKey).take (nextLength nSize vKey.length)) nSize) i ^^^
        if carried _ i
          (folds nSize i ((foldHalf vKey).take (nextLength nSize vKey.length)).length) then d else 0
        at hRest
      rw [hTurnLength, carried_turn hi hLong] at hRest
      have hLong' : nSize < vKey'.length := by
        rw [h.length]
        exact hLong
      rw [CompressKey_long hLong', h.length]
      exact hRest
  | case2 vKey hShort =>
      have hShort' : ¬ nSize < vKey'.length := by
        rw [h.length]
        exact hShort
      rw [CompressKey_short hShort', folds_short hShort]
      exact h.bytes i (by omega)

/-! ## One byte -/

theorem xor_ne_zero {x b : UInt8} (h : x ≠ b) : x ^^^ b ≠ 0 := by
  intro hZero
  exact h (UInt8.xor_eq_zero_iff.mp hZero)

theorem differBy_set {vKey : Bytes} {nPos : Nat} {b : UInt8} (hPos : nPos < vKey.length) :
    DifferBy (byteOf vKey nPos ^^^ b) (fun n => n == nPos) vKey (vKey.set nPos b) := by
  constructor
  · exact List.length_set
  · intro n hn
    rw [byteOf, List.getElem?_set]
    by_cases hHere : nPos = n
    · rw [if_pos hHere, if_pos hPos, ← hHere, beq_self_eq_true, if_pos rfl, ← UInt8.xor_assoc,
        UInt8.xor_self, UInt8.zero_xor]
      rfl
    · have hOther : (n == nPos) = false := beq_false_of_ne fun hSame => hHere hSame.symm
      rw [if_neg hHere, hOther, if_neg Bool.false_ne_true, UInt8.xor_zero]
      rfl

/-- The first byte is not carried anywhere, and another byte where it is kept. -/
theorem exists_carried_iff {nSize nLength nPos : Nat} (h : nSize < nLength) :
    (∃ i < nSize, carried (fun n => n == nPos) i (folds nSize i nLength) = true) ↔
      Kept nSize nLength nPos := by
  constructor
  · rintro ⟨i, hi, hCarried⟩
    rcases Nat.eq_zero_or_pos i with rfl | hPositive
    · rw [folds_long h, if_pos (by omega), carried_first] at hCarried
      exact absurd hCarried Bool.false_ne_true
    · by_cases hSource : ∃ k, nPos = 2 ^ k * i
      · obtain ⟨k, rfl⟩ := hSource
        rw [carried_single hPositive] at hCarried
        exact ⟨k, i, hPositive, hi, rfl, of_decide_eq_true hCarried⟩
      · rw [carried_other fun k hSame => hSource ⟨k, hSame⟩] at hCarried
        exact absurd hCarried Bool.false_ne_true
  · rintro ⟨k, i, hPositive, hi, rfl, hOdd⟩
    refine ⟨i, hi, ?_⟩
    rw [carried_single hPositive]
    exact decide_eq_true hOdd

theorem eq_of_byteOf {v w : Bytes} (hLength : v.length = w.length)
    (h : ∀ n < v.length, byteOf v n = byteOf w n) : v = w := by
  apply List.ext_getElem hLength
  intro n hn hn'
  have hByte := h n hn
  rwa [byteOf, byteOf, List.getElem?_eq_getElem hn, List.getElem?_eq_getElem hn'] at hByte

/-- A changed byte of a long key changes the compressed key, and all slots tell the two apart, if
and only if the folds keep the byte. -/
theorem compress_keeps_iff {vKey : Bytes} {nSize nPos : Nat} {b : UInt8}
    (hLong : nSize < vKey.length) (hPos : nPos < vKey.length) (hByte : byteOf vKey nPos ≠ b) :
    ToldApart vKey nSize nPos b ↔ Kept nSize vKey.length nPos := by
  have hSize : (CompressKey vKey nSize).length = nSize := by
    rw [CompressKey_length]
    omega
  have hSize' : (CompressKey (vKey.set nPos b) nSize).length = nSize := by
    rw [CompressKey_length, List.length_set]
    omega
  have hBytes : ∀ i < nSize, byteOf (CompressKey (vKey.set nPos b) nSize) i =
      byteOf (CompressKey vKey nSize) i ^^^
        if carried (fun n => n == nPos) i (folds nSize i vKey.length)
          then byteOf vKey nPos ^^^ b else 0 :=
    fun i hi => (differBy_set hPos).compress hi (Nat.le_of_lt hLong)
  have hChanged : CompressKey (vKey.set nPos b) nSize ≠ CompressKey vKey nSize ↔
      Kept nSize vKey.length nPos := by
    rw [← exists_carried_iff hLong]
    constructor
    · intro hNe
      by_contra hNone
      apply hNe
      apply eq_of_byteOf (hSize'.trans hSize.symm)
      intro i hi
      rw [hSize'] at hi
      have hNot : carried (fun n => n == nPos) i (folds nSize i vKey.length) = false := by
        rw [← Bool.not_eq_true]
        exact fun hCarried => hNone ⟨i, hi, hCarried⟩
      rw [hBytes i hi, hNot, if_neg Bool.false_ne_true, UInt8.xor_zero]
    · rintro ⟨i, hi, hCarried⟩ hEqual
      have hHere := hBytes i hi
      rw [hEqual, hCarried, if_pos rfl] at hHere
      have hZero : byteOf vKey nPos ^^^ b = 0 := by
        have hCancel := congrArg (byteOf (CompressKey vKey nSize) i ^^^ ·) hHere
        simp only [← UInt8.xor_assoc, UInt8.xor_self, UInt8.zero_xor] at hCancel
        exact hCancel.symm
      exact xor_ne_zero hByte hZero
  constructor
  · intro h
    exact hChanged.mp h.changed
  · intro hKept
    have hNe := hChanged.mpr hKept
    refine ⟨hSize, hSize', hNe, fun header hHeader => ?_⟩
    rw [BinaryHashMap.matchKey, ← hHeader, List.drop_left,
      List.take_of_length_le (by rw [hSize, hSize'])]
    exact beq_false_of_ne hNe

/-- A key of one byte more than a slot has. -/
def exampleKey : Bytes := List.replicate 33 7

theorem compress_keeps_iff_last : ToldApart exampleKey 32 16 8 := by
  have hKept : Kept 32 exampleKey.length 16 := by
    refine ⟨1, 8, by decide, by decide, rfl, ?_⟩
    have hFolds : folds 32 8 exampleKey.length = 1 := by
      rw [folds_long (by decide), folds_short (by decide)]
      rfl
    rw [hFolds]
    decide
  exact (compress_keeps_iff (by decide) (by decide) (by decide)).mpr hKept

theorem compress_loses_first :
    HASHMAP_MAX_KEY_SIZE < exampleKey.length ∧ byteOf exampleKey 0 ≠ 8 ∧
      vKeyCompressed (exampleKey.set 0 8) = vKeyCompressed exampleKey ∧
      ¬ ToldApart exampleKey HASHMAP_MAX_KEY_SIZE 0 8 := by
  have hSame : vKeyCompressed (exampleKey.set 0 8) = vKeyCompressed exampleKey := by
    have hChanged : CompressKey (exampleKey.set 0 8) 32 =
        (foldHalf (exampleKey.set 0 8)).take 32 :=
      (CompressKey_long (by decide)).trans (CompressKey_short (by decide))
    have hKey : CompressKey exampleKey 32 = (foldHalf exampleKey).take 32 :=
      (CompressKey_long (by decide)).trans (CompressKey_short (by decide))
    rw [vKeyCompressed, vKeyCompressed, HASHMAP_MAX_KEY_SIZE, hChanged, hKey]
    decide +kernel
  exact ⟨by decide, by decide, hSame, fun h => h.changed hSame⟩

end Nexus.Safety
