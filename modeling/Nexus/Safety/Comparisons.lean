import Nexus.Lib.Words
import Nexus.Operation.Condition
import Nexus.Safety.Claims

/-!
# Comparisons of register values

`compare` returns the difference of the highest registers that differ, as a signed
number.  It has the sign of the unsigned order only when these registers are less than
half of their range apart.  `contains` looks for a pattern from every position of a
value, also from those where the pattern does not fit any more; a pattern of one byte
is never found, since the match is only noticed at a second byte.

## Main results

* `compare_exact_iff`: when the comparisons are those of the unsigned numbers.
* `contains_exact_iff`: when the search finds exactly the matches inside the value.
-/

namespace Nexus.Safety

open Nexus.Lib.Bytes
open Nexus.Lib.Words
open Nexus.Util
open Nexus.Register
open Nexus.Operation

/-- A value of some registers of the memory, with zero bytes up to the end of the last one. -/
structure Allocated (vm : BaseVM) (value : Value) : Prop where
  nonempty : value.nBegin < value.nEnd
  inside : 8 * value.nEnd ≤ vm.vRegister.length
  fits : value.nBytes ≤ 8 * value.size
  padded : ∀ b ∈ ((vm.vRegister.drop (8 * value.nBegin)).take (8 * value.size)).drop value.nBytes,
    b = 0

instance (vm : BaseVM) (value : Value) : Decidable (Allocated vm value) :=
  haveI : Decidable (∀ b ∈ ((vm.vRegister.drop (8 * value.nBegin)).take
      (8 * value.size)).drop value.nBytes, b = 0) := List.decidableBAll _ _
  decidable_of_iff
    (value.nBegin < value.nEnd ∧ 8 * value.nEnd ≤ vm.vRegister.length ∧
      value.nBytes ≤ 8 * value.size ∧
      ∀ b ∈ ((vm.vRegister.drop (8 * value.nBegin)).take (8 * value.size)).drop value.nBytes,
        b = 0)
    ⟨fun h => ⟨h.1, h.2.1, h.2.2.1, h.2.2.2⟩, fun h => ⟨h.1, h.2, h.3, h.4⟩⟩

/-- The little-endian number that a value holds. -/
def number (vm : BaseVM) (value : Value) : Nat := leNat (vm.bytes value)

/-- The comparisons of two values are those of their numbers. -/
structure ComparesNumbers (rt : Runtime) (vm : BaseVM) (a b : Value) : Prop where
  negative : vm.compare a b < 0 ↔ number vm a < number vm b
  zero : vm.compare a b = 0 ↔ number vm a = number vm b
  positive : 0 < vm.compare a b ↔ number vm b < number vm a
  equals : Condition.comparison rt OP.EQUALS a b vm = some (decide (number vm a = number vm b))
  notEquals : Condition.comparison rt OP.NOTEQUALS a b vm =
    some (decide (number vm a ≠ number vm b))
  lessThan : Condition.comparison rt OP.LESSTHAN a b vm = some (decide (number vm a < number vm b))
  greaterThan : Condition.comparison rt OP.GREATERTHAN a b vm =
    some (decide (number vm b < number vm a))
  lessEquals : Condition.comparison rt OP.LESSEQUALS a b vm =
    some (decide (number vm a ≤ number vm b))
  greaterEquals : Condition.comparison rt OP.GREATEREQUALS a b vm =
    some (decide (number vm b ≤ number vm a))

/-- The highest registers of two values that differ are less than half of their range apart. -/
def NearAtTop (vm : BaseVM) (a b : Value) : Prop :=
  ∀ n < a.size, vm.word (a.nBegin + n) ≠ vm.word (b.nBegin + n) →
    (∀ m < a.size, n < m → vm.word (a.nBegin + m) = vm.word (b.nBegin + m)) →
    Near (vm.word (a.nBegin + n)) (vm.word (b.nBegin + n))

variable {rt : Runtime} {vm : BaseVM} {a b : Value}

/-! ## The numbers of values -/

/-- The registers of a value, from its first one. -/
def words (vm : BaseVM) (value : Value) (n : Nat) : UInt64 := vm.word (value.nBegin + n)

theorem number_eq_words (h : Allocated vm a) : number vm a = wordsNat (words vm a) a.size := by
  have hLength : 8 * a.size ≤ (vm.vRegister.drop (8 * a.nBegin)).length := by
    have hInside := h.inside
    have hNonempty := h.nonempty
    rw [List.length_drop, Value.size]
    omega
  have hSplit : (vm.vRegister.drop (8 * a.nBegin)).take (8 * a.size) =
      vm.bytes a ++
        ((vm.vRegister.drop (8 * a.nBegin)).take (8 * a.size)).drop a.nBytes := by
    rw [BaseVM.bytes, ← Nat.min_eq_left h.fits, ← List.take_take, Nat.min_eq_left h.fits]
    exact (List.take_append_drop _ _).symm
  have hWords := leNat_words (vm.vRegister.drop (8 * a.nBegin)) a.size hLength
  rw [hSplit, leNat_append, leNat_zeros h.padded, Nat.mul_zero, Nat.add_zero] at hWords
  rw [number, hWords]
  apply congrArg fun w => wordsNat w a.size
  funext n
  rw [words, BaseVM.word, List.drop_drop, Nat.mul_add]

/-- The comparison of the registers below `n`: the highest difference decides. -/
theorem compareWords_cases (n : Nat) :
    (vm.compareWords a b n = 0 ∧ ∀ m < n, words vm a m = words vm b m) ∨
      ∃ m < n, words vm a m ≠ words vm b m ∧
        (∀ k < n, m < k → words vm a k = words vm b k) ∧
        vm.compareWords a b n = (words vm a m - words vm b m).toInt64 := by
  induction n with
  | zero =>
      left
      exact ⟨rfl, fun m hm => absurd hm (Nat.not_lt_zero m)⟩
  | succ n ih =>
      rw [BaseVM.compareWords]
      by_cases hWord : words vm a n = words vm b n
      · have hSame : ¬ vm.word (a.nBegin + n) ≠ vm.word (b.nBegin + n) := fun hNe => hNe hWord
        rw [if_neg hSame]
        rcases ih with ⟨hZero, hSame⟩ | ⟨m, hm, hDiffers, hAbove, hCompare⟩
        · refine .inl ⟨hZero, fun m hm => ?_⟩
          by_cases hLast : m = n
          · rw [hLast]
            exact hWord
          · exact hSame m (by omega)
        · refine .inr ⟨m, by omega, hDiffers, fun k hk hmk => ?_, hCompare⟩
          by_cases hLast : k = n
          · rw [hLast]
            exact hWord
          · exact hAbove k (by omega) hmk
      · have hDiffers : vm.word (a.nBegin + n) ≠ vm.word (b.nBegin + n) := hWord
        rw [if_pos hDiffers]
        exact .inr ⟨n, by omega, hWord, fun k hk hnk => absurd hnk (by omega), rfl⟩

/-- Numbers whose registers agree above `m` are ordered by the registers at `m`. -/
theorem wordsNat_lt_of_above {w w' : Nat → UInt64} {n m : Nat} (hm : m < n)
    (hAbove : ∀ k < n, m < k → w k = w' k) (h : (w m).toNat < (w' m).toNat) :
    wordsNat w n < wordsNat w' n := by
  induction n with
  | zero => exact absurd hm (Nat.not_lt_zero m)
  | succ n ih =>
      by_cases hLast : m = n
      · subst hLast
        exact wordsNat_lt_of_top h
      · have hBelow := ih (by omega) fun k hk hmk => hAbove k (by omega) hmk
        have hTop : w n = w' n := hAbove n (by omega) (by omega)
        rw [wordsNat, wordsNat, hTop]
        omega

/-! ## The sign of a comparison -/

/-- The comparison has the sign of the numbers. -/
structure SignOf (d : Int64) (x y : Nat) : Prop where
  negative : d < 0 ↔ x < y
  zero : d = 0 ↔ x = y
  positive : 0 < d ↔ y < x

theorem int64_cases (d : Int64) : (d < 0 ∧ d ≠ 0 ∧ ¬ 0 < d) ∨ (¬ d < 0 ∧ d = 0 ∧ ¬ 0 < d) ∨
    (¬ d < 0 ∧ d ≠ 0 ∧ 0 < d) := by
  have hZero : d = 0 ↔ d.toInt = 0 := by rw [← Int64.toInt_inj, Int64.toInt_zero]
  rw [Int64.lt_iff_toInt_lt, Int64.lt_iff_toInt_lt, Ne, hZero, Int64.toInt_zero]
  omega

/-- With one sign, all three agree. -/
theorem signOf_iff {d : Int64} {x y : Nat} (hZero : d = 0 ↔ x = y) :
    SignOf d x y ↔ (d < 0 ↔ x < y) := by
  constructor
  · intro h
    exact h.negative
  · intro hNegative
    refine ⟨hNegative, hZero, ?_⟩
    rcases int64_cases d with h | h | h
    · have hLess := hNegative.mp h.1
      exact iff_of_false h.2.2 (by omega)
    · have hEqual := hZero.mp h.2.1
      exact iff_of_false h.2.2 (by omega)
    · have hNotLess : ¬ x < y := fun hLess => h.1 (hNegative.mpr hLess)
      have hNotEqual : x ≠ y := fun hEqual => h.2.1 (hZero.mpr hEqual)
      exact iff_of_true h.2.2 (by omega)

/-- The comparisons of the condition machine follow the sign. -/
theorem comparesNumbers_iff :
    ComparesNumbers rt vm a b ↔ SignOf (vm.compare a b) (number vm a) (number vm b) := by
  constructor
  · intro h
    exact ⟨h.negative, h.zero, h.positive⟩
  · intro h
    have hNotPositive : vm.compare a b ≤ 0 ↔ number vm a ≤ number vm b := by
      rw [← Int64.not_lt, h.positive, Nat.not_lt]
    have hNotNegative : 0 ≤ vm.compare a b ↔ number vm b ≤ number vm a := by
      rw [← Int64.not_lt, h.negative, Nat.not_lt]
    refine ⟨h.negative, h.zero, h.positive, ?_, ?_, ?_, ?_, ?_, ?_⟩
    · show some (vm.compare a b == 0) = _
      rw [← decide_eq_decide.mpr h.zero]
      rfl
    · show some (vm.compare a b != 0) = _
      rw [← decide_eq_decide.mpr (not_congr h.zero), decide_not]
      rfl
    · show some (decide (vm.compare a b < 0)) = _
      rw [decide_eq_decide.mpr h.negative]
    · show some (decide (0 < vm.compare a b)) = _
      rw [decide_eq_decide.mpr h.positive]
    · show some (decide (vm.compare a b ≤ 0)) = _
      rw [decide_eq_decide.mpr hNotPositive]
    · show some (decide (0 ≤ vm.compare a b)) = _
      rw [decide_eq_decide.mpr hNotNegative]

/-- The comparisons of two values of one size are those of their unsigned numbers, if and only if
the highest registers that differ are near. -/
theorem compare_exact_iff (ha : Allocated vm a) (hb : Allocated vm b) (hSize : a.size = b.size) :
    ComparesNumbers rt vm a b ↔ NearAtTop vm a b := by
  have hPositive : a.size ≠ 0 := by
    have hNonempty := ha.nonempty
    rw [Value.size]
    omega
  have hCompare : vm.compare a b = vm.compareWords a b a.size := by
    rw [BaseVM.compare, if_neg (by omega), ← hSize, Nat.min_self]
  rw [comparesNumbers_iff, hCompare, number_eq_words ha, number_eq_words hb, ← hSize]
  rcases @compareWords_cases vm a b a.size with ⟨hZero, hSame⟩ |
    ⟨m, hm, hDiffers, hAbove, hValue⟩
  · have hEqual : wordsNat (words vm a) a.size = wordsNat (words vm b) a.size :=
      wordsNat_congr hSame
    rw [hZero, hEqual]
    constructor
    · intro _ n hn hNe
      exact absurd (hSame n hn) hNe
    · intro _
      refine ⟨?_, ?_, ?_⟩
      · exact iff_of_false (by decide) (lt_irrefl _)
      · exact iff_of_true rfl rfl
      · exact iff_of_false (by decide) (lt_irrefl _)
  · have hNe : (words vm a m).toNat ≠ (words vm b m).toNat :=
      fun hEqual => hDiffers (UInt64.toNat_inj.mp hEqual)
    have hLess : (words vm a m).toNat < (words vm b m).toNat ↔
        wordsNat (words vm a) a.size < wordsNat (words vm b) a.size := by
      constructor
      · exact wordsNat_lt_of_above hm hAbove
      · intro hNumbers
        by_contra hNot
        have hGreater := wordsNat_lt_of_above hm (fun k hk hmk => (hAbove k hk hmk).symm)
          (show (words vm b m).toNat < (words vm a m).toNat by omega)
        omega
    have hNumbers : wordsNat (words vm a) a.size ≠ wordsNat (words vm b) a.size := by
      rcases Nat.lt_or_gt_of_ne hNe with hLower | hHigher
      · have hOrder := hLess.mp hLower
        omega
      · have hOrder := wordsNat_lt_of_above hm (fun k hk hmk => (hAbove k hk hmk).symm) hHigher
        omega
    rw [hValue, signOf_iff (iff_of_false (sub_ne_zero hDiffers) hNumbers), sub_neg_iff hDiffers,
      ← hLess]
    have hTop : NearAtTop vm a b ↔ Near (words vm a m) (words vm b m) := by
      constructor
      · intro h
        exact h m hm hDiffers hAbove
      · intro hNear n hn hOther hOtherAbove
        rcases Nat.lt_trichotomy n m with hBelow | rfl | hOver
        · exact absurd (hOtherAbove m hm hBelow) hDiffers
        · exact hNear
        · exact absurd (hAbove n hn hOver) hOther
    rw [hTop]
    tauto

/-- The numbers one and two. -/
def exampleMemory : BaseVM :=
  { vRegister := FixedWidth.encode (1 : UInt64) ++ FixedWidth.encode (2 : UInt64), nPointer := 2 }

def exampleOne : Value := { nBegin := 0, nEnd := 1, nBytes := 8 }

def exampleTwo : Value := { nBegin := 1, nEnd := 2, nBytes := 8 }

theorem compare_exact_iff_one_two :
    ComparesNumbers exampleRuntime exampleMemory exampleOne exampleTwo := by
  have hNear : NearAtTop exampleMemory exampleOne exampleTwo := by
    intro n hn _ _
    have hFirst : n = 0 := Nat.lt_one_iff.mp hn
    rw [hFirst]
    decide +kernel
  have hOne : Allocated exampleMemory exampleOne := by decide +kernel
  have hTwo : Allocated exampleMemory exampleTwo := by decide +kernel
  exact (compare_exact_iff hOne hTwo rfl).mpr hNear

/-- The greatest number is less than zero. -/
def exampleFar : BaseVM :=
  { vRegister := FixedWidth.encode (2 ^ 64 - 1 : UInt64) ++ FixedWidth.encode (0 : UInt64)
    nPointer := 2 }

theorem compare_far :
    Allocated exampleFar exampleOne ∧ Allocated exampleFar exampleTwo ∧
      exampleOne.size = exampleTwo.size ∧
      ¬ ComparesNumbers exampleRuntime exampleFar exampleOne exampleTwo := by
  refine ⟨by decide +kernel, by decide +kernel, rfl, fun h => ?_⟩
  have hGreater : ¬ number exampleFar exampleOne < number exampleFar exampleTwo := by
    decide +kernel
  exact hGreater (h.negative.mp (by decide +kernel))

/-! ## The search for a pattern -/

/-- The pattern and the value agree at a position, or the pattern has the wildcard there. -/
def Agrees (vA vB : List UInt8) (i n : Nat) : Prop :=
  vA[i + n]? = vB[n]? ∨ vB[n]? = some BaseVM.WILDCARD

instance (vA vB : List UInt8) (i n : Nat) : Decidable (Agrees vA vB i n) := by
  unfold Agrees
  infer_instance

/-- The pattern is inside the value at an offset. -/
def Occurs (vA vB : List UInt8) (i : Nat) : Prop :=
  i + vB.length ≤ vA.length ∧ vA[i]? = vB[0]? ∧ ∀ n < vB.length, 0 < n → Agrees vA vB i n

/-- The value ends while the pattern still fits. -/
def RunsOut (vA vB : List UInt8) (i : Nat) : Prop :=
  i < vA.length ∧ vA.length < i + vB.length ∧ vA[i]? = vB[0]? ∧
    ∀ n < vB.length, 0 < n → i + n < vA.length → Agrees vA vB i n

/-- The positions of the value that the inner loop of `contains` reads. -/
def matchReads (rt : Runtime) (vA vB : List UInt8) (i : Nat) : Nat → Nat → List Nat
  | 0, _ => []
  | k + 1, n =>
      (i + n) ::
        if BaseVM.byteAt rt vA (i + n) ≠ BaseVM.byteAt rt vB n ∧
          BaseVM.byteAt rt vB n ≠ BaseVM.WILDCARD then []
        else if n + 1 = vB.length then []
        else matchReads rt vA vB i k (n + 1)

/-- The search succeeds from an offset. -/
def found (rt : Runtime) (vA vB : List UInt8) (i : Nat) : Bool :=
  BaseVM.byteAt rt vA i == BaseVM.byteAt rt vB 0 &&
    BaseVM.matchAt rt vA vB i (vB.length - 1) 1

/-- The positions of the value that one turn of the outer loop reads. -/
def offsetReads (rt : Runtime) (vA vB : List UInt8) (i : Nat) : List Nat :=
  i :: if BaseVM.byteAt rt vA i = BaseVM.byteAt rt vB 0 then
      matchReads rt vA vB i (vB.length - 1) 1
    else []

/-- The positions of the value that the outer loop reads from some offsets. -/
def searchReads (rt : Runtime) (vA vB : List UInt8) : List Nat → List Nat
  | [] => []
  | i :: is =>
      offsetReads rt vA vB i ++ if found rt vA vB i then [] else searchReads rt vA vB is

/-- The positions of `a` that `contains` reads. -/
def containsReads (rt : Runtime) (vm : BaseVM) (a b : Value) : List Nat :=
  if a.size < b.size ∨ a.size = 0 ∨ b.size = 0 then []
  else searchReads rt (vm.bytes a) (vm.bytes b) (List.range (vm.bytes a).length)

/-- The search finds the occurrences of the pattern and stays inside the value. -/
structure FindsOccurrences (rt : Runtime) (vm : BaseVM) (a b : Value) : Prop where
  found : vm.contains rt a b = true ↔ ∃ i, Occurs (vm.bytes a) (vm.bytes b) i
  inside : ∀ p ∈ containsReads rt vm a b, p < (vm.bytes a).length

variable {vA vB : List UInt8} {i : Nat}

theorem byteAt_of_lt (rt : Runtime) {v : List UInt8} {n : Nat} (h : n < v.length) :
    v[n]? = some (BaseVM.byteAt rt v n) := by
  rw [BaseVM.byteAt, List.getElem?_eq_getElem h]
  rfl

/-- Inside the value and the pattern, the inner loop breaks where the pattern does not fit. -/
theorem breaks_iff (rt : Runtime) {n : Nat} (hA : i + n < vA.length) (hB : n < vB.length) :
    (BaseVM.byteAt rt vA (i + n) ≠ BaseVM.byteAt rt vB n ∧
      BaseVM.byteAt rt vB n ≠ BaseVM.WILDCARD) ↔ ¬ Agrees vA vB i n := by
  rw [Agrees, byteAt_of_lt rt hA, byteAt_of_lt rt hB, Option.some_inj,
    Option.some_inj, not_or]

theorem starts_iff (rt : Runtime) (hA : i < vA.length) (hB : 0 < vB.length) :
    BaseVM.byteAt rt vA i = BaseVM.byteAt rt vB 0 ↔ vA[i]? = vB[0]? := by
  rw [byteAt_of_lt rt hA, byteAt_of_lt rt hB, Option.some_inj]

theorem matchAt_iff {n k : Nat} (hFits : i + vB.length ≤ vA.length) (hEnd : n + k = vB.length)
    (hLeft : 0 < k) :
    BaseVM.matchAt rt vA vB i k n = true ↔ ∀ m < vB.length, n ≤ m → Agrees vA vB i m := by
  induction k generalizing n with
  | zero => exact absurd hLeft (Nat.lt_irrefl 0)
  | succ k ih =>
      have hBreaks := @breaks_iff vA vB i rt n (by omega) (by omega)
      rw [BaseVM.matchAt]
      by_cases hAgrees : Agrees vA vB i n
      · rw [if_neg fun hBreak => hBreaks.mp hBreak hAgrees]
        by_cases hLast : n + 1 = vB.length
        · rw [if_pos hLast]
          refine iff_of_true rfl fun m hm hnm => ?_
          have hSame : m = n := by omega
          rw [hSame]
          exact hAgrees
        · rw [if_neg hLast, ih (by omega) (by omega)]
          constructor
          · intro h m hm hnm
            by_cases hSame : m = n
            · rw [hSame]
              exact hAgrees
            · exact h m hm (by omega)
          · intro h m hm hnm
            exact h m hm (by omega)
      · rw [if_pos (hBreaks.mpr hAgrees)]
        exact iff_of_false Bool.false_ne_true fun h => hAgrees (h n (by omega) (Nat.le_refl n))

theorem matchReads_bounds {n k p : Nat} (h : p ∈ matchReads rt vA vB i k n) : p < i + n + k := by
  induction k generalizing n with
  | zero => exact absurd h List.not_mem_nil
  | succ k ih =>
      rw [matchReads, List.mem_cons] at h
      rcases h with hHere | hLater
      · omega
      · split at hLater
        · exact absurd hLater List.not_mem_nil
        · split at hLater
          · exact absurd hLater List.not_mem_nil
          · have hNext := ih hLater
            omega

/-- Where the pattern is longer than the rest of the value, the inner loop leaves the value if and
only if the rest fits. -/
theorem matchReads_outside_iff (rt : Runtime) {n k : Nat} (hTail : vA.length < i + vB.length)
    (hStart : i + n ≤ vA.length) (hEnd : n + k = vB.length) :
    (∃ p ∈ matchReads rt vA vB i k n, vA.length ≤ p) ↔
      ∀ m < vB.length, n ≤ m → i + m < vA.length → Agrees vA vB i m := by
  induction k generalizing n with
  | zero => omega
  | succ k ih =>
      rw [matchReads]
      by_cases hOutside : i + n = vA.length
      · refine iff_of_true ⟨i + n, List.mem_cons_self, by omega⟩ fun m _ hnm hm => ?_
        omega
      have hBreaks := @breaks_iff vA vB i rt n (by omega) (by omega)
      by_cases hAgrees : Agrees vA vB i n
      · rw [if_neg fun hBreak => hBreaks.mp hBreak hAgrees, if_neg (by omega)]
        have hNext := ih (n := n + 1) (by omega) (by omega)
        constructor
        · rintro ⟨p, hRead, hPast⟩ m hm hnm hIn
          by_cases hSame : m = n
          · rw [hSame]
            exact hAgrees
          · have hRest : p ∈ matchReads rt vA vB i k (n + 1) :=
              (List.mem_cons.mp hRead).resolve_left (by omega)
            exact hNext.mp ⟨p, hRest, hPast⟩ m hm (by omega) hIn
        · intro h
          obtain ⟨p, hRead, hPast⟩ := hNext.mpr fun m hm hnm hIn => h m hm (by omega) hIn
          exact ⟨p, List.mem_cons_of_mem _ hRead, hPast⟩
      · rw [if_pos (hBreaks.mpr hAgrees)]
        refine iff_of_false ?_ fun h => hAgrees (h n (by omega) (Nat.le_refl n) (by omega))
        rintro ⟨p, hRead, hPast⟩
        have hHere : p = i + n := List.mem_singleton.mp hRead
        omega

theorem matchAt_outside {n k : Nat} (hTail : vA.length < i + vB.length)
    (hStart : i + n ≤ vA.length) (hEnd : n + k = vB.length)
    (hNot : ¬ ∀ m < vB.length, n ≤ m → i + m < vA.length → Agrees vA vB i m) :
    BaseVM.matchAt rt vA vB i k n = false := by
  induction k generalizing n with
  | zero => rfl
  | succ k ih =>
      rw [BaseVM.matchAt]
      by_cases hOutside : i + n = vA.length
      · exact absurd (fun m _ hnm hIn => absurd hIn (by omega)) hNot
      have hBreaks := @breaks_iff vA vB i rt n (by omega) (by omega)
      by_cases hAgrees : Agrees vA vB i n
      · rw [if_neg fun hBreak => hBreaks.mp hBreak hAgrees, if_neg (by omega)]
        apply ih (by omega) (by omega)
        intro h
        apply hNot
        intro m hm hnm hIn
        by_cases hSame : m = n
        · rw [hSame]
          exact hAgrees
        · exact h m hm (by omega) hIn
      · rw [if_pos (hBreaks.mpr hAgrees)]

/-! ### One offset -/

theorem found_iff_occurs (hFits : i + vB.length ≤ vA.length) (hTwo : 2 ≤ vB.length) :
    found rt vA vB i = true ↔ Occurs vA vB i := by
  rw [found, Bool.and_eq_true, beq_iff_eq, starts_iff rt (by omega) (by omega),
    matchAt_iff hFits (by omega) (by omega)]
  constructor
  · intro h
    exact ⟨hFits, h.1, h.2⟩
  · intro h
    exact h.2

theorem offsetReads_inside {p : Nat} (hFits : i + vB.length ≤ vA.length) (hOne : 1 ≤ vB.length)
    (h : p ∈ offsetReads rt vA vB i) : p < vA.length := by
  rw [offsetReads, List.mem_cons] at h
  rcases h with hHere | hInner
  · omega
  · split at hInner
    · have hBound := matchReads_bounds hInner
      omega
    · exact absurd hInner List.not_mem_nil

theorem offsetReads_outside_iff (rt : Runtime) (hIn : i < vA.length) (hTail : vA.length < i + vB.length) :
    (∃ p ∈ offsetReads rt vA vB i, vA.length ≤ p) ↔ RunsOut vA vB i := by
  have hStarts := @starts_iff vA vB i rt hIn (by omega)
  have hInner := matchReads_outside_iff rt (k := vB.length - 1) (n := 1) hTail (by omega)
    (by omega)
  rw [offsetReads]
  by_cases hStart : vA[i]? = vB[0]?
  · rw [if_pos (hStarts.mpr hStart)]
    constructor
    · rintro ⟨p, hRead, hPast⟩
      have hRest := (List.mem_cons.mp hRead).resolve_left (by omega)
      exact ⟨hIn, hTail, hStart, hInner.mp ⟨p, hRest, hPast⟩⟩
    · intro h
      obtain ⟨p, hRead, hPast⟩ := hInner.mpr h.2.2.2
      exact ⟨p, List.mem_cons_of_mem _ hRead, hPast⟩
  · rw [if_neg fun hSame => hStart (hStarts.mp hSame)]
    refine iff_of_false ?_ fun h => hStart h.2.2.1
    rintro ⟨p, hRead, hPast⟩
    have hHere : p = i := List.mem_singleton.mp hRead
    omega

theorem found_outside (hIn : i < vA.length) (hTail : vA.length < i + vB.length)
    (hNot : ¬ RunsOut vA vB i) : found rt vA vB i = false := by
  have hStarts := @starts_iff vA vB i rt hIn (by omega)
  rw [found, Bool.and_eq_false_iff]
  by_cases hStart : vA[i]? = vB[0]?
  · right
    apply matchAt_outside hTail (by omega) (by omega)
    intro hRest
    exact hNot ⟨hIn, hTail, hStart, hRest⟩
  · left
    exact beq_false_of_ne fun hSame => hStart (hStarts.mp hSame)

/-! ### All offsets -/

theorem searchReads_append (is js : List Nat) :
    searchReads rt vA vB (is ++ js) = searchReads rt vA vB is ++
      if is.any (found rt vA vB) then [] else searchReads rt vA vB js := by
  induction is with
  | nil => rfl
  | cons i is ih =>
      rw [List.cons_append, searchReads, searchReads, List.any_cons, ih]
      cases found rt vA vB i with
      | true => simp
      | false => simp

/-! ### The bytes that decide -/

/-- The inner loop depends on the value only where it is read. -/
theorem matchAt_congr {vA' : List UInt8} {n k : Nat}
    (h : ∀ p ∈ matchReads rt vA vB i k n, BaseVM.byteAt rt vA' p = BaseVM.byteAt rt vA p) :
    BaseVM.matchAt rt vA' vB i k n = BaseVM.matchAt rt vA vB i k n := by
  induction k generalizing n with
  | zero => rfl
  | succ k ih =>
      rw [matchReads] at h
      obtain ⟨hHere, hRest⟩ := List.forall_mem_cons.mp h
      rw [BaseVM.matchAt, BaseVM.matchAt, hHere]
      split
      · rfl
      · rename_i hGoes
        rw [if_neg hGoes] at hRest
        split
        · rfl
        · rename_i hMore
          rw [if_neg hMore] at hRest
          exact ih hRest

theorem found_congr {vA' : List UInt8}
    (h : ∀ p ∈ offsetReads rt vA vB i, BaseVM.byteAt rt vA' p = BaseVM.byteAt rt vA p) :
    found rt vA' vB i = found rt vA vB i := by
  rw [offsetReads] at h
  obtain ⟨hHere, hRest⟩ := List.forall_mem_cons.mp h
  rw [found, found, hHere]
  by_cases hStart : BaseVM.byteAt rt vA i = BaseVM.byteAt rt vB 0
  · rw [if_pos hStart] at hRest
    rw [matchAt_congr hRest]
  · rw [beq_false_of_ne hStart, Bool.false_and, Bool.false_and]

theorem search_congr {vA' : List UInt8} {is : List Nat}
    (h : ∀ p ∈ searchReads rt vA vB is, BaseVM.byteAt rt vA' p = BaseVM.byteAt rt vA p) :
    is.any (found rt vA' vB) = is.any (found rt vA vB) := by
  induction is with
  | nil => rfl
  | cons i is ih =>
      rw [searchReads] at h
      obtain ⟨hFirst, hRest⟩ := List.forall_mem_append.mp h
      rw [List.any_cons, List.any_cons, found_congr hFirst]
      cases hFound : found rt vA vB i with
      | true => rfl
      | false =>
          rw [hFound, if_neg Bool.false_ne_true] at hRest
          rw [ih hRest]

theorem contains_eq (hSizes : ¬ (a.size < b.size ∨ a.size = 0 ∨ b.size = 0)) :
    vm.contains rt a b =
      (List.range (vm.bytes a).length).any (found rt (vm.bytes a) (vm.bytes b)) := by
  rw [BaseVM.contains, if_neg hSizes]
  rfl

/-- The search gives one answer on all values of one length that agree where it reads. -/
theorem contains_congr {vm' : BaseVM} (hPattern : vm'.bytes b = vm.bytes b)
    (hLength : (vm'.bytes a).length = (vm.bytes a).length)
    (h : ∀ p ∈ containsReads rt vm a b,
      BaseVM.byteAt rt (vm'.bytes a) p = BaseVM.byteAt rt (vm.bytes a) p) :
    vm'.contains rt a b = vm.contains rt a b := by
  unfold containsReads at h
  by_cases hSizes : a.size < b.size ∨ a.size = 0 ∨ b.size = 0
  · rw [BaseVM.contains, BaseVM.contains, if_pos hSizes, if_pos hSizes]
  · rw [if_neg hSizes] at h
    rw [contains_eq hSizes, contains_eq hSizes, hPattern, hLength]
    exact search_congr h

/-! ### Inside and outside -/

theorem searchReads_inside {is : List Nat} {p : Nat} (hOne : 1 ≤ vB.length)
    (hFits : ∀ i ∈ is, i + vB.length ≤ vA.length) (h : p ∈ searchReads rt vA vB is) :
    p < vA.length := by
  induction is with
  | nil => exact absurd h List.not_mem_nil
  | cons i is ih =>
      rw [searchReads, List.mem_append] at h
      rcases h with hHere | hLater
      · exact offsetReads_inside (hFits i List.mem_cons_self) hOne hHere
      · split at hLater
        · exact absurd hLater List.not_mem_nil
        · exact ih (fun j hj => hFits j (List.mem_cons_of_mem _ hj)) hLater

/-- At the end of the value, the search leaves it if and only if the value runs out somewhere. -/
theorem searchReads_outside_iff (rt : Runtime) {is : List Nat}
    (hTail : ∀ i ∈ is, i < vA.length ∧ vA.length < i + vB.length) :
    (∃ p ∈ searchReads rt vA vB is, vA.length ≤ p) ↔ ∃ i ∈ is, RunsOut vA vB i := by
  induction is with
  | nil => simp [searchReads]
  | cons i is ih =>
      have hHere := hTail i List.mem_cons_self
      have hOffset := offsetReads_outside_iff rt hHere.1 hHere.2
      rw [searchReads]
      by_cases hRuns : RunsOut vA vB i
      · obtain ⟨p, hRead, hPast⟩ := hOffset.mpr hRuns
        exact iff_of_true ⟨p, List.mem_append_left _ hRead, hPast⟩ ⟨i, List.mem_cons_self, hRuns⟩
      · have hInside : ¬ ∃ p ∈ offsetReads rt vA vB i, vA.length ≤ p := fun h => hRuns (hOffset.mp h)
        have hNext := ih fun j hj => hTail j (List.mem_cons_of_mem _ hj)
        rw [found_outside hHere.1 hHere.2 hRuns]
        simp only [List.mem_append, List.mem_cons, Bool.false_eq_true, if_false, or_and_right,
          exists_or, hInside, hNext, false_or, exists_eq_left, hRuns]

/-- The search keeps to the value, and finds what is there: a pattern of one byte does not occur,
and a longer one occurs, or nowhere fits to the end of the value. -/
def SearchInside (vA vB : List UInt8) : Prop :=
  if vB.length = 1 then ∀ b ∈ vB, b ∉ vA
  else (∃ i, Occurs vA vB i) ∨ ∀ i, ¬ RunsOut vA vB i

theorem occurs_single {c : UInt8} : (∃ i, Occurs vA [c] i) ↔ c ∈ vA := by
  constructor
  · rintro ⟨i, hFits, hStart, -⟩
    exact List.mem_of_getElem? hStart
  · intro hMem
    obtain ⟨i, hi⟩ := List.mem_iff_getElem?.mp hMem
    have hIn : i < vA.length := (List.getElem?_eq_some_iff.mp hi).1
    exact ⟨i, hIn, hi, fun n hn hPositive => absurd hn (by simp; omega)⟩

theorem any_found_short (hShort : vB.length = 1) (is : List Nat) :
    is.any (found rt vA vB) = false := by
  rw [List.any_eq_false]
  intro i _
  rw [found, hShort, BaseVM.matchAt, Bool.and_false]
  exact Bool.false_ne_true

/-- The offsets where the pattern fits before the end of the value come first. -/
theorem range_split (vA vB : List UInt8) (hOne : 1 ≤ vB.length) :
    ∃ is js, List.range vA.length = is ++ js ∧
      (∀ i, i ∈ is ↔ i + vB.length ≤ vA.length) ∧
      ∀ i, i ∈ js ↔ i < vA.length ∧ vA.length < i + vB.length := by
  refine ⟨List.range (vA.length + 1 - vB.length),
    (List.range (vA.length - (vA.length + 1 - vB.length))).map (vA.length + 1 - vB.length + ·),
    ?_, ?_, ?_⟩
  · rw [← List.range_add]
    congr 1
    omega
  · intro i
    rw [List.mem_range]
    omega
  · intro i
    rw [List.mem_map]
    constructor
    · rintro ⟨n, hn, rfl⟩
      rw [List.mem_range] at hn
      omega
    · intro h
      exact ⟨i - (vA.length + 1 - vB.length), List.mem_range.mpr (by omega), by omega⟩

theorem search_long_iff (hTwo : 2 ≤ vB.length) :
    (((List.range vA.length).any (found rt vA vB) = true ↔ ∃ i, Occurs vA vB i) ∧
      ∀ p ∈ searchReads rt vA vB (List.range vA.length), p < vA.length) ↔
      (∃ i, Occurs vA vB i) ∨ ∀ i, ¬ RunsOut vA vB i := by
  obtain ⟨is, js, hRange, hBefore, hAfter⟩ := range_split vA vB (by omega)
  have hFound : is.any (found rt vA vB) = true ↔ ∃ i, Occurs vA vB i := by
    rw [List.any_eq_true]
    constructor
    · rintro ⟨i, hi, hFound⟩
      exact ⟨i, (found_iff_occurs ((hBefore i).mp hi) hTwo).mp hFound⟩
    · rintro ⟨i, hOccurs⟩
      exact ⟨i, (hBefore i).mpr hOccurs.1, (found_iff_occurs hOccurs.1 hTwo).mpr hOccurs⟩
  have hInside : ∀ p ∈ searchReads rt vA vB is, p < vA.length := by
    intro p
    exact searchReads_inside (by omega) fun i hi => (hBefore i).mp hi
  have hOutside := @searchReads_outside_iff vA vB rt js fun i hi => (hAfter i).mp hi
  rw [hRange, List.any_append, searchReads_append]
  by_cases hOccurs : ∃ i, Occurs vA vB i
  · rw [hFound.mpr hOccurs, if_pos rfl, List.append_nil, Bool.true_or]
    exact iff_of_true ⟨iff_of_true rfl hOccurs, hInside⟩ (.inl hOccurs)
  · have hNone : is.any (found rt vA vB) = false := by
      rw [← Bool.not_eq_true, hFound]
      exact hOccurs
    rw [hNone, if_neg Bool.false_ne_true, Bool.false_or]
    have hRuns : (∀ i, ¬ RunsOut vA vB i) ↔ ¬ ∃ i ∈ js, RunsOut vA vB i := by
      constructor
      · rintro h ⟨i, _, hRuns⟩
        exact h i hRuns
      · intro h i hRuns
        exact h ⟨i, (hAfter i).mpr ⟨hRuns.1, hRuns.2.1⟩, hRuns⟩
    constructor
    · intro h
      right
      rw [hRuns, ← hOutside]
      rintro ⟨p, hRead, hPast⟩
      have hBound := h.2 p (List.mem_append_right _ hRead)
      omega
    · intro h
      have hNoRuns := hRuns.mp (h.resolve_left hOccurs)
      have hNoFound : js.any (found rt vA vB) = false := by
        rw [List.any_eq_false]
        intro i hi
        have hTail := (hAfter i).mp hi
        rw [found_outside hTail.1 hTail.2 fun hRuns => hNoRuns ⟨i, hi, hRuns⟩]
        exact Bool.false_ne_true
      refine ⟨iff_of_false (by rw [hNoFound]; exact Bool.false_ne_true) hOccurs, fun p hRead => ?_⟩
      rcases List.mem_append.mp hRead with hFirst | hSecond
      · exact hInside p hFirst
      · by_contra hPast
        exact hNoRuns (hOutside.mp ⟨p, hSecond, by omega⟩)

/-- The search finds exactly the occurrences of the pattern and reads only the value, if and only
if the pattern is no single byte of the value, and occurs in it or nowhere fits to its end. -/
theorem contains_exact_iff (hOne : 1 ≤ (vm.bytes b).length) (hPositive : 0 < b.size)
    (hSize : b.size ≤ a.size) :
    FindsOccurrences rt vm a b ↔ SearchInside (vm.bytes a) (vm.bytes b) := by
  have hSizes : ¬ (a.size < b.size ∨ a.size = 0 ∨ b.size = 0) := by omega
  have hContains := @contains_eq rt vm a b hSizes
  have hReads : containsReads rt vm a b =
      searchReads rt (vm.bytes a) (vm.bytes b) (List.range (vm.bytes a).length) := by
    rw [containsReads, if_neg hSizes]
  have hFinds : FindsOccurrences rt vm a b ↔
      ((List.range (vm.bytes a).length).any (found rt (vm.bytes a) (vm.bytes b)) = true ↔
        ∃ i, Occurs (vm.bytes a) (vm.bytes b) i) ∧
      ∀ p ∈ searchReads rt (vm.bytes a) (vm.bytes b) (List.range (vm.bytes a).length),
        p < (vm.bytes a).length := by
    rw [← hContains, ← hReads]
    exact ⟨fun h => ⟨h.found, h.inside⟩, fun h => ⟨h.1, h.2⟩⟩
  rw [hFinds, SearchInside]
  by_cases hShort : (vm.bytes b).length = 1
  · rw [if_pos hShort, any_found_short hShort]
    obtain ⟨c, hc⟩ := List.length_eq_one_iff.mp hShort
    rw [hc, occurs_single]
    have hInside : ∀ p ∈ searchReads rt (vm.bytes a) [c] (List.range (vm.bytes a).length),
        p < (vm.bytes a).length := by
      intro p
      exact searchReads_inside (Nat.le_refl 1) fun i hi => List.mem_range.mp hi
    simp only [Bool.false_eq_true, false_iff, List.mem_singleton, forall_eq]
    exact and_iff_left hInside
  · rw [if_neg hShort]
    exact search_long_iff (by omega)

/-- The word `abc` with the words `bc` and `b`. -/
def exampleText : BaseVM :=
  { vRegister := [97, 98, 99, 0, 0, 0, 0, 0, 98, 99, 0, 0, 0, 0, 0, 0, 98, 0, 0, 0, 0, 0, 0, 0]
    nPointer := 3 }

def exampleWord : Value := { nBegin := 0, nEnd := 1, nBytes := 3 }

def examplePattern : Value := { nBegin := 1, nEnd := 2, nBytes := 2 }

def exampleByte : Value := { nBegin := 2, nEnd := 3, nBytes := 1 }

theorem contains_exact_iff_pattern :
    FindsOccurrences exampleRuntime exampleText exampleWord examplePattern := by
  have hOccurs : Occurs (exampleText.bytes exampleWord) (exampleText.bytes examplePattern) 1 := by
    unfold Occurs
    decide +kernel
  exact (contains_exact_iff (by decide +kernel) (by decide) (by decide)).mpr (.inl ⟨1, hOccurs⟩)

theorem contains_misses_byte :
    Allocated exampleText exampleWord ∧ Allocated exampleText exampleByte ∧
      1 ≤ exampleByte.nBytes ∧ exampleByte.size ≤ exampleWord.size ∧
      ¬ FindsOccurrences exampleRuntime exampleText exampleWord exampleByte := by
  refine ⟨by decide +kernel, by decide +kernel, by decide, by decide, fun h => ?_⟩
  have hOccurs : Occurs (exampleText.bytes exampleWord) (exampleText.bytes exampleByte) 1 := by
    unfold Occurs
    decide +kernel
  have hFound := h.found.mpr ⟨1, hOccurs⟩
  exact absurd hFound (by decide +kernel)

end Nexus.Safety
