import Nexus.Lib.Overflow
import Nexus.Register.Memory
import Nexus.Operation.Operands
import Nexus.Safety.Claims

/-!
# Arithmetic of conditions

The arithmetic operations of the condition machine work on one register each and
refuse a result that does not fit in it.  Every one has its own test for that: a
sum below its first term, a difference above it, a quotient below a factor.
`EXP` multiplies in a loop and makes the test of a product in every turn.

## Main results

* `arithmetic_exact_iff`: an operation throws exactly when its result over the
  natural numbers is not a word or its cost overflows, and leaves that result
  otherwise.
* `add_costs`: the second reason to throw.
-/

namespace Nexus.Safety

open Nexus.Lib.Bytes
open Nexus.Lib.Checked
open Nexus.Lib.Overflow
open Nexus.Util
open Nexus.Register
open Nexus.Register.BaseVM
open Nexus.Operation
open Nexus.Operation.Condition
open Nexus.LLD

/-- The result of an operation over the natural numbers, where there is one. -/
def naturalResult (OPERATION : UInt8) (a b : Nat) : Option Nat :=
  if OPERATION = OP.ADD then some (a + b)
  else if OPERATION = OP.SUB then if b ≤ a then some (a - b) else none
  else if OPERATION = OP.DIV then if b = 0 then none else some (a / b)
  else if OPERATION = OP.MUL then some (a * b)
  else if OPERATION = OP.EXP then some (a ^ b)
  else if OPERATION = OP.MOD then if b = 0 then none else some (a % b)
  else if OPERATION = OP.INC then some (a + 1)
  else if OPERATION = OP.DEC then if 1 ≤ a then some (a - 1) else none
  else none

/-- The operations on two numbers. -/
def arithmeticOPS : List UInt8 := [OP.ADD, OP.SUB, OP.DIV, OP.MUL, OP.EXP, OP.MOD]

/-- The operand is an exception. -/
def Throws (operand : Result Operand) : Prop :=
  ∃ strMessage, operand = .error (.exception strMessage)

/-- The operand is `vRet` again, which holds a number. -/
def Leaves (vRet : Value) (n : Nat) (operand : Result Operand) : Prop :=
  ∃ c, operand = .ok (true, vRet, c) ∧ (c.vm.at_ vRet).toNat = n

/-- The result of the operation is a word. -/
def IsWord (oResult : Option Nat) : Prop := ∃ n < 2 ^ 64, oResult = some n

/-- The operation throws or leaves its result, and throws only if there is none in a word, or
for its cost. -/
structure ExactOrThrows (oResult : Option Nat) (vRet : Value) (nCost nPaid : UInt64)
    (operand : Result Operand) : Prop where
  exact_or : Throws operand ∨ ∃ n, oResult = some n ∧ Leaves vRet n operand
  throws_iff : Throws operand ↔ ¬ IsWord oResult ∨ 2 ^ 64 ≤ nCost.toNat + nPaid.toNat

/-- A value of one register that holds a word, with some bytes below and above. -/
structure Slot (vm : BaseVM) (value : Value) (vchUsed : List UInt8) (n : UInt64)
    (vchRest : List UInt8) : Prop where
  stores : Stores vm (vchUsed ++ FixedWidth.encode n ++ vchRest)
  begins : vchUsed.length = 8 * value.nBegin
  one : value.nEnd = value.nBegin + 1

/-- Two values of one register: the first is anywhere, and the second was allocated last. -/
structure Slots (vm : BaseVM) (vRet vArg : Value) (vchUsed vchMid : List UInt8) (a b : UInt64) :
    Prop where
  left : Slot vm vRet vchUsed a (vchMid ++ FixedWidth.encode b)
  right : Slot vm vArg (vchUsed ++ FixedWidth.encode a ++ vchMid) b []

variable {vm vm' : BaseVM} {value vRet vArg : Value} {vchUsed vchMid vchRest : List UInt8}
  {a b n : UInt64} {OPERATION : UInt8} {c : Condition}

/-! ## Slots -/

theorem Slot.size (h : Slot vm value vchUsed n vchRest) : value.size = 1 := by
  rw [Value.size, h.one]
  omega

/-- A slot reads as the word in it. -/
theorem Slot.at (h : Slot vm value vchUsed n vchRest) : vm.at_ value = n := by
  have hLength : (FixedWidth.encode n).length = 8 := by simp
  rw [BaseVM.at_, BaseVM.word, h.stores.memory, ← h.begins, List.append_assoc, List.append_assoc,
    List.drop_left, ← hLength, List.take_left, FixedWidth.decode_encode]

/-- An assignment to a slot. -/
theorem Slot.setAt (h : Slot vm value vchUsed n vchRest) (m : UInt64) :
    Slot (vm.setAt value m) value vchUsed m vchRest :=
  ⟨h.stores.setAt h.begins (by simp), h.begins, h.one⟩

theorem Slots.setAt (h : Slots vm vRet vArg vchUsed vchMid a b) (m : UInt64) :
    Slots (vm.setAt vRet m) vRet vArg vchUsed vchMid m b := by
  have hLeft := h.left.setAt m
  refine ⟨hLeft, ⟨?_, ?_, h.right.one⟩⟩
  · have hStores := hLeft.stores
    rwa [List.append_nil, List.append_assoc _ vchMid]
  · have hBegins := h.right.begins
    simpa using hBegins

/-- Freeing the second slot leaves the first one. -/
theorem Slots.release (h : Slots vm vRet vArg vchUsed vchMid a b) :
    vm.deallocate vArg = .ok (vm.release vArg) ∧ ((vm.release vArg).at_ vRet = a) := by
  have hStores := h.right.stores
  rw [List.append_nil] at hStores
  have hPointer := hStores.pointer
  have hBegins := h.right.begins
  have hOne := h.right.one
  have hBound := hStores.bound
  have hMax : REGISTERS = 256 := by decide
  rw [List.length_append, hBegins, FixedWidth.encode_length, width_uint64] at hPointer
  constructor
  · apply deallocate_eq_ok.mpr
    refine ⟨checkTop_eq_ok.mpr ⟨by omega, by omega, by omega, by omega⟩, ?_⟩
    rfl
  · have hFreed : Slot (vm.release vArg) vRet vchUsed a vchMid :=
      ⟨hStores.release hBegins (by omega), h.left.begins, h.left.one⟩
    exact hFreed.at

/-! ## The computation -/

/-- The computation left the natural result in place, or there is none in a word. -/
def Computes (OPERATION : UInt8) (vRet vArg : Value) (vchUsed vchMid : List UInt8) (a b : UInt64)
    (computed : Result BaseVM) : Prop :=
  (∃ n vm', naturalResult OPERATION a.toNat b.toNat = some n.toNat ∧ computed = .ok vm' ∧
      Slots vm' vRet vArg vchUsed vchMid n b) ∨
    (¬ IsWord (naturalResult OPERATION a.toNat b.toNat) ∧
      ∃ strMessage, computed = .error (.exception strMessage))

/-- The test of an operation, against the natural result. -/
theorem computes_of_test {strMessage : String} {p : Prop} [Decidable p]
    (h : Slots vm vRet vArg vchUsed vchMid a b)
    (hResult : ¬ p → naturalResult OPERATION a.toNat b.toNat = some n.toNat)
    (hNone : p → ¬ IsWord (naturalResult OPERATION a.toNat b.toNat)) :
    Computes OPERATION vRet vArg vchUsed vchMid a b (do
      reject p (.exception strMessage)
      return vm.setAt vRet n) := by
  by_cases hp : p
  · exact .inr ⟨hNone hp, strMessage, by simp [reject, hp]⟩
  · refine .inl ⟨n, vm.setAt vRet n, hResult hp, ?_, h.setAt n⟩
    simp [reject, hp, pure, Except.pure]

theorem not_isWord_none : ¬ IsWord none := by
  intro h
  obtain ⟨n, -, hNone⟩ := h
  cases hNone

theorem not_isWord_some {m : Nat} (h : 2 ^ 64 ≤ m) : ¬ IsWord (some m) := by
  intro hWord
  obtain ⟨n, hLt, hEq⟩ := hWord
  cases hEq
  omega

/-- The loop of `EXP` at the power `e`. -/
theorem power_computes {nBase e : UInt64} {k : Nat} {acc : UInt64}
    (h : Slots vm vRet vArg vchUsed vchMid acc b) (hAcc : acc.toNat = nBase.toNat ^ e.toNat)
    (hLe : e.toNat ≤ b.toNat) (hFuel : b.toNat - e.toNat < k) :
    (∃ n vm', nBase.toNat ^ b.toNat = n.toNat ∧ power vRet vArg nBase k e vm = .ok vm' ∧
        Slots vm' vRet vArg vchUsed vchMid n b) ∨
      (2 ^ 64 ≤ nBase.toNat ^ b.toNat ∧
        ∃ strMessage, power vRet vArg nBase k e vm = .error (.exception strMessage)) := by
  induction k generalizing e acc vm with
  | zero => omega
  | succ k ih =>
      rw [power, h.right.at, h.left.at]
      by_cases hMore : e < b
      · rw [if_pos hMore]
        have hLt : e.toNat < b.toNat := UInt64.lt_iff_toNat_lt.mp hMore
        have hNext : (e + 1).toNat = e.toNat + 1 := by
          have hMax := b.toNat_lt
          rw [UInt64.toNat_add, UInt64.toNat_one]
          omega
        by_cases hWraps : nBase ≠ 0 ∧ 0xffffffffffffffff / nBase < acc
        · right
          have hLarge := mul_wraps_iff.mp hWraps
          have hPos : 0 < nBase.toNat :=
            Nat.pos_of_ne_zero fun hZero => hWraps.1 (toNat_eq_zero_iff.mp hZero)
          refine ⟨?_, _, by rw [reject, if_pos hWraps]; rfl⟩
          calc 2 ^ 64
            _ ≤ nBase.toNat ^ e.toNat * nBase.toNat := by rw [← hAcc]; exact hLarge
            _ = nBase.toNat ^ (e.toNat + 1) := (Nat.pow_succ ..).symm
            _ ≤ nBase.toNat ^ b.toNat := Nat.pow_le_pow_right hPos hLt
        · have hFits : acc.toNat * nBase.toNat < 2 ^ 64 :=
            Nat.not_le.mp fun hLarge => hWraps (mul_wraps_iff.mpr hLarge)
          have hAcc' : (acc * nBase).toNat = nBase.toNat ^ (e + 1).toNat := by
            rw [toNat_mul_of_lt hFits, hAcc, hNext, Nat.pow_succ]
          have hRest := ih (h.setAt (acc * nBase)) hAcc' (by omega) (by omega)
          rw [reject, if_neg hWraps]
          exact hRest
      · rw [if_neg hMore]
        have hEnd : e.toNat = b.toNat := by
          rw [UInt64.lt_iff_toNat_lt] at hMore
          omega
        exact .inl ⟨acc, vm, by rw [hAcc, hEnd], rfl, h⟩

/-- The power of zero is one; any other power starts with the base itself. -/
theorem power_result (h : Slots vm vRet vArg vchUsed vchMid a b) :
    Computes OP.EXP vRet vArg vchUsed vchMid a b (compute OP.EXP vRet vArg vm) := by
  have hResult : naturalResult OP.EXP a.toNat b.toNat = some (a.toNat ^ b.toNat) := rfl
  show Computes _ _ _ _ _ _ _ (power vRet vArg
    ((if vm.at_ vArg = 0 then vm.setAt vRet 1 else vm).at_ vRet)
    (((if vm.at_ vArg = 0 then vm.setAt vRet 1 else vm).at_ vArg).toNat + 65) 1
    (if vm.at_ vArg = 0 then vm.setAt vRet 1 else vm))
  rw [Computes, hResult, h.right.at]
  by_cases hZero : b = 0
  · have hOne := h.setAt 1
    left
    refine ⟨1, vm.setAt vRet 1, ?_, ?_, hOne⟩
    · rw [hZero, UInt64.toNat_zero, Nat.pow_zero, UInt64.toNat_one]
    · rw [if_pos hZero, power, hOne.right.at, hZero, if_neg (by decide)]
  · have hPos : 0 < b.toNat := Nat.pos_of_ne_zero fun h0 => hZero (toNat_eq_zero_iff.mp h0)
    rw [if_neg hZero, h.left.at, h.right.at]
    have hAcc : a.toNat = a.toNat ^ (1 : UInt64).toNat := by
      rw [UInt64.toNat_one, Nat.pow_one]
    have hPower := power_computes (k := b.toNat + 65) h hAcc hPos (by rw [UInt64.toNat_one]; omega)
    rcases hPower with ⟨n, vm', hn, hOk, hSlots⟩ | ⟨hLarge, hThrows⟩
    · exact .inl ⟨n, vm', by rw [hn], hOk, hSlots⟩
    · exact .inr ⟨not_isWord_some hLarge, hThrows⟩

/-- Each operation computes its natural result, or throws. -/
theorem compute_computes (h : Slots vm vRet vArg vchUsed vchMid a b)
    (hOp : OPERATION ∈ arithmeticOPS) :
    Computes OPERATION vRet vArg vchUsed vchMid a b (compute OPERATION vRet vArg vm) := by
  have hZero : b = 0 → b.toNat = 0 := toNat_eq_zero_iff.mpr
  have hPos : ¬ b = 0 → ¬ b.toNat = 0 := mt toNat_eq_zero_iff.mp
  simp only [arithmeticOPS, List.mem_cons, List.not_mem_nil, or_false] at hOp
  rcases hOp with rfl | rfl | rfl | rfl | rfl | rfl
  · show Computes OP.ADD vRet vArg vchUsed vchMid a b (do
      reject (vm.at_ vRet + vm.at_ vArg < vm.at_ vRet) (.exception "OP::ADD 64-bit value overflow")
      return vm.setAt vRet (vm.at_ vRet + vm.at_ vArg))
    rw [h.left.at, h.right.at]
    refine computes_of_test h (fun hFits => ?_) fun hWraps => ?_
    · exact congrArg some (toNat_add_of_not_wraps hFits).symm
    · exact not_isWord_some (add_wraps_iff.mp hWraps)
  · show Computes OP.SUB vRet vArg vchUsed vchMid a b (do
      reject (vm.at_ vRet < vm.at_ vRet - vm.at_ vArg) (.exception "OP::SUB 64-bit value overflow")
      return vm.setAt vRet (vm.at_ vRet - vm.at_ vArg))
    rw [h.left.at, h.right.at]
    have hResult : naturalResult OP.SUB a.toNat b.toNat =
        if b.toNat ≤ a.toNat then some (a.toNat - b.toNat) else none := rfl
    refine computes_of_test h (fun hFits => ?_) fun hWraps => ?_
    · rw [hResult, toNat_sub_of_not_wraps hFits, if_pos]
      exact Nat.not_lt.mp (mt sub_wraps_iff.mpr hFits)
    · rw [hResult, if_neg (Nat.not_le.mpr (sub_wraps_iff.mp hWraps))]
      exact not_isWord_none
  · show Computes OP.DIV vRet vArg vchUsed vchMid a b (do
      reject (vm.at_ vArg = 0) (.exception "OP::DIV cannot divide by zero")
      return vm.setAt vRet (vm.at_ vRet / vm.at_ vArg))
    rw [h.left.at, h.right.at]
    have hResult : naturalResult OP.DIV a.toNat b.toNat =
        if b.toNat = 0 then none else some (a.toNat / b.toNat) := rfl
    refine computes_of_test h (fun hDivides => ?_) fun hNone => ?_
    · rw [hResult, if_neg (hPos hDivides), UInt64.toNat_div]
    · rw [hResult, if_pos (hZero hNone)]
      exact not_isWord_none
  · show Computes OP.MUL vRet vArg vchUsed vchMid a b (do
      reject (vm.at_ vArg ≠ 0 ∧ 0xffffffffffffffff / vm.at_ vArg < vm.at_ vRet)
        (.exception "OP::MUL 64-bit value overflow")
      return vm.setAt vRet (vm.at_ vRet * vm.at_ vArg))
    rw [h.left.at, h.right.at]
    refine computes_of_test h (fun hFits => ?_) fun hWraps => ?_
    · have hLt : a.toNat * b.toNat < 2 ^ 64 := Nat.not_le.mp (mt mul_wraps_iff.mpr hFits)
      exact congrArg some (toNat_mul_of_lt hLt).symm
    · exact not_isWord_some (mul_wraps_iff.mp hWraps)
  · exact power_result h
  · show Computes OP.MOD vRet vArg vchUsed vchMid a b (do
      reject (vm.at_ vArg = 0) (.exception "OP::MOD cannot divide by zero")
      return vm.setAt vRet (vm.at_ vRet % vm.at_ vArg))
    rw [h.left.at, h.right.at]
    have hResult : naturalResult OP.MOD a.toNat b.toNat =
        if b.toNat = 0 then none else some (a.toNat % b.toNat) := rfl
    refine computes_of_test h (fun hDivides => ?_) fun hNone => ?_
    · rw [hResult, if_neg (hPos hDivides), UInt64.toNat_mod]
    · rw [hResult, if_pos (hZero hNone)]
      exact not_isWord_none

/-! ## The operations -/

/-- The end of an operation: its cost, and the slot that holds the result. -/
theorem exact_of_spend {oResult : Option Nat} {strOP : String} {nPaid : UInt64}
    (hn : oResult = some n.toNat) (hAt : c.vm.at_ vRet = n) :
    ExactOrThrows oResult vRet c.nCost nPaid (do
      let c ← c.spend strOP nPaid
      return (true, vRet, c)) := by
  have hWord : IsWord oResult := ⟨n.toNat, n.toNat_lt, hn⟩
  by_cases hCost : c.nCost + nPaid < c.nCost
  · have hThrows : Throws (do
        let c ← c.spend strOP nPaid
        return (true, vRet, c)) := ⟨_, by rw [spend, reject, if_pos hCost]; rfl⟩
    exact ⟨.inl hThrows, iff_of_true hThrows (.inr (add_wraps_iff.mp hCost))⟩
  · have hSpend : c.spend strOP nPaid = .ok { c with nCost := c.nCost + nPaid } :=
      spend_eq_ok.mpr ⟨hCost, rfl⟩
    rw [hSpend]
    refine ⟨.inr ⟨n.toNat, hn, _, rfl, congrArg UInt64.toNat hAt⟩, iff_of_false ?_ ?_⟩
    · intro hThrows
      obtain ⟨strMessage, hError⟩ := hThrows
      cases hError
    · rw [← add_wraps_iff]
      exact not_or.mpr ⟨not_not.mpr hWord, hCost⟩

theorem exact_of_throws {oResult : Option Nat} {nCost nPaid : UInt64} {operand : Result Operand}
    (hNone : ¬ IsWord oResult) (hThrows : Throws operand) :
    ExactOrThrows oResult vRet nCost nPaid operand :=
  ⟨.inl hThrows, iff_of_true hThrows (.inl hNone)⟩

theorem arithmetic_exact (h : Slots c.vm vRet vArg vchUsed vchMid a b)
    (hOp : OPERATION ∈ arithmeticOPS) :
    ExactOrThrows (naturalResult OPERATION a.toNat b.toNat) vRet c.nCost (arithmeticCost OPERATION)
      (arithmetic OPERATION vRet vArg c) := by
  have hSizes : ¬ (1 < vArg.size ∨ 1 < vRet.size) := by
    rw [h.left.size, h.right.size]
    omega
  rcases compute_computes h hOp with ⟨n, vm', hn, hOk, hSlots⟩ | ⟨hNone, strMessage, hError⟩
  · obtain ⟨hFree, hAt⟩ := hSlots.release
    have hRun : arithmetic OPERATION vRet vArg c = (do
        let c ← { c with vm := vm'.release vArg }.spend (arithmeticName OPERATION)
          (arithmeticCost OPERATION)
        return (true, vRet, c)) := by
      rw [arithmetic, reject, if_neg hSizes, hOk]
      show (do
        let vm ← vm'.deallocate vArg
        let c ← { c with vm }.spend (arithmeticName OPERATION) (arithmeticCost OPERATION)
        return (true, vRet, c)) = _
      rw [hFree]
      rfl
    rw [hRun]
    exact exact_of_spend (c := { c with vm := vm'.release vArg }) hn hAt
  · apply exact_of_throws hNone
    exact ⟨strMessage, by rw [arithmetic, reject, if_neg hSizes, hError]; rfl⟩

/-- `INC` and `DEC` add a word and refuse one result. -/
theorem increment_exact {nAdd nLimit : UInt64} {oResult : Option Nat}
    (h : Slot c.vm vRet vchUsed a vchRest)
    (hResult : a + nAdd ≠ nLimit → oResult = some (a + nAdd).toNat)
    (hNone : a + nAdd = nLimit → ¬ IsWord oResult) :
    ExactOrThrows oResult vRet c.nCost 64 (increment OPERATION nAdd nLimit vRet c) := by
  have hSize : ¬ 1 < vRet.size := by
    rw [h.size]
    omega
  by_cases hLimit : a + nAdd = nLimit
  · apply exact_of_throws (hNone hLimit)
    exact ⟨_, by rw [increment, reject, if_neg hSize, h.at, reject, if_pos hLimit]; rfl⟩
  · have hRun : increment OPERATION nAdd nLimit vRet c = (do
        let c ← { c with vm := c.vm.setAt vRet (a + nAdd) }.spend (arithmeticName OPERATION) 64
        return (true, vRet, c)) := by
      rw [increment, reject, if_neg hSize, h.at, reject, if_neg hLimit]
      rfl
    rw [hRun]
    exact exact_of_spend (c := { c with vm := c.vm.setAt vRet (a + nAdd) }) (hResult hLimit)
      (h.setAt (a + nAdd)).at

theorem inc_exact (h : Slot c.vm vRet vchUsed a vchRest) :
    ExactOrThrows (naturalResult OP.INC a.toNat 0) vRet c.nCost 64 (increment OP.INC 1 0 vRet c) := by
  have hResult : naturalResult OP.INC a.toNat 0 = some (a.toNat + 1) := rfl
  have hLt := a.toNat_lt
  have hSum : (a + 1).toNat = (a.toNat + 1) % 2 ^ 64 := by
    rw [UInt64.toNat_add, UInt64.toNat_one]
  rw [hResult]
  refine increment_exact h (fun hNe => ?_) fun hEq => ?_
  · have hNe' : (a + 1).toNat ≠ 0 := mt toNat_eq_zero_iff.mp hNe
    rw [hSum]
    rw [hSum] at hNe'
    apply congrArg some
    omega
  · apply not_isWord_some
    have hZero := toNat_eq_zero_iff.mpr hEq
    rw [hSum] at hZero
    omega

theorem dec_exact (h : Slot c.vm vRet vchUsed a vchRest) :
    ExactOrThrows (naturalResult OP.DEC a.toNat 0) vRet c.nCost 64
      (increment OP.DEC 0xffffffffffffffff 0xffffffffffffffff vRet c) := by
  have hResult : naturalResult OP.DEC a.toNat 0 = if 1 ≤ a.toNat then some (a.toNat - 1) else none := rfl
  have hLt := a.toNat_lt
  have hSum : (a + 0xffffffffffffffff).toNat = (a.toNat + 18446744073709551615) % 2 ^ 64 := by
    rw [UInt64.toNat_add]
    rfl
  rw [hResult]
  refine increment_exact h (fun hNe => ?_) fun hEq => ?_
  · have hNe' : (a + 0xffffffffffffffff).toNat ≠ 18446744073709551615 := fun hNat =>
      hNe (UInt64.toNat_inj.mp hNat)
    rw [hSum] at hNe'
    rw [hSum, if_pos (by omega)]
    apply congrArg some
    omega
  · have hMax : (a + 0xffffffffffffffff).toNat = 18446744073709551615 := by rw [hEq]; rfl
    rw [hSum] at hMax
    rw [if_neg (by omega)]
    exact not_isWord_none

theorem arithmetic_exact_iff (rt : Runtime) (disk : Disk)
    (h : Slots c.vm vRet vArg vchUsed vchMid a b) :
    (∀ OPERATION ∈ arithmeticOPS,
      ExactOrThrows (naturalResult OPERATION a.toNat b.toNat) vRet c.nCost
        (arithmeticCost OPERATION) (arithmetic OPERATION vRet vArg c)) ∧
    ∀ (c : Condition) (vRet : Value) (vchUsed vchRest : List UInt8) (a : UInt64),
      Slot c.vm vRet vchUsed a vchRest →
        (∃ operand, unary rt disk OP.INC vRet c = some operand ∧
          ExactOrThrows (naturalResult OP.INC a.toNat 0) vRet c.nCost 64 operand) ∧
        ∃ operand, unary rt disk OP.DEC vRet c = some operand ∧
          ExactOrThrows (naturalResult OP.DEC a.toNat 0) vRet c.nCost 64 operand := by
  refine ⟨fun OPERATION hOp => arithmetic_exact h hOp, fun c vRet vchUsed vchRest a hSlot => ?_⟩
  exact ⟨⟨_, rfl, inc_exact hSlot⟩, ⟨_, rfl, dec_exact hSlot⟩⟩

/-- Two words in the memory, the second one on top. -/
def twoWords (a b nCost : UInt64) : Condition where
  vm :=
    { vRegister := FixedWidth.encode a ++ FixedWidth.encode b ++ List.replicate 2032 0
      nPointer := 2 }
  contract := {}
  caller := {}
  nCost := nCost

def firstWord : Value := { nBegin := 0, nEnd := 1, nBytes := 8 }
def secondWord : Value := { nBegin := 1, nEnd := 2, nBytes := 8 }

theorem twoWords_slots (a b nCost : UInt64) :
    Slots (twoWords a b nCost).vm firstWord secondWord [] [] a b := by
  have hBound : (twoWords a b nCost).vm.nPointer ≤ REGISTERS := by
    show 2 ≤ REGISTERS
    decide
  exact ⟨⟨⟨rfl, rfl, hBound⟩, rfl, rfl⟩, ⟨⟨rfl, rfl, hBound⟩, rfl, rfl⟩⟩

/-- Three to the power of forty is a word, to the power of forty-one it is not. -/
theorem arithmetic_exact_iff_three :
    Leaves firstWord (3 ^ 40) (arithmetic OP.EXP firstWord secondWord (twoWords 3 40 0)) ∧
      Throws (arithmetic OP.EXP firstWord secondWord (twoWords 3 41 0)) := by
  have hForty := (arithmetic_exact_iff exampleRuntime {} (twoWords_slots 3 40 0)).1 OP.EXP (by decide)
  have hMore := (arithmetic_exact_iff exampleRuntime {} (twoWords_slots 3 41 0)).1 OP.EXP (by decide)
  have hResult : naturalResult OP.EXP (3 : UInt64).toNat (40 : UInt64).toNat = some (3 ^ 40) := rfl
  have hResult' : naturalResult OP.EXP (3 : UInt64).toNat (41 : UInt64).toNat = some (3 ^ 41) := rfl
  rw [hResult] at hForty
  rw [hResult'] at hMore
  constructor
  · have hWord : IsWord (some (3 ^ 40)) := ⟨3 ^ 40, by decide, rfl⟩
    have hNot : ¬ Throws (arithmetic OP.EXP firstWord secondWord (twoWords 3 40 0)) := by
      rw [hForty.throws_iff, not_or, not_not]
      exact ⟨hWord, by decide⟩
    obtain ⟨n, hn, hLeaves⟩ := hForty.exact_or.resolve_left hNot
    obtain rfl := Option.some.inj hn
    exact hLeaves
  · exact hMore.throws_iff.mpr (.inl (not_isWord_some (by decide)))

/-- One and one is two, but the cost of the sum does not fit. -/
theorem add_costs :
    IsWord (naturalResult OP.ADD 1 1) ∧
      Throws (arithmetic OP.ADD firstWord secondWord (twoWords 1 1 0xffffffffffffffff)) :=
  ⟨⟨2, by decide, rfl⟩, "OP::ADD costs value overflow", by decide +kernel⟩

end Nexus.Safety
