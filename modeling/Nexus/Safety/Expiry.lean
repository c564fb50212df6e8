import Nexus.API.Conditions
import Nexus.Safety.Arithmetic
import Nexus.Safety.Comparisons
import Nexus.Safety.Expressions

/-!
# The expiration of a contract

The condition that a transfer or a debit is given has two groups: others may claim it before it
expires, and the sender may take it back after.  The machine compares times by the sign of their
difference in 64 bits.

## Main results

* `expires_iff`: who may claim a contract that expires, and when.
-/

namespace Nexus.Safety

open Nexus.Lib
open Nexus.Lib.Bytes
open Nexus.Lib.Checked
open Nexus.Lib.Overflow
open Nexus.Lib.Words
open Nexus.Util
open Nexus.Register
open Nexus.Register.BaseVM
open Nexus.Operation
open Nexus.Operation.Condition
open Nexus.LLD
open Nexus.API

variable {rt : Runtime} {disk : Disk} {contract caller : Contract} {c c' : Condition}
  {hashGenesis hashCaller : Uint256} {nTimestamp nExpires : UInt64} {nLeft nRight nCost : UInt64}
  {vch vchRest vchUsed left right : List UInt8} {vEvaluate : List (Bool × UInt8)}
  {vm : BaseVM} {value : Value} {d e : Datum} {OPERATION : UInt8}

/-! ## Operands -/

/-- The condition is called by a genesis, on a contract with a timestamp. -/
structure CalledBy (c : Condition) (hashGenesis : Uint256) (nTimestamp : UInt64) : Prop where
  genesis : c.caller.hashCaller = hashGenesis
  timestamp : c.contract.nTimestamp = nTimestamp

/-- The bytes of an operand leave a datum in the memory, at a cost. -/
def ReadsAs (rt : Runtime) (disk : Disk) (hashGenesis : Uint256) (nTimestamp : UInt64)
    (vch : List UInt8) (d : Datum) (nCost : UInt64) : Prop :=
  ∀ (c : Condition) (vchRest vchUsed : List UInt8) (value : Value) (vm : BaseVM),
    CalledBy c hashGenesis nTimestamp → Stores c.vm vchUsed → c.vm.nPointer + 2 ≤ REGISTERS →
    c.At (vch ++ vchRest) → Ends vchRest → Affords c nCost.toNat →
    d.allocate c.vm = .ok (value, vm) →
      c.GetValue rt disk = .ok (true, value, taken c vch.length vm nCost)

theorem reads_literal (l : Literal) (hNonEmpty : l.NonEmpty) :
    ReadsAs rt disk hashGenesis nTimestamp (Term.literal l).bytes l.datum l.cost :=
  fun _ _ _ _ _ _ _ _ hAt hEnds hAffords hAllocate =>
    GetValue_literal hAt hEnds hNonEmpty hAffords hAllocate

/-- A value of the environment, loaded by one operation, and what follows. -/
theorem getValue_load {α : Type} [FixedWidth α] {a : α} {strOP : String} {n : Nat} {vRet : Value}
    (hAt : c.At (OPERATION :: vchRest)) (hBinary : binary OPERATION = false)
    (hUnary : unary rt disk OPERATION vRet (c.skip 1) = some (load α strOP a nCost (c.skip 1)))
    (hAffords : Affords c nCost.toNat) (hAllocate : (Datum.of a).allocate c.vm = .ok (value, vm)) :
    getValue rt disk (n + 1) vRet c = getValue rt disk n value (taken c 1 vm nCost) := by
  have hLoad : load α strOP a nCost (c.skip 1) = .ok (true, value, taken c 1 vm nCost) :=
    load_eq_ok.mpr ⟨rfl, hAffords.not_wraps, vm, hAllocate, rfl⟩
  rw [getValue_unary hAt hBinary hUnary, hLoad]
  rfl

theorem reads_load {α : Type} [FixedWidth α] {a : α} {strOP : String}
    (hBinary : binary OPERATION = false)
    (hUnary : ∀ c, CalledBy c hashGenesis nTimestamp →
      unary rt disk OPERATION {} (c.skip 1) = some (load α strOP a nCost (c.skip 1))) :
    ReadsAs rt disk hashGenesis nTimestamp [OPERATION] (.of a) nCost := by
  intro c vchRest vchUsed value vm hCalled hStores hRoom hAt hEnds hAffords hAllocate
  rw [GetValue, hAt.remaining, getValue_load hAt hBinary (hUnary c hCalled) hAffords hAllocate]
  exact getValue_ends (hAt.op.2.congr rfl) hEnds

/-- The two terms of a sum are in the memory. -/
theorem slots_of_stores {a b : UInt64} (hUsed : vchUsed.length = 8 * vm.nPointer) {vm' : BaseVM}
    (hStores : Stores vm' (vchUsed ++ FixedWidth.encode a ++ FixedWidth.encode b)) :
    Slots vm' (valueAt vm.nPointer (.of a)) (valueAt (vm.nPointer + 1) (.of b)) vchUsed [] a b where
  left := ⟨hStores, hUsed, rfl⟩
  right := by
    refine ⟨?_, ?_, rfl⟩
    · rw [List.append_nil, List.append_nil]
      exact hStores
    · rw [List.append_nil, List.length_append, FixedWidth.encode_length, width_uint64, hUsed]
      rfl

/-- The sum of two words in the memory, or none if it does not fit in a word. -/
theorem arithmetic_sum {a b : UInt64} (hUsed : vchUsed.length = 8 * vm.nPointer)
    (hStores : Stores c.vm (vchUsed ++ FixedWidth.encode a ++ FixedWidth.encode b)) :
    (2 ^ 64 ≤ a.toNat + b.toNat → ∀ operand,
      arithmetic OP.ADD (valueAt vm.nPointer (.of a)) (valueAt (vm.nPointer + 1) (.of b)) c ≠
        .ok operand) ∧
    (a.toNat + b.toNat < 2 ^ 64 → Affords c 64 → ∃ vm', Stores vm' (vchUsed ++ FixedWidth.encode (a + b)) ∧
      arithmetic OP.ADD (valueAt vm.nPointer (.of a)) (valueAt (vm.nPointer + 1) (.of b)) c =
        .ok (true, valueAt vm.nPointer (.of a), { c with vm := vm', nCost := c.nCost + 64 })) := by
  have hSlots := slots_of_stores hUsed hStores
  have hSizes : ¬(1 < (valueAt (vm.nPointer + 1) (.of b)).size ∨
      1 < (valueAt vm.nPointer (.of a)).size) := by
    rw [hSlots.right.size, hSlots.left.size]
    omega
  have hResult : naturalResult OP.ADD a.toNat b.toNat = some (a.toNat + b.toNat) := rfl
  have hComputes := @compute_computes _ _ _ _ _ _ _ OP.ADD hSlots (by decide)
  rw [Computes, hResult] at hComputes
  rw [arithmetic, reject, if_neg hSizes]
  constructor
  · intro hLarge operand hOk
    rcases hComputes with ⟨n, vm', hSum, -, -⟩ | ⟨-, strMessage, hError⟩
    · have hBound := n.toNat_lt
      have hEq := Option.some.inj hSum
      omega
    · rw [hError] at hOk
      cases hOk
  · intro hFits hAffords
    rcases hComputes with ⟨n, vm', hSum, hOk, hSlots'⟩ | ⟨hNot, -⟩
    · have hWord : n = a + b := by
        rw [← UInt64.toNat_inj, UInt64.toNat_add, Nat.mod_eq_of_lt hFits]
        exact (Option.some.inj hSum).symm
      rw [hWord] at hSlots'
      have hTop := hSlots'.right.stores
      rw [List.append_nil] at hTop
      have hPointer := hTop.pointer
      simp only [List.length_append, List.length_nil, FixedWidth.encode_length, width_uint64, hUsed]
        at hPointer
      have hFreed : Stores (vm'.release (valueAt (vm.nPointer + 1) (.of b)))
          (vchUsed ++ FixedWidth.encode (a + b)) := by
        have hRelease := hTop.release hSlots'.right.begins (by
          show vm.nPointer + 1 + 1 = vm'.nPointer
          omega)
        rwa [List.append_nil] at hRelease
      have hSpend : { c with vm := vm'.release (valueAt (vm.nPointer + 1) (.of b)) }.spend
          (arithmeticName OP.ADD) (arithmeticCost OP.ADD) =
          .ok { c with
            vm := vm'.release (valueAt (vm.nPointer + 1) (.of b)), nCost := c.nCost + 64 } :=
        spend_eq_ok.mpr ⟨hAffords.not_wraps, rfl⟩
      refine ⟨_, hFreed, ?_⟩
      rw [hOk]
      simp only [ok_bind, hSlots'.release.1, hSpend]
      rfl
    · exact absurd ⟨_, hFits, rfl⟩ hNot

/-- The timestamp of the contract, and a word that is added to it. -/
def sumBytes (nExpires : UInt64) : List UInt8 :=
  OP.CONTRACT.TIMESTAMP :: OP.ADD :: (Term.literal (.UINT64_T nExpires)).bytes

theorem sumBytes_length : (sumBytes nExpires).length = 11 := by
  simp [sumBytes, Term.bytes, Literal.payload]

theorem binary_add : binary OP.ADD = true := rfl

/-- Both terms of the sum are read, and then it is computed. -/
theorem getValue_sum {n : Nat} {vm' : BaseVM} (hCalled : CalledBy c hashGenesis nTimestamp)
    (hAt : c.At (sumBytes nExpires ++ vchRest)) (hEnds : Ends vchRest)
    (hAffords : Affords c 80)
    (hFirst : (Datum.of nTimestamp).allocate c.vm = .ok (valueAt c.vm.nPointer (.of nTimestamp), vm))
    (hSecond : (Datum.of nExpires).allocate vm =
      .ok (valueAt (c.vm.nPointer + 1) (.of nExpires), vm')) :
    getValue rt disk (n + 4) {} c = (do
      let (fRet, vRet, c) ← arithmetic OP.ADD (valueAt c.vm.nPointer (.of nTimestamp))
        (valueAt (c.vm.nPointer + 1) (.of nExpires))
        (taken c (sumBytes nExpires).length vm' 16)
      if fRet then getValue rt disk (n + 2) vRet c else .ok (false, vRet, c)) := by
  have hCost : c.nCost.toNat + 80 < 2 ^ 64 := hAffords
  have hUnary : unary rt disk OP.CONTRACT.TIMESTAMP {} (c.skip 1) =
      some (load UInt64 "OP::CONTRACT::TIMESTAMP" nTimestamp 8 (c.skip 1)) := by
    rw [← hCalled.timestamp]
    rfl
  have hLoad : getValue rt disk (n + 4) {} c =
      getValue rt disk (n + 3) (valueAt c.vm.nPointer (.of nTimestamp)) (taken c 1 vm 8) :=
    getValue_load hAt rfl hUnary (hAffords.mono (by decide)) hFirst
  have hAdd : (taken c 1 vm 8).At
      (OP.ADD :: ((Term.literal (.UINT64_T nExpires)).bytes ++ vchRest)) := hAt.op.2.congr rfl
  obtain ⟨hRead, hLiteral⟩ := hAdd.op
  have hPaid : (c.nCost + 8).toNat = c.nCost.toNat + 8 :=
    toNat_add_of_not_wraps (hAffords.mono (show (8 : UInt64).toNat ≤ 80 by decide)).not_wraps
  have hAffordsArg : Affords ((taken c 1 vm 8).skip 1) (8 : UInt64).toNat := by
    show (c.nCost + 8).toNat + 8 < 2 ^ 64
    omega
  have hLoaded : Loaded (((taken c 1 vm 8).skip 1).skip 1) (.UINT64_T nExpires)
      (valueAt (c.vm.nPointer + 1) (.of nExpires))
      (taken (((taken c 1 vm 8).skip 1).skip 1) 8 vm' 8) :=
    ⟨trivial, hAffordsArg.not_wraps, vm', hSecond, rfl⟩
  have hArg : getValue rt disk (n + 2) {} ((taken c 1 vm 8).skip 1) =
      .ok (true, valueAt (c.vm.nPointer + 1) (.of nExpires), taken c (sumBytes nExpires).length vm' 16) := by
    refine (getValue_literal hLiteral).mpr ⟨_, _, hLoaded, ?_⟩
    rw [getValue_ends (hLoaded.at hLiteral.op.2) hEnds]
    simp only [taken, Condition.skip, Stream.advance_advance, sumBytes_length, UInt64.add_assoc]
    rfl
  have hNot : ¬ OP.ADD = OP.CAT := by decide
  rw [hLoad, getValue_succ, if_neg (by simp [hAdd.not_atEnd]), hRead]
  simp only [ok_bind, operation, hArg, binary_add, if_true, true_or, Bool.not_true,
    Bool.false_eq_true, if_false, hNot]

theorem block_word (n : UInt64) : (Datum.of n).block = FixedWidth.encode n := by
  show FixedWidth.encode (FixedWidth.ofNat (FixedWidth.toNat n) : UInt64) = FixedWidth.encode n
  rw [FixedWidth.ofNat_toNat]

/-- The terms of a sum have room behind each other. -/
theorem allocate_two {a b : UInt64} (hStores : Stores vm vchUsed)
    (hRoom : vm.nPointer + 2 ≤ REGISTERS) :
    ∃ vm₁ vm₂, (Datum.of a).allocate vm = .ok (valueAt vm.nPointer (.of a), vm₁) ∧
      (Datum.of b).allocate vm₁ = .ok (valueAt (vm.nPointer + 1) (.of b), vm₂) ∧
      Stores vm₂ (vchUsed ++ FixedWidth.encode a ++ FixedWidth.encode b) := by
  obtain ⟨vm₁, hFirst, hPointer, hStores₁⟩ :=
    @exists_allocate _ vm (.of a) hStores (by change vm.nPointer + 1 ≤ REGISTERS; omega)
  obtain ⟨vm₂, hSecond, -, hStores₂⟩ :=
    @exists_allocate _ vm₁ (.of b) hStores₁ (by rw [hPointer]; exact hRoom)
  rw [hPointer] at hSecond
  rw [block_word, block_word] at hStores₂
  exact ⟨vm₁, vm₂, hFirst, hSecond, hStores₂⟩

/-- A sum that fits in a word is read like a value. -/
theorem reads_sum (hFits : nTimestamp.toNat + nExpires.toNat < 2 ^ 64) :
    ReadsAs rt disk hashGenesis nTimestamp (sumBytes nExpires) (.of (nTimestamp + nExpires)) 80 := by
  intro c vchRest vchUsed value vm hCalled hStores hRoom hAt hEnds hAffords hAllocate
  obtain ⟨vm₁, vm₂, hFirst, hSecond, hTerms⟩ :=
    @allocate_two _ c.vm nTimestamp nExpires hStores hRoom
  have hFuel : (sumBytes nExpires ++ vchRest).length + 1 = (vchRest.length + 8) + 4 := by
    rw [List.length_append, sumBytes_length]
    omega
  have hCost : c.nCost.toNat + 80 < 2 ^ 64 := hAffords
  have hPaid : (c.nCost + 16).toNat = c.nCost.toNat + 16 :=
    toNat_add_of_not_wraps (hAffords.mono (show (16 : UInt64).toNat ≤ 80 by decide)).not_wraps
  have hAffordsSum : Affords (taken c (sumBytes nExpires).length vm₂ 16) 64 := by
    show (c.nCost + 16).toNat + 64 < 2 ^ 64
    omega
  obtain ⟨vm', hSum, hArithmetic⟩ :=
    (@arithmetic_sum (taken c (sumBytes nExpires).length vm₂ 16) _ c.vm _ _ hStores.pointer hTerms).2
      hFits hAffordsSum
  obtain ⟨-, rfl, hValue⟩ := (allocate_eq_ok hStores).mp hAllocate
  rw [block_word] at hValue
  obtain rfl := hSum.unique hValue
  rw [GetValue, hAt.remaining, hFuel, getValue_sum hCalled hAt hEnds hAffords hFirst hSecond,
    hArithmetic]
  simp only [ok_bind, if_true]
  have hRest : { taken c (sumBytes nExpires).length vm₂ 16 with
      vm := vm', nCost := c.nCost + 16 + 64 }.At vchRest := hAt.skip.congr rfl
  have hSame : { taken c (sumBytes nExpires).length vm₂ 16 with
      vm := vm', nCost := c.nCost + 16 + 64 } = taken c (sumBytes nExpires).length vm' 80 := by
    simp only [taken, UInt64.add_assoc]
    rfl
  rw [← hSame]
  exact getValue_ends hRest hEnds

/-- A sum that does not fit in a word is not read. -/
theorem GetValue_overflow {operand : Operand} (hCalled : CalledBy c hashGenesis nTimestamp)
    (hStores : Stores c.vm vchUsed) (hRoom : c.vm.nPointer + 2 ≤ REGISTERS)
    (hAt : c.At (sumBytes nExpires ++ vchRest)) (hEnds : Ends vchRest) (hAffords : Affords c 80)
    (hLarge : 2 ^ 64 ≤ nTimestamp.toNat + nExpires.toNat) : c.GetValue rt disk ≠ .ok operand := by
  obtain ⟨vm₁, vm₂, hFirst, hSecond, hTerms⟩ :=
    @allocate_two _ c.vm nTimestamp nExpires hStores hRoom
  have hFuel : (sumBytes nExpires ++ vchRest).length + 1 = (vchRest.length + 8) + 4 := by
    rw [List.length_append, sumBytes_length]
    omega
  intro hRead
  rw [GetValue, hAt.remaining, hFuel, getValue_sum hCalled hAt hEnds hAffords hFirst hSecond,
    bind_eq_ok] at hRead
  obtain ⟨sum, hArithmetic, -⟩ := hRead
  exact (@arithmetic_sum (taken c (sumBytes nExpires).length vm₂ 16) _ c.vm _ _ hStores.pointer
    hTerms).1 hLarge sum hArithmetic

/-! ## Comparisons -/

/-- The bytes of a comparison, whatever comes behind them, have a value at a cost. -/
structure Decides (rt : Runtime) (disk : Disk) (hashGenesis : Uint256) (nTimestamp : UInt64)
    (vch : List UInt8) (f : Bool) (nCost : Nat) : Prop where
  begins : ∃ nOP vchNext, vch = nOP :: vchNext ∧ grouping nOP = false
  evaluates : ∀ (c : Condition) (vchRest : List UInt8), CalledBy c hashGenesis nTimestamp →
    Comes c vch vchRest nCost → Ends vchRest →
      c.Evaluate rt disk = .ok (f, past c vch.length nCost c.vEvaluate)

/-- What two operands do to a fresh memory. -/
theorem operands_memory (hRoom : d.size + e.size ≤ REGISTERS)
    (hLeft : 0 < d.size) (hRight : 0 < e.size) :
    ∃ vm vm', d.allocate {} = .ok (valueAt 0 d, vm) ∧ vm.nPointer = d.size ∧ Stores vm d.block ∧
      e.allocate vm = .ok (valueAt d.size e, vm') ∧ Stores vm' (d.block ++ e.block) ∧
      vm'.deallocate (valueAt d.size e) = .ok vm ∧ vm.deallocate (valueAt 0 d) = .ok {} := by
  have hZero : ({} : BaseVM).nPointer = 0 := rfl
  obtain ⟨vm, hFirst, hPointer, hStores⟩ := @exists_allocate [] {} d stores_fresh (by omega)
  have hSize : vm.nPointer = d.size := by omega
  obtain ⟨vm', hSecond, hPointer', hStores'⟩ := @exists_allocate _ vm e hStores (by omega)
  have hFreeRight := deallocate_valueAt hStores hStores' hPointer' hRight
  rw [hSize] at hSecond hFreeRight
  exact ⟨vm, vm', hFirst, hSize, hStores, hSecond, hStores', hFreeRight,
    deallocate_valueAt stores_fresh hStores hPointer hLeft⟩

/-- A comparison of two operands is read to its end, and compares what they are. -/
theorem decides_reads (hCompare : compares OPERATION = true)
    (hLeft : ReadsAs rt disk hashGenesis nTimestamp left d nLeft)
    (hRight : ReadsAs rt disk hashGenesis nTimestamp right e nRight)
    (hBegins : ∃ nOP vchNext, left = nOP :: vchNext ∧ grouping nOP = false)
    (hPositive : 0 < d.size ∧ 0 < e.size) (hRoom : d.size + (e.size + 2) ≤ REGISTERS) {f : Bool}
    (hValue : ∀ vm, Stores vm (d.block ++ e.block) →
      Condition.comparison rt OPERATION (valueAt 0 d) (valueAt d.size e) vm = some f) :
    Decides rt disk hashGenesis nTimestamp (left ++ OPERATION :: right) f
      (nLeft.toNat + nRight.toNat) where
  begins := by
    obtain ⟨nOP, vchNext, rfl, hNot⟩ := hBegins
    exact ⟨nOP, _, rfl, hNot⟩
  evaluates := by
    intro c vchRest hCalled hReady hEnds
    obtain ⟨hKnown, hVm, hAt, hAffords⟩ := hReady
    obtain ⟨vm, vm', hFirst, hPointer, hStores, hSecond, hStores', hFreeRight, hFreeLeft⟩ :=
      operands_memory (by omega : d.size + e.size ≤ REGISTERS) hPositive.1 hPositive.2
    rw [← hVm] at hFirst hFreeLeft
    have hStream : c.At (left ++ OPERATION :: (right ++ vchRest)) := by
      rw [List.append_assoc] at hAt
      exact hAt
    have hLeftEnds : Ends (OPERATION :: (right ++ vchRest)) := by
      intro nOP vchNext hEq
      rw [← (List.cons.inj hEq).1]
      exact ends_compares hCompare
    have hCost : c.nCost.toNat + (nLeft.toNat + nRight.toNat) < 2 ^ 64 := hAffords
    have hAffordsLeft : Affords c nLeft.toNat := hAffords.mono (Nat.le_add_right ..)
    have hFreshRoom : c.vm.nPointer + 2 ≤ REGISTERS := by
      rw [hVm]
      decide
    have hFreshStores : Stores c.vm [] := by
      rw [hVm]
      exact stores_fresh
    have hGetLeft := hLeft c _ [] _ _ hCalled hFreshStores hFreshRoom hStream hLeftEnds hAffordsLeft
      hFirst
    have hOperation : (taken c left.length vm nLeft).At (OPERATION :: (right ++ vchRest)) :=
      hStream.skip.congr rfl
    obtain ⟨hRead, hRightAt⟩ := hOperation.op
    have hAffordsRight : Affords ((taken c left.length vm nLeft).skip 1) nRight.toNat := by
      show (c.nCost + nLeft).toNat + nRight.toNat < 2 ^ 64
      rw [toNat_add_of_not_wraps hAffordsLeft.not_wraps]
      omega
    have hGetRight := hRight ((taken c left.length vm nLeft).skip 1) vchRest d.block
      (valueAt d.size e) vm' ⟨hCalled.genesis, hCalled.timestamp⟩ hStores
      (by show vm.nPointer + 2 ≤ REGISTERS; omega) hRightAt hEnds hAffordsRight hSecond
    have hDone := @past_of_taken c vm vm' left.length right.length nLeft nRight
    have hMore := hOperation.not_atEnd
    have hLength : left.length + (1 + right.length) = (left ++ OPERATION :: right).length := by
      rw [List.length_append, List.length_cons, Nat.add_comm 1]
    rw [hLength] at hDone
    have hCompared : (Condition.comparison rt OPERATION (valueAt 0 d) (valueAt d.size e) vm').getD
        false = f := by
      rw [hValue vm' hStores']
      rfl
    rcases hKnown with hOne | hTwo
    · have hVersion : c.Evaluate rt disk = c.evaluateV1 rt disk := if_pos hOne
      rw [hVersion, evaluateV1]
      simp only [hGetLeft, ok_bind, reduceCtorEq, reject_of_not not_false, hRead, hCompare, if_true,
        hGetRight]
      simp only [taken, Condition.skip] at hDone ⊢
      simp only [hFreeRight, hFreeLeft, ok_bind, hCompared, ← hDone, hVm]
      rfl
    · have hVersion : c.Evaluate rt disk = c.evaluateV2 rt disk := by
        rw [Evaluate, if_neg (by rw [hTwo]; decide), if_pos hTwo]
      rw [hVersion, evaluateV2]
      simp only [hGetLeft, ok_bind, hMore, Bool.false_eq_true, if_false, hRead, hCompare, if_true,
        hGetRight, free, Bool.true_and]
      simp only [taken, Condition.skip] at hDone ⊢
      simp only [hFreeRight, hFreeLeft, map_ok, ok_bind, hCompared, ← hDone, hVm]
      rfl

/-! ## What is compared -/

/-- Words are compared by their difference. -/
theorem compare_words {a b : UInt64}
    (hStores : Stores vm ((Datum.of a).block ++ (Datum.of b).block)) :
    vm.compare (valueAt 0 (.of a)) (valueAt 1 (.of b)) = (a - b).toInt64 := by
  rw [block_word, block_word] at hStores
  have hLeft : Slot vm (valueAt 0 (.of a)) [] a (FixedWidth.encode b) := ⟨hStores, rfl, rfl⟩
  have hRight : Slot vm (valueAt 1 (.of b)) (FixedWidth.encode a) b [] := by
    refine ⟨?_, ?_, rfl⟩
    · rw [List.append_nil]
      exact hStores
    · rw [FixedWidth.encode_length]
      rfl
  have hFirst : vm.word 0 = a := hLeft.at
  have hSecond : vm.word 1 = b := hRight.at
  have hCompare : vm.compare (valueAt 0 (.of a)) (valueAt 1 (.of b)) =
      if vm.word 0 ≠ vm.word 1 then (vm.word 0 - vm.word 1).toInt64 else 0 := rfl
  rw [hCompare, hFirst, hSecond]
  by_cases hSame : a = b
  · rw [if_neg (not_not.mpr hSame), hSame, UInt64.sub_self]
    rfl
  · rw [if_pos hSame]

theorem block_hash (hash : Uint256) : (Datum.of hash).block = FixedWidth.encode hash := by
  have hLength : (FixedWidth.encode hash).length = 32 := by simp
  show FixedWidth.encode hash ++ List.replicate (8 * Datum.size (.bytes (FixedWidth.encode hash)) -
    (FixedWidth.encode hash).length) 0 = FixedWidth.encode hash
  rw [Datum.size, hLength]
  exact List.append_nil _

theorem size_hash (hash : Uint256) : (Datum.of hash).size = 4 := by
  have hLength := Datum.block_length (.of hash)
  rw [block_hash, FixedWidth.encode_length, width_uint256] at hLength
  omega

/-- A register of a hash in the memory. -/
theorem word_hash {hash : Uint256} {n m : Nat} (hStores : Stores vm
      (vchUsed ++ FixedWidth.encode hash ++ vchRest)) (hUsed : vchUsed.length = 8 * n) (hm : m < 4) :
    vm.word (n + m) = FixedWidth.decode (((FixedWidth.encode hash).drop (8 * m)).take 8) := by
  have hLength : 8 ≤ ((FixedWidth.encode hash).drop (8 * m)).length := by
    rw [List.length_drop, FixedWidth.encode_length, width_uint256]
    omega
  rw [BaseVM.word, hStores.memory, Nat.mul_add, ← hUsed, ← List.drop_drop, List.append_assoc,
    List.append_assoc, List.drop_left, List.drop_append_of_le_length (by simp; omega),
    List.take_append_of_le_length hLength]

/-- Hashes compare as equal if and only if they are. -/
theorem compare_hashes {a b : Uint256}
    (hStores : Stores vm ((Datum.of a).block ++ (Datum.of b).block)) :
    vm.compare (valueAt 0 (.of a)) (valueAt (Datum.of a).size (.of b)) = 0 ↔ a = b := by
  have hCompare : vm.compare (valueAt 0 (.of a)) (valueAt (Datum.of a).size (.of b)) =
      vm.compareWords (valueAt 0 (.of a)) (valueAt (Datum.of a).size (.of b)) 4 := by
    rw [BaseVM.compare, Value.size, Value.size, valueAt, valueAt, size_hash, size_hash]
    rfl
  rw [block_hash, block_hash] at hStores
  have hLeft (m : Nat) (hm : m < 4) : words vm (valueAt 0 (.of a)) m =
      FixedWidth.decode (((FixedWidth.encode a).drop (8 * m)).take 8) := by
    have hFirst : Stores vm ([] ++ FixedWidth.encode a ++ FixedWidth.encode b) := hStores
    exact word_hash hFirst rfl hm
  have hRight (m : Nat) (hm : m < 4) : words vm (valueAt (Datum.of a).size (.of b)) m =
      FixedWidth.decode (((FixedWidth.encode b).drop (8 * m)).take 8) := by
    rw [← List.append_nil (_ ++ _)] at hStores
    rw [words, valueAt, size_hash]
    exact word_hash hStores (by simp) hm
  rw [hCompare]
  rcases @compareWords_cases vm (valueAt 0 (.of a)) (valueAt (Datum.of a).size (.of b)) 4 with
    ⟨hZero, hSame⟩ | ⟨m, hm, hDiffers, -, hValue⟩
  · have hNumber (hash : Uint256) : leNat (FixedWidth.encode hash) = wordsNat (fun m =>
        FixedWidth.decode (((FixedWidth.encode hash).drop (8 * m)).take 8)) 4 := by
      have hWords := leNat_words (FixedWidth.encode hash) 4 (by simp)
      rwa [List.take_of_length_le (by simp)] at hWords
    have hNumbers : leNat (FixedWidth.encode a) = leNat (FixedWidth.encode b) := by
      rw [hNumber, hNumber]
      refine wordsNat_congr fun m hm => ?_
      rw [← hLeft m hm, ← hRight m hm]
      exact hSame m hm
    refine iff_of_true hZero ?_
    rw [← FixedWidth.decode_encode a, FixedWidth.decode, hNumbers, ← FixedWidth.decode,
      FixedWidth.decode_encode]
  · rw [hValue]
    refine iff_of_false (sub_ne_zero hDiffers) ?_
    rintro rfl
    exact hDiffers ((hLeft m hm).trans (hRight m hm).symm)

/-! ## The clauses -/

theorem reads_genesis :
    ReadsAs rt disk hashGenesis nTimestamp [OP.CALLER.GENESIS] (.of hashGenesis) 32 :=
  reads_load rfl fun c hCalled => by
    rw [← hCalled.genesis]
    rfl

theorem reads_ledger :
    ReadsAs rt disk hashGenesis nTimestamp [OP.LEDGER.TIMESTAMP] (.of rt.nBestTime) 8 :=
  reads_load rfl fun _ _ => rfl

/-- The caller is compared with a genesis. -/
theorem decides_genesis {f : Bool} (hCompare : compares OPERATION = true)
    (hValue : ∀ vm, Stores vm ((Datum.of hashGenesis).block ++ (Datum.of hashCaller).block) →
      Condition.comparison rt OPERATION (valueAt 0 (.of hashGenesis))
        (valueAt (Datum.of hashGenesis).size (.of hashCaller)) vm = some f) :
    Decides rt disk hashGenesis nTimestamp (genesisClause OPERATION hashCaller) f 64 := by
  refine decides_reads hCompare reads_genesis (reads_literal (.UINT256_T hashCaller) trivial)
    ⟨_, [], rfl, rfl⟩ ?_ ?_ hValue
  · exact ⟨by rw [size_hash]; decide, by show 0 < (Datum.of hashCaller).size; rw [size_hash]; decide⟩
  · show (Datum.of hashGenesis).size + ((Datum.of hashCaller).size + 2) ≤ REGISTERS
    rw [size_hash, size_hash]
    decide

theorem decides_other : Decides rt disk hashGenesis nTimestamp
    (genesisClause OP.NOTEQUALS hashCaller) (decide (hashGenesis ≠ hashCaller)) 64 := by
  refine decides_genesis rfl fun vm hStores => ?_
  show some (vm.compare _ _ != 0) = _
  rw [← decide_eq_decide.mpr (not_congr (compare_hashes hStores)), decide_not]
  rfl

theorem decides_sender : Decides rt disk hashGenesis nTimestamp
    (genesisClause OP.EQUALS hashCaller) (decide (hashGenesis = hashCaller)) 64 := by
  refine decides_genesis rfl fun vm hStores => ?_
  show some (vm.compare _ _ == 0) = _
  rw [← decide_eq_decide.mpr (compare_hashes hStores)]
  rfl

/-- The expiration is compared with the time of the best block. -/
theorem decides_timestamp {f : Bool} (hCompare : compares OPERATION = true)
    (hFits : nTimestamp.toNat + nExpires.toNat < 2 ^ 64)
    (hValue : ∀ vm, vm.compare (valueAt 0 (.of (nTimestamp + nExpires)))
        (valueAt 1 (.of rt.nBestTime)) = (nTimestamp + nExpires - rt.nBestTime).toInt64 →
      Condition.comparison rt OPERATION (valueAt 0 (.of (nTimestamp + nExpires)))
        (valueAt 1 (.of rt.nBestTime)) vm = some f) :
    Decides rt disk hashGenesis nTimestamp (timestampClause OPERATION nExpires) f 88 :=
  decides_reads hCompare (reads_sum hFits) reads_ledger ⟨_, _, rfl, rfl⟩ ⟨Nat.one_pos, Nat.one_pos⟩
    (show 1 + (1 + 2) ≤ REGISTERS by decide) fun vm hStores => hValue vm (compare_words hStores)

theorem decides_before (hFits : nTimestamp.toNat + nExpires.toNat < 2 ^ 64) :
    Decides rt disk hashGenesis nTimestamp (timestampClause OP.GREATERTHAN nExpires)
      (decide (0 < (nTimestamp + nExpires - rt.nBestTime).toInt64)) 88 :=
  decides_timestamp rfl hFits fun vm hCompared => by
    show some (decide (0 < vm.compare _ _)) = _
    rw [hCompared]

theorem decides_after (hFits : nTimestamp.toNat + nExpires.toNat < 2 ^ 64) :
    Decides rt disk hashGenesis nTimestamp (timestampClause OP.LESSTHAN nExpires)
      (decide ((nTimestamp + nExpires - rt.nBestTime).toInt64 < 0)) 88 :=
  decides_timestamp rfl hFits fun vm hCompared => by
    show some (decide (vm.compare _ _ < 0)) = _
    rw [hCompared]

/-! ## The groups -/

theorem passes_decides {f : Bool} {nClause : Nat}
    (h : Decides rt disk hashGenesis nTimestamp vch f nClause)
    (hCalled : CalledBy c hashGenesis nTimestamp) (hReady : Comes c vch vchRest nClause)
    (hEnds : Ends vchRest) (hCombine : combine f c.vEvaluate = .ok vEvaluate) :
    Passes rt disk c vch nClause vEvaluate := by
  have hStack : c.vEvaluate ≠ [] := by
    intro hNil
    rw [hNil] at hCombine
    cases hCombine
  obtain ⟨nOP, vchNext, hBytes, hNot⟩ := h.begins
  have hNext : c.Next nOP := by
    have hAt := hReady.stream
    rw [hBytes] at hAt
    exact hAt.next
  refine ⟨[nOP], .single ⟨hNext, ?_⟩⟩
  rw [step_evaluate hNext hNot hStack, h.evaluates c vchRest hCalled hReady hEnds]
  have hSame : combine f (past c vch.length nClause c.vEvaluate).vEvaluate = .ok vEvaluate := hCombine
  simp only [ok_bind, hSame]
  rfl

theorem ends_op (h : ends OPERATION = true) : Ends (OPERATION :: vch) := by
  intro nOP vchNext hEq
  rw [← (List.cons.inj hEq).1]
  exact h

theorem CalledBy.past {n nPaid : Nat} (h : CalledBy c hashGenesis nTimestamp) :
    CalledBy (past c n nPaid vEvaluate) hashGenesis nTimestamp := ⟨h.genesis, h.timestamp⟩

/-- A group of two clauses. -/
def pair (left right : List UInt8) : List UInt8 :=
  [OP.GROUP] ++ (left ++ ([OP.AND] ++ (right ++ [OP.UNGROUP])))

/-- A group of two clauses has the value of both of them. -/
theorem passes_pair {f g : Bool} {nFirst nSecond : Nat}
    (hLeft : Decides rt disk hashGenesis nTimestamp left f nFirst)
    (hRight : Decides rt disk hashGenesis nTimestamp right g nSecond)
    (hCalled : CalledBy c hashGenesis nTimestamp)
    (hReady : Comes c (pair left right) vchRest (128 + (nFirst + (0 + (nSecond + 0)))))
    (hCombine : combine (f && g) c.vEvaluate = .ok vEvaluate) :
    Passes rt disk c (pair left right) (128 + (nFirst + (0 + (nSecond + 0)))) vEvaluate := by
  have hMembers := hReady.second ((false, OP.RESERVED) :: c.vEvaluate)
  have hFirst : Passes rt disk _ left nFirst ((f, OP.RESERVED) :: c.vEvaluate) :=
    passes_decides hLeft hCalled.past hMembers.first (ends_op rfl) rfl
  have hRest := hMembers.second ((f, OP.RESERVED) :: c.vEvaluate)
  have hAnd : Passes rt disk _ [OP.AND] 0 ((f, OP.AND) :: c.vEvaluate) :=
    @passes_connective _ _ _ _ .AND _ _ _ hRest.first rfl (.inl rfl)
  have hLast := hRest.second ((f, OP.AND) :: c.vEvaluate)
  have hSecond : Passes rt disk _ right nSecond ((f && g, OP.AND) :: c.vEvaluate) :=
    passes_decides hRight hCalled.past.past.past hLast.first (ends_op rfl) rfl
  have hEnd := hLast.second ((f && g, OP.AND) :: c.vEvaluate)
  exact (passes_group hReady.first).trans
    (hFirst.trans (hAnd.trans (hSecond.trans (passes_ungroup hEnd rfl hCombine))))

theorem recipientGroup_eq : recipientGroup hashCaller nExpires =
    pair (genesisClause OP.NOTEQUALS hashCaller) (timestampClause OP.GREATERTHAN nExpires) := by
  simp only [recipientGroup, pair, List.append_assoc]

theorem senderGroup_eq : senderGroup hashCaller nExpires =
    pair (genesisClause OP.EQUALS hashCaller) (timestampClause OP.LESSTHAN nExpires) := by
  simp only [senderGroup, pair, List.append_assoc]

/-- What a group costs. -/
def groupCost : Nat := 128 + (64 + (0 + (88 + 0)))

/-- The value of the group for others than the sender. -/
def recipientValue (rt : Runtime) (hashGenesis hashCaller : Uint256) (nExpiry : UInt64) : Bool :=
  decide (hashGenesis ≠ hashCaller) && decide (0 < (nExpiry - rt.nBestTime).toInt64)

/-- The value of the group for the sender. -/
def senderValue (rt : Runtime) (hashGenesis hashCaller : Uint256) (nExpiry : UInt64) : Bool :=
  decide (hashGenesis = hashCaller) && decide ((nExpiry - rt.nBestTime).toInt64 < 0)

theorem passes_recipient (hFits : nTimestamp.toNat + nExpires.toNat < 2 ^ 64)
    (hCalled : CalledBy c hashGenesis nTimestamp)
    (hReady : Comes c (recipientGroup hashCaller nExpires) vchRest groupCost)
    (hCombine : combine (recipientValue rt hashGenesis hashCaller (nTimestamp + nExpires))
      c.vEvaluate = .ok vEvaluate) :
    Passes rt disk c (recipientGroup hashCaller nExpires) groupCost vEvaluate := by
  rw [recipientGroup_eq] at hReady ⊢
  exact passes_pair decides_other (decides_before hFits) hCalled hReady hCombine

theorem passes_sender (hFits : nTimestamp.toNat + nExpires.toNat < 2 ^ 64)
    (hCalled : CalledBy c hashGenesis nTimestamp)
    (hReady : Comes c (senderGroup hashCaller nExpires) vchRest groupCost)
    (hCombine : combine (senderValue rt hashGenesis hashCaller (nTimestamp + nExpires))
      c.vEvaluate = .ok vEvaluate) :
    Passes rt disk c (senderGroup hashCaller nExpires) groupCost vEvaluate := by
  rw [senderGroup_eq] at hReady ⊢
  exact passes_pair decides_sender (decides_after hFits) hCalled hReady hCombine

/-- The condition of an expiration is executed, if it is a time. -/
theorem execute_expiration (hKnown : Known caller)
    (hBytes : contract.ssCondition.vchData = expiration hashCaller nExpires)
    (hFits : contract.nTimestamp.toNat + nExpires.toNat < 2 ^ 64) :
    ∃ nCost, (fresh contract caller).Execute rt disk =
      .ok (recipientValue rt caller.hashCaller hashCaller (contract.nTimestamp + nExpires) ||
        senderValue rt caller.hashCaller hashCaller (contract.nTimestamp + nExpires), nCost) := by
  obtain ⟨f, hf⟩ : ∃ f, f = recipientValue rt caller.hashCaller hashCaller
    (contract.nTimestamp + nExpires) := ⟨_, rfl⟩
  obtain ⟨g, hg⟩ : ∃ g, g = senderValue rt caller.hashCaller hashCaller
    (contract.nTimestamp + nExpires) := ⟨_, rfl⟩
  have hParts : contract.ssCondition.vchData = recipientGroup hashCaller nExpires ++
      ([OP.OR] ++ senderGroup hashCaller nExpires) := by
    rw [hBytes, expiration, List.append_assoc]
  have hAt : (fresh contract caller).start.At (recipientGroup hashCaller nExpires ++
      ([OP.OR] ++ senderGroup hashCaller nExpires) ++ []) := by
    rw [List.append_nil]
    exact ⟨Nat.zero_le _, hParts⟩
  have hReady : Comes (fresh contract caller).start (recipientGroup hashCaller nExpires ++
      ([OP.OR] ++ senderGroup hashCaller nExpires)) [] (groupCost + (0 + groupCost)) :=
    ⟨hKnown, rfl, hAt, by show 0 + (groupCost + (0 + groupCost)) < 2 ^ 64; decide⟩
  have hCalled : CalledBy (fresh contract caller).start caller.hashCaller contract.nTimestamp :=
    ⟨rfl, rfl⟩
  have hFirst : Passes rt disk (fresh contract caller).start (recipientGroup hashCaller nExpires)
      groupCost [(f, OP.RESERVED)] :=
    passes_recipient hFits hCalled hReady.first (by rw [hf]; rfl)
  have hRest := hReady.second [(f, OP.RESERVED)]
  have hOr : Passes rt disk _ [OP.OR] 0 [(f, OP.OR)] :=
    @passes_connective _ _ _ _ .OR _ _ _ hRest.first rfl (.inl rfl)
  have hLast := hRest.second [(f, OP.OR)]
  have hSecond : Passes rt disk _ (senderGroup hashCaller nExpires) groupCost [(f || g, OP.OR)] :=
    passes_sender hFits hCalled.past.past hLast (by rw [hg]; rfl)
  have hPasses := hFirst.trans (hOr.trans hSecond)
  obtain ⟨vOps, hRun⟩ := hPasses
  obtain ⟨n, hLength, hMoved, -⟩ := length_of_run hRun (Nat.zero_le _) stacked_start
    fun _ _ _ _ _ _ => hKnown
  have hSize : 0 + n ≤ (fresh contract caller).contract.ssCondition.size := hMoved
  have hEnd : (past (fresh contract caller).start (recipientGroup hashCaller nExpires ++
      ([OP.OR] ++ senderGroup hashCaller nExpires)).length (groupCost + (0 + groupCost))
      [(f || g, OP.OR)]).At [] := hAt.skip.congr rfl
  rw [← hf, ← hg]
  exact ⟨_, Execute_eq_ok.mpr ⟨vOps, _, hRun, hEnd.atEnd, by omega, rfl, rfl⟩⟩

/-! ## An expiration that is not a time -/

/-- The loop does not go past a turn that fails. -/
theorem loop_stuck {vOps : List UInt8} {n : Nat} (hRun : Run (Turn rt disk) c vOps c')
    (hMore : c'.atEnd = false) (hStuck : ∀ c₁, c'.step rt disk ≠ .ok c₁) (c₁ : Condition) :
    loop rt disk n c ≠ .ok c₁ := by
  induction hRun generalizing n with
  | nil =>
      intro hLoop
      cases n with
      | zero =>
          rw [loop, hMore] at hLoop
          cases hLoop
      | succ n =>
          rw [loop, hMore] at hLoop
          simp only [Bool.false_eq_true, if_false, bind_eq_ok] at hLoop
          obtain ⟨c₂, hStep, -⟩ := hLoop
          exact hStuck c₂ hStep
  | cons hTurn hRest ih =>
      intro hLoop
      cases n with
      | zero =>
          rw [loop, not_atEnd_of_next hTurn.1] at hLoop
          cases hLoop
      | succ n =>
          rw [loop, not_atEnd_of_next hTurn.1] at hLoop
          simp only [Bool.false_eq_true, if_false, hTurn.2, ok_bind] at hLoop
          exact ih hMore hStuck hLoop

/-- A comparison whose first operand fails is not evaluated. -/
theorem Evaluate_stuck {f : Bool} (hStuck : ∀ operand, c.GetValue rt disk ≠ .ok operand) :
    c.Evaluate rt disk = .ok (f, c') → ¬ Known c.caller := by
  intro hEvaluate hKnown
  rcases hKnown with hOne | hTwo
  · have hVersion : c.Evaluate rt disk = c.evaluateV1 rt disk := if_pos hOne
    rw [hVersion, evaluateV1, bind_eq_ok] at hEvaluate
    obtain ⟨operand, hRead, -⟩ := hEvaluate
    exact hStuck operand hRead
  · have hVersion : c.Evaluate rt disk = c.evaluateV2 rt disk := by
      rw [Evaluate, if_neg (by rw [hTwo]; decide), if_pos hTwo]
    rw [hVersion, evaluateV2, bind_eq_ok] at hEvaluate
    obtain ⟨operand, hRead, -⟩ := hEvaluate
    exact hStuck operand hRead

/-- A condition whose expiration does not fit in a word is never met. -/
theorem execute_overflow {result : Bool × UInt64} (hKnown : Known caller)
    (hBytes : contract.ssCondition.vchData = expiration hashCaller nExpires)
    (hLarge : 2 ^ 64 ≤ contract.nTimestamp.toNat + nExpires.toNat) :
    (fresh contract caller).Execute rt disk ≠ .ok result := by
  obtain ⟨f, hf⟩ : ∃ f, f = decide (caller.hashCaller ≠ hashCaller) := ⟨_, rfl⟩
  obtain ⟨vchRest, hParts⟩ : ∃ vchRest, contract.ssCondition.vchData = [OP.GROUP] ++
      (genesisClause OP.NOTEQUALS hashCaller ++ ([OP.AND] ++ (sumBytes nExpires ++
        (OP.GREATERTHAN :: vchRest)))) := by
    refine ⟨OP.LEDGER.TIMESTAMP :: OP.UNGROUP :: ([OP.OR] ++ senderGroup hashCaller nExpires), ?_⟩
    rw [hBytes, expiration, recipientGroup_eq]
    simp only [pair, timestampClause, sumBytes, Term.bytes, Literal.op, Literal.payload,
      List.append_assoc, List.cons_append, List.nil_append]
  have hAt : (fresh contract caller).start.At ([OP.GROUP] ++
      (genesisClause OP.NOTEQUALS hashCaller ++ ([OP.AND] ++ (sumBytes nExpires ++
        (OP.GREATERTHAN :: vchRest)))) ++ []) := by
    rw [List.append_nil]
    exact ⟨Nat.zero_le _, hParts⟩
  have hReady : Comes (fresh contract caller).start ([OP.GROUP] ++
      (genesisClause OP.NOTEQUALS hashCaller ++ ([OP.AND] ++ (sumBytes nExpires ++
        (OP.GREATERTHAN :: vchRest))))) [] (128 + (64 + (0 + (80 + 0)))) :=
    ⟨hKnown, rfl, hAt, by show 0 + (128 + (64 + (0 + (80 + 0)))) < 2 ^ 64; decide⟩
  have hCalled : CalledBy (fresh contract caller).start caller.hashCaller contract.nTimestamp :=
    ⟨rfl, rfl⟩
  have hMembers := hReady.second [(false, OP.RESERVED), (false, OP.RESERVED)]
  have hFirst : Passes rt disk _ (genesisClause OP.NOTEQUALS hashCaller) 64
      [(f, OP.RESERVED), (false, OP.RESERVED)] :=
    passes_decides decides_other hCalled.past hMembers.first (ends_op rfl) (by rw [hf]; rfl)
  have hRest := hMembers.second [(f, OP.RESERVED), (false, OP.RESERVED)]
  have hAnd : Passes rt disk _ [OP.AND] 0 [(f, OP.AND), (false, OP.RESERVED)] :=
    @passes_connective _ _ _ _ .AND _ _ _ hRest.first rfl (.inl rfl)
  have hLast := hRest.second [(f, OP.AND), (false, OP.RESERVED)]
  obtain ⟨vOps, hRun⟩ := (passes_group hReady.first).trans (hFirst.trans hAnd)
  have hSum := hLast.first
  simp only [past_past, List.length_append, Nat.add_assoc] at hRun hSum
  obtain ⟨-, hVm, hStream, hAffords⟩ := hSum
  have hStores : Stores _ [] := hVm ▸ stores_fresh
  have hStuck (operand : Operand) :=
    @GetValue_overflow rt disk _ _ _ _ _ _ operand hCalled.past hStores (by rw [hVm]; decide)
      hStream (ends_op rfl) hAffords hLarge
  have hNext : Next _ OP.CONTRACT.TIMESTAMP := hStream.next
  intro hExecute
  simp only [Condition.Execute, bind_eq_ok] at hExecute
  obtain ⟨c', hLoop, -⟩ := hExecute
  refine loop_stuck hRun (not_atEnd_of_next hNext) (fun c₁ hStep => ?_) c' hLoop
  rw [step_evaluate hNext rfl (List.cons_ne_nil _ _)] at hStep
  obtain ⟨r, hEvaluate, -⟩ := bind_eq_ok.mp hStep
  exact Evaluate_stuck hStuck hEvaluate hKnown

/-! ## Who may claim -/

/-- The time `n` is after `m`, as far as the sign of their difference in 64 bits tells. -/
def AheadOf (n m : Nat) : Prop := m < n ∧ n - m < 2 ^ 63 ∨ n < m ∧ 2 ^ 63 < m - n

/-- The time `n` is before `m`, as far as the sign tells. -/
def BehindOf (n m : Nat) : Prop := n < m ∧ m - n ≤ 2 ^ 63 ∨ m < n ∧ 2 ^ 63 ≤ n - m

theorem behind_iff (a b : UInt64) : (a - b).toInt64 < 0 ↔ BehindOf a.toNat b.toNat := by
  by_cases hSame : a = b
  · rw [hSame, UInt64.sub_self]
    refine iff_of_false (by decide) ?_
    rintro (⟨hLess, -⟩ | ⟨hLess, -⟩)
    · exact Nat.lt_irrefl _ hLess
    · exact Nat.lt_irrefl _ hLess
  · have hNe : a.toNat ≠ b.toNat := fun hEqual => hSame (UInt64.toNat_inj.mp hEqual)
    rw [sub_neg_iff hSame, Near, BehindOf]
    by_cases hLess : a < b
    · have hNat := UInt64.lt_iff_toNat_lt.mp hLess
      rw [if_pos hLess]
      omega
    · have hNat := mt UInt64.lt_iff_toNat_lt.mpr hLess
      rw [if_neg hLess]
      omega

theorem ahead_iff (a b : UInt64) : 0 < (a - b).toInt64 ↔ AheadOf a.toNat b.toNat := by
  by_cases hSame : a = b
  · rw [hSame, UInt64.sub_self]
    refine iff_of_false (by decide) ?_
    rintro (⟨hLess, -⟩ | ⟨hLess, -⟩)
    · exact Nat.lt_irrefl _ hLess
    · exact Nat.lt_irrefl _ hLess
  · have hNe : a.toNat ≠ b.toNat := fun hEqual => hSame (UInt64.toNat_inj.mp hEqual)
    have hNotZero := sub_ne_zero hSame
    have hBehind := behind_iff a b
    have hOther : AheadOf a.toNat b.toNat ↔ ¬ BehindOf a.toNat b.toNat := by
      unfold AheadOf BehindOf
      omega
    rw [hOther, ← hBehind]
    rcases int64_cases (a - b).toInt64 with h | h | h
    · exact iff_of_false h.2.2 (not_not.mpr h.1)
    · exact absurd h.2.1 hNotZero
    · exact iff_of_true h.2.2 h.1

/-- A transfer or a debit that was given an expiration may be claimed by others while it is ahead of
the best block, and by the sender once it is behind, as far as the sign of the difference tells; at
the expiration by no one, and never if the expiration does not fit in 64 bits. -/
theorem expires_iff {params : Option (List UInt8)} {contract' : Contract}
    (hAdd : AddExpires params hashCaller contract false = .ok (contract', true))
    (hEmpty : contract.ssCondition.vchData = []) (hKnown : Known caller) :
    ∃ nExpires, expires params = .ok nExpires ∧
      ((∃ nCost, (fresh contract' caller).Execute rt disk = .ok (true, nCost)) ↔
        contract.nTimestamp.toNat + nExpires.toNat < 2 ^ 64 ∧
          (caller.hashCaller ≠ hashCaller ∧
              AheadOf (contract.nTimestamp.toNat + nExpires.toNat) rt.nBestTime.toNat ∨
            caller.hashCaller = hashCaller ∧
              BehindOf (contract.nTimestamp.toNat + nExpires.toNat) rt.nBestTime.toNat)) := by
  simp only [AddExpires, bind_eq_ok, pure_eq_ok, Bool.false_eq_true, if_false, Prod.mk.injEq,
    and_true] at hAdd
  obtain ⟨nExpires, hExpires, rfl⟩ := hAdd
  refine ⟨nExpires, hExpires, ?_⟩
  have hBytes : (appendCondition (expiration hashCaller nExpires) contract).ssCondition.vchData =
      expiration hashCaller nExpires := by
    rw [appendCondition, hEmpty]
    rfl
  by_cases hFits : contract.nTimestamp.toNat + nExpires.toNat < 2 ^ 64
  · obtain ⟨nCost, hExecute⟩ := @execute_expiration rt disk _ caller _ _ hKnown hBytes hFits
    have hSum : (contract.nTimestamp + nExpires).toNat =
        contract.nTimestamp.toNat + nExpires.toNat := by
      rw [UInt64.toNat_add, Nat.mod_eq_of_lt hFits]
    have hTime : (appendCondition (expiration hashCaller nExpires) contract).nTimestamp =
        contract.nTimestamp := rfl
    rw [hExecute, and_iff_right hFits, ← hSum, ← ahead_iff, ← behind_iff, hTime]
    simp [recipientValue, senderValue]
  · refine iff_of_false ?_ fun hBoth => hFits hBoth.1
    rintro ⟨nCost, hExecute⟩
    exact execute_overflow hKnown hBytes (Nat.not_lt.mp hFits) hExecute

/-- A node whose best block is at a time. -/
def runtimeAt (nTime : UInt64) : Runtime := { exampleRuntime with nBestTime := nTime }

/-- A contract at the time 1000 that expires after a minute, claimed by another than the sender 7. -/
theorem expires_iff_minute :
    ∃ contract', AddExpires (some [0x36, 0x30]) 7 { nTimestamp := 1000 } false =
        .ok (contract', true) ∧
      (∃ nCost, (fresh contract' { nVersion := 2, hashCaller := 9 }).Execute (runtimeAt 1059) {} =
        .ok (true, nCost)) ∧
      ¬ ∃ nCost, (fresh contract' { nVersion := 2, hashCaller := 9 }).Execute (runtimeAt 1060) {} =
        .ok (true, nCost) := by
  have hAdd : AddExpires (some [0x36, 0x30]) 7 { nTimestamp := 1000 } false =
      .ok (appendCondition (expiration 7 60) { nTimestamp := 1000 }, true) := by decide +kernel
  obtain ⟨nExpires, hExpires, hClaim⟩ := @expires_iff (runtimeAt 1059) {} { nTimestamp := 1000 }
    { nVersion := 2, hashCaller := 9 } _ _ _ hAdd rfl (.inr rfl)
  obtain ⟨nExpires', hExpires', hLate⟩ := @expires_iff (runtimeAt 1060) {} { nTimestamp := 1000 }
    { nVersion := 2, hashCaller := 9 } _ _ _ hAdd rfl (.inr rfl)
  have hMinute : expires (some [0x36, 0x30]) = .ok 60 := by decide +kernel
  obtain rfl := Except.ok.inj (hMinute.symm.trans hExpires)
  obtain rfl := Except.ok.inj (hMinute.symm.trans hExpires')
  refine ⟨_, hAdd, hClaim.mpr ⟨by decide, .inl ⟨by decide, .inl ⟨by decide, by decide⟩⟩⟩, ?_⟩
  rw [hLate]
  rintro ⟨-, ⟨-, hAhead⟩ | ⟨hSame, -⟩⟩
  · rcases hAhead with ⟨hLess, -⟩ | ⟨hLess, -⟩
    · exact absurd hLess (by decide)
    · exact absurd hLess (by decide)
  · exact absurd hSame (by decide)

end Nexus.Safety
