import Nexus.Operation.Operands
import Nexus.Safety.Claims

/-!
# The cost of conditions

Every operation of a condition adds its cost to the counter after it checked that the sum does
not overflow.  The operations that load a contract's operations or the data of a pre-state
check the size that they load, but add the counter to itself: such a load is free as long as
the counter is zero, and the counter wraps when it is large.

## Main results

* `execution_metered_iff`: in every execution, the counter never decreases and every load is
  paid for, if and only if every such operation finds the counter between the size and half of
  its range.
-/

namespace Nexus.Safety

open Nexus.Lib.Bytes
open Nexus.Lib.Checked
open Nexus.Util
open Nexus.Register
open Nexus.Register.BaseVM
open Nexus.Operation
open Nexus.Operation.Condition
open Nexus.LLD

variable {rt : Runtime} {disk : Disk} {c c' : Condition} {vRet vArg value : Value}
  {fRet fEvaluate : Bool} {OPERATION : UInt8} {n : Nat} {nCost : UInt64} {strOP : String}

/-! ## Charges -/

/-- An operation with the condition before it and what it gave. -/
structure Charge where
  OPERATION : UInt8
  before : Condition
  fRet : Bool
  value : Value
  after : Condition

/-- The operation loads its value: a literal, operations of a contract, or what is looked up. -/
def loads (OPERATION : UInt8) : Bool :=
  !(binary OPERATION || grouping OPERATION ||
    OPERATION ∈ [OP.INC, OP.DEC, OP.SUBDATA])

/-- The counter does not decrease, and grows by the bytes that are loaded. -/
structure Charge.Metered (charge : Charge) : Prop where
  kept : charge.before.nCost ≤ charge.after.nCost
  paid : loads charge.OPERATION = true → charge.fRet = true →
    charge.before.nCost.toNat + charge.value.nBytes ≤ charge.after.nCost.toNat

/-- The counter may be added to itself for a load of `n` bytes. -/
def Affordable (nCost : UInt64) (n : Nat) : Prop := nCost.toNat < 2 ^ 63 ∧ n ≤ nCost.toNat

/-- The operations of a contract that are loaded, if there are any. -/
def AffordsOperations (vBytes : List UInt8) (nCost : UInt64) : Prop :=
  offset vBytes < vBytes.length → Affordable nCost (vBytes.length - offset vBytes)

/-- An operation that adds the counter to itself finds it large enough, and not too large. -/
structure Charge.Covered (charge : Charge) : Prop where
  prestate : charge.OPERATION = OP.CALLER.PRESTATE.STATE →
    ∀ state, charge.before.callerState = .ok state →
      Affordable charge.before.nCost state.vchState.length
  contract : charge.OPERATION = OP.CONTRACT.OPERATIONS →
    AffordsOperations charge.before.contract.ssOperation.vchData charge.before.nCost
  caller : charge.OPERATION = OP.CALLER.OPERATIONS →
    AffordsOperations charge.before.caller.ssOperation.vchData charge.before.nCost

/-- The operations of an operand that are completed, with those of its second operands. -/
def operandCharges (rt : Runtime) (disk : Disk) : Nat → Value → Condition → List Charge
  | 0, _, _ => []
  | n + 1, vRet, c =>
      if c.atEnd then []
      else
        match c.extract UInt8 with
        | .error _ => []
        | .ok (OPERATION, c) =>
            if binary OPERATION = true ∨ (unary rt disk OPERATION vRet c).isSome = true then
              (if binary OPERATION then operandCharges rt disk n {} c else []) ++
                match operation rt disk n OPERATION vRet c with
                | .error _ => []
                | .ok (fRet, value, c') =>
                    ⟨OPERATION, c, fRet, value, c'⟩ ::
                      if fRet then operandCharges rt disk n value c' else []
            else []

/-- The operations of an operand. -/
def valueCharges (rt : Runtime) (disk : Disk) (c : Condition) : List Charge :=
  operandCharges rt disk (c.contract.ssCondition.size - c.contract.ssCondition.nReadPos + 1) {} c

/-- The operations of the right operand, after the left one and the comparison were read. -/
def rightCharges (rt : Runtime) (disk : Disk) (c : Condition) : List Charge :=
  match c.extract UInt8 with
  | .error _ => []
  | .ok (OPERATION, c) => if compares OPERATION then valueCharges rt disk c else []

/-- The operations of a comparison. -/
def evaluateCharges (rt : Runtime) (disk : Disk) (c : Condition) : List Charge :=
  if c.caller.nVersion = 1 then
    valueCharges rt disk c ++
      match c.GetValue rt disk with
      | .error _ => []
      | .ok (fLeft, _, c) => if fLeft then rightCharges rt disk c else []
  else if c.caller.nVersion = 2 then
    valueCharges rt disk c ++
      match c.GetValue rt disk with
      | .error _ => []
      | .ok (_, _, c) => if c.atEnd then [] else rightCharges rt disk c
  else []

/-- The operations of a turn of `Execute`. -/
def stepCharges (rt : Runtime) (disk : Disk) (c : Condition) : List Charge :=
  match c.extract UInt8 with
  | .error _ => []
  | .ok (OPERATION, c₁) =>
      if grouping OPERATION then
        match c.step rt disk with
        | .error _ => []
        | .ok c' => [⟨OPERATION, c₁, true, {}, c'⟩]
      else if c.vEvaluate = [] then []
      else evaluateCharges rt disk c

/-- The operations of the loop of `Execute`. -/
def loopCharges (rt : Runtime) (disk : Disk) : Nat → Condition → List Charge
  | 0, _ => []
  | n + 1, c =>
      if c.atEnd then []
      else
        stepCharges rt disk c ++
          match c.step rt disk with
          | .error _ => []
          | .ok c' => loopCharges rt disk n c'

/-- The operations of `Execute`, in their order, as far as it comes. -/
def executeCharges (rt : Runtime) (disk : Disk) (c : Condition) : List Charge :=
  loopCharges rt disk c.contract.ssCondition.size
    { c with contract.ssCondition := c.contract.ssCondition.reset }

/-- Every operation of an execution is metered, and so is the whole. -/
structure ExecutionMetered (rt : Runtime) (disk : Disk) (c : Condition) : Prop where
  charges : ∀ charge ∈ executeCharges rt disk c, charge.Metered
  total : ∀ f nCost, c.Execute rt disk = .ok (f, nCost) → c.nCost ≤ nCost

/-! ## One operation -/

/-- What an operation that is done leaves: a counter that grew by the bytes of its value. -/
def PaysFor (c : Condition) (operand : Result Operand) : Prop :=
  ∀ fRet value c', operand = .ok (fRet, value, c') →
    c.nCost ≤ c'.nCost ∧ (fRet = true → c.nCost.toNat + value.nBytes ≤ c'.nCost.toNat)

theorem nCost_of_spend (h : c.spend strOP nCost = .ok c') :
    c'.nCost.toNat = c.nCost.toNat + nCost.toNat := by
  obtain ⟨hCheck, rfl⟩ := spend_eq_ok.mp h
  rw [UInt64.not_lt, UInt64.le_iff_toNat_le, UInt64.toNat_add] at hCheck
  show (c.nCost + nCost).toNat = _
  rw [UInt64.toNat_add]
  have hLeft := c.nCost.toNat_lt
  have hRight := nCost.toNat_lt
  omega

/-- The bytes of a datum that was allocated. -/
theorem nBytes_of_allocate {d : Datum} {vm vm' : BaseVM} (h : d.allocate vm = .ok (value, vm')) :
    value.nBytes ≤ d.nBytes ∧ d.size ≤ REGISTERS := by
  cases d with
  | word nBytes a =>
      simp only [Datum.allocate, BaseVM.allocateWord, bind_eq_ok, reject_eq_ok, pure_eq_ok,
        Prod.mk.injEq] at h
      obtain ⟨-, hRoom, rfl, -⟩ := h
      exact ⟨Nat.le_refl _, Nat.succ_le_of_lt (by decide)⟩
  | bytes vch =>
      simp only [Datum.allocate, BaseVM.allocateBytes, bind_eq_ok, reject_eq_ok, pure_eq_ok,
        Prod.mk.injEq] at h
      obtain ⟨-, hRoom, rfl, -⟩ := h
      refine ⟨Nat.mod_le _ _, ?_⟩
      simp only [Datum.size]
      omega

/-- A vector that was allocated has the length of its value. -/
theorem nBytes_of_bytes {vch : List UInt8} {vm vm' : BaseVM}
    (h : vm.allocateBytes vch = .ok (value, vm')) : value.nBytes = vch.length := by
  have hSize := (nBytes_of_allocate (d := .bytes vch) h).2
  have hLength := Datum.length_le_size vch
  have hRegisters : REGISTERS = 256 := rfl
  simp only [BaseVM.allocateBytes, bind_eq_ok, reject_eq_ok, pure_eq_ok, Prod.mk.injEq] at h
  obtain ⟨-, -, rfl, -⟩ := h
  show vch.length % 2 ^ 16 = vch.length
  omega

theorem nBytes_of {α : Type} [FixedWidth α] (a : α) : (Datum.of a).nBytes = FixedWidth.width α := by
  unfold Datum.of
  split
  · rfl
  · exact FixedWidth.encode_length a

theorem width_of_allocate {α : Type} [FixedWidth α] {a : α}
    (h : (Datum.of a).size ≤ REGISTERS) : FixedWidth.width α ≤ 2048 := by
  unfold Datum.of at h
  split at h
  · omega
  · have hLength := Datum.length_le_size (FixedWidth.encode a)
    rw [FixedWidth.encode_length] at hLength
    have hRegisters : REGISTERS = 256 := rfl
    omega

theorem PaysFor.after {operand : Result Operand} (h : PaysFor c' operand) (hLe : c.nCost ≤ c'.nCost) :
    PaysFor c operand := by
  intro fRet value c'' hOk
  obtain ⟨hKept, hPaid⟩ := h fRet value c'' hOk
  rw [UInt64.le_iff_toNat_le] at hLe hKept ⊢
  refine ⟨by omega, fun hRet => ?_⟩
  have hBytes := hPaid hRet
  omega

/-- Nothing was loaded. -/
theorem pays_none (hLe : c.nCost ≤ c'.nCost) : PaysFor c (.ok (false, vRet, c')) := by
  intro fRet value c'' hOk
  cases hOk
  exact ⟨hLe, fun hRet => absurd hRet Bool.false_ne_true⟩

theorem le_of_toNat_add {x y : UInt64} {k : Nat} (h : y.toNat = x.toNat + k) : x ≤ y := by
  rw [UInt64.le_iff_toNat_le]
  omega

theorem le_of_same {x y : UInt64} (h : y = x) : x ≤ y := by
  rw [h]
  exact UInt64.le_refl x

section Loads

variable {α : Type} [FixedWidth α]

theorem load_pays {a : α}
    (hCost : FixedWidth.width α ≤ 2048 → FixedWidth.width α ≤ nCost.toNat) :
    PaysFor c (load α strOP a nCost c) := by
  intro fRet value c' hOk
  obtain ⟨-, hCheck, vm, hAllocate, rfl⟩ := load_eq_ok.mp hOk
  have hSpend : c.spend strOP nCost = .ok { c with nCost := c.nCost + nCost } :=
    spend_eq_ok.mpr ⟨hCheck, rfl⟩
  have hSum : (c.nCost + nCost).toNat = c.nCost.toNat + nCost.toNat := nCost_of_spend hSpend
  obtain ⟨hBytes, hSize⟩ := nBytes_of_allocate hAllocate
  rw [nBytes_of] at hBytes
  have hWidth := hCost (width_of_allocate hSize)
  refine ⟨le_of_toNat_add hSum, fun _ => ?_⟩
  show c.nCost.toNat + value.nBytes ≤ (c.nCost + nCost).toNat
  omega

theorem loadBytes_pays {vch : List UInt8}
    (hCost : vch.length ≤ 2048 → vch.length ≤ nCost.toNat) :
    PaysFor c (loadBytes strOP vch nCost c) := by
  intro fRet value c' hOk
  obtain ⟨-, hCheck, vm, hAllocate, rfl⟩ := loadBytes_eq_ok.mp hOk
  have hSpend : c.spend strOP nCost = .ok { c with nCost := c.nCost + nCost } :=
    spend_eq_ok.mpr ⟨hCheck, rfl⟩
  have hSum : (c.nCost + nCost).toNat = c.nCost.toNat + nCost.toNat := nCost_of_spend hSpend
  obtain ⟨hBytes, hSize⟩ := nBytes_of_allocate hAllocate
  have hLength := Datum.length_le_size vch
  have hRegisters : REGISTERS = 256 := rfl
  have hPaid := hCost (by omega)
  have hDatum : Datum.nBytes (.bytes vch) = vch.length := rfl
  refine ⟨le_of_toNat_add hSum, fun _ => ?_⟩
  show c.nCost.toNat + value.nBytes ≤ (c.nCost + nCost).toNat
  omega

theorem ofNat_toNat_of_le {k : Nat} (h : k ≤ 2048) : k ≤ (UInt64.ofNat k).toNat := by
  rw [UInt64.toNat_ofNat']
  omega

theorem literal_pays : PaysFor c (literal α strOP c) := by
  intro fRet value c' hOk
  simp only [literal, bind_eq_ok, Prod.exists] at hOk
  obtain ⟨a, c₁, hRead, hLoad⟩ := hOk
  obtain ⟨-, -, rfl⟩ := extract_eq_ok.mp hRead
  have hPays : PaysFor (c.skip (FixedWidth.width α)) (load α strOP a
      (UInt64.ofNat (FixedWidth.width α)) (c.skip (FixedWidth.width α))) :=
    load_pays fun hWidth => ofNat_toNat_of_le hWidth
  exact hPays _ _ _ hLoad

theorem literalBytes_pays {strEmpty : String} : PaysFor c (literalBytes strOP strEmpty c) := by
  intro fRet value c' hOk
  simp only [literalBytes, bind_eq_ok, Prod.exists] at hOk
  obtain ⟨vch, c₁, hRead, -, -, hLoad⟩ := hOk
  obtain ⟨n, -, rfl⟩ := extractBytes_skip hRead
  have hPays : PaysFor (c.skip n) (loadBytes strOP vch (UInt64.ofNat vch.length) (c.skip n)) :=
    loadBytes_pays ofNat_toNat_of_le
  exact hPays _ _ _ hLoad

theorem registerState_nCost {stateOpt : Option State}
    (h : c.registerState disk vRet = .ok (stateOpt, c')) : c'.nCost = c.nCost := by
  simp only [registerState, bind_eq_ok, Prod.exists, pure_eq_ok, Prod.mk.injEq] at h
  obtain ⟨-, vm, -, -, rfl⟩ := h
  rfl

/-- A value that is allocated after its cost was paid. -/
theorem push_pays {a : α} {c'' : Condition} (hPush : c'.push α a = .ok (value, c''))
    (hKept : c.nCost ≤ c'.nCost)
    (hCost : FixedWidth.width α ≤ 2048 → c.nCost.toNat + FixedWidth.width α ≤ c'.nCost.toNat) :
    PaysFor c (.ok (true, value, c'')) := by
  simp only [push, map_eq_ok, Prod.exists, Prod.mk.injEq, allocate_eq_datum] at hPush
  obtain ⟨v, vm, hAllocate, rfl, rfl⟩ := hPush
  obtain ⟨hBytes, hSize⟩ := nBytes_of_allocate hAllocate
  rw [nBytes_of] at hBytes
  have hPaid := hCost (width_of_allocate hSize)
  intro f v' c₃ hOk
  cases hOk
  refine ⟨hKept, fun _ => ?_⟩
  show c.nCost.toNat + v.nBytes ≤ c'.nCost.toNat
  omega

theorem pushBytes_pays {vch : List UInt8} {c'' : Condition}
    (hPush : c'.pushBytes vch = .ok (value, c'')) (hKept : c.nCost ≤ c'.nCost)
    (hCost : vch.length ≤ 2048 → c.nCost.toNat + vch.length ≤ c'.nCost.toNat) :
    PaysFor c (.ok (true, value, c'')) := by
  simp only [pushBytes, map_eq_ok, Prod.exists, Prod.mk.injEq] at hPush
  obtain ⟨v, vm, hAllocate, rfl, rfl⟩ := hPush
  obtain ⟨hBytes, hSize⟩ := nBytes_of_allocate (d := .bytes vch) hAllocate
  have hLength := Datum.length_le_size vch
  have hRegisters : REGISTERS = 256 := rfl
  have hPaid := hCost (by omega)
  have hDatum : Datum.nBytes (.bytes vch) = vch.length := rfl
  intro f v' c₃ hOk
  cases hOk
  refine ⟨hKept, fun _ => ?_⟩
  show c.nCost.toNat + v.nBytes ≤ c'.nCost.toNat
  omega

theorem registerField_pays {f : State → α} (hCost : FixedWidth.width α ≤ nCost.toNat) :
    PaysFor c (registerField α disk strOP f nCost vRet c) := by
  intro fRet value c' hOk
  simp only [registerField, bind_eq_ok, Prod.exists] at hOk
  obtain ⟨stateOpt, c₁, hState, hOk⟩ := hOk
  have hSame := registerState_nCost hState
  cases stateOpt with
  | none => exact pays_none (le_of_same hSame) _ _ _ hOk
  | some state =>
      simp only [bind_eq_ok, Prod.exists, pure_eq_ok, Prod.mk.injEq] at hOk
      obtain ⟨c₂, hSpend, v, c₃, hPush, rfl, rfl, rfl⟩ := hOk
      have hSum := nCost_of_spend hSpend
      rw [hSame] at hSum
      exact push_pays hPush (le_of_toNat_add hSum) (fun _ => by omega) _ _ _ rfl

theorem callerField_pays {f : State → α} (hCost : FixedWidth.width α ≤ nCost.toNat) :
    PaysFor c (callerField α strOP f nCost c) := by
  intro fRet value c' hOk
  simp only [callerField, bind_eq_ok, Prod.exists, pure_eq_ok, Prod.mk.injEq] at hOk
  obtain ⟨state, -, c₁, hSpend, v, c₂, hPush, rfl, rfl, rfl⟩ := hOk
  have hSum := nCost_of_spend hSpend
  exact push_pays hPush (le_of_toNat_add hSum) (fun _ => by omega) _ _ _ rfl

theorem registerData_pays : PaysFor c (registerData disk vRet c) := by
  intro fRet value c' hOk
  simp only [registerData, bind_eq_ok, Prod.exists] at hOk
  obtain ⟨stateOpt, c₁, hState, hOk⟩ := hOk
  have hSame := registerState_nCost hState
  cases stateOpt with
  | none => exact pays_none (le_of_same hSame) _ _ _ hOk
  | some state =>
      simp only [bind_eq_ok, Prod.exists, pure_eq_ok, Prod.mk.injEq] at hOk
      obtain ⟨c₂, hSpend, v, c₃, hPush, rfl, rfl, rfl⟩ := hOk
      have hSum := nCost_of_spend hSpend
      rw [hSame, UInt64.toNat_ofNat'] at hSum
      exact pushBytes_pays hPush (le_of_toNat_add hSum) (fun hLength => by omega) _ _ _ rfl

theorem crypto_pays {hash : List UInt8 → α} : PaysFor c (crypto α strOP hash vRet c) := by
  intro fRet value c' hOk
  simp only [crypto, bind_eq_ok] at hOk
  obtain ⟨-, -, vm, -, hOk⟩ := hOk
  have hPays : PaysFor { c with vm } (load α strOP (hash (c.vm.bytes vRet)) 2048 { c with vm }) :=
    load_pays fun hWidth => show FixedWidth.width α ≤ (2048 : UInt64).toNat from hWidth
  exact hPays _ _ _ hOk

end Loads

/-! ## Fields -/

theorem field_pays {β : Type} [FieldType β] {object : Object} {strName : List UInt8} :
    PaysFor c (field β strOP object strName vRet c) := by
  intro fRet value c' hOk
  simp only [field, bind_eq_ok] at hOk
  obtain ⟨nValue, -, hOk⟩ := hOk
  cases nValue with
  | none => exact pays_none (UInt64.le_refl _) _ _ _ hOk
  | some nValue => exact load_pays ofNat_toNat_of_le _ _ _ hOk

theorem fieldBytes_pays {object : Object} {nType : UInt8} {strName : List UInt8} :
    PaysFor c (Condition.fieldBytes strOP nType object strName vRet c) := by
  intro fRet value c' hOk
  simp only [Condition.fieldBytes, bind_eq_ok] at hOk
  obtain ⟨vData, -, hOk⟩ := hOk
  cases vData with
  | none => exact pays_none (UInt64.le_refl _) _ _ _ hOk
  | some vData => exact loadBytes_pays ofNat_toNat_of_le _ _ _ hOk

theorem objectValue_pays {state : State} : PaysFor c (objectValue state vRet c) := by
  intro fRet value c' hOk
  simp only [objectValue, bind_eq_ok, Prod.exists, ite_eq_ok] at hOk
  obtain ⟨strValue, c₁, hRead, hOk⟩ := hOk
  obtain ⟨n, -, rfl⟩ := extractBytes_skip hRead
  have hNone : PaysFor c (.ok (false, vRet, c.skip n)) := pays_none (UInt64.le_refl c.nCost)
  rcases hOk with ⟨-, hOk⟩ | ⟨-, object, -, hOk⟩
  · exact hNone _ _ _ hOk
  · cases object with
    | none => exact hNone _ _ _ hOk
    | some object =>
        simp only [bind_eq_ok] at hOk
        obtain ⟨nType, -, hOk⟩ := hOk
        cases nType with
        | none => exact hNone _ _ _ hOk
        | some nType =>
            have hValue : PaysFor (c.skip n) (fieldValue object strValue nType vRet (c.skip n)) :=
              fieldValue_rule (P := PaysFor (c.skip n)) (fun _ _ _ => field_pays)
                (fun _ _ => fieldBytes_pays) (pays_none (UInt64.le_refl _))
            exact hValue _ _ _ hOk

theorem registerValue_pays : PaysFor c (registerValue disk vRet c) := by
  intro fRet value c' hOk
  simp only [registerValue, bind_eq_ok, Prod.exists] at hOk
  obtain ⟨stateOpt, c₁, hState, hOk⟩ := hOk
  have hSame := registerState_nCost hState
  cases stateOpt with
  | none => exact pays_none (le_of_same hSame) _ _ _ hOk
  | some state =>
      simp only [bind_eq_ok] at hOk
      obtain ⟨c₂, hSpend, hOk⟩ := hOk
      have hSum := nCost_of_spend hSpend
      rw [hSame] at hSum
      exact objectValue_pays.after (le_of_toNat_add hSum) _ _ _ hOk

theorem callerValue_pays : PaysFor c (callerValue vRet c) := by
  intro fRet value c' hOk
  simp only [callerValue, bind_eq_ok] at hOk
  obtain ⟨state, -, hOk⟩ := hOk
  exact objectValue_pays _ _ _ hOk

/-! ## Operations that load nothing -/

/-- The counter does not decrease. -/
def KeepsCost (c : Condition) (operand : Result Operand) : Prop :=
  ∀ fRet value c', operand = .ok (fRet, value, c') → c.nCost ≤ c'.nCost

theorem loadBytes_keeps {vch : List UInt8} : KeepsCost c (loadBytes strOP vch nCost c) := by
  intro fRet value c' hOk
  obtain ⟨-, hCheck, vm, -, rfl⟩ := loadBytes_eq_ok.mp hOk
  exact UInt64.not_lt.mp hCheck

theorem increment_keeps {k nLimit : UInt64} :
    KeepsCost c (increment OPERATION k nLimit vRet c) := by
  intro fRet value c' hOk
  simp only [increment, bind_eq_ok, pure_eq_ok, Prod.mk.injEq] at hOk
  obtain ⟨-, -, -, -, c₁, hSpend, -, -, rfl⟩ := hOk
  have hSum := nCost_of_spend hSpend
  exact le_of_toNat_add hSum

theorem arithmetic_keeps : KeepsCost c (arithmetic OPERATION vRet vArg c) := by
  intro fRet value c' hOk
  simp only [arithmetic, bind_eq_ok, pure_eq_ok, Prod.mk.injEq] at hOk
  obtain ⟨-, -, vm, -, vm', -, c₁, hSpend, -, -, rfl⟩ := hOk
  have hSum := nCost_of_spend hSpend
  exact le_of_toNat_add hSum

theorem cat_keeps : KeepsCost c (cat vRet vArg c) := by
  intro fRet value c' hOk
  simp only [cat, bind_eq_ok] at hOk
  obtain ⟨vm, -, vm', -, hOk⟩ := hOk
  exact loadBytes_keeps (c := { c with vm := vm' }) _ _ _ hOk

theorem subdata_keeps : KeepsCost c (subdata rt vRet c) := by
  intro fRet value c' hOk
  simp only [subdata, bind_eq_ok, Prod.exists] at hOk
  obtain ⟨nBegin, c₁, hBegin, nSize, c₂, hSize, vData, vm, -, hLoad⟩ := hOk
  have hFirst : c₁.nCost = c.nCost := by rw [(extract_eq_ok.mp hBegin).2.2, skip]
  have hSecond : c₂.nCost = c₁.nCost := by rw [(extract_eq_ok.mp hSize).2.2, skip]
  have hKept : c₂.nCost ≤ c'.nCost := loadBytes_keeps (c := { c₂ with vm }) _ _ _ hLoad
  rwa [hSecond, hFirst] at hKept

/-! ## Doubling -/

theorem double_toNat (x : UInt64) :
    (x + x).toNat = if x.toNat < 2 ^ 63 then 2 * x.toNat else 2 * x.toNat - 2 ^ 64 := by
  have hBound := x.toNat_lt
  rw [UInt64.toNat_add]
  split <;> omega

/-- Adding the counter to itself pays for `k` bytes exactly when it may. -/
theorem affordable_iff {x : UInt64} {k : Nat} :
    (x ≤ x + x ∧ x.toNat + k ≤ (x + x).toNat) ↔ Affordable x k := by
  have hBound := x.toNat_lt
  rw [UInt64.le_iff_toNat_le, double_toNat, Affordable]
  split <;> omega

theorem callerData_eq_ok (h : callerData c = .ok (fRet, value, c')) :
    ∃ state, c.callerState = .ok state ∧ fRet = true ∧ value.nBytes = state.vchState.length ∧
      c'.nCost = c.nCost + c.nCost := by
  simp only [callerData, bind_eq_ok, Prod.exists, pure_eq_ok, Prod.mk.injEq] at h
  obtain ⟨state, hState, c₁, hDouble, v, c₂, hPush, rfl, rfl, rfl⟩ := h
  simp only [double, bind_eq_ok, pure_eq_ok] at hDouble
  obtain ⟨-, -, rfl⟩ := hDouble
  simp only [pushBytes, map_eq_ok, Prod.exists, Prod.mk.injEq] at hPush
  obtain ⟨v', vm, hAllocate, rfl, rfl⟩ := hPush
  exact ⟨state, hState, rfl, nBytes_of_bytes hAllocate, rfl⟩

theorem operations_eq_ok {vBytes : List UInt8}
    (h : operations strOP vBytes vRet c = .ok (fRet, value, c')) :
    (vBytes.length ≤ offset vBytes ∧ fRet = false ∧ c' = c) ∨
      offset vBytes < vBytes.length ∧ fRet = true ∧
        value.nBytes = vBytes.length - offset vBytes ∧ c'.nCost = c.nCost + c.nCost := by
  unfold operations at h
  split at h
  · rename_i hShort
    cases h
    exact .inl ⟨hShort, rfl, rfl⟩
  · rename_i hLong
    simp only [bind_eq_ok, Prod.exists, pure_eq_ok, Prod.mk.injEq] at h
    obtain ⟨v, c₁, hPush, c₂, hDouble, rfl, rfl, rfl⟩ := h
    simp only [pushBytes, map_eq_ok, Prod.exists, Prod.mk.injEq] at hPush
    obtain ⟨v', vm, hAllocate, rfl, rfl⟩ := hPush
    simp only [double, bind_eq_ok, pure_eq_ok] at hDouble
    obtain ⟨-, -, rfl⟩ := hDouble
    have hBytes := nBytes_of_bytes hAllocate
    rw [List.length_drop] at hBytes
    exact .inr ⟨Nat.lt_of_not_le hLong, rfl, hBytes, rfl⟩

/-- The operations that add the counter to itself. -/
def doubles (OPERATION : UInt8) : Bool :=
  OPERATION ∈ [OP.CALLER.PRESTATE.STATE, OP.CONTRACT.OPERATIONS, OP.CALLER.OPERATIONS]

theorem operations_metered_iff {vBytes : List UInt8} (hLoads : loads OPERATION = true)
    (h : operations strOP vBytes vRet c = .ok (fRet, value, c')) :
    Charge.Metered ⟨OPERATION, c, fRet, value, c'⟩ ↔ AffordsOperations vBytes c.nCost := by
  rcases operations_eq_ok h with ⟨hShort, rfl, rfl⟩ | ⟨hLong, rfl, hBytes, hCost⟩
  · refine iff_of_true ⟨UInt64.le_refl _, fun _ hRet => absurd hRet Bool.false_ne_true⟩ ?_
    exact fun hLong => absurd hLong (by omega)
  · have hIff := affordable_iff (x := c.nCost) (k := vBytes.length - offset vBytes)
    constructor
    · intro hMetered _
      have hKept : c.nCost ≤ c'.nCost := hMetered.kept
      have hPaid : c.nCost.toNat + value.nBytes ≤ c'.nCost.toNat := hMetered.paid hLoads rfl
      rw [hCost] at hKept hPaid
      rw [hBytes] at hPaid
      exact hIff.mp ⟨hKept, hPaid⟩
    · intro hAffords
      obtain ⟨hKept, hPaid⟩ := hIff.mpr (hAffords hLong)
      constructor
      · show c.nCost ≤ c'.nCost
        rw [hCost]
        exact hKept
      · intro _ _
        show c.nCost.toNat + value.nBytes ≤ c'.nCost.toNat
        rw [hCost, hBytes]
        exact hPaid

/-! ## Charges of operands -/

variable {charge : Charge}

theorem PaysFor.metered {operand : Result Operand} (h : PaysFor c operand)
    (hOk : operand = .ok (fRet, value, c')) : Charge.Metered ⟨OPERATION, c, fRet, value, c'⟩ := by
  obtain ⟨hKept, hPaid⟩ := h fRet value c' hOk
  exact ⟨hKept, fun _ => hPaid⟩

theorem KeepsCost.metered {operand : Result Operand} (h : KeepsCost c operand)
    (hLoads : loads OPERATION = false) (hOk : operand = .ok (fRet, value, c')) :
    Charge.Metered ⟨OPERATION, c, fRet, value, c'⟩ :=
  ⟨h fRet value c' hOk, fun hTrue => absurd (hLoads.symm.trans hTrue) Bool.false_ne_true⟩

theorem covered_of_not_doubles (h : doubles charge.OPERATION = false) : charge.Covered := by
  simp only [doubles, List.mem_cons, List.not_mem_nil, or_false, decide_eq_false_iff_not,
    not_or] at h
  exact ⟨fun hOp => absurd hOp h.1, fun hOp => absurd hOp h.2.1, fun hOp => absurd hOp h.2.2⟩

/-- An operation that does not add the counter to itself is metered. -/
theorem unary_metered {operand : Result Operand} (hNot : doubles OPERATION = false)
    (h : unary rt disk OPERATION vRet c = some operand)
    (hOk : operand = .ok (fRet, value, c')) :
    Charge.Metered ⟨OPERATION, c, fRet, value, c'⟩ := by
  simp only [doubles, List.mem_cons, List.not_mem_nil, or_false, decide_eq_false_iff_not,
    not_or] at hNot
  have hIncrement : OPERATION = OP.INC → loads OPERATION = false := by
    rintro rfl
    decide
  have hDecrement : OPERATION = OP.DEC → loads OPERATION = false := by
    rintro rfl
    decide
  have hSubdata : OPERATION = OP.SUBDATA → loads OPERATION = false := by
    rintro rfl
    decide
  refine unary_rule (P := fun operand => operand = .ok (fRet, value, c') →
      Charge.Metered ⟨OPERATION, c, fRet, value, c'⟩)
    (fun hOp => increment_keeps.metered (hIncrement hOp))
    (fun hOp => increment_keeps.metered (hDecrement hOp))
    (fun hOp => subdata_keeps.metered (hSubdata hOp))
    (fun _ _ _ _ => literal_pays.metered) (fun _ _ _ => literalBytes_pays.metered)
    (fun _ _ _ _ _ hCost _ => (registerField_pays hCost).metered)
    (fun _ _ _ _ _ hCost _ => (callerField_pays hCost).metered)
    (fun _ => registerData_pays.metered) (fun hOp => absurd hOp hNot.1)
    (fun _ => registerValue_pays.metered) (fun _ => callerValue_pays.metered)
    (fun _ _ _ _ _ hCost _ => (load_pays fun _ => hCost).metered)
    (fun hOp => absurd hOp hNot.2.1) (fun hOp => absurd hOp hNot.2.2)
    (fun _ _ _ _ _ => crypto_pays.metered) h hOk

theorem prestate_loads : loads OP.CALLER.PRESTATE.STATE = true := by decide

theorem prestate_ne_contract : OP.CALLER.PRESTATE.STATE ≠ OP.CONTRACT.OPERATIONS := by decide

theorem prestate_ne_caller : OP.CALLER.PRESTATE.STATE ≠ OP.CALLER.OPERATIONS := by decide

theorem contract_ne_caller : OP.CONTRACT.OPERATIONS ≠ OP.CALLER.OPERATIONS := by decide

theorem callerData_metered_iff (h : callerData c = .ok (fRet, value, c')) :
    Charge.Metered ⟨OP.CALLER.PRESTATE.STATE, c, fRet, value, c'⟩ ↔
      ∀ state, c.callerState = .ok state → Affordable c.nCost state.vchState.length := by
  obtain ⟨state, hState, rfl, hBytes, hCost⟩ := callerData_eq_ok h
  have hIff := affordable_iff (x := c.nCost) (k := state.vchState.length)
  constructor
  · intro hMetered state' hState'
    have hSame : state = state' := Except.ok.inj (hState.symm.trans hState')
    have hKept : c.nCost ≤ c'.nCost := hMetered.kept
    have hPaid : c.nCost.toNat + value.nBytes ≤ c'.nCost.toNat :=
      hMetered.paid prestate_loads rfl
    rw [hCost] at hKept hPaid
    rw [hBytes] at hPaid
    rw [← hSame]
    exact hIff.mp ⟨hKept, hPaid⟩
  · intro hAffords
    obtain ⟨hKept, hPaid⟩ := hIff.mpr (hAffords state hState)
    constructor
    · show c.nCost ≤ c'.nCost
      rw [hCost]
      exact hKept
    · intro _ _
      show c.nCost.toNat + value.nBytes ≤ c'.nCost.toNat
      rw [hCost, hBytes]
      exact hPaid

theorem unary_metered_iff {operand : Result Operand}
    (h : unary rt disk OPERATION vRet c = some operand)
    (hOk : operand = .ok (fRet, value, c')) :
    Charge.Metered ⟨OPERATION, c, fRet, value, c'⟩ ↔
      Charge.Covered ⟨OPERATION, c, fRet, value, c'⟩ := by
  by_cases hPrestate : OPERATION = OP.CALLER.PRESTATE.STATE
  · subst hPrestate
    have hData : callerData c = .ok (fRet, value, c') := (Option.some.inj h).trans hOk
    rw [callerData_metered_iff hData]
    exact ⟨fun hAll => ⟨fun _ => hAll, fun hOp => absurd hOp prestate_ne_contract,
      fun hOp => absurd hOp prestate_ne_caller⟩, fun hCovered => hCovered.prestate rfl⟩
  by_cases hContract : OPERATION = OP.CONTRACT.OPERATIONS
  · subst hContract
    have hData : contractOperations vRet c = .ok (fRet, value, c') := (Option.some.inj h).trans hOk
    simp only [contractOperations, bind_eq_ok] at hData
    obtain ⟨-, -, hData⟩ := hData
    rw [operations_metered_iff (by decide) hData]
    exact ⟨fun hAll => ⟨fun hOp => absurd hOp.symm prestate_ne_contract, fun _ => hAll,
      fun hOp => absurd hOp contract_ne_caller⟩, fun hCovered => hCovered.contract rfl⟩
  by_cases hCaller : OPERATION = OP.CALLER.OPERATIONS
  · subst hCaller
    have hData : callerOperations vRet c = .ok (fRet, value, c') := (Option.some.inj h).trans hOk
    rw [operations_metered_iff (by decide) hData]
    exact ⟨fun hAll => ⟨fun hOp => absurd hOp.symm prestate_ne_caller,
      fun hOp => absurd hOp.symm contract_ne_caller, fun _ => hAll⟩,
      fun hCovered => hCovered.caller rfl⟩
  have hNot : doubles OPERATION = false := by simp [doubles, hPrestate, hContract, hCaller]
  exact iff_of_true (unary_metered hNot h hOk) (covered_of_not_doubles hNot)

theorem not_doubles_of_binary (h : binary OPERATION = true) :
    doubles OPERATION = false ∧ loads OPERATION = false := by
  have hAll : [OP.ADD, OP.SUB, OP.DIV, OP.MUL, OP.EXP, OP.MOD, OP.CAT].all
      (fun nOP => !doubles nOP && !loads nOP) = true := by decide
  have hHere := List.all_eq_true.mp hAll OPERATION (of_decide_eq_true h)
  simpa using hHere

/-- What an operation of an operand does, when its second operand keeps the counter. -/
theorem operation_metered
    (hArg : binary OPERATION = true → KeepsCost c (getValue rt disk n {} c))
    (hKnown : binary OPERATION = true ∨ (unary rt disk OPERATION vRet c).isSome = true)
    (hCovered : Charge.Covered ⟨OPERATION, c, fRet, value, c'⟩)
    (hOk : operation rt disk n OPERATION vRet c = .ok (fRet, value, c')) :
    Charge.Metered ⟨OPERATION, c, fRet, value, c'⟩ := by
  by_cases hBinary : binary OPERATION = true
  · have hLoads := (not_doubles_of_binary hBinary).2
    refine ⟨?_, fun hTrue => absurd (hLoads.symm.trans hTrue) Bool.false_ne_true⟩
    simp only [operation, hBinary, if_true, bind_eq_ok, Prod.exists, ite_eq_ok] at hOk
    obtain ⟨fArg, vArg, c₁, hRead, hOk⟩ := hOk
    have hFirst : c.nCost ≤ c₁.nCost := hArg hBinary _ _ _ hRead
    rcases hOk with ⟨-, hOk⟩ | ⟨-, ⟨-, hOk⟩ | ⟨-, hOk⟩⟩
    · cases hOk
      exact hFirst
    · exact UInt64.le_trans hFirst (cat_keeps _ _ _ hOk)
    · exact UInt64.le_trans hFirst (arithmetic_keeps _ _ _ hOk)
  · obtain ⟨operand, hUnary⟩ := Option.isSome_iff_exists.mp (hKnown.resolve_left hBinary)
    rw [operation, if_neg hBinary, hUnary, Option.getD_some] at hOk
    exact (unary_metered_iff hUnary hOk).mpr hCovered

/-- All operations of a list are covered. -/
def AllCovered (charges : List Charge) : Prop := ∀ charge ∈ charges, charge.Covered

/-- All operations of a list are metered. -/
def AllMetered (charges : List Charge) : Prop := ∀ charge ∈ charges, charge.Metered

theorem allCovered_append {charges charges' : List Charge} :
    AllCovered (charges ++ charges') ↔ AllCovered charges ∧ AllCovered charges' :=
  List.forall_mem_append

theorem allMetered_append {charges charges' : List Charge} :
    AllMetered (charges ++ charges') ↔ AllMetered charges ∧ AllMetered charges' :=
  List.forall_mem_append

theorem extract_nCost {α : Type} [FixedWidth α] {a : α} (h : c.extract α = .ok (a, c')) :
    c'.nCost = c.nCost := by
  rw [(extract_eq_ok.mp h).2.2, skip]

/-- The operations of an operand, as its turn makes them. -/
theorem operandCharges_cases (hEnd : c.atEnd = false)
    (hRead : c.extract UInt8 = .ok (OPERATION, c'))
    (hKnown : binary OPERATION = true ∨ (unary rt disk OPERATION vRet c').isSome = true) :
    operandCharges rt disk (n + 1) vRet c =
      (if binary OPERATION then operandCharges rt disk n {} c' else []) ++
        match operation rt disk n OPERATION vRet c' with
        | .error _ => []
        | .ok (fRet, value, c'') =>
            ⟨OPERATION, c', fRet, value, c''⟩ ::
              if fRet then operandCharges rt disk n value c'' else [] := by
  rw [operandCharges, if_neg (by rw [hEnd]; exact Bool.false_ne_true), hRead]
  simp only [hKnown, if_true]

/-- Where an operation of an operand comes from. -/
theorem mem_operandCharges (hMem : charge ∈ operandCharges rt disk (n + 1) vRet c) :
    ∃ OPERATION c', c.atEnd = false ∧ c.extract UInt8 = .ok (OPERATION, c') ∧
      (binary OPERATION = true ∨ (unary rt disk OPERATION vRet c').isSome = true) ∧
      (binary OPERATION = true ∧ charge ∈ operandCharges rt disk n {} c' ∨
        ∃ fRet value c'', operation rt disk n OPERATION vRet c' = .ok (fRet, value, c'') ∧
          (charge = ⟨OPERATION, c', fRet, value, c''⟩ ∨
            fRet = true ∧ charge ∈ operandCharges rt disk n value c'')) := by
  by_cases hEnd : c.atEnd = true
  · rw [operandCharges, if_pos hEnd] at hMem
    exact absurd hMem List.not_mem_nil
  have hMore : c.atEnd = false := Bool.not_eq_true _ ▸ hEnd
  cases hRead : c.extract UInt8 with
  | error e =>
      rw [operandCharges, if_neg hEnd, hRead] at hMem
      exact absurd hMem List.not_mem_nil
  | ok read =>
      obtain ⟨OPERATION, c₁⟩ := read
      by_cases hKnown : binary OPERATION = true ∨ (unary rt disk OPERATION vRet c₁).isSome = true
      · refine ⟨OPERATION, c₁, hMore, rfl, hKnown, ?_⟩
        rw [operandCharges_cases hMore hRead hKnown, List.mem_append] at hMem
        rcases hMem with hMem | hMem
        · split at hMem
          · rename_i hBinary
            exact .inl ⟨hBinary, hMem⟩
          · exact absurd hMem List.not_mem_nil
        · split at hMem
          · exact absurd hMem List.not_mem_nil
          · rename_i fRet value c₂ hOk
            refine .inr ⟨fRet, value, c₂, hOk, ?_⟩
            rcases List.mem_cons.mp hMem with hHere | hMem
            · exact .inl hHere
            · split at hMem
              · rename_i hRet
                exact .inr ⟨hRet, hMem⟩
              · exact absurd hMem List.not_mem_nil
      · rw [operandCharges, if_neg hEnd, hRead] at hMem
        simp only [hKnown, if_false] at hMem
        exact absurd hMem List.not_mem_nil

/-- What a turn of `GetValue` needs of its operations. -/
theorem allCovered_turn (hCovered : AllCovered (operandCharges rt disk (n + 1) vRet c))
    (hEnd : c.atEnd = false) (hRead : c.extract UInt8 = .ok (OPERATION, c'))
    (hKnown : binary OPERATION = true ∨ (unary rt disk OPERATION vRet c').isSome = true) :
    (binary OPERATION = true → AllCovered (operandCharges rt disk n {} c')) ∧
      ∀ fRet value c'', operation rt disk n OPERATION vRet c' = .ok (fRet, value, c'') →
        Charge.Covered ⟨OPERATION, c', fRet, value, c''⟩ ∧
          (fRet = true → AllCovered (operandCharges rt disk n value c'')) := by
  rw [operandCharges_cases hEnd hRead hKnown, allCovered_append] at hCovered
  obtain ⟨hArg, hRest⟩ := hCovered
  constructor
  · intro hBinary
    rwa [if_pos hBinary] at hArg
  · intro fRet value c'' hOk
    rw [hOk] at hRest
    have hAll : AllCovered (⟨OPERATION, c', fRet, value, c''⟩ ::
        if fRet then operandCharges rt disk n value c'' else []) := hRest
    refine ⟨hAll _ List.mem_cons_self, fun hRet charge hMem => hAll charge ?_⟩
    rw [if_pos hRet]
    exact List.mem_cons_of_mem _ hMem

/-- The operations of an operand that are covered are metered, and the counter does not decrease
over the operand. -/
theorem operand_metered (hCovered : AllCovered (operandCharges rt disk n vRet c)) :
    AllMetered (operandCharges rt disk n vRet c) ∧ KeepsCost c (getValue rt disk n vRet c) := by
  induction n generalizing vRet c with
  | zero =>
      refine ⟨fun charge hMem => absurd hMem List.not_mem_nil, ?_⟩
      intro fRet value c' hOk
      cases hOk
  | succ n ih =>
      constructor
      · intro charge hMem
        obtain ⟨OPERATION, c₁, hMore, hRead, hKnown, hFrom⟩ := mem_operandCharges hMem
        obtain ⟨hArg, hOperation⟩ := allCovered_turn hCovered hMore hRead hKnown
        rcases hFrom with ⟨hBinary, hMem⟩ | ⟨fRet, value, c₂, hOk, hFrom⟩
        · exact (ih (hArg hBinary)).1 charge hMem
        · obtain ⟨hHere, hNext⟩ := hOperation fRet value c₂ hOk
          rcases hFrom with rfl | ⟨hRet, hMem⟩
          · exact operation_metered (fun hBinary => (ih (hArg hBinary)).2) hKnown hHere hOk
          · exact (ih (hNext hRet)).1 charge hMem
      · intro fRet value c' hOk
        simp only [getValue_succ, ite_eq_ok, bind_eq_ok, Prod.exists, pure_eq_ok,
          Prod.mk.injEq] at hOk
        rcases hOk with ⟨-, hOk⟩ | ⟨hEnd, OPERATION, c₁, hRead, ⟨hKnown, f, v, c₂, hOp, hNext⟩ |
          ⟨-, c₂, hRewind, -, -, rfl⟩⟩
        · cases hOk
          exact UInt64.le_refl _
        · have hMore : c.atEnd = false := Bool.not_eq_true _ ▸ hEnd
          obtain ⟨hArg, hOperation⟩ := allCovered_turn hCovered hMore hRead hKnown
          obtain ⟨hHere, hRest⟩ := hOperation f v c₂ hOp
          have hTurn : c₁.nCost ≤ c₂.nCost :=
            (operation_metered (fun hBinary => (ih (hArg hBinary)).2) hKnown hHere hOp).kept
          rw [extract_nCost hRead] at hTurn
          rcases hNext with ⟨hRet, hNext⟩ | ⟨-, hNext⟩
          · exact UInt64.le_trans hTurn ((ih (hRest hRet)).2 _ _ _ hNext)
          · cases hNext
            exact hTurn
        · have hSame := extract_nCost hRead
          simp only [rewind, map_eq_ok] at hRewind
          obtain ⟨ss, -, rfl⟩ := hRewind
          exact le_of_same hSame

/-- An operation that is metered is covered. -/
theorem operand_covered (hMem : charge ∈ operandCharges rt disk n vRet c)
    (hMetered : charge.Metered) : charge.Covered := by
  induction n generalizing vRet c with
  | zero => exact absurd hMem List.not_mem_nil
  | succ n ih =>
      obtain ⟨OPERATION, c₁, -, -, hKnown, hFrom⟩ := mem_operandCharges hMem
      rcases hFrom with ⟨-, hMem⟩ | ⟨fRet, value, c₂, hOk, rfl | ⟨-, hMem⟩⟩
      · exact ih hMem
      · by_cases hBinary : binary OPERATION = true
        · exact covered_of_not_doubles (not_doubles_of_binary hBinary).1
        · obtain ⟨operand, hUnary⟩ := Option.isSome_iff_exists.mp (hKnown.resolve_left hBinary)
          rw [operation, if_neg hBinary, hUnary, Option.getD_some] at hOk
          exact (unary_metered_iff hUnary hOk).mp hMetered
      · exact ih hMem

/-! ## Charges of comparisons -/

theorem free_nCost (h : c.free fRet value = .ok c') : c'.nCost = c.nCost := by
  simp only [free, ite_eq_ok, map_eq_ok] at h
  rcases h with ⟨-, vm, -, rfl⟩ | ⟨-, h⟩
  · rfl
  · cases h
    rfl

/-- The operation belongs to an operand, all of whose operations are in a list. -/
def FromOperand (rt : Runtime) (disk : Disk) (charges : List Charge) (charge : Charge) : Prop :=
  ∃ c, charge ∈ valueCharges rt disk c ∧ ∀ other ∈ valueCharges rt disk c, other ∈ charges

theorem FromOperand.mono {charges charges' : List Charge}
    (h : FromOperand rt disk charges charge) (hSub : ∀ other ∈ charges, other ∈ charges') :
    FromOperand rt disk charges' charge := by
  obtain ⟨c, hMem, hAll⟩ := h
  exact ⟨c, hMem, fun other hOther => hSub other (hAll other hOther)⟩

theorem mem_rightCharges (hMem : charge ∈ rightCharges rt disk c) :
    FromOperand rt disk (rightCharges rt disk c) charge := by
  unfold rightCharges at hMem ⊢
  split at hMem
  · exact absurd hMem List.not_mem_nil
  · rename_i OPERATION c' hRead
    split at hMem
    · rename_i hCompares
      rw [if_pos hCompares]
      exact ⟨c', hMem, fun _ hOther => hOther⟩
    · exact absurd hMem List.not_mem_nil

/-- The operations of a comparison: those of the left operand, and those of the right one if it
comes to that. -/
theorem evaluateCharges_eq :
    evaluateCharges rt disk c = [] ∨
      ∃ right, evaluateCharges rt disk c = valueCharges rt disk c ++ right ∧
        (right = [] ∨ ∃ c', right = rightCharges rt disk c') := by
  unfold evaluateCharges
  by_cases hOne : c.caller.nVersion = 1
  · rw [if_pos hOne]
    refine .inr ⟨_, rfl, ?_⟩
    split
    · exact .inl rfl
    · split
      · exact .inr ⟨_, rfl⟩
      · exact .inl rfl
  · by_cases hTwo : c.caller.nVersion = 2
    · rw [if_neg hOne, if_pos hTwo]
      refine .inr ⟨_, rfl, ?_⟩
      split
      · exact .inl rfl
      · split
        · exact .inl rfl
        · exact .inr ⟨_, rfl⟩
    · rw [if_neg hOne, if_neg hTwo]
      exact .inl rfl

theorem mem_evaluateCharges (hMem : charge ∈ evaluateCharges rt disk c) :
    FromOperand rt disk (evaluateCharges rt disk c) charge := by
  rcases @evaluateCharges_eq rt disk c with hNil | ⟨right, hEq, hRight⟩
  · rw [hNil] at hMem
    exact absurd hMem List.not_mem_nil
  · rw [hEq] at hMem ⊢
    rcases List.mem_append.mp hMem with hLeft | hMem
    · exact ⟨c, hLeft, fun _ hOther => List.mem_append_left _ hOther⟩
    · rcases hRight with rfl | ⟨c', rfl⟩
      · exact absurd hMem List.not_mem_nil
      · exact (mem_rightCharges hMem).mono fun _ hOther => List.mem_append_right _ hOther

/-- The counter does not decrease over the right operand. -/
theorem right_keeps {c'' : Condition} (hCovered : AllCovered (rightCharges rt disk c))
    (hRead : c.extract UInt8 = .ok (OPERATION, c')) (hCompares : compares OPERATION = true)
    (hRight : c'.GetValue rt disk = .ok (fRet, value, c'')) : c.nCost ≤ c''.nCost := by
  rw [rightCharges, hRead] at hCovered
  simp only [hCompares, if_true] at hCovered
  have hKept : c'.nCost ≤ c''.nCost := (operand_metered hCovered).2 _ _ _ hRight
  rwa [extract_nCost hRead] at hKept

theorem evaluateV1_keeps (hLeftCovered : AllCovered (valueCharges rt disk c))
    (hRightCovered : ∀ vLeft c', c.GetValue rt disk = .ok (true, vLeft, c') →
      AllCovered (rightCharges rt disk c'))
    (h : c.evaluateV1 rt disk = .ok (fEvaluate, c')) : c.nCost ≤ c'.nCost := by
  simp only [evaluateV1, bind_eq_ok, Prod.exists, ite_eq_ok, pure_eq_ok, Prod.mk.injEq,
    reject_eq_ok, Bool.not_eq_false] at h
  obtain ⟨fLeft, vLeft, c₁, hLeft, -, rfl, OPERATION, c₂, hRead, h⟩ := h
  have hFirst : c.nCost ≤ c₁.nCost := (operand_metered hLeftCovered).2 _ _ _ hLeft
  rcases h with ⟨hCompares, fRight, vRight, c₃, hRight, -, -, vm, -, vm', -, -, rfl⟩ | ⟨-, -, rfl⟩
  · have hSecond := right_keeps (hRightCovered vLeft c₁ hLeft) hRead hCompares hRight
    exact UInt64.le_trans hFirst hSecond
  · rw [extract_nCost hRead]
    exact hFirst

theorem evaluateV2_keeps (hLeftCovered : AllCovered (valueCharges rt disk c))
    (hRightCovered : ∀ fLeft vLeft c', c.GetValue rt disk = .ok (fLeft, vLeft, c') →
      c'.atEnd = false → AllCovered (rightCharges rt disk c'))
    (h : c.evaluateV2 rt disk = .ok (fEvaluate, c')) : c.nCost ≤ c'.nCost := by
  simp only [evaluateV2, bind_eq_ok, Prod.exists, ite_eq_ok, pure_eq_ok, Prod.mk.injEq] at h
  obtain ⟨fLeft, vLeft, c₁, hLeft, h⟩ := h
  have hFirst : c.nCost ≤ c₁.nCost := (operand_metered hLeftCovered).2 _ _ _ hLeft
  rcases h with ⟨-, -, rfl⟩ | ⟨hEnd, OPERATION, c₂, hRead, h⟩
  · exact hFirst
  rcases h with ⟨hCompares, fRight, vRight, c₃, hRight, c₄, hFreeRight, c₅, hFreeLeft, -, rfl⟩ |
    ⟨-, -, rfl⟩
  · have hMore : c₁.atEnd = false := Bool.not_eq_true _ ▸ hEnd
    have hSecond := right_keeps (hRightCovered fLeft vLeft c₁ hLeft hMore) hRead hCompares hRight
    rw [free_nCost hFreeLeft, free_nCost hFreeRight]
    exact UInt64.le_trans hFirst hSecond
  · rw [extract_nCost hRead]
    exact hFirst

/-- The counter does not decrease over a comparison. -/
theorem evaluate_keeps (hCovered : AllCovered (evaluateCharges rt disk c))
    (h : c.Evaluate rt disk = .ok (fEvaluate, c')) : c.nCost ≤ c'.nCost := by
  simp only [Evaluate, ite_eq_ok] at h
  rcases h with ⟨hOne, h⟩ | ⟨hNotOne, ⟨hTwo, h⟩ | ⟨hNotTwo, h⟩⟩
  · rw [evaluateCharges, if_pos hOne, allCovered_append] at hCovered
    apply evaluateV1_keeps hCovered.1 _ h
    intro vLeft c₁ hLeft
    have hRight := hCovered.2
    rw [hLeft] at hRight
    exact hRight
  · rw [evaluateCharges, if_neg hNotOne, if_pos hTwo, allCovered_append] at hCovered
    apply evaluateV2_keeps hCovered.1 _ h
    intro fLeft vLeft c₁ hLeft hMore
    have hRight := hCovered.2
    rw [hLeft] at hRight
    simp only [hMore, Bool.false_eq_true, if_false] at hRight
    exact hRight
  · cases h
    exact UInt64.le_refl _

/-! ## Charges of turns -/

/-- An operation on the stack of groups costs nothing, or its 128 units. -/
theorem group_metered (h : Turn rt disk c OPERATION c') (hGrouping : grouping OPERATION = true) :
    c.nCost ≤ c'.nCost := by
  obtain ⟨hNext, hStep⟩ := h
  rcases turn_cases ⟨hNext, hStep⟩ with ⟨rfl, -⟩ | ⟨-, vEvaluate, -, hOk⟩ |
    ⟨-, nOther, strMessage, vEvaluate, -, hOk⟩ | ⟨hNot, -⟩
  · rw [step_group hNext] at hStep
    have hSum := nCost_of_spend hStep
    exact le_of_toNat_add hSum
  · rw [hOk]
    exact UInt64.le_refl _
  · rw [hOk]
    exact UInt64.le_refl _
  · exact absurd (hNot.symm.trans hGrouping) Bool.false_ne_true

theorem not_doubles_of_grouping (h : grouping OPERATION = true) :
    doubles OPERATION = false ∧ loads OPERATION = false := by
  have hAll : [OP.GROUP, OP.UNGROUP, OP.AND, OP.OR].all
      (fun nOP => !doubles nOP && !loads nOP) = true := by decide
  have hHere := List.all_eq_true.mp hAll OPERATION (of_decide_eq_true h)
  simpa using hHere

/-- Where an operation of a turn comes from. -/
theorem mem_stepCharges (hMem : charge ∈ stepCharges rt disk c) :
    (charge.Metered ∧ charge.Covered) ∨ FromOperand rt disk (stepCharges rt disk c) charge := by
  unfold stepCharges at hMem ⊢
  cases hRead : c.extract UInt8 with
  | error e =>
      rw [hRead] at hMem
      exact absurd hMem List.not_mem_nil
  | ok read =>
      obtain ⟨OPERATION, c₁⟩ := read
      rw [hRead] at hMem
      simp only at hMem ⊢
      by_cases hGrouping : grouping OPERATION = true
      · rw [if_pos hGrouping] at hMem ⊢
        cases hStep : c.step rt disk with
        | error e =>
            rw [hStep] at hMem
            exact absurd hMem List.not_mem_nil
        | ok c' =>
            rw [hStep] at hMem
            obtain rfl := List.mem_singleton.mp hMem
            obtain ⟨hDoubles, hLoads⟩ := not_doubles_of_grouping hGrouping
            have hKept := group_metered ⟨⟨c₁, hRead⟩, hStep⟩ hGrouping
            rw [← extract_nCost hRead] at hKept
            exact .inl ⟨⟨hKept, fun hTrue => absurd (hLoads.symm.trans hTrue) Bool.false_ne_true⟩,
              covered_of_not_doubles hDoubles⟩
      · rw [if_neg hGrouping] at hMem ⊢
        split at hMem
        · exact absurd hMem List.not_mem_nil
        · rename_i hStack
          rw [if_neg hStack]
          exact .inr (mem_evaluateCharges hMem)

theorem turn_of_step (h : c.step rt disk = .ok c') : ∃ OPERATION, Turn rt disk c OPERATION c' := by
  have hRead := h
  rw [step, bind_eq_ok] at hRead
  obtain ⟨⟨OPERATION, c₁⟩, hRead, -⟩ := hRead
  exact ⟨OPERATION, ⟨c₁, hRead⟩, h⟩

/-- The counter does not decrease over a turn. -/
theorem step_keeps (hCovered : AllCovered (stepCharges rt disk c))
    (hStep : c.step rt disk = .ok c') : c.nCost ≤ c'.nCost := by
  obtain ⟨OPERATION, hTurn⟩ := turn_of_step hStep
  by_cases hGrouping : grouping OPERATION = true
  · exact group_metered hTurn hGrouping
  have hNot : grouping OPERATION = false := Bool.not_eq_true _ ▸ hGrouping
  have hEvaluated : AllCovered (evaluateCharges rt disk c) := by
    rw [stepCharges, (extract_of_next hTurn.1).2] at hCovered
    simp only [hNot, Bool.false_eq_true, if_false, stack_of_turn hTurn hNot] at hCovered
    exact hCovered
  have hNext := hTurn.1
  rw [step_evaluate hNext hNot (stack_of_turn hTurn hNot)] at hStep
  simp only [bind_eq_ok, Prod.exists, pure_eq_ok] at hStep
  obtain ⟨fEvaluate, c₁, hEvaluate, vEvaluate, -, rfl⟩ := hStep
  have hKept := evaluate_keeps hEvaluated hEvaluate
  exact hKept

theorem loopCharges_succ (hEnd : c.atEnd = false) (hStep : c.step rt disk = .ok c') :
    loopCharges rt disk (n + 1) c = stepCharges rt disk c ++ loopCharges rt disk n c' := by
  rw [loopCharges, hEnd, hStep]
  rfl

theorem mem_loopCharges (hMem : charge ∈ loopCharges rt disk n c) :
    (charge.Metered ∧ charge.Covered) ∨
      FromOperand rt disk (loopCharges rt disk n c) charge := by
  induction n generalizing c with
  | zero => exact absurd hMem List.not_mem_nil
  | succ n ih =>
      unfold loopCharges at hMem ⊢
      split at hMem
      · exact absurd hMem List.not_mem_nil
      · rename_i hEnd
        rw [if_neg hEnd]
        rcases List.mem_append.mp hMem with hMem | hMem
        · rcases mem_stepCharges hMem with hDone | hFrom
          · exact .inl hDone
          · exact .inr (hFrom.mono fun _ hOther => List.mem_append_left _ hOther)
        · cases hStep : c.step rt disk with
          | error e =>
              rw [hStep] at hMem
              exact absurd hMem List.not_mem_nil
          | ok c' =>
              rw [hStep] at hMem
              rcases ih hMem with hDone | hFrom
              · exact .inl hDone
              · exact .inr (hFrom.mono fun _ hOther => List.mem_append_right _ hOther)

theorem loop_keeps (hCovered : AllCovered (loopCharges rt disk n c))
    (h : loop rt disk n c = .ok c') : c.nCost ≤ c'.nCost := by
  induction n generalizing c with
  | zero =>
      rw [loop, ite_eq_ok] at h
      rcases h with ⟨-, h⟩ | ⟨-, h⟩
      · cases h
        exact UInt64.le_refl _
      · cases h
  | succ n ih =>
      rw [loop, ite_eq_ok] at h
      rcases h with ⟨-, h⟩ | ⟨hEnd, h⟩
      · cases h
        exact UInt64.le_refl _
      · obtain ⟨c₁, hStep, hLoop⟩ := bind_eq_ok.mp h
        rw [loopCharges_succ (Bool.not_eq_true _ ▸ hEnd) hStep, allCovered_append] at hCovered
        exact UInt64.le_trans (step_keeps hCovered.1 hStep) (ih hCovered.2 hLoop)

/-- An execution is metered, if and only if every operation that adds the counter to itself is
covered. -/
theorem execution_metered_iff (rt : Runtime) (disk : Disk) (c : Condition) :
    ExecutionMetered rt disk c ↔ ∀ charge ∈ executeCharges rt disk c, charge.Covered := by
  constructor
  · intro h charge hMem
    have hMetered := h.charges charge hMem
    rcases mem_loopCharges hMem with hDone | ⟨c₁, hOperand, -⟩
    · exact hDone.2
    · exact operand_covered hOperand hMetered
  · intro hCovered
    constructor
    · intro charge hMem
      rcases mem_loopCharges hMem with hDone | ⟨c₁, hOperand, hAll⟩
      · exact hDone.1
      · have hOperands : AllCovered (valueCharges rt disk c₁) :=
          fun other hOther => hCovered other (hAll other hOther)
        exact (operand_metered hOperands).1 charge hOperand
    · intro f nCost h
      simp only [Condition.Execute, bind_eq_ok, pure_eq_ok, Prod.mk.injEq] at h
      obtain ⟨c₁, hLoop, f', -, -, rfl⟩ := h
      have hKept := loop_keeps hCovered hLoop
      exact hKept

/-- The operations of the caller are compared with two bytes. -/
def freeLoad : Condition where
  contract :=
    { ssCondition := { vchData := [OP.CALLER.OPERATIONS, OP.EQUALS, OP.TYPES.UINT8_T, 7] } }
  caller := { ssOperation := { vchData := [OP.WRITE, 1, 2, 3, 4, 5] }, nVersion := 2 }

/-- Six bytes are loaded for nothing. -/
theorem free_load : ¬ ExecutionMetered exampleRuntime {} freeLoad := by
  intro h
  have hRun : ((executeCharges exampleRuntime {} freeLoad).map fun charge =>
      (charge.OPERATION, charge.before.nCost, charge.fRet, charge.value.nBytes,
        charge.after.nCost)).head? = some (OP.CALLER.OPERATIONS, 0, true, 6, 0) := by
    decide +kernel
  cases hCharges : executeCharges exampleRuntime {} freeLoad with
  | nil =>
      rw [hCharges] at hRun
      cases hRun
  | cons charge charges =>
      rw [hCharges] at hRun
      simp only [List.map_cons, List.head?_cons, Option.some.injEq, Prod.mk.injEq] at hRun
      obtain ⟨hOp, hBefore, hRet, hBytes, hAfter⟩ := hRun
      have hMetered := h.charges charge (by rw [hCharges]; exact List.mem_cons_self)
      have hPaid := hMetered.paid (by rw [hOp]; decide) hRet
      rw [hBefore, hBytes, hAfter] at hPaid
      exact absurd hPaid (by decide)

end Nexus.Safety
