import Nexus.Operation.Forward
import Nexus.Register.Memory
import Nexus.Safety.Tokens

/-!
# Operands and the values already held

`GetValue` allocates its value above what the memory holds, so what was held
stays, and what it gives back is zero again, as long as every computation works
on a value that has a register.  A computation on a value of no registers
writes the first register of the memory, or the first free one.

## Main results

* `getValue_frame`: the frame law of operands that compute on registers only.
* `inc_of_nothing`: an operand that changes the one before it.
-/

namespace Nexus.Safety

open Nexus.Lib.Bytes
open Nexus.Lib.Checked
open Nexus.Util
open Nexus.Register
open Nexus.Register.BaseVM
open Nexus.Operation
open Nexus.Operation.Condition
open Nexus.LLD

variable {rt : Runtime} {disk : Disk} {c c' : Condition} {vRet vArg value : Value} {vm vm' : BaseVM}
  {fRet : Bool} {OPERATION : UInt8} {n : Nat} {nCost : UInt64} {strOP : String}
  {vchUsed vchBlock : List UInt8} {operand : Result Operand} {d : Datum}

/-! ## What is held stays -/

/-- The memory holds what it held, and more above. -/
def Keeps (vchUsed : List UInt8) (vm : BaseVM) : Prop := ∃ vchBlock, Stores vm (vchUsed ++ vchBlock)

/-- The value is above what was held, or it is null. -/
def Above (vchUsed : List UInt8) (vm : BaseVM) (value : Value) : Prop :=
  value.nEnd = 0 ∨
    vchUsed.length ≤ 8 * value.nBegin ∧ value.nBegin ≤ value.nEnd ∧ value.nEnd ≤ vm.nPointer

/-- An operation that is done keeps what was held, with its value above it. -/
def Framed (vchUsed : List UInt8) (operand : Result Operand) : Prop :=
  ∀ fRet value c', operand = .ok (fRet, value, c') →
    Keeps vchUsed c'.vm ∧ (fRet = true → Above vchUsed c'.vm value)

/-- What is held, split where a value above begins. -/
theorem split_above (h : Stores vm (vchUsed ++ vchBlock)) (hBegin : vchUsed.length ≤ 8 * value.nBegin)
    (hTop : value.nBegin ≤ vm.nPointer) :
    ∃ vchLow vchHigh, vchBlock = vchLow ++ vchHigh ∧
      (vchUsed ++ vchLow).length = 8 * value.nBegin := by
  have hPointer := h.pointer
  rw [List.length_append] at hPointer
  refine ⟨vchBlock.take (8 * value.nBegin - vchUsed.length),
    vchBlock.drop (8 * value.nBegin - vchUsed.length), (List.take_append_drop ..).symm, ?_⟩
  rw [List.length_append, List.length_take]
  omega

theorem keeps_allocate (h : Keeps vchUsed vm) (hAllocate : d.allocate vm = .ok (value, vm')) :
    Keeps vchUsed vm' ∧ Above vchUsed vm' value := by
  obtain ⟨vchBlock, hStores⟩ := h
  obtain ⟨hRoom, rfl, hStores'⟩ := (allocate_eq_ok hStores).mp hAllocate
  have hPointer := hStores.pointer
  have hPointer' := hStores'.pointer
  rw [List.length_append] at hPointer
  rw [List.length_append, List.length_append, Datum.block_length] at hPointer'
  refine ⟨⟨vchBlock ++ d.block, by rwa [← List.append_assoc]⟩, .inr ⟨?_, ?_, ?_⟩⟩
  · show vchUsed.length ≤ 8 * vm.nPointer
    omega
  · exact Nat.le_add_right ..
  · show vm.nPointer + d.size ≤ vm'.nPointer
    omega

/-- Freeing a value above what was held. -/
theorem keeps_release (h : Keeps vchUsed vm) (hAbove : Above vchUsed vm value)
    (hTop : vm.checkTop value = .ok ()) :
    Keeps vchUsed (vm.release value) ∧ (vm.release value).nPointer = value.nBegin := by
  obtain ⟨vchBlock, hStores⟩ := h
  obtain ⟨-, hEnd, hLast, -⟩ := checkTop_eq_ok.mp hTop
  obtain hNull | ⟨hBegin, hOrder, -⟩ := hAbove
  · exact absurd hNull hEnd
  obtain ⟨vchLow, vchHigh, rfl, hLength⟩ := split_above hStores hBegin (by omega)
  rw [← List.append_assoc] at hStores
  refine ⟨⟨vchLow, hStores.release hLength hLast⟩, ?_⟩
  show vm.nPointer - (value.nEnd - value.nBegin) = value.nBegin
  omega

/-- An assignment to a value that has a register. -/
theorem keeps_setAt {k : UInt64} (h : Keeps vchUsed vm) (hAbove : Above vchUsed vm value)
    (hSize : value.size ≠ 0) : Keeps vchUsed (vm.setAt value k) := by
  obtain ⟨vchBlock, hStores⟩ := h
  rw [Value.size] at hSize
  obtain hNull | ⟨hBegin, hOrder, hTop⟩ := hAbove
  · omega
  have hPointer := hStores.pointer
  obtain ⟨vchLow, vchHigh, rfl, hLength⟩ := split_above hStores hBegin (by omega)
  rw [List.length_append] at hLength
  rw [List.length_append, List.length_append] at hPointer
  have hWord : (vchHigh.take 8).length = 8 := by
    rw [List.length_take]
    omega
  rw [← List.append_assoc, ← List.take_append_drop 8 vchHigh, ← List.append_assoc] at hStores
  refine ⟨vchLow ++ (FixedWidth.encode k ++ vchHigh.drop 8), ?_⟩
  rw [← List.append_assoc, ← List.append_assoc]
  exact hStores.setAt (by rwa [List.length_append]) hWord

/-! ## Computations -/

theorem power_keeps {vExp : Value} {nBase e : UInt64} (hSize : vRet.size ≠ 0)
    (h : Keeps vchUsed vm) (hAbove : Above vchUsed vm vRet)
    (hPower : power vRet vExp nBase n e vm = .ok vm') :
    Keeps vchUsed vm' ∧ vm'.nPointer = vm.nPointer := by
  induction n generalizing e vm with
  | zero => cases hPower
  | succ n ih =>
      simp only [power, ite_eq_ok, bind_eq_ok, Except.ok.injEq] at hPower
      rcases hPower with ⟨-, -, -, hPower⟩ | ⟨-, rfl⟩
      · have hNext := keeps_setAt (k := vm.at_ vRet * nBase) h hAbove hSize
        have hRest := ih hNext hAbove hPower
        exact hRest
      · exact ⟨h, rfl⟩

theorem compute_keeps (hSize : vRet.size ≠ 0) (h : Keeps vchUsed vm)
    (hAbove : Above vchUsed vm vRet) (hCompute : compute OPERATION vRet vArg vm = .ok vm') :
    Keeps vchUsed vm' ∧ vm'.nPointer = vm.nPointer := by
  simp only [compute, ite_eq_ok, bind_eq_ok, pure_eq_ok] at hCompute
  rcases hCompute with ⟨-, -, -, rfl⟩ | ⟨-, ⟨-, -, -, rfl⟩ | ⟨-, ⟨-, -, -, rfl⟩ | ⟨-, ⟨-, -, -, rfl⟩ |
    ⟨-, ⟨-, hPower⟩ | ⟨-, -, -, rfl⟩⟩⟩⟩⟩
  · exact ⟨keeps_setAt h hAbove hSize, rfl⟩
  · exact ⟨keeps_setAt h hAbove hSize, rfl⟩
  · exact ⟨keeps_setAt h hAbove hSize, rfl⟩
  · exact ⟨keeps_setAt h hAbove hSize, rfl⟩
  · by_cases hZero : vm.at_ vArg = 0
    · rw [if_pos hZero] at hPower
      have hOne := keeps_setAt (k := 1) h hAbove hSize
      have hRest := power_keeps hSize hOne hAbove hPower
      exact hRest
    · rw [if_neg hZero] at hPower
      exact power_keeps hSize h hAbove hPower
  · exact ⟨keeps_setAt h hAbove hSize, rfl⟩

theorem spend_vm (h : c.spend strOP nCost = .ok c') : c'.vm = c.vm := by
  simp only [spend, bind_eq_ok, pure_eq_ok] at h
  obtain ⟨-, -, rfl⟩ := h
  rfl

theorem double_vm (h : c.double strOP nCost = .ok c') : c'.vm = c.vm := by
  simp only [double, bind_eq_ok, pure_eq_ok] at h
  obtain ⟨-, -, rfl⟩ := h
  rfl

theorem extract_vm {α : Type} [FixedWidth α] {a : α} (h : c.extract α = .ok (a, c')) :
    c'.vm = c.vm := by
  obtain ⟨-, -, rfl⟩ := extract_eq_ok.mp h
  rfl

theorem extractBytes_vm {vch : List UInt8} (h : c.extractBytes = .ok (vch, c')) :
    c'.vm = c.vm := by
  obtain ⟨n, -, rfl⟩ := extractBytes_skip h
  rfl

/-- An increment that is done is one of a value that has a register. -/
theorem increment_framed {k nLimit : UInt64}
    (hSize : ∀ value c', increment OPERATION k nLimit vRet c = .ok (true, value, c') →
      vRet.size ≠ 0)
    (h : Keeps vchUsed c.vm) (hAbove : Above vchUsed c.vm vRet) :
    Framed vchUsed (increment OPERATION k nLimit vRet c) := by
  intro fRet value c' hOk
  have hDone := hSize value c'
  rw [hOk] at hDone
  simp only [increment, bind_eq_ok, pure_eq_ok, Prod.mk.injEq] at hOk
  obtain ⟨-, -, -, -, c₁, hSpend, rfl, rfl, rfl⟩ := hOk
  rw [spend_vm hSpend]
  exact ⟨keeps_setAt h hAbove (hDone rfl), fun _ => hAbove⟩

theorem arithmetic_framed
    (hSize : ∀ value c', arithmetic OPERATION vRet vArg c = .ok (true, value, c') →
      vRet.size ≠ 0)
    (h : Keeps vchUsed c.vm) (hAbove : Above vchUsed c.vm vRet) (hArg : vArg.nEnd = 0 ∨ vRet.nEnd ≤ vArg.nBegin)
    (hAboveArg : Above vchUsed c.vm vArg) : Framed vchUsed (arithmetic OPERATION vRet vArg c) := by
  intro fRet value c' hOk
  have hDone := hSize value c'
  rw [hOk] at hDone
  simp only [arithmetic, bind_eq_ok, deallocate_eq_ok, pure_eq_ok, Prod.mk.injEq] at hOk
  obtain ⟨-, -, vm, hCompute, vm', ⟨hTop, rfl⟩, c₁, hSpend, rfl, rfl, rfl⟩ := hOk
  obtain ⟨hComputed, hPointer⟩ := compute_keeps (hDone rfl) h hAbove hCompute
  have hAboveArg' : Above vchUsed vm vArg := by
    rw [Above, hPointer]
    exact hAboveArg
  obtain ⟨hFreed, hPointer'⟩ := keeps_release hComputed hAboveArg' hTop
  rw [spend_vm hSpend]
  refine ⟨hFreed, fun _ => ?_⟩
  obtain ⟨-, hEnd, -, -⟩ := checkTop_eq_ok.mp hTop
  rcases hAbove with hNull | ⟨hBegin, hOrder, -⟩
  · exact .inl hNull
  · refine .inr ⟨hBegin, hOrder, ?_⟩
    rw [hPointer']
    exact hArg.resolve_left hEnd

theorem load_framed {α : Type} [FixedWidth α] {a : α} (h : Keeps vchUsed c.vm) :
    Framed vchUsed (load α strOP a nCost c) := by
  intro fRet value c' hOk
  simp only [load, push, bind_eq_ok, map_eq_ok, Prod.exists, pure_eq_ok, Prod.mk.injEq,
    allocate_eq_datum] at hOk
  obtain ⟨v, c₁, ⟨v', vm, hAllocate, rfl, rfl⟩, c₂, hSpend, -, rfl, rfl⟩ := hOk
  obtain ⟨hKeeps, hAbove⟩ := keeps_allocate h hAllocate
  rw [spend_vm hSpend]
  exact ⟨hKeeps, fun _ => hAbove⟩

theorem loadBytes_framed {vch : List UInt8} (h : Keeps vchUsed c.vm) :
    Framed vchUsed (loadBytes strOP vch nCost c) := by
  intro fRet value c' hOk
  simp only [loadBytes, pushBytes, bind_eq_ok, map_eq_ok, Prod.exists, pure_eq_ok,
    Prod.mk.injEq] at hOk
  obtain ⟨v, c₁, ⟨v', vm, hAllocate, rfl, rfl⟩, c₂, hSpend, -, rfl, rfl⟩ := hOk
  obtain ⟨hKeeps, hAbove⟩ := keeps_allocate (d := .bytes vch) h hAllocate
  rw [spend_vm hSpend]
  exact ⟨hKeeps, fun _ => hAbove⟩

/-! ## The other operations -/

/-- A lookup that finds nothing gives up. -/
theorem none_framed (h : Keeps vchUsed c.vm) : Framed vchUsed (.ok (false, vRet, c)) := by
  intro fRet value c' hOk
  cases hOk
  refine ⟨h, fun hTrue => ?_⟩
  cases hTrue

theorem subdata_framed (h : Keeps vchUsed c.vm) (hAbove : Above vchUsed c.vm vRet) :
    Framed vchUsed (subdata rt vRet c) := by
  intro fRet value c' hOk
  simp only [subdata, deallocateBytes, bind_eq_ok, Prod.exists, pure_eq_ok, Prod.mk.injEq] at hOk
  obtain ⟨nBegin, c₁, hBegin, nSize, c₂, hSize, vData, vm, ⟨u, hTop, rfl, rfl⟩, hLoad⟩ := hOk
  have hSame : c₂.vm = c.vm := (extract_vm hSize).trans (extract_vm hBegin)
  rw [hSame] at hTop hLoad
  exact loadBytes_framed (c := { c₂ with vm := _ }) (keeps_release h hAbove hTop).1 _ _ _ hLoad

theorem literal_framed {α : Type} [FixedWidth α] (h : Keeps vchUsed c.vm) :
    Framed vchUsed (literal α strOP c) := by
  intro fRet value c' hOk
  simp only [literal, bind_eq_ok, Prod.exists] at hOk
  obtain ⟨a, c₁, hRead, hLoad⟩ := hOk
  exact load_framed (by rwa [extract_vm hRead]) _ _ _ hLoad

theorem literalBytes_framed {strEmpty : String} (h : Keeps vchUsed c.vm) :
    Framed vchUsed (literalBytes strOP strEmpty c) := by
  intro fRet value c' hOk
  simp only [literalBytes, bind_eq_ok, Prod.exists] at hOk
  obtain ⟨vch, c₁, hRead, -, -, hLoad⟩ := hOk
  exact loadBytes_framed (by rwa [extractBytes_vm hRead]) _ _ _ hLoad

/-- Reading a register frees its address. -/
theorem registerState_keeps {stateOpt : Option State} (h : Keeps vchUsed c.vm)
    (hAbove : Above vchUsed c.vm vRet) (hState : c.registerState disk vRet = .ok (stateOpt, c')) :
    Keeps vchUsed c'.vm := by
  simp only [registerState, deallocateData, bind_eq_ok, Prod.exists, pure_eq_ok,
    Prod.mk.injEq] at hState
  obtain ⟨hashRegister, vm, ⟨u, hTop, -, -, -, rfl⟩, -, rfl⟩ := hState
  exact (keeps_release h hAbove hTop).1

theorem push_framed {α : Type} [FixedWidth α] {a : α} (h : Keeps vchUsed c.vm)
    (hPush : c.push α a = .ok (value, c')) : Keeps vchUsed c'.vm ∧ Above vchUsed c'.vm value := by
  simp only [push, map_eq_ok, Prod.exists, Prod.mk.injEq, allocate_eq_datum] at hPush
  obtain ⟨v, vm, hAllocate, rfl, rfl⟩ := hPush
  exact keeps_allocate h hAllocate

theorem pushBytes_framed {vch : List UInt8} (h : Keeps vchUsed c.vm)
    (hPush : c.pushBytes vch = .ok (value, c')) :
    Keeps vchUsed c'.vm ∧ Above vchUsed c'.vm value := by
  simp only [pushBytes, map_eq_ok, Prod.exists, Prod.mk.injEq] at hPush
  obtain ⟨v, vm, hAllocate, rfl, rfl⟩ := hPush
  exact keeps_allocate (d := .bytes vch) h hAllocate

theorem registerField_framed {α : Type} [FixedWidth α] {f : State → α} (h : Keeps vchUsed c.vm)
    (hAbove : Above vchUsed c.vm vRet) :
    Framed vchUsed (registerField α disk strOP f nCost vRet c) := by
  intro fRet value c' hOk
  simp only [registerField, bind_eq_ok, Prod.exists] at hOk
  obtain ⟨stateOpt, c₁, hState, hOk⟩ := hOk
  have hFreed := registerState_keeps h hAbove hState
  cases stateOpt with
  | none => exact none_framed hFreed _ _ _ hOk
  | some state =>
      simp only [bind_eq_ok, Prod.exists, pure_eq_ok, Prod.mk.injEq] at hOk
      obtain ⟨c₂, hSpend, v, c₃, hPush, -, rfl, rfl⟩ := hOk
      obtain ⟨hKeeps, hAbove'⟩ := push_framed (by rwa [spend_vm hSpend]) hPush
      exact ⟨hKeeps, fun _ => hAbove'⟩

theorem registerData_framed (h : Keeps vchUsed c.vm) (hAbove : Above vchUsed c.vm vRet) :
    Framed vchUsed (registerData disk vRet c) := by
  intro fRet value c' hOk
  simp only [registerData, bind_eq_ok, Prod.exists] at hOk
  obtain ⟨stateOpt, c₁, hState, hOk⟩ := hOk
  have hFreed := registerState_keeps h hAbove hState
  cases stateOpt with
  | none => exact none_framed hFreed _ _ _ hOk
  | some state =>
      simp only [bind_eq_ok, Prod.exists, pure_eq_ok, Prod.mk.injEq] at hOk
      obtain ⟨c₂, hSpend, v, c₃, hPush, -, rfl, rfl⟩ := hOk
      obtain ⟨hKeeps, hAbove'⟩ := pushBytes_framed (by rwa [spend_vm hSpend]) hPush
      exact ⟨hKeeps, fun _ => hAbove'⟩

theorem callerField_framed {α : Type} [FixedWidth α] {f : State → α} (h : Keeps vchUsed c.vm) :
    Framed vchUsed (callerField α strOP f nCost c) := by
  intro fRet value c' hOk
  simp only [callerField, bind_eq_ok, Prod.exists, pure_eq_ok, Prod.mk.injEq] at hOk
  obtain ⟨state, -, c₁, hSpend, v, c₂, hPush, -, rfl, rfl⟩ := hOk
  obtain ⟨hKeeps, hAbove'⟩ := push_framed (by rwa [spend_vm hSpend]) hPush
  exact ⟨hKeeps, fun _ => hAbove'⟩

theorem callerData_framed (h : Keeps vchUsed c.vm) : Framed vchUsed (callerData c) := by
  intro fRet value c' hOk
  simp only [callerData, bind_eq_ok, Prod.exists, pure_eq_ok, Prod.mk.injEq] at hOk
  obtain ⟨state, -, c₁, hSpend, v, c₂, hPush, -, rfl, rfl⟩ := hOk
  obtain ⟨hKeeps, hAbove'⟩ := pushBytes_framed (by rwa [double_vm hSpend]) hPush
  exact ⟨hKeeps, fun _ => hAbove'⟩

theorem field_framed {α : Type} [FieldType α] {object : Object} {strName : List UInt8}
    (h : Keeps vchUsed c.vm) : Framed vchUsed (field α strOP object strName vRet c) := by
  intro fRet value c' hOk
  simp only [field, bind_eq_ok] at hOk
  obtain ⟨nValue, -, hOk⟩ := hOk
  cases nValue with
  | none => exact none_framed h _ _ _ hOk
  | some nValue => exact load_framed h _ _ _ hOk

theorem fieldBytes_framed {object : Object} {nType : UInt8} {strName : List UInt8}
    (h : Keeps vchUsed c.vm) :
    Framed vchUsed (Condition.fieldBytes strOP nType object strName vRet c) := by
  intro fRet value c' hOk
  simp only [Condition.fieldBytes, bind_eq_ok] at hOk
  obtain ⟨vData, -, hOk⟩ := hOk
  cases vData with
  | none => exact none_framed h _ _ _ hOk
  | some vData => exact loadBytes_framed h _ _ _ hOk

theorem objectValue_framed {state : State} (h : Keeps vchUsed c.vm) :
    Framed vchUsed (objectValue state vRet c) := by
  intro fRet value c' hOk
  simp only [objectValue, bind_eq_ok, Prod.exists, ite_eq_ok] at hOk
  obtain ⟨strValue, c₁, hRead, hOk⟩ := hOk
  have hKeeps : Keeps vchUsed c₁.vm := by rwa [extractBytes_vm hRead]
  rcases hOk with ⟨-, hOk⟩ | ⟨-, object, -, hOk⟩
  · exact none_framed hKeeps _ _ _ hOk
  · cases object with
    | none => exact none_framed hKeeps _ _ _ hOk
    | some object =>
        simp only [bind_eq_ok] at hOk
        obtain ⟨nType, -, hOk⟩ := hOk
        cases nType with
        | none => exact none_framed hKeeps _ _ _ hOk
        | some nType =>
            exact fieldValue_rule (P := Framed vchUsed) (fun _ _ _ => field_framed hKeeps)
              (fun _ _ => fieldBytes_framed hKeeps) (none_framed hKeeps) _ _ _ hOk

theorem registerValue_framed (h : Keeps vchUsed c.vm) (hAbove : Above vchUsed c.vm vRet) :
    Framed vchUsed (registerValue disk vRet c) := by
  intro fRet value c' hOk
  simp only [registerValue, bind_eq_ok, Prod.exists] at hOk
  obtain ⟨stateOpt, c₁, hState, hOk⟩ := hOk
  have hFreed := registerState_keeps h hAbove hState
  cases stateOpt with
  | none => exact none_framed hFreed _ _ _ hOk
  | some state =>
      simp only [bind_eq_ok] at hOk
      obtain ⟨c₂, hSpend, hOk⟩ := hOk
      exact objectValue_framed (by rwa [spend_vm hSpend]) _ _ _ hOk

theorem callerValue_framed (h : Keeps vchUsed c.vm) : Framed vchUsed (callerValue vRet c) := by
  intro fRet value c' hOk
  simp only [callerValue, bind_eq_ok] at hOk
  obtain ⟨state, -, hOk⟩ := hOk
  exact objectValue_framed h _ _ _ hOk

theorem operations_framed {vBytes : List UInt8} (h : Keeps vchUsed c.vm) :
    Framed vchUsed (operations strOP vBytes vRet c) := by
  unfold operations
  refine choice_rule (none_framed h) ?_
  intro fRet value c' hOk
  simp only [bind_eq_ok, Prod.exists, pure_eq_ok, Prod.mk.injEq] at hOk
  obtain ⟨v, c₁, hPush, c₂, hSpend, -, rfl, rfl⟩ := hOk
  rw [double_vm hSpend]
  obtain ⟨hKeeps, hAbove⟩ := pushBytes_framed h hPush
  exact ⟨hKeeps, fun _ => hAbove⟩

theorem contractOperations_framed (h : Keeps vchUsed c.vm) :
    Framed vchUsed (contractOperations vRet c) := by
  intro fRet value c' hOk
  simp only [contractOperations, bind_eq_ok] at hOk
  obtain ⟨-, -, hOk⟩ := hOk
  exact operations_framed h _ _ _ hOk

theorem crypto_framed {α : Type} [FixedWidth α] {hash : List UInt8 → α} (h : Keeps vchUsed c.vm)
    (hAbove : Above vchUsed c.vm vRet) : Framed vchUsed (crypto α strOP hash vRet c) := by
  intro fRet value c' hOk
  simp only [crypto, bind_eq_ok, deallocate_eq_ok] at hOk
  obtain ⟨-, -, vm, ⟨hTop, rfl⟩, hOk⟩ := hOk
  exact load_framed (c := { c with vm := _ }) (keeps_release h hAbove hTop).1 _ _ _ hOk

/-- The second operand is freed before the result, so it is above it. -/
theorem cat_framed (h : Keeps vchUsed c.vm) (hAbove : Above vchUsed c.vm vRet)
    (hArg : vArg.nEnd = 0 ∨ vRet.nEnd ≤ vArg.nBegin) (hAboveArg : Above vchUsed c.vm vArg) :
    Framed vchUsed (cat vRet vArg c) := by
  intro fRet value c' hOk
  simp only [cat, bind_eq_ok, deallocate_eq_ok] at hOk
  obtain ⟨vm, ⟨hTop, rfl⟩, vm', ⟨hTop', rfl⟩, hOk⟩ := hOk
  obtain ⟨hFreed, hPointer⟩ := keeps_release h hAboveArg hTop
  have hAbove' : Above vchUsed (c.vm.release vArg) vRet := by
    obtain ⟨-, hEnd, -, -⟩ := checkTop_eq_ok.mp hTop
    rcases hAbove with hNull | ⟨hBegin, hOrder, -⟩
    · exact .inl hNull
    · refine .inr ⟨hBegin, hOrder, ?_⟩
      rw [hPointer]
      exact hArg.resolve_left hEnd
  exact loadBytes_framed (c := { c with vm := _ }) (keeps_release hFreed hAbove' hTop').1 _ _ _ hOk

/-! ## The frame law -/

/-- The operation writes to the first register of the result. -/
def computes (OPERATION : UInt8) : Bool :=
  OPERATION ∈ [OP.ADD, OP.SUB, OP.DIV, OP.MUL, OP.EXP, OP.MOD, OP.INC, OP.DEC]

/-- In every turn of `GetValue`, of this call or of one for a second operand, an operation
that computes and is done has a result with a register. -/
def guarded (rt : Runtime) (disk : Disk) : Nat → Value → Condition → Bool
  | 0, _, _ => true
  | n + 1, vRet, c =>
      match c.extract UInt8 with
      | .error _ => true
      | .ok (OPERATION, c) =>
          (!binary OPERATION || guarded rt disk n {} c) &&
            match operation rt disk n OPERATION vRet c with
            | .ok (true, vNext, c) =>
                (!computes OPERATION || vRet.size != 0) && guarded rt disk n vNext c
            | _ => true

theorem guarded_of_read (h : guarded rt disk (n + 1) vRet c = true)
    (hRead : c.extract UInt8 = .ok (OPERATION, c')) :
    (binary OPERATION = true → guarded rt disk n {} c' = true) ∧
      ∀ value c'', operation rt disk n OPERATION vRet c' = .ok (true, value, c'') →
        (computes OPERATION = true → vRet.size ≠ 0) ∧ guarded rt disk n value c'' = true := by
  rw [guarded, hRead] at h
  simp only [Bool.and_eq_true, Bool.or_eq_true, Bool.not_eq_true'] at h
  obtain ⟨hOperand, hNext⟩ := h
  refine ⟨fun hTrue => hOperand.resolve_left (by simp [hTrue]), fun value c'' hOp => ?_⟩
  rw [hOp] at hNext
  simp only [Bool.and_eq_true, Bool.or_eq_true, Bool.not_eq_true', bne_iff_ne] at hNext
  obtain ⟨hComputes, hRest⟩ := hNext
  exact ⟨fun hTrue => hComputes.resolve_left (by simp [hTrue]), hRest⟩

theorem keeps_pointer (h : Keeps vchUsed vm) : vchUsed.length ≤ 8 * vm.nPointer := by
  obtain ⟨vchBlock, hStores⟩ := h
  rw [← hStores.pointer, List.length_append]
  exact Nat.le_add_right ..

/-- A value below what is held is below the memory pointer. -/
theorem above_mono (h : Above vchUsed vm value) (hLe : vm.nPointer ≤ vm'.nPointer) :
    Above vchUsed vm' value := by
  rcases h with hNull | ⟨hBegin, hOrder, hTop⟩
  · exact .inl hNull
  · exact .inr ⟨hBegin, hOrder, Nat.le_trans hTop hLe⟩

/-- A second operand is computed above all that is held, the result too. -/
theorem binary_framed (hBinary : binary OPERATION = true)
    (hSize : ∀ value c', operation rt disk n OPERATION vRet c = .ok (true, value, c') →
      computes OPERATION = true → vRet.size ≠ 0)
    (h : Keeps vchUsed c.vm) (hAbove : Above vchUsed c.vm vRet)
    (hArg : ∀ vchUsed, Keeps vchUsed c.vm → Framed vchUsed (getValue rt disk n {} c)) :
    Framed vchUsed (operation rt disk n OPERATION vRet c) := by
  intro fRet value c' hOk
  have hDone := hSize value c'
  rw [hOk] at hDone
  simp only [operation, hBinary, if_true, bind_eq_ok, Prod.exists, ite_eq_ok] at hOk
  obtain ⟨fArg, vArg, c₁, hRead, hOk⟩ := hOk
  obtain ⟨vchBlock, hStores⟩ := h
  have hAll : Keeps (vchUsed ++ vchBlock) c.vm := ⟨[], by rwa [List.append_nil]⟩
  obtain ⟨hKeeps, hAboveArg⟩ := hArg _ hAll _ _ _ hRead
  have hLess : Keeps vchUsed c₁.vm := by
    obtain ⟨vchMore, hStores'⟩ := hKeeps
    exact ⟨vchBlock ++ vchMore, by rwa [← List.append_assoc]⟩
  rcases hOk with ⟨-, hOk⟩ | ⟨hArgDone, hOk⟩
  · exact none_framed hLess _ _ _ hOk
  have hAboveArg : Above (vchUsed ++ vchBlock) c₁.vm vArg := hAboveArg (by simpa using hArgDone)
  have hPointer := hStores.pointer
  have hPointer' := keeps_pointer hKeeps
  have hAbove' : Above vchUsed c₁.vm vRet := above_mono hAbove (by omega)
  -- the second operand begins above the result
  have hOrder : vArg.nEnd = 0 ∨ vRet.nEnd ≤ vArg.nBegin := by
    rcases hAboveArg with hNull | ⟨hBegin, -, -⟩
    · exact .inl hNull
    · rcases hAbove with hNull | ⟨-, -, hTop⟩
      · exact .inr (by omega)
      · exact .inr (by omega)
  have hAboveLess : Above vchUsed c₁.vm vArg := by
    rcases hAboveArg with hNull | ⟨hBegin, hRest⟩
    · exact .inl hNull
    · rw [List.length_append] at hBegin
      exact .inr ⟨by omega, hRest⟩
  rcases hOk with ⟨-, hOk⟩ | ⟨hNotCat, hOk⟩
  · exact cat_framed hLess hAbove' hOrder hAboveLess _ _ _ hOk
  · have hAll : [OP.ADD, OP.SUB, OP.DIV, OP.MUL, OP.EXP, OP.MOD, OP.CAT].all
        (fun nOP => nOP == OP.CAT || computes nOP) = true := by decide
    have hEither := List.all_eq_true.mp hAll OPERATION (of_decide_eq_true hBinary)
    rw [Bool.or_eq_true, beq_iff_eq] at hEither
    have hComputes := hEither.resolve_left hNotCat
    have hTrue : fRet = true := by
      simp only [arithmetic, bind_eq_ok, pure_eq_ok, Prod.mk.injEq] at hOk
      obtain ⟨-, -, -, -, -, -, -, -, rfl, -⟩ := hOk
      rfl
    exact arithmetic_framed (fun _ _ _ => hDone (by rw [hTrue]) hComputes) hLess hAbove' hOrder
      hAboveLess _ _ _ hOk

theorem unary_framed
    (hSize : ∀ value c', operand = .ok (true, value, c') → computes OPERATION = true →
      vRet.size ≠ 0)
    (h : Keeps vchUsed c.vm) (hAbove : Above vchUsed c.vm vRet)
    (hUnary : unary rt disk OPERATION vRet c = some operand) : Framed vchUsed operand := by
  have hIncrement : OPERATION = OP.INC → computes OPERATION = true := by
    rintro rfl
    rfl
  have hDecrement : OPERATION = OP.DEC → computes OPERATION = true := by
    rintro rfl
    rfl
  exact unary_rule
    (P := fun operand => (∀ value c', operand = .ok (true, value, c') →
      computes OPERATION = true → vRet.size ≠ 0) → Framed vchUsed operand)
    (fun hInc hSize =>
      increment_framed (fun _ _ hDone => hSize _ _ hDone (hIncrement hInc)) h hAbove)
    (fun hDec hSize =>
      increment_framed (fun _ _ hDone => hSize _ _ hDone (hDecrement hDec)) h hAbove)
    (fun _ _ => subdata_framed h hAbove)
    (fun _ _ _ _ _ => literal_framed h) (fun _ _ _ _ => literalBytes_framed h)
    (fun _ _ _ _ _ _ _ _ => registerField_framed h hAbove)
    (fun _ _ _ _ _ _ _ _ => callerField_framed h) (fun _ _ => registerData_framed h hAbove)
    (fun _ _ => callerData_framed h) (fun _ _ => registerValue_framed h hAbove)
    (fun _ _ => callerValue_framed h) (fun _ _ _ _ _ _ _ _ => load_framed h)
    (fun _ _ => contractOperations_framed h) (fun _ _ => operations_framed h)
    (fun _ _ _ _ _ _ => crypto_framed h hAbove) hUnary hSize

/-- `GetValue` keeps what is held, and its value is above it. -/
theorem getValue_framed (hGuarded : guarded rt disk n vRet c = true) (h : Keeps vchUsed c.vm)
    (hAbove : Above vchUsed c.vm vRet) : Framed vchUsed (getValue rt disk n vRet c) := by
  induction n generalizing vRet c vchUsed with
  | zero =>
      intro fRet value c' hOk
      cases hOk
  | succ n ih =>
      intro fRet value c' hOk
      simp only [getValue_succ, ite_eq_ok, bind_eq_ok, Prod.exists, pure_eq_ok, Prod.mk.injEq] at hOk
      rcases hOk with ⟨-, hOk⟩ | ⟨-, OPERATION, c₁, hRead, ⟨hKnown, f, v, c₂, hOp, hNext⟩ |
        ⟨-, c₂, hRewind, -, rfl, rfl⟩⟩
      · cases hOk
        exact ⟨h, fun _ => hAbove⟩
      · obtain ⟨hOperand, hRest⟩ := guarded_of_read hGuarded hRead
        have hComputes (v : Value) (c₂ : Condition)
            (hDone : operation rt disk n OPERATION vRet c₁ = .ok (true, v, c₂)) :
            computes OPERATION = true → vRet.size ≠ 0 := (hRest v c₂ hDone).1
        have hVm := extract_vm hRead
        rw [← hVm] at h hAbove
        have hDone : Keeps vchUsed c₂.vm ∧ (f = true → Above vchUsed c₂.vm v) := by
          by_cases hBinary : binary OPERATION = true
          · refine binary_framed hBinary hComputes h hAbove ?_ _ _ _ hOp
            intro vchAll hAll
            exact ih (hOperand hBinary) hAll (.inl rfl)
          · obtain ⟨operand, hUnary⟩ :=
              Option.isSome_iff_exists.mp (hKnown.resolve_left hBinary)
            have hSame : operation rt disk n OPERATION vRet c₁ = operand := by
              rw [operation, if_neg hBinary, hUnary, Option.getD_some]
            rw [hSame] at hOp hComputes
            exact unary_framed hComputes h hAbove hUnary _ _ _ hOp
        rcases hNext with ⟨rfl, hNext⟩ | ⟨-, hNext⟩
        · exact ih (hRest _ _ hOp).2 hDone.1 (hDone.2 rfl) _ _ _ hNext
        · exact none_framed hDone.1 _ _ _ hNext
      · have hVm : c₂.vm = c.vm := by
          simp only [rewind, map_eq_ok] at hRewind
          obtain ⟨ss, -, rfl⟩ := hRewind
          have hSame : c₁.vm = c.vm := extract_vm hRead
          exact hSame
        rw [hVm]
        exact ⟨h, fun _ => hAbove⟩

/-- The memory has its registers, and the free ones are zero. -/
structure Clean (vm : BaseVM) : Prop where
  registers : vm.vRegister.length = 8 * REGISTERS
  pointer : vm.nPointer ≤ REGISTERS
  free : ∀ i, vm.nPointer ≤ i → i < REGISTERS → vm.word i = 0

/-- The bytes of a register that is zero. -/
theorem byte_of_zero {i k : Nat} (hWord : vm.word i = 0) (hLength : 8 * i + 8 ≤ vm.vRegister.length)
    (hByte : k < 8) : vm.vRegister[8 * i + k]? = some 0 := by
  have hBytes : ((vm.vRegister.drop (8 * i)).take 8).length = FixedWidth.width UInt64 := by
    rw [List.length_take, List.length_drop, width_uint64]
    omega
  have hSum : FixedWidth.toNat (vm.word i) = leNat ((vm.vRegister.drop (8 * i)).take 8) :=
    FixedWidth.toNat_decode hBytes
  rw [hWord] at hSum
  have hSome : vm.vRegister[8 * i + k]? = some vm.vRegister[8 * i + k] :=
    List.getElem?_eq_getElem _
  have hAt : ((vm.vRegister.drop (8 * i)).take 8)[k]? = some vm.vRegister[8 * i + k] := by
    rw [List.getElem?_take, if_pos hByte, List.getElem?_drop, hSome]
  have hLe : 256 ^ k * (vm.vRegister[8 * i + k]).toNat ≤ 0 := by
    have hLeNat := le_leNat hAt
    rwa [← hSum] at hLeNat
  have hZero : (vm.vRegister[8 * i + k]).toNat = 0 := by
    rcases Nat.mul_eq_zero.mp (Nat.le_zero.mp hLe) with hPow | hZero
    · exact absurd hPow (by positivity)
    · exact hZero
  have hByteZero : vm.vRegister[8 * i + k] = 0 := UInt8.toNat_inj.mp hZero
  rw [hSome, hByteZero]

theorem stores_of_clean (h : Clean vm) : Stores vm (vm.vRegister.take (8 * vm.nPointer)) := by
  obtain ⟨hRegisters, hPointer, hFree⟩ := h
  have hLength : (vm.vRegister.take (8 * vm.nPointer)).length = 8 * vm.nPointer := by
    rw [List.length_take]
    omega
  have hZero : vm.vRegister.drop (8 * vm.nPointer) =
      List.replicate (8 * REGISTERS - 8 * vm.nPointer) 0 := by
    refine List.eq_replicate_iff.mpr ⟨by rw [List.length_drop, hRegisters], ?_⟩
    intro b hMem
    obtain ⟨j, hLt, rfl⟩ := List.getElem_of_mem hMem
    rw [List.length_drop] at hLt
    have hWord := hFree ((8 * vm.nPointer + j) / 8) (by omega) (by omega)
    have hByte := byte_of_zero (k := (8 * vm.nPointer + j) % 8) hWord (by omega) (by omega)
    rw [Nat.div_add_mod, List.getElem?_eq_some_iff] at hByte
    obtain ⟨hBound, hByte⟩ := hByte
    rw [List.getElem_drop, hByte]
  refine ⟨?_, hLength, hPointer⟩
  rw [hLength, ← hZero, List.take_append_drop]

/-- What is held and the zeros above it, by registers. -/
theorem words_of_stores (h : Stores vm vchUsed) (hMore : Keeps vchUsed vm') :
    (∀ i < vm.nPointer, vm'.word i = vm.word i) ∧
      ∀ i, vm'.nPointer ≤ i → i < REGISTERS → vm'.word i = 0 := by
  obtain ⟨vchBlock, hStores⟩ := hMore
  have hPointer := h.pointer
  have hPointer' := hStores.pointer
  constructor
  · intro i hBelow
    have hLow (vchHigh : List UInt8) :
        ((vchUsed ++ vchHigh).drop (8 * i)).take 8 = (vchUsed.drop (8 * i)).take 8 := by
      rw [List.drop_append_of_le_length (by omega), List.take_append_of_le_length]
      rw [List.length_drop]
      omega
    rw [word, word, h.memory, hStores.memory, List.append_assoc, hLow, hLow]
  · intro i hAbove hLast
    have hZeros : (vm'.vRegister.drop (8 * i)).take 8 = List.replicate 8 0 := by
      rw [hStores.memory, List.drop_append, List.drop_eq_nil_of_le (by omega), List.nil_append,
        List.drop_replicate, List.take_replicate]
      congr 1
      omega
    rw [word, hZeros]
    rfl

theorem clean_of_stores (h : Stores vm vchUsed) : Clean vm := by
  obtain ⟨-, hFree⟩ := words_of_stores h ⟨[], by rwa [List.append_nil]⟩
  have hPointer := h.pointer
  have hBound := h.bound
  refine ⟨?_, hBound, hFree⟩
  rw [h.memory, List.length_append, List.length_replicate]
  omega

/-- Every turn of `GetValue` on a fresh value computes on registers only. -/
def computesOnRegisters (rt : Runtime) (disk : Disk) (c : Condition) : Bool :=
  guarded rt disk (c.contract.ssCondition.size - c.contract.ssCondition.nReadPos + 1) {} c

/-- What is held stays, and what is given back is zero. -/
theorem getValue_frame (hClean : Clean c.vm) (hComputes : computesOnRegisters rt disk c = true)
    (h : c.GetValue rt disk = .ok (fRet, value, c')) :
    (∀ i < c.vm.nPointer, c'.vm.word i = c.vm.word i) ∧
      ∀ i, c'.vm.nPointer ≤ i → i < REGISTERS → c'.vm.word i = 0 := by
  have hStores := stores_of_clean hClean
  have hKeeps : Keeps (c.vm.vRegister.take (8 * c.vm.nPointer)) c.vm :=
    ⟨[], by rwa [List.append_nil]⟩
  obtain ⟨hMore, -⟩ := getValue_framed hComputes hKeeps (.inl rfl) _ _ _ h
  exact words_of_stores hStores hMore

/-- The memory after the left operand 5. -/
def heldFive : BaseVM := { ({} : BaseVM).setAt {} 5 with nPointer := 1 }

/-- A right operand in the conditions, with the left one in the memory. -/
def rightOperand (vchConditions : List UInt8) : Condition where
  vm := heldFive
  contract := { ssCondition := { vchData := vchConditions } }
  caller := { nVersion := 2 }

/-- The sum of 3 and 4. -/
def sumOfWords : Condition :=
  rightOperand ([OP.TYPES.UINT64_T] ++ FixedWidth.encode (3 : UInt64) ++
    [OP.ADD, OP.TYPES.UINT64_T] ++ FixedWidth.encode (4 : UInt64))

@[irreducible]
def sumRead : Operand :=
  (sumOfWords.GetValue exampleRuntime {}).toOption.getD (false, {}, sumOfWords)

theorem clean_heldFive : Clean heldFive := by
  have hStores : Stores heldFive ([] ++ Datum.block (.word 8 5)) :=
    stores_fresh.push_word (by decide)
  exact clean_of_stores hStores

theorem getValue_frame_sum :
    (∀ i < heldFive.nPointer, sumRead.2.2.vm.word i = heldFive.word i) ∧
      ∀ i, sumRead.2.2.vm.nPointer ≤ i → i < REGISTERS → sumRead.2.2.vm.word i = 0 := by
  have hRead : sumOfWords.GetValue exampleRuntime {} =
      .ok (sumRead.1, sumRead.2.1, sumRead.2.2) := by
    unfold sumRead
    exact eq_ok_of_isOk (a := (false, {}, sumOfWords)) (by decide +kernel)
  exact getValue_frame clean_heldFive (by decide +kernel) hRead

/-- A right operand that increments before it has a value. -/
def incOfNothing : Condition :=
  rightOperand ([OP.INC, OP.TYPES.UINT64_T] ++ FixedWidth.encode (6 : UInt64))

/-- The left operand becomes 6. -/
theorem inc_of_nothing :
    Clean incOfNothing.vm ∧ 0 < incOfNothing.vm.nPointer ∧ incOfNothing.vm.word 0 = 5 ∧
      ∃ value c', incOfNothing.GetValue exampleRuntime {} = .ok (true, value, c') ∧
        c'.vm.word 0 = 6 := by
  refine ⟨clean_heldFive, by decide, by decide +kernel, ?_⟩
  have hRun : (incOfNothing.GetValue exampleRuntime {}).toOption.map
      (fun read => (read.1, read.2.2.vm.word 0)) = some (true, 6) := by decide +kernel
  cases hRead : incOfNothing.GetValue exampleRuntime {} with
  | error e =>
      rw [hRead] at hRun
      cases hRun
  | ok read =>
      obtain ⟨fRet, value, c'⟩ := read
      rw [hRead] at hRun
      obtain ⟨rfl, hWord⟩ := Prod.mk.inj (Option.some.inj hRun)
      exact ⟨value, c', rfl, hWord⟩

end Nexus.Safety
