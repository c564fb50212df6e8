import Nexus.Safety.Frames

/-!
# What an evaluation gives back

The memory is a stack, and `GetValue` keeps one value at its top: an operation
frees it and pushes its own, or computes in place.  A literal or a lookup that
pushes without freeing leaves the value before it below, where nothing can
free it again, since only the top is ever freed.

## Main results

* `getValue_held`, `getValue_lost`: the value at the top, or memory lost.
* `pointer_iff`: the evaluations that give back all they took.
-/

namespace Nexus.Safety

open Nexus.Lib.Bytes
open Nexus.Lib.Checked
open Nexus.Util
open Nexus.Register
open Nexus.Register.BaseVM
open Nexus.Operation
open Nexus.Operation.Condition
open Nexus.LLD

variable {rt : Runtime} {disk : Disk} {c c' : Condition} {vRet vArg value : Value} {vm vm' : BaseVM}
  {fRet fEvaluate : Bool} {OPERATION : UInt8} {n p e : Nat} {nCost : UInt64} {strOP : String}
  {operand : Result Operand} {d : Datum}

/-! ## The memory pointer -/

/-- The value is the run of registers from one pointer to another. -/
def Spans (low : Nat) (value : Value) (vm : BaseVM) : Prop :=
  value.nBegin = low ∧ value.nEnd = vm.nPointer ∧ low ≤ vm.nPointer

/-- What an operation that is done did with the result so far. -/
inductive Handles (vRet : Value) (vm : BaseVM) : Bool → Value → BaseVM → Prop where
  /-- It is in place. -/
  | kept {vm' : BaseVM} : vm'.nPointer = vm.nPointer → Handles vRet vm true vRet vm'
  /-- It is freed, and there is no other. -/
  | freed {vm' : BaseVM} : vm.checkTop vRet = .ok () →
      vm'.nPointer = vm.nPointer - vRet.size → Handles vRet vm false vRet vm'
  /-- It is freed, and another is in its place. -/
  | replaced {value : Value} {vm' : BaseVM} : vm.checkTop vRet = .ok () →
      Spans (vm.nPointer - vRet.size) value vm' → Handles vRet vm true value vm'

/-- What an operation that is done put over the result so far. -/
inductive Covers (vRet : Value) (vm : BaseVM) : Bool → Value → BaseVM → Prop where
  /-- Nothing. -/
  | none {vm' : BaseVM} : vm'.nPointer = vm.nPointer → Covers vRet vm false vRet vm'
  /-- A value of its own. -/
  | pushed {value : Value} {vm' : BaseVM} : Spans vm.nPointer value vm' →
      Covers vRet vm true value vm'

/-- What the operation does, when it is done. -/
def Does (R : Bool → Value → BaseVM → Prop) (operand : Result Operand) : Prop :=
  ∀ fRet value c', operand = .ok (fRet, value, c') → R fRet value c'.vm

theorem allocate_spans (h : d.allocate vm = .ok (value, vm')) : Spans vm.nPointer value vm' := by
  cases d with
  | word nBytes n =>
      simp only [Datum.allocate, allocateWord, bind_eq_ok, pure_eq_ok, Prod.mk.injEq] at h
      obtain ⟨-, -, rfl, rfl⟩ := h
      exact ⟨rfl, rfl, Nat.le_succ _⟩
  | bytes vch =>
      simp only [Datum.allocate, allocateBytes, bind_eq_ok, pure_eq_ok, Prod.mk.injEq] at h
      obtain ⟨-, -, rfl, rfl⟩ := h
      exact ⟨rfl, rfl, Nat.le_add_right ..⟩

theorem push_spans {α : Type} [FixedWidth α] {a : α} (h : c.push α a = .ok (value, c')) :
    Spans c.vm.nPointer value c'.vm := by
  simp only [push, map_eq_ok, Prod.exists, Prod.mk.injEq, allocate_eq_datum] at h
  obtain ⟨v, vm, hAllocate, rfl, rfl⟩ := h
  exact allocate_spans hAllocate

theorem pushBytes_spans {vch : List UInt8} (h : c.pushBytes vch = .ok (value, c')) :
    Spans c.vm.nPointer value c'.vm := by
  simp only [pushBytes, map_eq_ok, Prod.exists, Prod.mk.injEq] at h
  obtain ⟨v, vm, hAllocate, rfl, rfl⟩ := h
  exact allocate_spans (d := .bytes vch) hAllocate

theorem load_spans {α : Type} [FixedWidth α] {a : α}
    (h : load α strOP a nCost c = .ok (fRet, value, c')) :
    fRet = true ∧ Spans c.vm.nPointer value c'.vm := by
  simp only [load, bind_eq_ok, Prod.exists, pure_eq_ok, Prod.mk.injEq] at h
  obtain ⟨v, c₁, hPush, c₂, hSpend, rfl, rfl, rfl⟩ := h
  rw [spend_vm hSpend]
  exact ⟨rfl, push_spans hPush⟩

theorem loadBytes_spans {vch : List UInt8}
    (h : loadBytes strOP vch nCost c = .ok (fRet, value, c')) :
    fRet = true ∧ Spans c.vm.nPointer value c'.vm := by
  simp only [loadBytes, bind_eq_ok, Prod.exists, pure_eq_ok, Prod.mk.injEq] at h
  obtain ⟨v, c₁, hPush, c₂, hSpend, rfl, rfl, rfl⟩ := h
  rw [spend_vm hSpend]
  exact ⟨rfl, pushBytes_spans hPush⟩

/-! ## Operations that push over the result -/

theorem load_covers {α : Type} [FixedWidth α] {a : α} :
    Does (Covers vRet c.vm) (load α strOP a nCost c) := by
  intro fRet value c' h
  obtain ⟨rfl, hSpans⟩ := load_spans h
  exact .pushed hSpans

theorem loadBytes_covers {vch : List UInt8} :
    Does (Covers vRet c.vm) (loadBytes strOP vch nCost c) := by
  intro fRet value c' h
  obtain ⟨rfl, hSpans⟩ := loadBytes_spans h
  exact .pushed hSpans

theorem none_covers : Does (Covers vRet c.vm) (.ok (false, vRet, c)) := by
  intro fRet value c' h
  cases h
  exact .none rfl

theorem literal_covers {α : Type} [FixedWidth α] :
    Does (Covers vRet c.vm) (literal α strOP c) := by
  intro fRet value c' h
  simp only [literal, bind_eq_ok, Prod.exists] at h
  obtain ⟨a, c₁, hRead, hLoad⟩ := h
  rw [← extract_vm hRead]
  exact load_covers _ _ _ hLoad

theorem literalBytes_covers {strEmpty : String} :
    Does (Covers vRet c.vm) (literalBytes strOP strEmpty c) := by
  intro fRet value c' h
  simp only [literalBytes, bind_eq_ok, Prod.exists] at h
  obtain ⟨vch, c₁, hRead, -, -, hLoad⟩ := h
  rw [← extractBytes_vm hRead]
  exact loadBytes_covers _ _ _ hLoad

theorem callerField_covers {α : Type} [FixedWidth α] {f : State → α} :
    Does (Covers vRet c.vm) (callerField α strOP f nCost c) := by
  intro fRet value c' h
  simp only [callerField, bind_eq_ok, Prod.exists, pure_eq_ok, Prod.mk.injEq] at h
  obtain ⟨state, -, c₁, hSpend, v, c₂, hPush, rfl, rfl, rfl⟩ := h
  rw [← spend_vm hSpend]
  exact .pushed (push_spans hPush)

theorem callerData_covers : Does (Covers vRet c.vm) (callerData c) := by
  intro fRet value c' h
  simp only [callerData, bind_eq_ok, Prod.exists, pure_eq_ok, Prod.mk.injEq] at h
  obtain ⟨state, -, c₁, hSpend, v, c₂, hPush, rfl, rfl, rfl⟩ := h
  rw [← double_vm hSpend]
  exact .pushed (pushBytes_spans hPush)

theorem field_covers {α : Type} [FieldType α] {object : Object} {strName : List UInt8} :
    Does (Covers vRet c.vm) (field α strOP object strName vRet c) := by
  intro fRet value c' h
  simp only [field, bind_eq_ok] at h
  obtain ⟨nValue, -, h⟩ := h
  cases nValue with
  | none => exact none_covers _ _ _ h
  | some nValue => exact load_covers _ _ _ h

theorem fieldBytes_covers {object : Object} {nType : UInt8} {strName : List UInt8} :
    Does (Covers vRet c.vm) (Condition.fieldBytes strOP nType object strName vRet c) := by
  intro fRet value c' h
  simp only [Condition.fieldBytes, bind_eq_ok] at h
  obtain ⟨vData, -, h⟩ := h
  cases vData with
  | none => exact none_covers _ _ _ h
  | some vData => exact loadBytes_covers _ _ _ h

theorem objectValue_covers {state : State} :
    Does (Covers vRet c.vm) (objectValue state vRet c) := by
  intro fRet value c' h
  simp only [objectValue, bind_eq_ok, Prod.exists, ite_eq_ok] at h
  obtain ⟨strValue, c₁, hRead, h⟩ := h
  rw [← extractBytes_vm hRead]
  rcases h with ⟨-, h⟩ | ⟨-, object, -, h⟩
  · exact none_covers _ _ _ h
  · cases object with
    | none => exact none_covers _ _ _ h
    | some object =>
        simp only [bind_eq_ok] at h
        obtain ⟨nType, -, h⟩ := h
        cases nType with
        | none => exact none_covers _ _ _ h
        | some nType =>
            exact fieldValue_rule (P := Does (Covers vRet c₁.vm)) (fun _ _ _ => field_covers)
              (fun _ _ => fieldBytes_covers) none_covers _ _ _ h

theorem callerValue_covers : Does (Covers vRet c.vm) (callerValue vRet c) := by
  intro fRet value c' h
  simp only [callerValue, bind_eq_ok] at h
  obtain ⟨state, -, h⟩ := h
  exact objectValue_covers _ _ _ h

theorem operations_covers {vBytes : List UInt8} :
    Does (Covers vRet c.vm) (operations strOP vBytes vRet c) := by
  unfold operations
  refine choice_rule none_covers ?_
  intro fRet value c' h
  simp only [bind_eq_ok, Prod.exists, pure_eq_ok, Prod.mk.injEq] at h
  obtain ⟨v, c₁, hPush, c₂, hSpend, rfl, rfl, rfl⟩ := h
  rw [double_vm hSpend]
  exact .pushed (pushBytes_spans hPush)

theorem contractOperations_covers : Does (Covers vRet c.vm) (contractOperations vRet c) := by
  intro fRet value c' h
  simp only [contractOperations, bind_eq_ok] at h
  obtain ⟨-, -, h⟩ := h
  exact operations_covers _ _ _ h

/-! ## Operations that free the result, or keep it -/

theorem power_pointer {vExp : Value} {nBase k : UInt64}
    (hPower : power vRet vExp nBase n k vm = .ok vm') : vm'.nPointer = vm.nPointer := by
  induction n generalizing k vm with
  | zero => cases hPower
  | succ n ih =>
      simp only [power, ite_eq_ok, bind_eq_ok, Except.ok.injEq] at hPower
      rcases hPower with ⟨-, -, -, hPower⟩ | ⟨-, rfl⟩
      · have hNext := ih hPower
        exact hNext
      · rfl

theorem compute_pointer (hCompute : compute OPERATION vRet vArg vm = .ok vm') :
    vm'.nPointer = vm.nPointer := by
  simp only [compute, ite_eq_ok, bind_eq_ok, pure_eq_ok] at hCompute
  rcases hCompute with ⟨-, -, -, rfl⟩ | ⟨-, ⟨-, -, -, rfl⟩ | ⟨-, ⟨-, -, -, rfl⟩ | ⟨-, ⟨-, -, -, rfl⟩ |
    ⟨-, ⟨-, hPower⟩ | ⟨-, -, -, rfl⟩⟩⟩⟩⟩
  · rfl
  · rfl
  · rfl
  · rfl
  · rw [power_pointer hPower]
    split <;> rfl
  · rfl

theorem increment_handles {k nLimit : UInt64} :
    Does (Handles vRet c.vm) (increment OPERATION k nLimit vRet c) := by
  intro fRet value c' h
  simp only [increment, bind_eq_ok, pure_eq_ok, Prod.mk.injEq] at h
  obtain ⟨-, -, -, -, c₁, hSpend, rfl, rfl, rfl⟩ := h
  rw [spend_vm hSpend]
  exact .kept rfl

theorem subdata_handles : Does (Handles vRet c.vm) (subdata rt vRet c) := by
  intro fRet value c' h
  simp only [subdata, deallocateBytes, bind_eq_ok, Prod.exists, pure_eq_ok, Prod.mk.injEq] at h
  obtain ⟨nBegin, c₁, hBegin, nSize, c₂, hSize, vData, vm, ⟨u, hTop, rfl, rfl⟩, hLoad⟩ := h
  have hSame : c₂.vm = c.vm := (extract_vm hSize).trans (extract_vm hBegin)
  rw [hSame] at hTop hLoad
  obtain ⟨rfl, hSpans⟩ := loadBytes_spans hLoad
  exact .replaced hTop hSpans

theorem crypto_handles {α : Type} [FixedWidth α] {hash : List UInt8 → α} :
    Does (Handles vRet c.vm) (crypto α strOP hash vRet c) := by
  intro fRet value c' h
  simp only [crypto, bind_eq_ok, deallocate_eq_ok] at h
  obtain ⟨-, -, vm, ⟨hTop, rfl⟩, hLoad⟩ := h
  obtain ⟨rfl, hSpans⟩ := load_spans hLoad
  exact .replaced hTop hSpans

/-- Reading a register frees its address. -/
theorem registerState_pointer {stateOpt : Option State}
    (h : c.registerState disk vRet = .ok (stateOpt, c')) :
    c.vm.checkTop vRet = .ok () ∧ c'.vm.nPointer = c.vm.nPointer - vRet.size := by
  simp only [registerState, deallocateData, bind_eq_ok, Prod.exists, pure_eq_ok,
    Prod.mk.injEq] at h
  obtain ⟨hashRegister, vm, ⟨u, hTop, -, -, -, rfl⟩, -, rfl⟩ := h
  exact ⟨hTop, rfl⟩

theorem registerField_handles {α : Type} [FixedWidth α] {f : State → α} :
    Does (Handles vRet c.vm) (registerField α disk strOP f nCost vRet c) := by
  intro fRet value c' h
  simp only [registerField, bind_eq_ok, Prod.exists] at h
  obtain ⟨stateOpt, c₁, hState, h⟩ := h
  obtain ⟨hTop, hPointer⟩ := registerState_pointer hState
  cases stateOpt with
  | none =>
      cases h
      exact .freed hTop hPointer
  | some state =>
      simp only [bind_eq_ok, Prod.exists, pure_eq_ok, Prod.mk.injEq] at h
      obtain ⟨c₂, hSpend, v, c₃, hPush, rfl, rfl, rfl⟩ := h
      have hSpans := push_spans hPush
      rw [spend_vm hSpend, hPointer] at hSpans
      exact .replaced hTop hSpans

theorem registerData_handles : Does (Handles vRet c.vm) (registerData disk vRet c) := by
  intro fRet value c' h
  simp only [registerData, bind_eq_ok, Prod.exists] at h
  obtain ⟨stateOpt, c₁, hState, h⟩ := h
  obtain ⟨hTop, hPointer⟩ := registerState_pointer hState
  cases stateOpt with
  | none =>
      cases h
      exact .freed hTop hPointer
  | some state =>
      simp only [bind_eq_ok, Prod.exists, pure_eq_ok, Prod.mk.injEq] at h
      obtain ⟨c₂, hSpend, v, c₃, hPush, rfl, rfl, rfl⟩ := h
      have hSpans := pushBytes_spans hPush
      rw [spend_vm hSpend, hPointer] at hSpans
      exact .replaced hTop hSpans

theorem registerValue_handles : Does (Handles vRet c.vm) (registerValue disk vRet c) := by
  intro fRet value c' h
  simp only [registerValue, bind_eq_ok, Prod.exists] at h
  obtain ⟨stateOpt, c₁, hState, h⟩ := h
  obtain ⟨hTop, hPointer⟩ := registerState_pointer hState
  cases stateOpt with
  | none =>
      cases h
      exact .freed hTop hPointer
  | some state =>
      simp only [bind_eq_ok] at h
      obtain ⟨c₂, hSpend, h⟩ := h
      have hPaid : c₂.vm.nPointer = c.vm.nPointer - vRet.size := by rw [spend_vm hSpend, hPointer]
      cases objectValue_covers _ _ _ h with
      | none hSame => exact .freed hTop (hSame.trans hPaid)
      | pushed hSpans =>
          rw [hPaid] at hSpans
          exact .replaced hTop hSpans

theorem unary_handles (hAllocates : allocates OPERATION = false)
    (h : unary rt disk OPERATION vRet c = some operand) : Does (Handles vRet c.vm) operand := by
  have hNot {P : Prop} (hTrue : allocates OPERATION = true) : P := by
    rw [hAllocates] at hTrue
    cases hTrue
  refine unary_rule (P := Does (Handles vRet c.vm)) (fun _ => increment_handles)
    (fun _ => increment_handles) (fun _ => subdata_handles) (fun _ _ _ hTrue => hNot hTrue)
    (fun _ _ hTrue => hNot hTrue) (fun _ _ _ _ _ _ _ => registerField_handles)
    (fun _ _ _ _ _ _ hTrue => hNot hTrue) (fun _ => registerData_handles)
    (fun hOp => hNot (by rw [hOp]; decide)) (fun _ => registerValue_handles)
    (fun hTrue => hNot hTrue) (fun _ _ _ _ _ _ hTrue => hNot hTrue)
    (fun hOp => hNot (by rw [hOp]; decide)) (fun hOp => hNot (by rw [hOp]; decide))
    (fun _ _ _ _ _ => crypto_handles) h

theorem unary_covers (hAllocates : allocates OPERATION = true)
    (h : unary rt disk OPERATION vRet c = some operand) : Does (Covers vRet c.vm) operand := by
  have hNot {P : Prop} (hFalse : allocates OPERATION = false) : P := by
    rw [hAllocates] at hFalse
    cases hFalse
  refine unary_rule (P := Does (Covers vRet c.vm)) (fun hOp => hNot (by rw [hOp]; decide))
    (fun hOp => hNot (by rw [hOp]; decide)) (fun hOp => hNot (by rw [hOp]; decide))
    (fun _ _ _ _ => literal_covers) (fun _ _ _ => literalBytes_covers)
    (fun _ _ _ _ _ _ hFalse => hNot hFalse) (fun _ _ _ _ _ _ _ => callerField_covers)
    (fun hFalse => hNot hFalse) (fun _ => callerData_covers) (fun hFalse => hNot hFalse)
    (fun _ => callerValue_covers) (fun _ _ _ _ _ _ _ => load_covers)
    (fun _ => contractOperations_covers) (fun _ => operations_covers)
    (fun _ _ _ _ hFalse => hNot hFalse) h

/-! ## The value at the top -/

/-- The memory has the value on top of `p` registers. -/
structure Held (p : Nat) (value : Value) (vm : BaseVM) : Prop where
  pointer : vm.nPointer = p + value.size
  base : value.size ≠ 0 → value.nBegin = p
  top : value.nEnd ≤ vm.nPointer

/-- The first `e` registers are taken, and the value is over them, if it can be freed. -/
structure Lost (e : Nat) (value : Value) (vm : BaseVM) : Prop where
  pointer : e ≤ vm.nPointer
  value : e ≤ value.nBegin ∨ value.nEnd < e

theorem held_none : Held vm.nPointer {} vm := ⟨rfl, fun h => absurd rfl h, Nat.zero_le _⟩

theorem lost_none (hPos : 0 < e) (h : e ≤ vm.nPointer) : Lost e {} vm := ⟨h, .inr hPos⟩

theorem Held.congr (h : Held p value vm) (hPointer : vm'.nPointer = vm.nPointer) :
    Held p value vm' := by
  obtain ⟨hSum, hBase, hTop⟩ := h
  exact ⟨by rw [hPointer, hSum], hBase, by rwa [hPointer]⟩

theorem held_of_spans (h : Spans p value vm) : Held p value vm := by
  obtain ⟨hBegin, hEnd, hLe⟩ := h
  refine ⟨?_, fun _ => hBegin, Nat.le_of_eq hEnd⟩
  rw [Value.size]
  omega

/-- A value over what is taken is freed down to it. -/
theorem Lost.release (h : Lost e value vm) (hTop : vm.checkTop value = .ok ()) :
    e ≤ vm.nPointer - value.size := by
  obtain ⟨hPointer, hValue⟩ := h
  obtain ⟨-, -, hLast, -⟩ := checkTop_eq_ok.mp hTop
  rw [Value.size]
  omega

theorem lost_of_spans {low : Nat} (hLow : e ≤ low) (h : Spans low value vm) : Lost e value vm := by
  obtain ⟨hBegin, hEnd, hLe⟩ := h
  exact ⟨by omega, .inl (by omega)⟩

/-- An operand that gives back: its value is on top, or it has none and took nothing. -/
def HeldOn (p : Nat) (fRet : Bool) (value : Value) (vm : BaseVM) : Prop :=
  if fRet then Held p value vm else vm.nPointer = p

/-- An operand that does not: `e` registers stay taken. -/
def LostOn (e : Nat) (fRet : Bool) (value : Value) (vm : BaseVM) : Prop :=
  if fRet then Lost e value vm else e ≤ vm.nPointer

theorem held_of_handles (h : Held p vRet vm) (hHandles : Handles vRet vm fRet value vm') :
    HeldOn p fRet value vm' := by
  have hPointer := h.pointer
  cases hHandles with
  | kept hSame => exact h.congr hSame
  | freed hTop hFreed =>
      show vm'.nPointer = p
      omega
  | replaced hTop hSpans =>
      have hLow : vm.nPointer - vRet.size = p := by omega
      rw [hLow] at hSpans
      exact held_of_spans hSpans

theorem lost_of_handles (h : Lost e vRet vm) (hHandles : Handles vRet vm fRet value vm') :
    LostOn e fRet value vm' := by
  cases hHandles with
  | kept hSame =>
      obtain ⟨hPointer, hValue⟩ := h
      exact ⟨by omega, hValue⟩
  | freed hTop hFreed =>
      have hLe := h.release hTop
      show e ≤ vm'.nPointer
      omega
  | replaced hTop hSpans => exact lost_of_spans (h.release hTop) hSpans

/-- Nothing is lost when the result so far takes no registers. -/
theorem held_of_covers (h : Held p vRet vm) (hNone : vRet.size = 0)
    (hCovers : Covers vRet vm fRet value vm') : HeldOn p fRet value vm' := by
  have hPointer := h.pointer
  cases hCovers with
  | none hSame =>
      show vm'.nPointer = p
      omega
  | pushed hSpans =>
      have hLow : vm.nPointer = p := by omega
      rw [hLow] at hSpans
      exact held_of_spans hSpans

/-- What is under the new value is lost. -/
theorem lost_of_covers (h : e ≤ vm.nPointer) (hCovers : Covers vRet vm fRet value vm') :
    LostOn e fRet value vm' := by
  cases hCovers with
  | none hSame =>
      show e ≤ vm'.nPointer
      omega
  | pushed hSpans => exact lost_of_spans h hSpans

/-! ## Two operands -/

/-- The operation on two values frees the second, and then works on the first. -/
def Consumes (vRet vArg : Value) (vm : BaseVM) (fRet : Bool) (value : Value) (vm' : BaseVM) :
    Prop :=
  ∃ vmArg : BaseVM, vm.checkTop vArg = .ok () ∧ vmArg.nPointer = vm.nPointer - vArg.size ∧
    Handles vRet vmArg fRet value vm'

theorem arithmetic_consumes :
    Does (Consumes vRet vArg c.vm) (arithmetic OPERATION vRet vArg c) := by
  intro fRet value c' h
  simp only [arithmetic, bind_eq_ok, deallocate_eq_ok, pure_eq_ok, Prod.mk.injEq] at h
  obtain ⟨-, -, vm, hCompute, vm', ⟨hTop, rfl⟩, c₁, hSpend, rfl, rfl, rfl⟩ := h
  have hPointer := compute_pointer hCompute
  rw [checkTop_eq_ok, hPointer, ← checkTop_eq_ok] at hTop
  rw [spend_vm hSpend]
  refine ⟨vm.release vArg, hTop, ?_, .kept rfl⟩
  show vm.nPointer - vArg.size = c.vm.nPointer - vArg.size
  rw [hPointer]

theorem cat_consumes : Does (Consumes vRet vArg c.vm) (cat vRet vArg c) := by
  intro fRet value c' h
  simp only [cat, bind_eq_ok, deallocate_eq_ok] at h
  obtain ⟨vm, ⟨hTop, rfl⟩, vm', ⟨hTop', rfl⟩, hLoad⟩ := h
  obtain ⟨rfl, hSpans⟩ := loadBytes_spans hLoad
  exact ⟨c.vm.release vArg, hTop, rfl, .replaced hTop' hSpans⟩

theorem held_of_consumes (h : Held p vRet vm) (hArg : Held vm.nPointer vArg vm')
    {vm'' : BaseVM} (hConsumes : Consumes vRet vArg vm' fRet value vm'') :
    HeldOn p fRet value vm'' := by
  obtain ⟨vmArg, hTop, hPointer, hHandles⟩ := hConsumes
  have hSum := hArg.pointer
  have hSame : vmArg.nPointer = vm.nPointer := by omega
  exact held_of_handles (h.congr hSame) hHandles

theorem lost_of_consumes (h : e ≤ vRet.nBegin ∨ vRet.nEnd < e) (hArg : Lost e vArg vm)
    (hConsumes : Consumes vRet vArg vm fRet value vm') : LostOn e fRet value vm' := by
  obtain ⟨vmArg, hTop, hPointer, hHandles⟩ := hConsumes
  have hLe := hArg.release hTop
  exact lost_of_handles ⟨by omega, h⟩ hHandles

/-! ## Operands that give back -/

/-- The operand could not be obtained. -/
def fails : Result Operand → Bool
  | .ok (false, _, _) => true
  | _ => false

/-- The operation leaves the registers of the result so far behind. -/
def abandons (rt : Runtime) (disk : Disk) (n : Nat) (OPERATION : UInt8) (vRet : Value)
    (c : Condition) : Bool :=
  vRet.size != 0 && (allocates OPERATION || binary OPERATION && fails (getValue rt disk n {} c))

/-- In every turn of `GetValue`, of this call or of one for a second operand, the registers
of the result so far are not left behind. -/
def releases (rt : Runtime) (disk : Disk) : Nat → Value → Condition → Bool
  | 0, _, _ => true
  | n + 1, vRet, c =>
      match c.extract UInt8 with
      | .error _ => true
      | .ok (OPERATION, c) =>
          !abandons rt disk n OPERATION vRet c &&
            (!binary OPERATION || releases rt disk n {} c) &&
              match operation rt disk n OPERATION vRet c with
              | .ok (true, vRet, c) => releases rt disk n vRet c
              | _ => true

/-- A turn of `GetValue` ends the operand, or does an operation. -/
theorem getValue_cases (h : getValue rt disk (n + 1) vRet c = .ok (fRet, value, c')) :
    (fRet = true ∧ value = vRet ∧ c'.vm = c.vm ∧
      ∀ OPERATION c₁, c.extract UInt8 = .ok (OPERATION, c₁) →
        binary OPERATION = false ∧ unary rt disk OPERATION vRet c₁ = none) ∨
    ∃ OPERATION c₁ f v c₂, c.extract UInt8 = .ok (OPERATION, c₁) ∧
      (binary OPERATION = true ∨ (unary rt disk OPERATION vRet c₁).isSome = true) ∧
      operation rt disk n OPERATION vRet c₁ = .ok (f, v, c₂) ∧
        (f = true ∧ getValue rt disk n v c₂ = .ok (fRet, value, c') ∨
          f = false ∧ fRet = false ∧ c' = c₂) := by
  simp only [getValue_succ, ite_eq_ok, bind_eq_ok, Prod.exists, pure_eq_ok, Prod.mk.injEq] at h
  rcases h with ⟨hEnd, h⟩ | ⟨-, OPERATION, c₁, hRead, ⟨hKnown, f, v, c₂, hOp, hNext⟩ |
    ⟨hUnknown, c₂, hRewind, rfl, rfl, rfl⟩⟩
  · cases h
    refine .inl ⟨rfl, rfl, rfl, fun OPERATION c₁ hRead => ?_⟩
    rw [not_atEnd_of_next ⟨c₁, hRead⟩] at hEnd
    cases hEnd
  · refine .inr ⟨OPERATION, c₁, f, v, c₂, hRead, hKnown, hOp, ?_⟩
    rcases hNext with ⟨hDone, hNext⟩ | ⟨hDone, hNext⟩
    · exact .inl ⟨hDone, hNext⟩
    · cases hNext
      exact .inr ⟨by simpa using hDone, rfl, rfl⟩
  · have hVm : c₂.vm = c.vm := by
      simp only [rewind, map_eq_ok] at hRewind
      obtain ⟨ss, -, rfl⟩ := hRewind
      have hSame : c₁.vm = c.vm := extract_vm hRead
      exact hSame
    refine .inl ⟨rfl, rfl, hVm, fun nOP c₃ hRead' => ?_⟩
    rw [hRead] at hRead'
    cases hRead'
    rw [not_or, Bool.not_eq_true, Bool.not_eq_true, Option.isSome_eq_false_iff,
      Option.isNone_iff_eq_none] at hUnknown
    exact hUnknown

theorem binary_cases (hBinary : binary OPERATION = true)
    (h : operation rt disk n OPERATION vRet c = .ok (fRet, value, c')) :
    ∃ fArg vArg c₁, getValue rt disk n {} c = .ok (fArg, vArg, c₁) ∧
      (fArg = false ∧ fRet = false ∧ c' = c₁ ∨
        fArg = true ∧ Consumes vRet vArg c₁.vm fRet value c'.vm) := by
  simp only [operation, hBinary, if_true, bind_eq_ok, Prod.exists, ite_eq_ok] at h
  obtain ⟨fArg, vArg, c₁, hRead, h⟩ := h
  refine ⟨fArg, vArg, c₁, hRead, ?_⟩
  rcases h with ⟨hNone, h⟩ | ⟨hDone, ⟨-, h⟩ | ⟨-, h⟩⟩
  · cases h
    exact .inl ⟨by simpa using hNone, rfl, rfl⟩
  · exact .inr ⟨by simpa using hDone, cat_consumes _ _ _ h⟩
  · exact .inr ⟨by simpa using hDone, arithmetic_consumes _ _ _ h⟩

theorem not_allocates_of_binary (hBinary : binary OPERATION = true) :
    allocates OPERATION = false := by
  have hAll : [OP.ADD, OP.SUB, OP.DIV, OP.MUL, OP.EXP, OP.MOD, OP.CAT].all
      (fun nOP => !allocates nOP) = true := by decide
  have hNot := List.all_eq_true.mp hAll OPERATION (of_decide_eq_true hBinary)
  simpa using hNot

/-! ## What is lost stays lost -/

theorem operation_lost (h : Lost e vRet c.vm)
    (hArg : Does (LostOn e) (getValue rt disk n {} c)) :
    Does (LostOn e) (operation rt disk n OPERATION vRet c) := by
  intro fRet value c' hOk
  by_cases hBinary : binary OPERATION = true
  · obtain ⟨fArg, vArg, c₁, hRead, hCases⟩ := binary_cases hBinary hOk
    have hTaken := hArg _ _ _ hRead
    rcases hCases with ⟨rfl, rfl, rfl⟩ | ⟨rfl, hConsumes⟩
    · exact hTaken
    · exact lost_of_consumes h.value hTaken hConsumes
  · rw [operation, if_neg hBinary] at hOk
    cases hUnary : unary rt disk OPERATION vRet c with
    | none =>
        rw [hUnary] at hOk
        cases hOk
        exact h.pointer
    | some operand =>
        rw [hUnary, Option.getD_some] at hOk
        cases hAllocates : allocates OPERATION with
        | true => exact lost_of_covers h.pointer (unary_covers hAllocates hUnary _ _ _ hOk)
        | false => exact lost_of_handles h (unary_handles hAllocates hUnary _ _ _ hOk)

/-- Registers under the result are not freed. -/
theorem getValue_lost (hPos : 0 < e) (h : Lost e vRet c.vm) :
    Does (LostOn e) (getValue rt disk n vRet c) := by
  induction n generalizing vRet c with
  | zero =>
      intro fRet value c' hOk
      cases hOk
  | succ n ih =>
      intro fRet value c' hOk
      rcases getValue_cases hOk with ⟨rfl, rfl, hVm, -⟩ |
        ⟨OPERATION, c₁, f, v, c₂, hRead, -, hOp, hNext⟩
      · show Lost e value c'.vm
        rwa [hVm]
      · rw [← extract_vm hRead] at h
        have hTaken := operation_lost h (ih (lost_none hPos h.pointer)) _ _ _ hOp
        rcases hNext with ⟨rfl, hNext⟩ | ⟨rfl, rfl, rfl⟩
        · exact ih hTaken _ _ _ hNext
        · exact hTaken

/-! ## Operands that give back -/

theorem releases_of_read (hRead : c.extract UInt8 = .ok (OPERATION, c')) :
    releases rt disk (n + 1) vRet c = true ↔
      abandons rt disk n OPERATION vRet c' = false ∧
        (binary OPERATION = true → releases rt disk n {} c' = true) ∧
        ∀ value c'', operation rt disk n OPERATION vRet c' = .ok (true, value, c'') →
          releases rt disk n value c'' = true := by
  rw [releases, hRead]
  simp only [Bool.and_eq_true, Bool.or_eq_true, Bool.not_eq_true', and_assoc]
  refine and_congr Iff.rfl (and_congr ?_ ?_)
  · cases binary OPERATION <;> simp
  · constructor
    · intro hNext value c'' hOp
      rwa [hOp] at hNext
    · intro hNext
      split
      next v c₂ hOp => exact hNext _ _ hOp
      next => rfl

theorem operation_held (hHeld : Held p vRet c.vm)
    (hKnown : binary OPERATION = true ∨ (unary rt disk OPERATION vRet c).isSome = true)
    (hKeeps : abandons rt disk n OPERATION vRet c = false)
    (hArg : binary OPERATION = true →
      Does (HeldOn c.vm.nPointer) (getValue rt disk n {} c)) :
    Does (HeldOn p) (operation rt disk n OPERATION vRet c) := by
  intro fRet value c' hOk
  simp only [abandons, Bool.and_eq_false_iff, bne_eq_false_iff_eq, Bool.or_eq_false_iff] at hKeeps
  by_cases hBinary : binary OPERATION = true
  · obtain ⟨fArg, vArg, c₁, hRead, hCases⟩ := binary_cases hBinary hOk
    have hTop := hArg hBinary _ _ _ hRead
    rcases hCases with ⟨rfl, rfl, rfl⟩ | ⟨rfl, hConsumes⟩
    · -- the second operand failed, so nothing may be under it
      have hNone : vRet.size = 0 := by
        rcases hKeeps with hNone | ⟨-, hFails⟩
        · exact hNone
        · simp [hBinary, hRead, fails] at hFails
      have hSum := hHeld.pointer
      have hSame : c'.vm.nPointer = c.vm.nPointer := hTop
      show c'.vm.nPointer = p
      omega
    · exact held_of_consumes hHeld hTop hConsumes
  · obtain ⟨operand, hUnary⟩ := Option.isSome_iff_exists.mp (hKnown.resolve_left hBinary)
    rw [operation, if_neg hBinary, hUnary, Option.getD_some] at hOk
    cases hAllocates : allocates OPERATION with
    | true =>
        have hNone : vRet.size = 0 := by
          rcases hKeeps with hNone | ⟨hNot, -⟩
          · exact hNone
          · rw [hAllocates] at hNot
            cases hNot
        exact held_of_covers hHeld hNone (unary_covers hAllocates hUnary _ _ _ hOk)
    | false => exact held_of_handles hHeld (unary_handles hAllocates hUnary _ _ _ hOk)

/-- An operand has its value on top of what was there, or leaves what was there. -/
theorem getValue_held (hReleases : releases rt disk n vRet c = true) (hHeld : Held p vRet c.vm) :
    Does (HeldOn p) (getValue rt disk n vRet c) := by
  induction n generalizing vRet c p with
  | zero =>
      intro fRet value c' hOk
      cases hOk
  | succ n ih =>
      intro fRet value c' hOk
      rcases getValue_cases hOk with ⟨rfl, rfl, hVm, -⟩ |
        ⟨OPERATION, c₁, f, v, c₂, hRead, hKnown, hOp, hNext⟩
      · show Held p value c'.vm
        rwa [hVm]
      · obtain ⟨hKeeps, hArg, hRest⟩ := (releases_of_read hRead).mp hReleases
        rw [← extract_vm hRead] at hHeld
        have hTop := operation_held hHeld hKnown hKeeps
          (fun hBinary => ih (hArg hBinary) held_none) _ _ _ hOp
        rcases hNext with ⟨rfl, hNext⟩ | ⟨rfl, rfl, rfl⟩
        · exact ih (hRest _ _ hOp) hTop _ _ _ hNext
        · exact hTop

/-! ## Operands that do not -/

/-- An operation that leaves the result behind takes its registers for good. -/
theorem operation_leaks (hHeld : Held p vRet c.vm)
    (hKnown : binary OPERATION = true ∨ (unary rt disk OPERATION vRet c).isSome = true)
    (hAbandons : abandons rt disk n OPERATION vRet c = true)
    (hArg : binary OPERATION = true → Does (HeldOn c.vm.nPointer) (getValue rt disk n {} c))
    (hOk : operation rt disk n OPERATION vRet c = .ok (fRet, value, c')) :
    p < c.vm.nPointer ∧ LostOn c.vm.nPointer fRet value c'.vm := by
  simp only [abandons, Bool.and_eq_true, bne_iff_ne, Bool.or_eq_true] at hAbandons
  obtain ⟨hSize, hKind⟩ := hAbandons
  have hSum := hHeld.pointer
  refine ⟨by omega, ?_⟩
  by_cases hBinary : binary OPERATION = true
  · obtain ⟨fArg, vArg, c₁, hRead, hCases⟩ := binary_cases hBinary hOk
    have hTop := hArg hBinary _ _ _ hRead
    rw [not_allocates_of_binary hBinary, hRead] at hKind
    obtain ⟨-, hFails⟩ := hKind.resolve_left Bool.false_ne_true
    rcases hCases with ⟨rfl, rfl, rfl⟩ | ⟨rfl, -⟩
    · exact Nat.le_of_eq (Eq.symm hTop)
    · cases hFails
  · obtain ⟨operand, hUnary⟩ := Option.isSome_iff_exists.mp (hKnown.resolve_left hBinary)
    rw [operation, if_neg hBinary, hUnary, Option.getD_some] at hOk
    have hAllocates : allocates OPERATION = true := by
      rcases hKind with hAllocates | ⟨hTrue, -⟩
      · exact hAllocates
      · exact absurd hTrue hBinary
    exact lost_of_covers (Nat.le_refl _) (unary_covers hAllocates hUnary _ _ _ hOk)

/-- The value of a leaking second operand is over what it lost. -/
theorem operation_leaks_of_arg (hHeld : Held p vRet c.vm) (hBinary : binary OPERATION = true)
    (hArg : ∀ fArg vArg c₁, getValue rt disk n {} c = .ok (fArg, vArg, c₁) →
      ∃ e, c.vm.nPointer < e ∧ LostOn e fArg vArg c₁.vm)
    (hOk : operation rt disk n OPERATION vRet c = .ok (fRet, value, c')) :
    ∃ e, p < e ∧ LostOn e fRet value c'.vm := by
  obtain ⟨fArg, vArg, c₁, hRead, hCases⟩ := binary_cases hBinary hOk
  obtain ⟨e, hMore, hLost⟩ := hArg _ _ _ hRead
  have hSum := hHeld.pointer
  have hTop := hHeld.top
  refine ⟨e, by omega, ?_⟩
  rcases hCases with ⟨rfl, rfl, rfl⟩ | ⟨rfl, hConsumes⟩
  · exact hLost
  · exact lost_of_consumes (.inr (by omega)) hLost hConsumes

theorem known_of_allocates (hAllocates : allocates OPERATION = true) :
    unary rt disk OPERATION vRet c ≠ none := by
  simp only [allocates, decide_eq_true_eq, List.mem_cons, List.not_mem_nil, or_false] at hAllocates
  rcases hAllocates with rfl | rfl | rfl | rfl | rfl | rfl | rfl | rfl | rfl | rfl | rfl | rfl | rfl |
    rfl | rfl | rfl | rfl | rfl | rfl | rfl | rfl | rfl | rfl | rfl <;> exact Option.some_ne_none _

/-- At the end of an operand nothing is left behind. -/
theorem releases_of_end (hEnds : ∀ OPERATION c₁, c.extract UInt8 = .ok (OPERATION, c₁) →
      binary OPERATION = false ∧ unary rt disk OPERATION vRet c₁ = none) :
    releases rt disk (n + 1) vRet c = true := by
  cases hRead : c.extract UInt8 with
  | error e => rw [releases, hRead]
  | ok read =>
      obtain ⟨OPERATION, c₁⟩ := read
      obtain ⟨hBinary, hUnary⟩ := hEnds _ _ hRead
      have hAllocates : allocates OPERATION = false :=
        Bool.eq_false_iff.mpr fun hTrue => known_of_allocates hTrue hUnary
      simp [releases, hRead, abandons, operation, hBinary, hUnary, hAllocates]

/-- What an operand does not give back is lost. -/
theorem getValue_leaks (hNot : releases rt disk n vRet c = false) (hHeld : Held p vRet c.vm)
    (hOk : getValue rt disk n vRet c = .ok (fRet, value, c')) :
    ∃ e, p < e ∧ LostOn e fRet value c'.vm := by
  induction n generalizing vRet c p fRet value c' with
  | zero => cases hOk
  | succ n ih =>
      rcases getValue_cases hOk with ⟨-, -, -, hEnds⟩ |
        ⟨OPERATION, c₁, f, v, c₂, hRead, hKnown, hOp, hNext⟩
      · rw [releases_of_end hEnds] at hNot
        cases hNot
      · rw [← extract_vm hRead] at hHeld
        -- after a loss the rest of the operand is over it
        have hAfter (hLoss : ∃ e, p < e ∧ LostOn e f v c₂.vm) :
            ∃ e, p < e ∧ LostOn e fRet value c'.vm := by
          obtain ⟨e, hMore, hLost⟩ := hLoss
          refine ⟨e, hMore, ?_⟩
          rcases hNext with ⟨rfl, hNext⟩ | ⟨rfl, rfl, rfl⟩
          · exact getValue_lost (by omega) hLost _ _ _ hNext
          · exact hLost
        by_cases hArg : binary OPERATION = true ∧ releases rt disk n {} c₁ = false
        · obtain ⟨hBinary, hArg⟩ := hArg
          exact hAfter (operation_leaks_of_arg hHeld hBinary
            (fun _ _ _ hRead => ih hArg held_none hRead) hOp)
        have hArg (hBinary : binary OPERATION = true) : releases rt disk n {} c₁ = true := by
          rw [not_and, Bool.not_eq_false] at hArg
          exact hArg hBinary
        have hTop (hBinary : binary OPERATION = true) :
            Does (HeldOn c₁.vm.nPointer) (getValue rt disk n {} c₁) :=
          getValue_held (hArg hBinary) held_none
        cases hAbandons : abandons rt disk n OPERATION vRet c₁ with
        | true => exact hAfter ⟨_, operation_leaks hHeld hKnown hAbandons hTop hOp⟩
        | false =>
            -- the rest of the operand is what does not give back
            have hRest : ¬ ∀ value c'', operation rt disk n OPERATION vRet c₁ =
                .ok (true, value, c'') → releases rt disk n value c'' = true := by
              intro hAll
              rw [(releases_of_read hRead).mpr ⟨hAbandons, hArg, hAll⟩] at hNot
              cases hNot
            have hValue := operation_held hHeld hKnown hAbandons hTop _ _ _ hOp
            rcases hNext with ⟨rfl, hNext⟩ | ⟨rfl, -, -⟩
            · refine ih (Bool.eq_false_iff.mpr fun hAll => hRest ?_) hValue hNext
              intro value' c'' hOp'
              rw [hOp] at hOp'
              cases hOp'
              exact hAll
            · refine absurd ?_ hRest
              intro value' c'' hOp'
              rw [hOp] at hOp'
              cases hOp'

/-! ## Comparisons -/

/-- `GetValue` leaves no registers behind. -/
def operandReleases (rt : Runtime) (disk : Disk) (c : Condition) : Bool :=
  releases rt disk (c.contract.ssCondition.size - c.contract.ssCondition.nReadPos + 1) {} c

/-- A comparison whose operands leave nothing behind, or a left operand of no registers. -/
def evaluationReleases (rt : Runtime) (disk : Disk) (c : Condition) : Bool :=
  operandReleases rt disk c &&
    match c.GetValue rt disk with
    | .error _ => true
    | .ok (fLeft, vLeft, c) =>
        match c.extract UInt8 with
        | .error _ => !fLeft || vLeft.size == 0
        | .ok (OPERATION, c) =>
            if compares OPERATION then operandReleases rt disk c else !fLeft || vLeft.size == 0

theorem GetValue_held (h : operandReleases rt disk c = true) :
    Does (HeldOn c.vm.nPointer) (c.GetValue rt disk) := getValue_held h held_none

theorem GetValue_leaks (h : operandReleases rt disk c = false)
    (hOk : c.GetValue rt disk = .ok (fRet, value, c')) :
    ∃ e, c.vm.nPointer < e ∧ LostOn e fRet value c'.vm := getValue_leaks h held_none hOk

/-- A value that was obtained is freed. -/
def Freed (f : Bool) (value : Value) (vm vm' : BaseVM) : Prop :=
  if f then vm.checkTop value = .ok () ∧ vm' = vm.release value else vm' = vm

theorem HeldOn.free {f : Bool} (h : HeldOn p f value vm) (hFreed : Freed f value vm vm') :
    vm'.nPointer = p := by
  cases f with
  | false =>
      have hSame : vm' = vm := hFreed
      rw [hSame]
      exact h
  | true =>
      obtain ⟨-, rfl⟩ := hFreed
      have hSum := Held.pointer h
      show vm.nPointer - value.size = p
      omega

theorem LostOn.free {f : Bool} (h : LostOn e f value vm) (hFreed : Freed f value vm vm') :
    e ≤ vm'.nPointer := by
  cases f with
  | false =>
      have hSame : vm' = vm := hFreed
      rw [hSame]
      exact h
  | true =>
      obtain ⟨hTop, rfl⟩ := hFreed
      exact Lost.release h hTop

/-- The value below what a second operand took. -/
theorem LostOn.under {f : Bool} (h : LostOn e f value vm) (hPointer : e ≤ vm'.nPointer) :
    LostOn e f value vm' := by
  cases f with
  | false => exact hPointer
  | true => exact ⟨hPointer, Lost.value h⟩

/-- The left operand is left as it is, or a right one is computed and both are freed. -/
def Ends (rt : Runtime) (disk : Disk) (c c' : Condition) : Prop :=
  ∃ fLeft vLeft c₁, c.GetValue rt disk = .ok (fLeft, vLeft, c₁) ∧
    (c'.vm = c₁.vm ∧ (∀ OPERATION c₂, c₁.extract UInt8 = .ok (OPERATION, c₂) →
        compares OPERATION = false) ∨
      ∃ OPERATION c₂ fRight vRight c₃ vm, c₁.extract UInt8 = .ok (OPERATION, c₂) ∧
        compares OPERATION = true ∧ c₂.GetValue rt disk = .ok (fRight, vRight, c₃) ∧
          Freed fRight vRight c₃.vm vm ∧ Freed fLeft vLeft vm c'.vm)

theorem evaluateV1_ends (h : c.evaluateV1 rt disk = .ok (fEvaluate, c')) : Ends rt disk c c' := by
  simp only [evaluateV1, bind_eq_ok, Prod.exists, ite_eq_ok, pure_eq_ok, Prod.mk.injEq,
    deallocate_eq_ok, reject_eq_ok, Bool.not_eq_false] at h
  obtain ⟨fLeft, vLeft, c₁, hLeft, -, rfl, OPERATION, c₂, hRead, h⟩ := h
  refine ⟨true, vLeft, c₁, hLeft, ?_⟩
  rcases h with ⟨hCompares, fRight, vRight, c₃, hRight, -, rfl, vm, hFreeRight, vm', hFreeLeft, -,
    rfl⟩ | ⟨hNot, -, rfl⟩
  · exact .inr ⟨OPERATION, c₂, true, vRight, c₃, vm, hRead, hCompares, hRight, hFreeRight,
      hFreeLeft⟩
  · refine .inl ⟨extract_vm hRead, fun nOP c₃ hRead' => ?_⟩
    rw [hRead] at hRead'
    cases hRead'
    simpa using hNot

theorem free_freed {f : Bool} (h : c.free f value = .ok c') : Freed f value c.vm c'.vm := by
  cases f with
  | false =>
      cases h
      rfl
  | true =>
      simp only [free, if_true, map_eq_ok, deallocate_eq_ok] at h
      obtain ⟨vm, hFreed, rfl⟩ := h
      exact hFreed

theorem evaluateV2_ends (h : c.evaluateV2 rt disk = .ok (fEvaluate, c')) : Ends rt disk c c' := by
  simp only [evaluateV2, bind_eq_ok, Prod.exists, ite_eq_ok, pure_eq_ok, Prod.mk.injEq] at h
  obtain ⟨fLeft, vLeft, c₁, hLeft, h⟩ := h
  refine ⟨fLeft, vLeft, c₁, hLeft, ?_⟩
  rcases h with ⟨hEnd, -, rfl⟩ | ⟨-, OPERATION, c₂, hRead, h⟩
  · refine .inl ⟨rfl, fun nOP c₂ hRead => ?_⟩
    rw [not_atEnd_of_next ⟨c₂, hRead⟩] at hEnd
    cases hEnd
  rcases h with ⟨hCompares, fRight, vRight, c₃, hRight, c₄, hFreeRight, c₅, hFreeLeft, -, rfl⟩ |
    ⟨hNot, -, rfl⟩
  · exact .inr ⟨OPERATION, c₂, fRight, vRight, c₃, c₄.vm, hRead, hCompares, hRight,
      free_freed hFreeRight, free_freed hFreeLeft⟩
  · refine .inl ⟨extract_vm hRead, fun nOP c₃ hRead' => ?_⟩
    rw [hRead] at hRead'
    cases hRead'
    simpa using hNot

/-- Registers that the left operand lost are not freed with the right one. -/
theorem left_leaks {fLeft fRight : Bool} {vLeft vRight : Value} {c₁ c₂ c₃ : Condition}
    (hPos : 0 < e)
    (hLeft : LostOn e fLeft vLeft c₁.vm) (hSame : c₂.vm = c₁.vm)
    (hRight : c₂.GetValue rt disk = .ok (fRight, vRight, c₃))
    (hFreeRight : Freed fRight vRight c₃.vm vm) (hFreeLeft : Freed fLeft vLeft vm vm') :
    e ≤ vm'.nPointer := by
  have hPointer : e ≤ c₂.vm.nPointer := by
    rw [hSame]
    cases fLeft with
    | false => exact hLeft
    | true => exact Lost.pointer hLeft
  have hTaken := getValue_lost hPos (lost_none hPos hPointer) _ _ _ hRight
  exact (hLeft.under (hTaken.free hFreeRight)).free hFreeLeft

/-- Registers that the right operand lost are over the left one. -/
theorem right_leaks {fLeft fRight : Bool} {vLeft vRight : Value} {c₁ c₃ : Condition}
    (hLeft : HeldOn p fLeft vLeft c₁.vm) (hMore : c₁.vm.nPointer < e)
    (hRight : LostOn e fRight vRight c₃.vm)
    (hFreeRight : Freed fRight vRight c₃.vm vm) (hFreeLeft : Freed fLeft vLeft vm vm') :
    p < e ∧ e ≤ vm'.nPointer := by
  have hPointer := hRight.free hFreeRight
  cases fLeft with
  | false =>
      have hLow : c₁.vm.nPointer = p := hLeft
      have hSame : vm' = vm := hFreeLeft
      rw [hSame]
      exact ⟨by omega, hPointer⟩
  | true =>
      obtain ⟨hSum, -, hTop⟩ : Held p vLeft c₁.vm := hLeft
      have hUnder : LostOn e true vLeft vm := ⟨hPointer, .inr (by omega)⟩
      exact ⟨by omega, hUnder.free hFreeLeft⟩

theorem releases_left {fLeft : Bool} {vLeft : Value} {c₁ : Condition}
    (hLeft : c.GetValue rt disk = .ok (fLeft, vLeft, c₁))
    (hNot : ∀ OPERATION c₂, c₁.extract UInt8 = .ok (OPERATION, c₂) → compares OPERATION = false) :
    evaluationReleases rt disk c = (operandReleases rt disk c && (!fLeft || vLeft.size == 0)) := by
  rw [evaluationReleases, hLeft]
  cases hRead : c₁.extract UInt8 with
  | error e => simp only [hRead]
  | ok read =>
      obtain ⟨OPERATION, c₂⟩ := read
      simp [hRead, hNot _ _ hRead]

theorem releases_both {fLeft : Bool} {vLeft : Value} {c₁ c₂ : Condition}
    (hLeft : c.GetValue rt disk = .ok (fLeft, vLeft, c₁))
    (hRead : c₁.extract UInt8 = .ok (OPERATION, c₂)) (hCompares : compares OPERATION = true) :
    evaluationReleases rt disk c = (operandReleases rt disk c && operandReleases rt disk c₂) := by
  rw [evaluationReleases, hLeft]
  simp only [hRead, hCompares, if_true]

/-- A left operand that stays is given back when it takes no registers. -/
theorem left_iff {fLeft : Bool} {vLeft : Value} {c₁ : Condition}
    (hLeft : c.GetValue rt disk = .ok (fLeft, vLeft, c₁)) :
    c₁.vm.nPointer = c.vm.nPointer ↔
      (operandReleases rt disk c && (!fLeft || vLeft.size == 0)) = true := by
  cases hReleases : operandReleases rt disk c with
  | false =>
      obtain ⟨e, hMore, hLost⟩ := GetValue_leaks hReleases hLeft
      have hTaken : e ≤ c₁.vm.nPointer := by
        cases fLeft with
        | false => exact hLost
        | true => exact Lost.pointer hLost
      rw [Bool.false_and]
      constructor
      · intro hSame
        omega
      · intro hFalse
        cases hFalse
  | true =>
      have hTop := GetValue_held hReleases _ _ _ hLeft
      cases fLeft with
      | false =>
          have hSame : c₁.vm.nPointer = c.vm.nPointer := hTop
          simp [hSame]
      | true =>
          have hSum : c₁.vm.nPointer = c.vm.nPointer + vLeft.size := Held.pointer hTop
          rw [Bool.true_and, Bool.not_true, Bool.false_or, beq_iff_eq]
          omega

/-- Two operands are given back when neither leaves anything behind. -/
theorem both_iff {fLeft fRight : Bool} {vLeft vRight : Value} {c₁ c₂ c₃ : Condition}
    (hLeft : c.GetValue rt disk = .ok (fLeft, vLeft, c₁)) (hSame : c₂.vm = c₁.vm)
    (hRight : c₂.GetValue rt disk = .ok (fRight, vRight, c₃))
    (hFreeRight : Freed fRight vRight c₃.vm vm) (hFreeLeft : Freed fLeft vLeft vm vm') :
    vm'.nPointer = c.vm.nPointer ↔
      (operandReleases rt disk c && operandReleases rt disk c₂) = true := by
  cases hReleases : operandReleases rt disk c with
  | false =>
      obtain ⟨e, hMore, hLost⟩ := GetValue_leaks hReleases hLeft
      have hTaken := left_leaks (by omega) hLost hSame hRight hFreeRight hFreeLeft
      rw [Bool.false_and]
      constructor
      · intro hBack
        omega
      · intro hFalse
        cases hFalse
  | true =>
      have hTop := GetValue_held hReleases _ _ _ hLeft
      cases hReleases' : operandReleases rt disk c₂ with
      | false =>
          obtain ⟨e, hMore, hLost⟩ := GetValue_leaks hReleases' hRight
          rw [hSame] at hMore
          obtain ⟨hOver, hTaken⟩ := right_leaks hTop hMore hLost hFreeRight hFreeLeft
          rw [Bool.and_false]
          constructor
          · intro hBack
            omega
          · intro hFalse
            cases hFalse
      | true =>
          have hTop' := GetValue_held hReleases' _ _ _ hRight
          rw [hSame] at hTop'
          have hPointer : vm.nPointer = c₁.vm.nPointer := hTop'.free hFreeRight
          have hUnder : HeldOn c.vm.nPointer fLeft vLeft vm := by
            cases fLeft with
            | false => exact hPointer.trans hTop
            | true => exact Held.congr hTop hPointer
          rw [hUnder.free hFreeLeft]
          simp

/-- A comparison gives back what it took exactly when its operands leave nothing behind. -/
theorem ends_iff (h : Ends rt disk c c') :
    c'.vm.nPointer = c.vm.nPointer ↔ evaluationReleases rt disk c = true := by
  obtain ⟨fLeft, vLeft, c₁, hLeft, hRest⟩ := h
  rcases hRest with ⟨hSame, hNot⟩ | ⟨OPERATION, c₂, fRight, vRight, c₃, vm, hRead, hCompares,
    hRight, hFreeRight, hFreeLeft⟩
  · rw [releases_left hLeft hNot, hSame]
    exact left_iff hLeft
  · rw [releases_both hLeft hRead hCompares]
    exact both_iff hLeft (extract_vm hRead) hRight hFreeRight hFreeLeft

/-- The evaluations that leave the memory pointer at the value it had on entry. -/
theorem pointer_iff (h : c.evaluateV1 rt disk = .ok (fEvaluate, c') ∨
      c.evaluateV2 rt disk = .ok (fEvaluate, c')) :
    c'.vm.nPointer = c.vm.nPointer ↔ evaluationReleases rt disk c = true := by
  rcases h with h | h
  · exact ends_iff (evaluateV1_ends h)
  · exact ends_iff (evaluateV2_ends h)

/-- Conditions in a fresh memory. -/
def comparesAt (vchConditions : List UInt8) : Condition where
  contract := { ssCondition := { vchData := vchConditions } }
  caller := { nVersion := 2 }

/-- The comparison of 3 with 4. -/
def threeIsFour : Condition :=
  comparesAt ([OP.TYPES.UINT64_T] ++ FixedWidth.encode (3 : UInt64) ++
    [OP.EQUALS, OP.TYPES.UINT64_T] ++ FixedWidth.encode (4 : UInt64))

@[irreducible]
def threeIsFourRead : Bool × Condition :=
  (threeIsFour.evaluateV2 exampleRuntime {}).toOption.getD (true, threeIsFour)

theorem pointer_three_is_four :
    threeIsFourRead.2.vm.nPointer = 0 ↔
      evaluationReleases exampleRuntime {} threeIsFour = true := by
  have hRead : threeIsFour.evaluateV2 exampleRuntime {} =
      .ok (threeIsFourRead.1, threeIsFourRead.2) := by
    unfold threeIsFourRead
    exact eq_ok_of_isOk (a := (true, threeIsFour)) (by decide +kernel)
  exact pointer_iff (.inr hRead)

/-- Two literals for the left operand. -/
def literalOfTwo : Condition :=
  comparesAt ([OP.TYPES.UINT64_T] ++ FixedWidth.encode (3 : UInt64) ++
    [OP.TYPES.UINT64_T] ++ FixedWidth.encode (3 : UInt64) ++
    [OP.EQUALS, OP.TYPES.UINT64_T] ++ FixedWidth.encode (3 : UInt64))

/-- The first literal stays in the memory after a comparison that holds. -/
theorem literal_left_behind :
    literalOfTwo.vm.nPointer = 0 ∧ ∃ c',
      literalOfTwo.evaluateV1 exampleRuntime {} = .ok (true, c') ∧
      literalOfTwo.evaluateV2 exampleRuntime {} = .ok (true, c') ∧ c'.vm.nPointer = 1 := by
  refine ⟨rfl, ?_⟩
  have hSame : literalOfTwo.evaluateV1 exampleRuntime {} =
      literalOfTwo.evaluateV2 exampleRuntime {} := by decide +kernel
  have hRun : (literalOfTwo.evaluateV2 exampleRuntime {}).toOption.map
      (fun read => (read.1, read.2.vm.nPointer)) = some (true, 1) := by decide +kernel
  cases hRead : literalOfTwo.evaluateV2 exampleRuntime {} with
  | error e =>
      rw [hRead] at hRun
      cases hRun
  | ok read =>
      obtain ⟨fRet, c'⟩ := read
      rw [hRead] at hRun
      obtain ⟨rfl, hPointer⟩ := Prod.mk.inj (Option.some.inj hRun)
      exact ⟨c', hSame.trans hRead, rfl, hPointer⟩

end Nexus.Safety
