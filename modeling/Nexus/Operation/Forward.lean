import Nexus.Lib.Run
import Nexus.Operation.Condition

/-!
# Conditions move forward

What an operand, a comparison and a turn of `Execute` can change: the cursor of
the condition stream moves forward inside the data, the memory and the cost
change, and the contract, the caller and, but for the turns, the stack of groups
stay.  `unary_rule` says once what the operations of an operand are; every law
about `GetValue` is then a case for each.

## Main results

* `Evaluate.forward`: a comparison reads at least one byte.
* `loop_eq_ok`: the loop of `Execute` is a run of turns to the end of the stream.
-/

namespace Nexus.Operation

open Nexus.Lib
open Nexus.Lib.Bytes
open Nexus.Lib.Checked
open Nexus.Util
open Nexus.Register
open Nexus.LLD

namespace Condition

variable {rt : Runtime} {disk : Disk} {c c' c'' : Condition} {vRet vArg value : Value}
  {fRet fEvaluate : Bool} {OPERATION : UInt8} {n m : Nat} {nCost : UInt64} {strOP : String}

/-! ## Moving forward -/

/-- The condition stream moved forward by `n`. -/
def skip (c : Condition) (n : Nat) : Condition :=
  { c with contract.ssCondition := c.contract.ssCondition.advance n }

/-- The cursor can move `n` bytes forward. -/
def Fits (c : Condition) (n : Nat) : Prop := c.contract.ssCondition.Fits n

/-- The stream moved forward by `n`; the memory and the cost may be others. -/
def Forward (n : Nat) (c c' : Condition) : Prop :=
  c.Fits n ∧ c' = { c.skip n with vm := c'.vm, nCost := c'.nCost }

@[simp] theorem skip_skip : (c.skip n).skip m = c.skip (n + m) := by
  simp [skip]

theorem skip_zero : c.skip 0 = c := rfl

@[simp] theorem fits_skip : (c.skip n).Fits m ↔ c.Fits (n + m) := Stream.fits_advance ..

theorem Fits.mono (h : c.Fits n) (hLe : m ≤ n) : c.Fits m := Stream.Fits.mono h hLe

theorem forward_skip (h : c.Fits n) : Forward n c (c.skip n) := ⟨h, rfl⟩

theorem Forward.fits (h : Forward n c c') (hRest : c'.Fits m) : c.Fits (n + m) := by
  obtain ⟨-, hEq⟩ := h
  rw [hEq] at hRest
  exact (Stream.fits_advance ..).mp hRest

theorem Forward.fits_zero (h : Forward n c c') : c'.Fits 0 := by
  obtain ⟨hFits, hEq⟩ := h
  rw [hEq]
  exact (Stream.fits_advance ..).mpr hFits

theorem Forward.trans (h : Forward n c c') (h' : Forward m c' c'') : Forward (n + m) c c'' := by
  refine ⟨h.fits h'.1, ?_⟩
  obtain ⟨-, hEq⟩ := h
  obtain ⟨-, hEq'⟩ := h'
  rw [hEq', hEq]
  simp only [skip, Stream.advance_advance]

theorem Forward.vEvaluate (h : Forward n c c') : c'.vEvaluate = c.vEvaluate := by
  rw [h.2]
  rfl

theorem Forward.caller (h : Forward n c c') : c'.caller = c.caller := by
  rw [h.2]
  rfl

theorem Forward.ssCondition (h : Forward n c c') :
    c'.contract.ssCondition = c.contract.ssCondition.advance n := by
  rw [h.2]
  rfl

/-! ## Readers -/

section Readers

variable {α : Type} [FixedWidth α]

theorem extract_eq_ok {a : α} :
    c.extract α = .ok (a, c') ↔
      c.Fits (FixedWidth.width α) ∧ a = c.contract.ssCondition.peek α 0 ∧
        c' = c.skip (FixedWidth.width α) := by
  simp only [extract, map_eq_ok, Prod.exists, Stream.extract_eq_ok, Prod.mk.injEq]
  constructor
  · rintro ⟨b, ss, ⟨hFits, rfl, rfl⟩, rfl, rfl⟩
    exact ⟨hFits, rfl, rfl⟩
  · rintro ⟨hFits, rfl, rfl⟩
    exact ⟨_, _, ⟨hFits, rfl, rfl⟩, rfl, rfl⟩

theorem extract_forward {a : α} (h : c.extract α = .ok (a, c')) :
    Forward (FixedWidth.width α) c c' := by
  obtain ⟨hFits, -, rfl⟩ := extract_eq_ok.mp h
  exact forward_skip hFits

theorem extractBytes_skip {vch : List UInt8} (h : c.extractBytes = .ok (vch, c')) :
    ∃ n, c.Fits n ∧ c' = c.skip n := by
  simp only [extractBytes, map_eq_ok, Prod.exists, Prod.mk.injEq] at h
  obtain ⟨vch', ss, hRead, rfl, rfl⟩ := h
  obtain ⟨n, hFits, rfl, -⟩ := Stream.extractBytes_advance hRead
  exact ⟨n, hFits, rfl⟩

theorem extractBytes_forward {vch : List UInt8} (h : c.extractBytes = .ok (vch, c')) :
    ∃ n, Forward n c c' := by
  obtain ⟨n, hFits, rfl⟩ := extractBytes_skip h
  exact ⟨n, forward_skip hFits⟩

/-- Rewinding what was read restores the cursor. -/
theorem rewind_skip (h : c.Fits 0) : (c.skip 1).rewind = .ok c := by
  have hRewind : (c.skip 1).contract.ssCondition.rewind 1 = .ok c.contract.ssCondition :=
    Stream.rewind_advance h
  rw [rewind, hRewind]
  rfl

theorem atEnd_iff (h : c.Fits 0) : c.atEnd = false ↔ c.Fits 1 := by
  have hLe : c.contract.ssCondition.nReadPos ≤ c.contract.ssCondition.size := h
  simp only [atEnd, Stream.atEnd, beq_eq_false_iff_ne, Fits, Stream.Fits]
  omega

end Readers

/-! ## The operations of an operand -/

/-- The result is in a condition that moved forward. -/
def Ahead (c : Condition) (operand : Result Operand) : Prop :=
  ∀ fRet value c', operand = .ok (fRet, value, c') → ∃ n, Forward n c c'

/-- The operation puts a value of its own into the memory, and does not free the result so far. -/
def allocates (OPERATION : UInt8) : Bool :=
  OPERATION ∈ [OP.TYPES.UINT8_T, OP.TYPES.UINT16_T, OP.TYPES.UINT32_T, OP.TYPES.UINT64_T,
    OP.TYPES.UINT256_T, OP.TYPES.UINT512_T, OP.TYPES.UINT1024_T, OP.TYPES.STRING, OP.TYPES.BYTES,
    OP.CALLER.PRESTATE.MODIFIED, OP.CALLER.PRESTATE.CREATED, OP.CALLER.PRESTATE.OWNER,
    OP.CALLER.PRESTATE.TYPE, OP.CALLER.PRESTATE.STATE, OP.CALLER.PRESTATE.VALUE,
    OP.CALLER.GENESIS, OP.CALLER.TIMESTAMP, OP.CALLER.OPERATIONS, OP.CONTRACT.GENESIS,
    OP.CONTRACT.TIMESTAMP, OP.CONTRACT.OPERATIONS, OP.LEDGER.HEIGHT, OP.LEDGER.SUPPLY,
    OP.LEDGER.TIMESTAMP]

theorem branch_rule {β : Type} {p : Prop} [Decidable p] {P : β → Prop} {a b : β} {o : Option β}
    (hHead : p → P a) (hRest : o = some b → P b) (h : (if p then some a else o) = some b) :
    P b := by
  split at h
  next hTaken =>
    rw [← Option.some.inj h]
    exact hHead hTaken
  next => exact hRest h

/-- Any law of the operations that work on the result so far is a case for each kind. -/
theorem unary_rule {P : Result Operand → Prop}
    (hIncrement : OPERATION = OP.INC → P (increment OP.INC 1 0 vRet c))
    (hDecrement : OPERATION = OP.DEC →
      P (increment OP.DEC 0xffffffffffffffff 0xffffffffffffffff vRet c))
    (hSubdata : OPERATION = OP.SUBDATA → P (subdata rt vRet c))
    (hLiteral : ∀ (α : Type) [FixedWidth α] strOP, allocates OPERATION = true →
      P (literal α strOP c))
    (hLiteralBytes : ∀ strOP strEmpty, allocates OPERATION = true →
      P (literalBytes strOP strEmpty c))
    (hRegisterField : ∀ (α : Type) [FixedWidth α] strOP (f : State → α) (nCost : UInt64),
      FixedWidth.width α ≤ nCost.toNat → allocates OPERATION = false →
        P (registerField α disk strOP f nCost vRet c))
    (hCallerField : ∀ (α : Type) [FixedWidth α] strOP (f : State → α) (nCost : UInt64),
      FixedWidth.width α ≤ nCost.toNat → allocates OPERATION = true →
        P (callerField α strOP f nCost c))
    (hRegisterData : allocates OPERATION = false → P (registerData disk vRet c))
    (hCallerData : OPERATION = OP.CALLER.PRESTATE.STATE → P (callerData c))
    (hRegisterValue : allocates OPERATION = false → P (registerValue disk vRet c))
    (hCallerValue : allocates OPERATION = true → P (callerValue vRet c))
    (hLoad : ∀ (α : Type) [FixedWidth α] strOP (a : α) (nCost : UInt64),
      FixedWidth.width α ≤ nCost.toNat → allocates OPERATION = true → P (load α strOP a nCost c))
    (hContractOperations : OPERATION = OP.CONTRACT.OPERATIONS → P (contractOperations vRet c))
    (hCallerOperations : OPERATION = OP.CALLER.OPERATIONS → P (callerOperations vRet c))
    (hCrypto : ∀ (α : Type) [FixedWidth α] strOP (hash : List UInt8 → α),
      allocates OPERATION = false → P (crypto α strOP hash vRet c))
    {operand : Result Operand} (h : unary rt disk OPERATION vRet c = some operand) :
    P operand := by
  revert h
  unfold unary
  refine branch_rule hIncrement <| branch_rule hDecrement <| branch_rule hSubdata ?_
  refine branch_rule (fun hOp => hLiteral _ _ (by rw [hOp]; decide)) ?_
  refine branch_rule (fun hOp => hLiteral _ _ (by rw [hOp]; decide)) ?_
  refine branch_rule (fun hOp => hLiteral _ _ (by rw [hOp]; decide)) ?_
  refine branch_rule (fun hOp => hLiteral _ _ (by rw [hOp]; decide)) ?_
  refine branch_rule (fun hOp => hLiteral _ _ (by rw [hOp]; decide)) ?_
  refine branch_rule (fun hOp => hLiteral _ _ (by rw [hOp]; decide)) ?_
  refine branch_rule (fun hOp => hLiteral _ _ (by rw [hOp]; decide)) ?_
  refine branch_rule (fun hOp => hLiteralBytes _ _ (by rw [hOp]; decide)) ?_
  refine branch_rule (fun hOp => hLiteralBytes _ _ (by rw [hOp]; decide)) ?_
  refine branch_rule (fun hOp => hRegisterField _ _ _ _ (by decide) (by rw [hOp]; decide)) ?_
  refine branch_rule (fun hOp => hCallerField _ _ _ _ (by decide) (by rw [hOp]; decide)) ?_
  refine branch_rule (fun hOp => hRegisterField _ _ _ _ (by decide) (by rw [hOp]; decide)) ?_
  refine branch_rule (fun hOp => hCallerField _ _ _ _ (by decide) (by rw [hOp]; decide)) ?_
  refine branch_rule (fun hOp => hRegisterField _ _ _ _ (by decide) (by rw [hOp]; decide)) ?_
  refine branch_rule (fun hOp => hCallerField _ _ _ _ (by decide) (by rw [hOp]; decide)) ?_
  refine branch_rule (fun hOp => hRegisterField _ _ _ _ (by decide) (by rw [hOp]; decide)) ?_
  refine branch_rule (fun hOp => hCallerField _ _ _ _ (by decide) (by rw [hOp]; decide)) ?_
  refine branch_rule (fun hOp => hRegisterData (by rw [hOp]; decide)) <| branch_rule hCallerData ?_
  refine branch_rule (fun hOp => hRegisterValue (by rw [hOp]; decide)) ?_
  refine branch_rule (fun hOp => hCallerValue (by rw [hOp]; decide)) ?_
  refine branch_rule (fun hOp => hLoad _ _ _ _ (by decide) (by rw [hOp]; decide)) ?_
  refine branch_rule (fun hOp => hLoad _ _ _ _ (by decide) (by rw [hOp]; decide)) ?_
  refine branch_rule (fun hOp => hLoad _ _ _ _ (by decide) (by rw [hOp]; decide)) ?_
  refine branch_rule (fun hOp => hLoad _ _ _ _ (by decide) (by rw [hOp]; decide)) ?_
  refine branch_rule hContractOperations <| branch_rule hCallerOperations ?_
  refine branch_rule (fun hOp => hLoad _ _ _ _ (by decide) (by rw [hOp]; decide)) ?_
  refine branch_rule (fun hOp => hLoad _ _ _ _ (by decide) (by rw [hOp]; decide)) ?_
  refine branch_rule (fun hOp => hLoad _ _ _ _ (by decide) (by rw [hOp]; decide)) ?_
  refine branch_rule (fun hOp => hCrypto _ _ _ (by rw [hOp]; decide)) ?_
  refine branch_rule (fun hOp => hCrypto _ _ _ (by rw [hOp]; decide)) ?_
  intro h
  cases h

theorem choice_rule {β : Type} {p : Prop} [Decidable p] {P : β → Prop} {a b : β}
    (hHead : P a) (hRest : P b) : P (if p then a else b) := by
  split
  · exact hHead
  · exact hRest

/-- Any law of the fields of an object is a case for each kind. -/
theorem fieldValue_rule {P : Result Operand → Prop} {object : Object} {strName : List UInt8}
    {nType : UInt8}
    (hField : ∀ (α : Type) [FieldType α] strOP, P (field α strOP object strName vRet c))
    (hFieldBytes : ∀ strOP nType, P (fieldBytes strOP nType object strName vRet c))
    (hNone : P (.ok (false, vRet, c))) : P (fieldValue object strName nType vRet c) := by
  unfold fieldValue
  refine choice_rule (hField ..) <| choice_rule (hField ..) <| choice_rule (hField ..) ?_
  refine choice_rule (hField ..) <| choice_rule (hField ..) <| choice_rule (hField ..) ?_
  exact choice_rule (hField ..) <| choice_rule (hFieldBytes ..) <|
    choice_rule (hFieldBytes ..) hNone

/-! ## Operands move forward -/

section Operands

variable {α : Type} [FixedWidth α]

theorem forward_memory (h : c.Fits 0) (vm : BaseVM) (nCost : UInt64) :
    Forward 0 c { c with vm, nCost } := ⟨h, rfl⟩

theorem spend_forward (hFits : c.Fits 0) (h : c.spend strOP nCost = .ok c') : Forward 0 c c' := by
  simp only [spend, bind_eq_ok, pure_eq_ok] at h
  obtain ⟨-, -, rfl⟩ := h
  exact forward_memory hFits ..

theorem double_forward (hFits : c.Fits 0) (h : c.double strOP nCost = .ok c') :
    Forward 0 c c' := by
  simp only [double, bind_eq_ok, pure_eq_ok] at h
  obtain ⟨-, -, rfl⟩ := h
  exact forward_memory hFits ..

theorem push_forward {a : α} (hFits : c.Fits 0) (h : c.push α a = .ok (value, c')) :
    Forward 0 c c' := by
  simp only [push, map_eq_ok, Prod.exists, Prod.mk.injEq] at h
  obtain ⟨v, vm, -, rfl, rfl⟩ := h
  exact forward_memory hFits ..

theorem pushBytes_forward {vch : List UInt8} (hFits : c.Fits 0)
    (h : c.pushBytes vch = .ok (value, c')) : Forward 0 c c' := by
  simp only [pushBytes, map_eq_ok, Prod.exists, Prod.mk.injEq] at h
  obtain ⟨v, vm, -, rfl, rfl⟩ := h
  exact forward_memory hFits ..

theorem load_ahead {a : α} (hFits : c.Fits 0) : Ahead c (load α strOP a nCost c) := by
  intro fRet value c' h
  simp only [load, bind_eq_ok, Prod.exists, pure_eq_ok, Prod.mk.injEq] at h
  obtain ⟨v, c₁, hPush, c₂, hSpend, -, -, rfl⟩ := h
  have hFirst := push_forward hFits hPush
  exact ⟨_, hFirst.trans (spend_forward hFirst.fits_zero hSpend)⟩

theorem loadBytes_ahead {vch : List UInt8} (hFits : c.Fits 0) :
    Ahead c (loadBytes strOP vch nCost c) := by
  intro fRet value c' h
  simp only [loadBytes, bind_eq_ok, Prod.exists, pure_eq_ok, Prod.mk.injEq] at h
  obtain ⟨v, c₁, hPush, c₂, hSpend, -, -, rfl⟩ := h
  have hFirst := pushBytes_forward hFits hPush
  exact ⟨_, hFirst.trans (spend_forward hFirst.fits_zero hSpend)⟩

/-- What follows a move forward. -/
theorem Ahead.after {operand : Result Operand} (h : Ahead c' operand) (hFirst : Forward n c c') :
    Ahead c operand := by
  intro fRet value c'' hOk
  obtain ⟨m, hRest⟩ := h _ _ _ hOk
  exact ⟨n + m, hFirst.trans hRest⟩

/-- The lookup failed, or there is nothing to do. -/
theorem ahead_here (hFits : c.Fits 0) : Ahead c (.ok (fRet, vRet, c)) := by
  intro f v c' h
  cases h
  exact ⟨0, forward_skip hFits⟩

theorem increment_ahead {nLimit k : UInt64} (hFits : c.Fits 0) :
    Ahead c (increment OPERATION k nLimit vRet c) := by
  intro fRet value c' h
  simp only [increment, bind_eq_ok, pure_eq_ok, Prod.mk.injEq] at h
  obtain ⟨-, -, -, -, c₁, hSpend, -, -, rfl⟩ := h
  have hFirst := forward_memory hFits (c.vm.setAt vRet (c.vm.at_ vRet + k)) c.nCost
  exact ⟨_, hFirst.trans (spend_forward hFirst.fits_zero hSpend)⟩

theorem subdata_ahead : Ahead c (subdata rt vRet c) := by
  intro fRet value c' h
  simp only [subdata, bind_eq_ok, Prod.exists] at h
  obtain ⟨nBegin, c₁, hBegin, nSize, c₂, hSize, vData, vm, -, hLoad⟩ := h
  have hFirst := (extract_forward hBegin).trans (extract_forward hSize)
  have hFreed := hFirst.trans (forward_memory hFirst.fits_zero vm c₂.nCost)
  exact (loadBytes_ahead hFreed.fits_zero).after hFreed _ _ _ hLoad

theorem literal_ahead : Ahead c (literal α strOP c) := by
  intro fRet value c' h
  simp only [literal, bind_eq_ok, Prod.exists] at h
  obtain ⟨a, c₁, hRead, hLoad⟩ := h
  have hFirst := extract_forward hRead
  exact (load_ahead hFirst.fits_zero).after hFirst _ _ _ hLoad

theorem literalBytes_ahead {strEmpty : String} : Ahead c (literalBytes strOP strEmpty c) := by
  intro fRet value c' h
  simp only [literalBytes, bind_eq_ok, Prod.exists] at h
  obtain ⟨vch, c₁, hRead, -, -, hLoad⟩ := h
  obtain ⟨n, hFirst⟩ := extractBytes_forward hRead
  exact (loadBytes_ahead hFirst.fits_zero).after hFirst _ _ _ hLoad

theorem registerState_forward {stateOpt : Option State} (hFits : c.Fits 0)
    (h : c.registerState disk vRet = .ok (stateOpt, c')) : Forward 0 c c' := by
  simp only [registerState, bind_eq_ok, Prod.exists, pure_eq_ok, Prod.mk.injEq] at h
  obtain ⟨hashRegister, vm, -, -, rfl⟩ := h
  exact forward_memory hFits ..

theorem registerField_ahead {f : State → α} (hFits : c.Fits 0) :
    Ahead c (registerField α disk strOP f nCost vRet c) := by
  intro fRet value c' h
  simp only [registerField, bind_eq_ok, Prod.exists] at h
  obtain ⟨stateOpt, c₁, hState, h⟩ := h
  have hFirst := registerState_forward hFits hState
  cases stateOpt with
  | none => exact (ahead_here hFirst.fits_zero).after hFirst _ _ _ h
  | some state =>
      simp only [bind_eq_ok, Prod.exists, pure_eq_ok, Prod.mk.injEq] at h
      obtain ⟨c₂, hSpend, v, c₃, hPush, -, -, rfl⟩ := h
      have hPaid := hFirst.trans (spend_forward hFirst.fits_zero hSpend)
      exact ⟨_, hPaid.trans (push_forward hPaid.fits_zero hPush)⟩

theorem registerData_ahead (hFits : c.Fits 0) : Ahead c (registerData disk vRet c) := by
  intro fRet value c' h
  simp only [registerData, bind_eq_ok, Prod.exists] at h
  obtain ⟨stateOpt, c₁, hState, h⟩ := h
  have hFirst := registerState_forward hFits hState
  cases stateOpt with
  | none => exact (ahead_here hFirst.fits_zero).after hFirst _ _ _ h
  | some state =>
      simp only [bind_eq_ok, Prod.exists, pure_eq_ok, Prod.mk.injEq] at h
      obtain ⟨c₂, hSpend, v, c₃, hPush, -, -, rfl⟩ := h
      have hPaid := hFirst.trans (spend_forward hFirst.fits_zero hSpend)
      exact ⟨_, hPaid.trans (pushBytes_forward hPaid.fits_zero hPush)⟩

theorem callerField_ahead {f : State → α} (hFits : c.Fits 0) :
    Ahead c (callerField α strOP f nCost c) := by
  intro fRet value c' h
  simp only [callerField, bind_eq_ok, Prod.exists, pure_eq_ok, Prod.mk.injEq] at h
  obtain ⟨state, -, c₁, hSpend, v, c₂, hPush, -, -, rfl⟩ := h
  have hFirst := spend_forward hFits hSpend
  exact ⟨_, hFirst.trans (push_forward hFirst.fits_zero hPush)⟩

theorem callerData_ahead (hFits : c.Fits 0) : Ahead c (callerData c) := by
  intro fRet value c' h
  simp only [callerData, bind_eq_ok, Prod.exists, pure_eq_ok, Prod.mk.injEq] at h
  obtain ⟨state, -, c₁, hSpend, v, c₂, hPush, -, -, rfl⟩ := h
  have hFirst := double_forward hFits hSpend
  exact ⟨_, hFirst.trans (pushBytes_forward hFirst.fits_zero hPush)⟩

theorem field_ahead {β : Type} [FieldType β] {object : Object} {strName : List UInt8}
    (hFits : c.Fits 0) : Ahead c (field β strOP object strName vRet c) := by
  intro fRet value c' h
  simp only [field, bind_eq_ok] at h
  obtain ⟨nValue, -, h⟩ := h
  cases nValue with
  | none => exact ahead_here hFits _ _ _ h
  | some nValue => exact load_ahead hFits _ _ _ h

theorem fieldBytes_ahead {object : Object} {nType : UInt8} {strName : List UInt8}
    (hFits : c.Fits 0) : Ahead c (fieldBytes strOP nType object strName vRet c) := by
  intro fRet value c' h
  simp only [fieldBytes, bind_eq_ok] at h
  obtain ⟨vData, -, h⟩ := h
  cases vData with
  | none => exact ahead_here hFits _ _ _ h
  | some vData => exact loadBytes_ahead hFits _ _ _ h

theorem fieldValue_ahead {object : Object} {strName : List UInt8} {nType : UInt8}
    (hFits : c.Fits 0) : Ahead c (fieldValue object strName nType vRet c) :=
  fieldValue_rule (fun _ _ _ => field_ahead hFits) (fun _ _ => fieldBytes_ahead hFits)
    (ahead_here hFits)

theorem objectValue_ahead {state : State} : Ahead c (objectValue state vRet c) := by
  intro fRet value c' h
  simp only [objectValue, bind_eq_ok, Prod.exists, ite_eq_ok] at h
  obtain ⟨strValue, c₁, hRead, h⟩ := h
  obtain ⟨n, hFirst⟩ := extractBytes_forward hRead
  have hHere (fRet : Bool) : Ahead c (.ok (fRet, vRet, c₁)) :=
    (ahead_here hFirst.fits_zero).after hFirst
  rcases h with ⟨-, h⟩ | ⟨-, object, -, h⟩
  · exact hHere _ _ _ _ h
  · cases object with
    | none => exact hHere _ _ _ _ h
    | some object =>
        simp only [bind_eq_ok] at h
        obtain ⟨nType, -, h⟩ := h
        cases nType with
        | none => exact hHere _ _ _ _ h
        | some nType => exact (fieldValue_ahead hFirst.fits_zero).after hFirst _ _ _ h

theorem registerValue_ahead (hFits : c.Fits 0) : Ahead c (registerValue disk vRet c) := by
  intro fRet value c' h
  simp only [registerValue, bind_eq_ok, Prod.exists] at h
  obtain ⟨stateOpt, c₁, hState, h⟩ := h
  have hFirst := registerState_forward hFits hState
  cases stateOpt with
  | none => exact (ahead_here hFirst.fits_zero).after hFirst _ _ _ h
  | some state =>
      simp only [bind_eq_ok] at h
      obtain ⟨c₂, hSpend, h⟩ := h
      have hPaid := hFirst.trans (spend_forward hFirst.fits_zero hSpend)
      exact objectValue_ahead.after hPaid _ _ _ h

theorem callerValue_ahead : Ahead c (callerValue vRet c) := by
  intro fRet value c' h
  simp only [callerValue, bind_eq_ok] at h
  obtain ⟨state, -, h⟩ := h
  exact objectValue_ahead _ _ _ h

theorem operations_ahead {vBytes : List UInt8} (hFits : c.Fits 0) :
    Ahead c (operations strOP vBytes vRet c) := by
  unfold operations
  split_ifs
  · exact ahead_here hFits
  · intro fRet value c' h
    simp only [bind_eq_ok, Prod.exists, pure_eq_ok, Prod.mk.injEq] at h
    obtain ⟨v, c₁, hPush, c₂, hSpend, -, -, rfl⟩ := h
    have hFirst := pushBytes_forward hFits hPush
    exact ⟨_, hFirst.trans (double_forward hFirst.fits_zero hSpend)⟩

theorem contractOperations_ahead (hFits : c.Fits 0) : Ahead c (contractOperations vRet c) := by
  intro fRet value c' h
  simp only [contractOperations, bind_eq_ok] at h
  obtain ⟨-, -, h⟩ := h
  exact operations_ahead hFits _ _ _ h

theorem crypto_ahead {hash : List UInt8 → α} (hFits : c.Fits 0) :
    Ahead c (crypto α strOP hash vRet c) := by
  intro fRet value c' h
  simp only [crypto, bind_eq_ok] at h
  obtain ⟨-, -, vm, -, h⟩ := h
  have hFirst := forward_memory hFits vm c.nCost
  exact (load_ahead hFirst.fits_zero).after hFirst _ _ _ h

theorem unary_ahead {operand : Result Operand} (hFits : c.Fits 0)
    (h : unary rt disk OPERATION vRet c = some operand) : Ahead c operand :=
  unary_rule (P := Ahead c) (fun _ => increment_ahead hFits) (fun _ => increment_ahead hFits)
    (fun _ => subdata_ahead)
    (fun _ _ _ _ => literal_ahead) (fun _ _ _ => literalBytes_ahead)
    (fun _ _ _ _ _ _ _ => registerField_ahead hFits)
    (fun _ _ _ _ _ _ _ => callerField_ahead hFits) (fun _ => registerData_ahead hFits)
    (fun _ => callerData_ahead hFits) (fun _ => registerValue_ahead hFits)
    (fun _ => callerValue_ahead) (fun _ _ _ _ _ _ _ => load_ahead hFits)
    (fun _ => contractOperations_ahead hFits) (fun _ => operations_ahead hFits)
    (fun _ _ _ _ _ => crypto_ahead hFits) h

theorem arithmetic_ahead (hFits : c.Fits 0) : Ahead c (arithmetic OPERATION vRet vArg c) := by
  intro fRet value c' h
  simp only [arithmetic, bind_eq_ok, pure_eq_ok, Prod.mk.injEq] at h
  obtain ⟨-, -, vm, -, vm', -, c₁, hSpend, -, -, rfl⟩ := h
  have hFirst := forward_memory hFits vm' c.nCost
  exact ⟨_, hFirst.trans (spend_forward hFirst.fits_zero hSpend)⟩

theorem cat_ahead (hFits : c.Fits 0) : Ahead c (cat vRet vArg c) := by
  intro fRet value c' h
  simp only [cat, bind_eq_ok] at h
  obtain ⟨vm, -, vm', -, h⟩ := h
  have hFirst := forward_memory hFits vm' c.nCost
  exact (loadBytes_ahead hFirst.fits_zero).after hFirst _ _ _ h

end Operands

/-! ## Comparisons and turns -/

/-- One operation of an operand, in a turn of `GetValue` with `n` more to go. -/
def operation (rt : Runtime) (disk : Disk) (n : Nat) (OPERATION : UInt8) (vRet : Value)
    (c : Condition) : Result Operand :=
  if binary OPERATION then do
    let (fArg, vArg, c) ← getValue rt disk n {} c
    if !fArg then .ok (false, vRet, c)
    else if OPERATION = OP.CAT then cat vRet vArg c
    else arithmetic OPERATION vRet vArg c
  else (unary rt disk OPERATION vRet c).getD (.ok (false, vRet, c))

/-- A turn of `GetValue` is one operation, or the end of the operand. -/
theorem getValue_succ :
    getValue rt disk (n + 1) vRet c =
      if c.atEnd then .ok (true, vRet, c)
      else do
        let (OPERATION, c₁) ← c.extract UInt8
        if binary OPERATION = true ∨ (unary rt disk OPERATION vRet c₁).isSome = true then do
          let (fRet, vRet, c) ← operation rt disk n OPERATION vRet c₁
          if fRet then getValue rt disk n vRet c else .ok (false, vRet, c)
        else do
          let c ← c₁.rewind
          return (true, vRet, c) := by
  rw [getValue]
  by_cases hEnd : c.atEnd = true
  · rw [if_pos hEnd, if_pos hEnd]
  rw [if_neg hEnd, if_neg hEnd]
  cases c.extract UInt8 with
  | error e => rfl
  | ok read =>
      obtain ⟨OPERATION, c₁⟩ := read
      simp only [ok_bind, operation]
      by_cases hBinary : binary OPERATION = true
      · simp only [hBinary, if_true, true_or]
        cases getValue rt disk n {} c₁ with
        | error e => rfl
        | ok arg =>
            obtain ⟨fArg, vArg, c₂⟩ := arg
            cases fArg with
            | false => rfl
            | true => by_cases hCat : OPERATION = OP.CAT <;> simp [hCat]
      · simp only [hBinary, Bool.false_eq_true, if_false, false_or]
        cases unary rt disk OPERATION vRet c₁ <;> rfl

theorem operation_ahead (hFits : c.Fits 0)
    (hArg : Ahead c (getValue rt disk n {} c))
    (hKnown : binary OPERATION = true ∨ (unary rt disk OPERATION vRet c).isSome = true) :
    Ahead c (operation rt disk n OPERATION vRet c) := by
  by_cases hBinary : binary OPERATION = true
  · intro fRet value c' h
    simp only [operation, hBinary, if_true, bind_eq_ok, Prod.exists, ite_eq_ok] at h
    obtain ⟨fArg, vArg, c₁, hRead, h⟩ := h
    obtain ⟨k, hMove⟩ := hArg _ _ _ hRead
    rcases h with ⟨-, h⟩ | ⟨-, ⟨-, h⟩ | ⟨-, h⟩⟩
    · exact (ahead_here hMove.fits_zero).after hMove _ _ _ h
    · exact (cat_ahead hMove.fits_zero).after hMove _ _ _ h
    · exact (arithmetic_ahead hMove.fits_zero).after hMove _ _ _ h
  · obtain ⟨operand, hUnary⟩ := Option.isSome_iff_exists.mp (hKnown.resolve_left hBinary)
    rw [operation, if_neg hBinary, hUnary, Option.getD_some]
    exact unary_ahead hFits hUnary

theorem getValue_ahead (hFits : c.Fits 0) : Ahead c (getValue rt disk n vRet c) := by
  induction n generalizing vRet c with
  | zero =>
      intro fRet value c' h
      cases h
  | succ n ih =>
      intro fRet value c' h
      simp only [getValue_succ, ite_eq_ok, bind_eq_ok, Prod.exists, pure_eq_ok,
        Prod.mk.injEq] at h
      rcases h with ⟨-, h⟩ | ⟨-, OPERATION, c₁, hRead, ⟨hKnown, f, v, c₂, hOp, hNext⟩ |
        ⟨-, c₂, hRewind, -, -, rfl⟩⟩
      · exact ahead_here hFits _ _ _ h
      · have hFirst := extract_forward hRead
        obtain ⟨k, hMove⟩ := (operation_ahead hFirst.fits_zero (ih hFirst.fits_zero) hKnown).after
          hFirst _ _ _ hOp
        rcases hNext with ⟨-, hNext⟩ | ⟨-, hNext⟩
        · exact (ih hMove.fits_zero).after hMove _ _ _ hNext
        · exact (ahead_here hMove.fits_zero).after hMove _ _ _ hNext
      · obtain ⟨-, -, rfl⟩ := extract_eq_ok.mp hRead
        rw [width_uint8, rewind_skip hFits] at hRewind
        cases hRewind
        exact ⟨0, forward_skip hFits⟩

theorem GetValue_ahead (hFits : c.Fits 0) : Ahead c (c.GetValue rt disk) := getValue_ahead hFits

theorem free_forward (hFits : c.Fits 0) (h : c.free fRet value = .ok c') : Forward 0 c c' := by
  simp only [free, ite_eq_ok, map_eq_ok] at h
  rcases h with ⟨-, vm, -, rfl⟩ | ⟨-, h⟩
  · exact forward_memory hFits ..
  · cases h
    exact forward_skip hFits

/-- A comparison reads its operation. -/
theorem evaluateV1_forward (hFits : c.Fits 0)
    (h : c.evaluateV1 rt disk = .ok (fEvaluate, c')) : ∃ n, 0 < n ∧ Forward n c c' := by
  simp only [evaluateV1, bind_eq_ok, Prod.exists, ite_eq_ok, pure_eq_ok, Prod.mk.injEq] at h
  obtain ⟨fLeft, vLeft, c₁, hLeft, -, -, OPERATION, c₂, hRead, h⟩ := h
  obtain ⟨n, hFirst⟩ := GetValue_ahead hFits _ _ _ hLeft
  have hOp : Forward (n + 1) c c₂ := hFirst.trans (extract_forward hRead)
  rcases h with ⟨-, fRight, vRight, c₃, hRight, -, -, vm, -, vm', -, -, rfl⟩ | ⟨-, -, rfl⟩
  · obtain ⟨m, hSecond⟩ := GetValue_ahead hOp.fits_zero _ _ _ hRight
    have hAll := (hOp.trans hSecond).trans (forward_memory hSecond.fits_zero vm' c₃.nCost)
    exact ⟨_, by omega, hAll⟩
  · exact ⟨_, Nat.succ_pos n, hOp⟩

/-- At the end of the stream the left operand was read. -/
theorem evaluateV2_forward (hFits : c.Fits 1)
    (h : c.evaluateV2 rt disk = .ok (fEvaluate, c')) : ∃ n, 0 < n ∧ Forward n c c' := by
  simp only [evaluateV2, bind_eq_ok, Prod.exists, ite_eq_ok, pure_eq_ok, Prod.mk.injEq] at h
  obtain ⟨fLeft, vLeft, c₁, hLeft, h⟩ := h
  obtain ⟨n, hFirst⟩ := GetValue_ahead (hFits.mono (Nat.zero_le _)) _ _ _ hLeft
  rcases h with ⟨hEnd, -, rfl⟩ | ⟨-, OPERATION, c₂, hRead, h⟩
  · refine ⟨n, ?_, hFirst⟩
    by_contra hZero
    obtain rfl : n = 0 := by omega
    have hMore : c₁.Fits 1 := by
      rw [hFirst.2]
      exact hFits
    rw [(atEnd_iff hFirst.fits_zero).mpr hMore] at hEnd
    cases hEnd
  have hOp : Forward (n + 1) c c₂ := hFirst.trans (extract_forward hRead)
  rcases h with ⟨-, fRight, vRight, c₃, hRight, c₄, hFreeRight, c₅, hFreeLeft, -, rfl⟩ | ⟨-, -, rfl⟩
  · obtain ⟨m, hSecond⟩ := GetValue_ahead hOp.fits_zero _ _ _ hRight
    have hFreed := hSecond.trans (free_forward hSecond.fits_zero hFreeRight)
    have hAll := (hOp.trans hFreed).trans (free_forward hFreed.fits_zero hFreeLeft)
    exact ⟨_, by omega, hAll⟩
  · exact ⟨_, Nat.succ_pos n, hOp⟩

/-- The transaction version of the caller is one that `Evaluate` knows. -/
def Known (caller : Contract) : Prop := caller.nVersion = 1 ∨ caller.nVersion = 2

/-- A comparison reads at least one byte, when the version is known. -/
theorem Evaluate_forward (hFits : c.Fits 1) (hKnown : Known c.caller)
    (h : c.Evaluate rt disk = .ok (fEvaluate, c')) : ∃ n, 0 < n ∧ Forward n c c' := by
  simp only [Evaluate, ite_eq_ok] at h
  rcases h with ⟨-, h⟩ | ⟨hNotOne, ⟨-, h⟩ | ⟨hNotTwo, -⟩⟩
  · exact evaluateV1_forward (hFits.mono (Nat.zero_le _)) h
  · exact evaluateV2_forward hFits h
  · exact absurd hKnown (not_or.mpr ⟨hNotOne, hNotTwo⟩)

/-- With an unknown version nothing is read. -/
theorem Evaluate_unknown (hUnknown : ¬ Known c.caller) : c.Evaluate rt disk = .ok (false, c) := by
  obtain ⟨hNotOne, hNotTwo⟩ := not_or.mp hUnknown
  rw [Evaluate, if_neg hNotOne, if_neg hNotTwo]

/-! ## Turns -/

/-- The operation at the cursor. -/
def Next (c : Condition) (OPERATION : UInt8) : Prop := ∃ c₁, c.extract UInt8 = .ok (OPERATION, c₁)

/-- A turn of the loop of `Execute`, with the operation that it reads. -/
def Turn (rt : Runtime) (disk : Disk) (c : Condition) (OPERATION : UInt8) (c' : Condition) : Prop :=
  c.Next OPERATION ∧ c.step rt disk = .ok c'

/-- The operation is for the stack of groups, and not of a comparison. -/
def grouping (OPERATION : UInt8) : Bool :=
  OPERATION ∈ [OP.GROUP, OP.UNGROUP, OP.AND, OP.OR]

theorem extract_of_next (h : c.Next OPERATION) :
    c.Fits 1 ∧ c.extract UInt8 = .ok (OPERATION, c.skip 1) := by
  obtain ⟨c₁, hRead⟩ := h
  obtain ⟨hFits, rfl, rfl⟩ := extract_eq_ok.mp hRead
  exact ⟨hFits, hRead⟩

theorem not_atEnd_of_next (h : c.Next OPERATION) : c.atEnd = false := by
  obtain ⟨hFits, -⟩ := extract_of_next h
  exact (atEnd_iff (hFits.mono (Nat.zero_le _))).mpr hFits

theorem step_group (h : c.Next OP.GROUP) :
    c.step rt disk =
      spend "OP::GROUP" 128 { c.skip 1 with vEvaluate := (false, OP.RESERVED) :: c.vEvaluate } := by
  rw [step, (extract_of_next h).2]
  rfl

theorem step_ungroup (h : c.Next OP.UNGROUP) :
    c.step rt disk =
      (ungroup c.vEvaluate).map fun vEvaluate => { c.skip 1 with vEvaluate } := by
  rw [step, (extract_of_next h).2]
  rfl

theorem step_and (h : c.Next OP.AND) :
    c.step rt disk =
      (connect OP.AND OP.OR "cannot evaluate OP::AND with previous OP::OR" c.vEvaluate).map
        fun vEvaluate => { c.skip 1 with vEvaluate } := by
  rw [step, (extract_of_next h).2]
  rfl

theorem step_or (h : c.Next OP.OR) :
    c.step rt disk =
      (connect OP.OR OP.AND "cannot evaluate OP::OR with previous OP::AND" c.vEvaluate).map
        fun vEvaluate => { c.skip 1 with vEvaluate } := by
  rw [step, (extract_of_next h).2]
  rfl

/-- The operation of a comparison is read again by the comparison. -/
theorem step_evaluate (h : c.Next OPERATION) (hNot : grouping OPERATION = false)
    (hStack : c.vEvaluate ≠ []) :
    c.step rt disk = (do
      let (fEvaluate, c) ← c.Evaluate rt disk
      let vEvaluate ← combine fEvaluate c.vEvaluate
      return { c with vEvaluate }) := by
  obtain ⟨hFits, hRead⟩ := extract_of_next h
  simp only [grouping, List.mem_cons, List.not_mem_nil, or_false, decide_eq_false_iff_not,
    not_or] at hNot
  obtain ⟨hGroup, hUngroup, hAnd, hOr⟩ := hNot
  simp only [step, hRead, ok_bind, if_neg hGroup, if_neg hUngroup, if_neg hAnd, if_neg hOr,
    rewind_skip (hFits.mono (Nat.zero_le _)), reject_of_not hStack]

/-- A comparison needs a group. -/
theorem stack_of_turn (h : Turn rt disk c OPERATION c') (hNot : grouping OPERATION = false) :
    c.vEvaluate ≠ [] := by
  intro hEmpty
  obtain ⟨hNext, hStep⟩ := h
  obtain ⟨hFits, hRead⟩ := extract_of_next hNext
  simp only [grouping, List.mem_cons, List.not_mem_nil, or_false, decide_eq_false_iff_not,
    not_or] at hNot
  obtain ⟨hGroup, hUngroup, hAnd, hOr⟩ := hNot
  simp [step, hRead, hGroup, hUngroup, hAnd, hOr, rewind_skip (hFits.mono (Nat.zero_le _)),
    hEmpty, reject] at hStep

/-- What a turn does, by its operation. -/
theorem turn_cases (h : Turn rt disk c OPERATION c') :
    (OPERATION = OP.GROUP ∧
      c' = { c.skip 1 with vEvaluate := (false, OP.RESERVED) :: c.vEvaluate, nCost := c'.nCost }) ∨
    (OPERATION = OP.UNGROUP ∧ ∃ vEvaluate, ungroup c.vEvaluate = .ok vEvaluate ∧
      c' = { c.skip 1 with vEvaluate }) ∨
    ((OPERATION = OP.AND ∨ OPERATION = OP.OR) ∧ ∃ nOther strMessage vEvaluate,
      connect OPERATION nOther strMessage c.vEvaluate = .ok vEvaluate ∧
        c' = { c.skip 1 with vEvaluate }) ∨
    (grouping OPERATION = false ∧ ∃ fEvaluate c₁ vEvaluate,
      c.Evaluate rt disk = .ok (fEvaluate, c₁) ∧ combine fEvaluate c₁.vEvaluate = .ok vEvaluate ∧
        c' = { c₁ with vEvaluate }) := by
  obtain ⟨hNext, hStep⟩ := h
  by_cases hGroup : OPERATION = OP.GROUP
  · subst hGroup
    rw [step_group hNext] at hStep
    simp only [spend, bind_eq_ok, pure_eq_ok] at hStep
    obtain ⟨-, -, rfl⟩ := hStep
    exact .inl ⟨rfl, rfl⟩
  by_cases hUngroup : OPERATION = OP.UNGROUP
  · subst hUngroup
    rw [step_ungroup hNext, map_eq_ok] at hStep
    obtain ⟨vEvaluate, hPop, rfl⟩ := hStep
    exact .inr (.inl ⟨rfl, vEvaluate, hPop, rfl⟩)
  by_cases hAnd : OPERATION = OP.AND
  · subst hAnd
    rw [step_and hNext, map_eq_ok] at hStep
    obtain ⟨vEvaluate, hTop, rfl⟩ := hStep
    exact .inr (.inr (.inl ⟨.inl rfl, _, _, vEvaluate, hTop, rfl⟩))
  by_cases hOr : OPERATION = OP.OR
  · subst hOr
    rw [step_or hNext, map_eq_ok] at hStep
    obtain ⟨vEvaluate, hTop, rfl⟩ := hStep
    exact .inr (.inr (.inl ⟨.inr rfl, _, _, vEvaluate, hTop, rfl⟩))
  have hNot : grouping OPERATION = false := by simp [grouping, hGroup, hUngroup, hAnd, hOr]
  have hStack := stack_of_turn ⟨hNext, hStep⟩ hNot
  rw [step_evaluate hNext hNot hStack] at hStep
  simp only [bind_eq_ok, Prod.exists, pure_eq_ok] at hStep
  obtain ⟨fEvaluate, c₁, hEvaluate, vEvaluate, hTop, rfl⟩ := hStep
  exact .inr (.inr (.inr ⟨hNot, fEvaluate, c₁, vEvaluate, hEvaluate, hTop, rfl⟩))

/-- The cursor moved forward by `n`, for the same caller. -/
def Moved (n : Nat) (c c' : Condition) : Prop :=
  c.Fits n ∧ c'.contract.ssCondition = c.contract.ssCondition.advance n ∧ c'.caller = c.caller

theorem Forward.moved (h : Forward n c c') : Moved n c c' := ⟨h.1, h.ssCondition, h.caller⟩

theorem Moved.fits_zero (h : Moved n c c') : c'.Fits 0 := by
  obtain ⟨hFits, hStream, -⟩ := h
  rw [Fits, hStream]
  exact (Stream.fits_advance ..).mpr hFits

theorem Moved.trans (h : Moved n c c') (h' : Moved m c' c'') : Moved (n + m) c c'' := by
  obtain ⟨hFits, hStream, hCaller⟩ := h
  obtain ⟨hFits', hStream', hCaller'⟩ := h'
  refine ⟨?_, ?_, hCaller'.trans hCaller⟩
  · rw [Fits, hStream] at hFits'
    exact (Stream.fits_advance ..).mp hFits'
  · rw [hStream', hStream, Stream.advance_advance]

/-- A turn reads at least one byte, when the version is known. -/
theorem Turn.moved (h : Turn rt disk c OPERATION c') (hKnown : Known c.caller) :
    ∃ n, 0 < n ∧ Moved n c c' := by
  obtain ⟨hFits, -⟩ := extract_of_next h.1
  rcases turn_cases h with ⟨-, hEq⟩ | ⟨-, v, -, hEq⟩ | ⟨-, nOther, strMessage, v, -, hEq⟩ |
    ⟨-, fEvaluate, c₁, v, hEvaluate, -, hEq⟩
  · rw [hEq]
    exact ⟨1, Nat.one_pos, hFits, rfl, rfl⟩
  · rw [hEq]
    exact ⟨1, Nat.one_pos, hFits, rfl, rfl⟩
  · rw [hEq]
    exact ⟨1, Nat.one_pos, hFits, rfl, rfl⟩
  · obtain ⟨n, hPos, hMove⟩ := Evaluate_forward hFits hKnown hEvaluate
    rw [hEq]
    exact ⟨n, hPos, hMove.moved⟩

/-- The loop of `Execute` is a run of turns to the end of the stream. -/
theorem loop_eq_ok :
    loop rt disk n c = .ok c' ↔
      ∃ vOps, Run (Turn rt disk) c vOps c' ∧ c'.atEnd = true ∧ vOps.length ≤ n := by
  induction n generalizing c with
  | zero =>
      rw [loop, ite_eq_ok]
      constructor
      · rintro (⟨hEnd, h⟩ | ⟨-, h⟩)
        · cases h
          exact ⟨[], .nil _, hEnd, Nat.le_refl _⟩
        · cases h
      · rintro ⟨vOps, hRun, hEnd, hLength⟩
        obtain rfl := List.length_eq_zero_iff.mp (Nat.le_zero.mp hLength)
        cases hRun
        exact .inl ⟨hEnd, rfl⟩
  | succ n ih =>
      rw [loop, ite_eq_ok]
      constructor
      · rintro (⟨hEnd, h⟩ | ⟨-, h⟩)
        · cases h
          exact ⟨[], .nil _, hEnd, Nat.zero_le _⟩
        · obtain ⟨c₁, hStep, hLoop⟩ := bind_eq_ok.mp h
          obtain ⟨vOps, hRun, hEnd, hLength⟩ := ih.mp hLoop
          have hRead := hStep
          rw [step, bind_eq_ok] at hRead
          obtain ⟨⟨OPERATION, c₂⟩, hRead, -⟩ := hRead
          exact ⟨OPERATION :: vOps, .cons ⟨⟨c₂, hRead⟩, hStep⟩ hRun, hEnd, Nat.succ_le_succ hLength⟩
      · rintro ⟨vOps, hRun, hEnd, hLength⟩
        cases hRun with
        | nil => exact .inl ⟨hEnd, rfl⟩
        | cons hTurn hRun =>
            refine .inr ⟨?_, bind_eq_ok.mpr ⟨_, hTurn.2, ih.mpr ⟨_, hRun, hEnd, ?_⟩⟩⟩
            · rw [not_atEnd_of_next hTurn.1]
              exact Bool.false_ne_true
            · exact Nat.le_of_succ_le_succ hLength

/-- The condition that the loop of `Execute` starts with. -/
def start (c : Condition) : Condition :=
  { c with contract.ssCondition := c.contract.ssCondition.reset }

theorem Execute_eq_ok :
    c.Execute rt disk = .ok (fEvaluate, nCost) ↔
      ∃ vOps c', Run (Turn rt disk) c.start vOps c' ∧ c'.atEnd = true ∧
        vOps.length ≤ c.contract.ssCondition.size ∧ result c'.vEvaluate = .ok fEvaluate ∧
          c'.nCost = nCost := by
  simp only [Execute, bind_eq_ok, loop_eq_ok, pure_eq_ok, Prod.mk.injEq]
  constructor
  · rintro ⟨c', ⟨vOps, hRun, hEnd, hLength⟩, f, hResult, rfl, rfl⟩
    exact ⟨vOps, c', hRun, hEnd, hLength, hResult, rfl⟩
  · rintro ⟨vOps, c', hRun, hEnd, hLength, hResult, rfl⟩
    exact ⟨c', ⟨vOps, hRun, hEnd, hLength⟩, fEvaluate, hResult, rfl, rfl⟩

end Condition

end Nexus.Operation
