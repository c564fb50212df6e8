import Nexus.Operation.Forward
import Nexus.Register.Memory

/-!
# Comparisons of literals and lookups

The terms a comparison is written with, their bytes, and what each one is: a
literal is its datum, a lookup is the datum it finds, if it finds one.  A term
on the stream is read to its end and leaves its datum in the memory, so a
comparison reads its own bytes and gives the memory back as it was.

## Main results

* `GetValue_term`: a term is read to its end.
* `evaluateV2_comparison`, `evaluateV1_literals`: so is a comparison.
-/

namespace Nexus.Operation

open Nexus.Lib
open Nexus.Lib.Bytes
open Nexus.Lib.Checked
open Nexus.Util
open Nexus.Register
open Nexus.Register.BaseVM
open Nexus.LLD

/-- A byte vector that fits the memory of a machine of 64 bits. -/
abbrev SizedBytes := {vch : List UInt8 // vch.length < 2 ^ 64}

/-- A typed literal. -/
inductive Literal where
  | UINT8_T (n : UInt8)
  | UINT16_T (n : UInt16)
  | UINT32_T (n : UInt32)
  | UINT64_T (n : UInt64)
  | UINT256_T (n : Uint256)
  | UINT512_T (n : Uint512)
  | UINT1024_T (n : Uint1024)
  | STRING (str : SizedBytes)
  | BYTES (vch : SizedBytes)

namespace Literal

/-- The operation of a literal. -/
def op : Literal → UInt8
  | UINT8_T _ => OP.TYPES.UINT8_T
  | UINT16_T _ => OP.TYPES.UINT16_T
  | UINT32_T _ => OP.TYPES.UINT32_T
  | UINT64_T _ => OP.TYPES.UINT64_T
  | UINT256_T _ => OP.TYPES.UINT256_T
  | UINT512_T _ => OP.TYPES.UINT512_T
  | UINT1024_T _ => OP.TYPES.UINT1024_T
  | STRING _ => OP.TYPES.STRING
  | BYTES _ => OP.TYPES.BYTES

/-- The bytes of a literal after its operation. -/
def payload : Literal → List UInt8
  | UINT8_T n => FixedWidth.encode n
  | UINT16_T n => FixedWidth.encode n
  | UINT32_T n => FixedWidth.encode n
  | UINT64_T n => FixedWidth.encode n
  | UINT256_T n => FixedWidth.encode n
  | UINT512_T n => FixedWidth.encode n
  | UINT1024_T n => FixedWidth.encode n
  | STRING str => serializeBytes str
  | BYTES vch => serializeBytes vch

/-- What a literal puts into the memory. -/
def datum : Literal → Datum
  | UINT8_T n => .of n
  | UINT16_T n => .of n
  | UINT32_T n => .of n
  | UINT64_T n => .of n
  | UINT256_T n => .of n
  | UINT512_T n => .of n
  | UINT1024_T n => .of n
  | STRING str => .bytes str
  | BYTES vch => .bytes vch

/-- A literal that is not an empty string or vector. -/
def NonEmpty : Literal → Prop
  | STRING str => str.1 ≠ []
  | BYTES vch => vch.1 ≠ []
  | _ => True

/-- The cost of a literal. -/
def cost : Literal → UInt64
  | UINT8_T _ => 1
  | UINT16_T _ => 2
  | UINT32_T _ => 4
  | UINT64_T _ => 8
  | UINT256_T _ => 32
  | UINT512_T _ => 64
  | UINT1024_T _ => 128
  | STRING str => UInt64.ofNat str.1.length
  | BYTES vch => UInt64.ofNat vch.1.length

/-- The operation of `GetValue` that reads the literal. -/
def read (c : Condition) : Literal → Result Operand
  | UINT8_T _ => Condition.literal UInt8 "OP::TYPES::UINT8_T" c
  | UINT16_T _ => Condition.literal UInt16 "OP::TYPES::UINT16_T" c
  | UINT32_T _ => Condition.literal UInt32 "OP::TYPES::UINT32_T" c
  | UINT64_T _ => Condition.literal UInt64 "OP::TYPES::UINT64_T" c
  | UINT256_T _ => Condition.literal Uint256 "OP::TYPES::UINT256_T" c
  | UINT512_T _ => Condition.literal Uint512 "OP::TYPES::UINT512_T" c
  | UINT1024_T _ => Condition.literal Uint1024 "OP::TYPES::UINT1024_T" c
  | STRING _ => Condition.literalBytes "OP::TYPES::STRING" " string is empty" c
  | BYTES _ => Condition.literalBytes "OP::TYPES::BYTES" " vector is empty" c

end Literal

/-- What is looked up in the state of a register. -/
inductive Lookup where
  | CREATED
  | MODIFIED
  | OWNER
  | TYPE
  | STATE
  | VALUE (strValue : SizedBytes)

namespace Lookup

/-- The operation that looks a register up. -/
def registerOP : Lookup → UInt8
  | CREATED => OP.REGISTER.CREATED
  | MODIFIED => OP.REGISTER.MODIFIED
  | OWNER => OP.REGISTER.OWNER
  | TYPE => OP.REGISTER.TYPE
  | STATE => OP.REGISTER.STATE
  | VALUE _ => OP.REGISTER.VALUE

/-- The operation that looks the pre-state of the caller up. -/
def prestateOP : Lookup → UInt8
  | CREATED => OP.CALLER.PRESTATE.CREATED
  | MODIFIED => OP.CALLER.PRESTATE.MODIFIED
  | OWNER => OP.CALLER.PRESTATE.OWNER
  | TYPE => OP.CALLER.PRESTATE.TYPE
  | STATE => OP.CALLER.PRESTATE.STATE
  | VALUE _ => OP.CALLER.PRESTATE.VALUE

/-- The name of the field, after the operation. -/
def name : Lookup → List UInt8
  | VALUE strValue => serializeBytes strValue
  | _ => []

/-- The operation of `GetValue` that looks a register up. -/
def readRegister (disk : Disk) (vRet : Value) (c : Condition) : Lookup → Result Operand
  | CREATED => c.registerField UInt64 disk "OP::REGISTER::CREATED" (·.nCreated) 5004 vRet
  | MODIFIED => c.registerField UInt64 disk "OP::REGISTER::MODIFIED" (·.nModified) 5004 vRet
  | OWNER => c.registerField Uint256 disk "OP::REGISTER::OWNER" (·.hashOwner) 4128 vRet
  | TYPE => c.registerField UInt8 disk "OP::REGISTER::TYPE" (·.nType) 4097 vRet
  | STATE => c.registerData disk vRet
  | VALUE _ => c.registerValue disk vRet

/-- The operation of `GetValue` that looks the pre-state up. -/
def readPrestate (vRet : Value) (c : Condition) : Lookup → Result Operand
  | CREATED => c.callerField UInt64 "OP::CALLER::PRESTATE::CREATED" (·.nCreated) 8
  | MODIFIED => c.callerField UInt64 "OP::CALLER::PRESTATE::MODIFIED" (·.nModified) 8
  | OWNER => c.callerField Uint256 "OP::CALLER::PRESTATE::OWNER" (·.hashOwner) 32
  | TYPE => c.callerField UInt8 "OP::CALLER::PRESTATE::TYPE" (·.nType) 1
  | STATE => c.callerData
  | VALUE _ => c.callerValue vRet

open Condition in
/-- The value of a field, by its type. -/
def fieldDatum (object : Object) (strName : List UInt8) (nType : UInt8) :
    Result (Option Datum) :=
  let fixed (α : Type) [FieldType α] : Result (Option Datum) :=
    (caught (object.Read α strName)).map fun value => value.map fun a => .of a
  let bytes : Result (Option Datum) :=
    (caught (object.ReadBytes nType strName)).map fun value => value.map fun vch => .bytes vch
  if nType = TYPES.UINT8_T then fixed UInt8
  else if nType = TYPES.UINT16_T then fixed UInt16
  else if nType = TYPES.UINT32_T then fixed UInt32
  else if nType = TYPES.UINT64_T then fixed UInt64
  else if nType = TYPES.UINT256_T then fixed Uint256
  else if nType = TYPES.UINT512_T then fixed Uint512
  else if nType = TYPES.UINT1024_T then fixed Uint1024
  else if nType = TYPES.STRING then bytes
  else if nType = TYPES.BYTES then bytes
  else .ok none

open Condition in
/-- The value of a field of an object, if the register is one that has it. -/
def objectDatum (state : State) (strValue : List UInt8) : Result (Option Datum) :=
  if state.nType ≠ REGISTER.OBJECT then .ok none
  else do
    match ← caught (Object.Parse { state }) with
    | none => return none
    | some object =>
        match ← caught (fieldType object strValue) with
        | none => return none
        | some nType => fieldDatum object strValue nType

/-- What is found in a state.  `none` is a lookup that fails. -/
def datum (state : State) : Lookup → Result (Option Datum)
  | CREATED => .ok (some (.of state.nCreated))
  | MODIFIED => .ok (some (.of state.nModified))
  | OWNER => .ok (some (.of state.hashOwner))
  | TYPE => .ok (some (.of state.nType))
  | STATE => .ok (some (.bytes state.vchState))
  | VALUE strValue => objectDatum state strValue

end Lookup

/-- A term of a comparison. -/
inductive Term where
  | literal (l : Literal)
  | register (address : Literal) (k : Lookup)
  | prestate (k : Lookup)

namespace Term

/-- The bytes of a term. -/
def bytes : Term → List UInt8
  | literal l => l.op :: l.payload
  | register address k => address.op :: (address.payload ++ k.registerOP :: k.name)
  | prestate k => k.prestateOP :: k.name

/-- The register address of a literal, which has to be of 32 bytes. -/
def address (l : Literal) : Result Uint256 := do
  reject (l.datum.nBytes ≠ 32) (.exception "Deallocate size mismatch ")
  return FixedWidth.decode (l.datum.block.take 32)

/-- What a term is.  `none` is a lookup that fails. -/
def datum (disk : Disk) (caller : Contract) : Term → Result (Option Datum)
  | literal l => .ok (some l.datum)
  | register l k => do
      match disk.register.ReadState (← address l) with
      | none => return none
      | some state => k.datum state
  | prestate k => do k.datum (← Condition.callerState { contract := {}, caller })

/-- A lookup of a value is of a register that exists. -/
def Found (disk : Disk) : Term → Prop
  | register l (.VALUE _) => ∀ hashRegister, address l = .ok hashRegister →
      disk.register.ReadState hashRegister ≠ none
  | _ => True

end Term

/-- A comparison of two terms. -/
structure Comparison where
  left : Term
  OPERATION : UInt8
  right : Term
  isCompare : Condition.compares OPERATION = true

namespace Comparison

def bytes (cmp : Comparison) : List UInt8 := cmp.left.bytes ++ cmp.OPERATION :: cmp.right.bytes

/-- The comparison of two data in a fresh memory. -/
def compare (rt : Runtime) (OPERATION : UInt8) (a b : Datum) : Result Bool := do
  let (vLeft, vm) ← a.allocate {}
  let (vRight, vm) ← b.allocate vm
  return (Condition.comparison rt OPERATION vLeft vRight vm).getD false

/-- The value of a comparison: false when a lookup fails. -/
def value (rt : Runtime) (disk : Disk) (caller : Contract) (cmp : Comparison) : Result Bool := do
  match ← cmp.left.datum disk caller, ← cmp.right.datum disk caller with
  | some a, some b => compare rt cmp.OPERATION a b
  | _, _ => return false

end Comparison

/-! ## Reading from the stream -/

namespace Condition

variable {rt : Runtime} {disk : Disk} {c c' : Condition} {vRet value : Value} {fRet fEvaluate : Bool}
  {nOP : UInt8} {n : Nat} {nCost : UInt64} {strOP strEmpty : String}
  {vch vchRest vchUsed : List UInt8} {l : Literal} {k : Lookup} {t : Term} {cmp : Comparison}
  {operand : Result Operand}

/-- What is left of the condition stream. -/
def At (c : Condition) (vch : List UInt8) : Prop :=
  c.Fits 0 ∧ c.contract.ssCondition.vchData.drop c.contract.ssCondition.nReadPos = vch

theorem At.extract {α : Type} [FixedWidth α] {a : α} (h : c.At (FixedWidth.encode a ++ vchRest)) :
    c.extract α = .ok (a, c.skip (FixedWidth.width α)) ∧
      (c.skip (FixedWidth.width α)).At vchRest := by
  obtain ⟨hRead, hFits, hDrop⟩ := Stream.extract_step h.1 h.2
  refine ⟨?_, hFits, hDrop⟩
  rw [Condition.extract, hRead]
  rfl

theorem At.op (h : c.At (nOP :: vchRest)) :
    c.extract UInt8 = .ok (nOP, c.skip 1) ∧ (c.skip 1).At vchRest := by
  have hCons : nOP :: vchRest = FixedWidth.encode nOP ++ vchRest := by rw [encode_uint8]; rfl
  rw [hCons] at h
  exact h.extract

theorem At.extractBytes (h : c.At (serializeBytes vch ++ vchRest))
    (hMax : vch.length ≤ Stream.MAX_SIZE) :
    c.extractBytes = .ok (vch, c.skip (serializeBytes vch).length) ∧
      (c.skip (serializeBytes vch).length).At vchRest := by
  obtain ⟨hRead, hFits, hDrop⟩ := Stream.extractBytes_step h.1 hMax h.2
  refine ⟨?_, hFits, hDrop⟩
  rw [Condition.extractBytes, hRead]
  rfl

/-- A vector is read back as written, when it is read. -/
theorem At.extractBytes_eq (h : c.At (serializeBytes vch ++ vchRest)) (hSize : vch.length < 2 ^ 64)
    {vch' : List UInt8} (hRead : c.extractBytes = .ok (vch', c')) :
    vch' = vch ∧ c' = c.skip (serializeBytes vch).length ∧ c'.At vchRest := by
  by_cases hMax : vch.length ≤ Stream.MAX_SIZE
  · obtain ⟨hEq, hAt⟩ := h.extractBytes hMax
    rw [hEq] at hRead
    cases hRead
    exact ⟨rfl, rfl, hAt⟩
  · obtain ⟨hFits, hDrop⟩ := h
    rw [serializeBytes, List.append_assoc] at hDrop
    obtain ⟨e, hSizeRead⟩ := exists_error_of_isOk
      (Stream.readCompactSize_too_large hFits (Nat.lt_of_not_le hMax) hSize hDrop)
    rw [Condition.extractBytes, Stream.extractBytes, hSizeRead] at hRead
    cases hRead

theorem At.atEnd (h : c.At []) : c.atEnd = true := by
  have hLe : c.contract.ssCondition.nReadPos ≤ c.contract.ssCondition.vchData.length := h.1
  have hLength := List.drop_eq_nil_iff.mp h.2
  exact beq_iff_eq.mpr (Nat.le_antisymm hLe hLength)

theorem At.next (h : c.At (nOP :: vchRest)) : c.Next nOP := ⟨_, h.op.1⟩

theorem At.not_atEnd (h : c.At (nOP :: vchRest)) : c.atEnd = false := not_atEnd_of_next h.next

/-- The memory, the cost and the groups are not of the stream. -/
theorem At.congr (h : c.At vch)
    (hStream : c'.contract.ssCondition = c.contract.ssCondition) : c'.At vch := by
  rw [At, Fits, hStream]
  exact h

/-! ## Literals -/

theorem spend_eq_ok :
    c.spend strOP nCost = .ok c' ↔
      ¬ c.nCost + nCost < c.nCost ∧ c' = { c with nCost := c.nCost + nCost } := by
  simp only [spend, bind_eq_ok, reject_eq_ok, pure_eq_ok]
  constructor
  · rintro ⟨-, hCost, rfl⟩
    exact ⟨hCost, rfl⟩
  · rintro ⟨hCost, rfl⟩
    exact ⟨(), hCost, rfl⟩

theorem load_eq_ok {α : Type} [FixedWidth α] {a : α} :
    load α strOP a nCost c = .ok (fRet, value, c') ↔
      fRet = true ∧ ¬ c.nCost + nCost < c.nCost ∧ ∃ vm, (Datum.of a).allocate c.vm = .ok (value, vm) ∧
        c' = { c with vm, nCost := c.nCost + nCost } := by
  simp only [load, push, bind_eq_ok, map_eq_ok, Prod.exists, pure_eq_ok, Prod.mk.injEq,
    allocate_eq_datum, spend_eq_ok]
  constructor
  · rintro ⟨v, c₁, ⟨v', vm, hAllocate, rfl, rfl⟩, c₂, ⟨hCost, rfl⟩, rfl, rfl, rfl⟩
    exact ⟨rfl, hCost, vm, hAllocate, rfl⟩
  · rintro ⟨rfl, hCost, vm, hAllocate, rfl⟩
    exact ⟨_, _, ⟨_, _, hAllocate, rfl, rfl⟩, _, ⟨hCost, rfl⟩, rfl, rfl, rfl⟩

theorem loadBytes_eq_ok :
    loadBytes strOP vch nCost c = .ok (fRet, value, c') ↔
      fRet = true ∧ ¬ c.nCost + nCost < c.nCost ∧
        ∃ vm, (Datum.bytes vch).allocate c.vm = .ok (value, vm) ∧
          c' = { c with vm, nCost := c.nCost + nCost } := by
  simp only [loadBytes, pushBytes, bind_eq_ok, map_eq_ok, Prod.exists, pure_eq_ok, Prod.mk.injEq,
    spend_eq_ok]
  constructor
  · rintro ⟨v, c₁, ⟨v', vm, hAllocate, rfl, rfl⟩, c₂, ⟨hCost, rfl⟩, rfl, rfl, rfl⟩
    exact ⟨rfl, hCost, vm, hAllocate, rfl⟩
  · rintro ⟨rfl, hCost, vm, hAllocate, rfl⟩
    exact ⟨_, _, ⟨_, _, hAllocate, rfl, rfl⟩, _, ⟨hCost, rfl⟩, rfl, rfl, rfl⟩

/-- What reading a literal leaves. -/
def Loaded (c : Condition) (l : Literal) (value : Value) (c' : Condition) : Prop :=
  l.NonEmpty ∧ ¬ c.nCost + l.cost < c.nCost ∧
    ∃ vm, l.datum.allocate c.vm = .ok (value, vm) ∧
      c' = { c.skip l.payload.length with vm, nCost := c.nCost + l.cost }

theorem literal_at {α : Type} [FixedWidth α] {a : α} (h : c.At (FixedWidth.encode a ++ vchRest)) :
    literal α strOP c =
      load α strOP a (UInt64.ofNat (FixedWidth.width α)) (c.skip (FixedWidth.width α)) := by
  rw [literal, h.extract.1]
  rfl

/-- A vector that was allocated is within the limit of a stream. -/
theorem length_of_allocated {vm vm' : BaseVM}
    (h : (Datum.bytes vch).allocate vm = .ok (value, vm')) : vch.length ≤ Stream.MAX_SIZE := by
  simp only [Datum.allocate, allocateBytes, bind_eq_ok, reject_eq_ok, Nat.not_lt] at h
  obtain ⟨-, hRoom, -⟩ := h
  have hRoom : vm.nPointer + Datum.size (.bytes vch) ≤ REGISTERS := hRoom
  have hLe := Datum.length_le_size vch
  have hRegisters : REGISTERS = 256 := rfl
  have hMax : 2048 ≤ Stream.MAX_SIZE := by decide
  omega

theorem literalBytes_at (h : c.At (serializeBytes vch ++ vchRest)) (hSize : vch.length < 2 ^ 64) :
    literalBytes strOP strEmpty c = .ok (fRet, value, c') ↔
      vch ≠ [] ∧ loadBytes strOP vch (UInt64.ofNat vch.length) (c.skip (serializeBytes vch).length) =
        .ok (fRet, value, c') := by
  simp only [literalBytes, bind_eq_ok, Prod.exists, reject_eq_ok]
  constructor
  · rintro ⟨vch', c₁, hRead, -, hEmpty, hLoad⟩
    obtain ⟨rfl, rfl, -⟩ := h.extractBytes_eq hSize hRead
    exact ⟨hEmpty, hLoad⟩
  · rintro ⟨hEmpty, hLoad⟩
    obtain ⟨-, -, vm, hAllocate, -⟩ := loadBytes_eq_ok.mp hLoad
    obtain ⟨hRead, -⟩ := h.extractBytes (length_of_allocated hAllocate)
    exact ⟨_, _, hRead, (), hEmpty, hLoad⟩

theorem read_literal (h : c.At (l.payload ++ vchRest)) :
    l.read c = .ok (fRet, value, c') ↔ fRet = true ∧ Loaded c l value c' := by
  have hFixed {α : Type} [FixedWidth α] {a : α} {strOP : String}
      (hAt : c.At (FixedWidth.encode a ++ vchRest)) :
      literal α strOP c = .ok (fRet, value, c') ↔ fRet = true ∧ True ∧
        ¬ c.nCost + UInt64.ofNat (FixedWidth.width α) < c.nCost ∧
          ∃ vm, (Datum.of a).allocate c.vm = .ok (value, vm) ∧
            c' = { c.skip (FixedWidth.encode a).length with
              vm, nCost := c.nCost + UInt64.ofNat (FixedWidth.width α) } := by
    rw [literal_at hAt, load_eq_ok, true_and, FixedWidth.encode_length]
    rfl
  have hBytes {vch : SizedBytes} {strOP strEmpty : String}
      (hAt : c.At (serializeBytes vch ++ vchRest)) :
      literalBytes strOP strEmpty c = .ok (fRet, value, c') ↔ fRet = true ∧ vch.1 ≠ [] ∧
        ¬ c.nCost + UInt64.ofNat vch.1.length < c.nCost ∧
          ∃ vm, (Datum.bytes vch).allocate c.vm = .ok (value, vm) ∧
            c' = { c.skip (serializeBytes vch).length with
              vm, nCost := c.nCost + UInt64.ofNat vch.1.length } := by
    rw [literalBytes_at hAt vch.2, loadBytes_eq_ok, and_left_comm]
    rfl
  cases l with
  | UINT8_T n => exact hFixed h
  | UINT16_T n => exact hFixed h
  | UINT32_T n => exact hFixed h
  | UINT64_T n => exact hFixed h
  | UINT256_T n => exact hFixed h
  | UINT512_T n => exact hFixed h
  | UINT1024_T n => exact hFixed h
  | STRING str => exact hBytes h
  | BYTES vch => exact hBytes h

/-! ## Registers that exist -/

/-- A value is looked up, once its address is loaded, in a register that exists. -/
def Finds (disk : Disk) (c : Condition) (t : Term) : Prop :=
  ∀ l k vAddress c', t = .register l k → Loaded (c.skip 1) l vAddress c' → t.Found disk

/-- The value lookups of a comparison find their registers: the one on the left, and the
one on the right if the left term is read. -/
def FindsBoth (rt : Runtime) (disk : Disk) (c : Condition) (cmp : Comparison) : Prop :=
  c.Finds disk cmp.left ∧ ∀ fRet value c', c.GetValue rt disk = .ok (fRet, value, c') →
    (c'.skip 1).Finds disk cmp.right

/-! ## Lookups -/

/-- What a lookup leaves, when `n` bytes were read: its datum, or nothing. -/
def Obtained (c : Condition) (n : Nat) (fRet : Bool) (value : Value) (c' : Condition) :
    Option Datum → Prop
  | none => fRet = false ∧ ∃ nCost, c' = { c.skip n with nCost }
  | some d => fRet = true ∧ ∃ vm nCost, d.allocate c.vm = .ok (value, vm) ∧
      c' = { c.skip n with vm, nCost }

/-- The operation obtains what a lookup finds. -/
def Obtains (c : Condition) (n : Nat) (operand : Result Operand) (found : Result (Option Datum)) :
    Prop :=
  ∀ fRet value c', operand = .ok (fRet, value, c') →
    ∃ o, found = .ok o ∧ Obtained c n fRet value c' o

theorem obtains_none : Obtains c 0 (.ok (false, vRet, c)) (.ok none) := by
  intro fRet value c' h
  cases h
  exact ⟨none, rfl, rfl, _, rfl⟩

theorem obtains_load {α : Type} [FixedWidth α] {a : α} :
    Obtains c 0 (load α strOP a nCost c) (.ok (some (.of a))) := by
  intro fRet value c' h
  obtain ⟨hTrue, -, vm, hAllocate, rfl⟩ := load_eq_ok.mp h
  exact ⟨_, rfl, hTrue, vm, _, hAllocate, rfl⟩

theorem obtains_loadBytes : Obtains c 0 (loadBytes strOP vch nCost c) (.ok (some (.bytes vch))) := by
  intro fRet value c' h
  obtain ⟨hTrue, -, vm, hAllocate, rfl⟩ := loadBytes_eq_ok.mp h
  exact ⟨_, rfl, hTrue, vm, _, hAllocate, rfl⟩

theorem obtains_choice {p : Prop} [Decidable p] {x y : Result Operand}
    {a b : Result (Option Datum)} (hHead : Obtains c n x a) (hRest : Obtains c n y b) :
    Obtains c n (if p then x else y) (if p then a else b) := by
  split
  · exact hHead
  · exact hRest

theorem obtains_field {α : Type} [FieldType α] {object : Object} {strName : List UInt8} :
    Obtains c 0 (field α strOP object strName vRet c)
      ((caught (object.Read α strName)).map fun value => value.map fun a => .of a) := by
  intro fRet value c' h
  simp only [field, bind_eq_ok] at h
  obtain ⟨nValue, hRead, h⟩ := h
  rw [hRead]
  cases nValue with
  | none => exact obtains_none _ _ _ h
  | some nValue => exact obtains_load _ _ _ h

theorem obtains_fieldBytes {object : Object} {nType : UInt8} {strName : List UInt8} :
    Obtains c 0 (fieldBytes strOP nType object strName vRet c)
      ((caught (object.ReadBytes nType strName)).map fun value => value.map fun vch => .bytes vch) := by
  intro fRet value c' h
  simp only [fieldBytes, bind_eq_ok] at h
  obtain ⟨vData, hRead, h⟩ := h
  rw [hRead]
  cases vData with
  | none => exact obtains_none _ _ _ h
  | some vData => exact obtains_loadBytes _ _ _ h

theorem obtains_fieldValue {object : Object} {nType : UInt8} {strName : List UInt8} :
    Obtains c 0 (fieldValue object strName nType vRet c)
      (Lookup.fieldDatum object strName nType) := by
  unfold fieldValue Lookup.fieldDatum
  refine obtains_choice obtains_field <| obtains_choice obtains_field <|
    obtains_choice obtains_field <| obtains_choice obtains_field <|
    obtains_choice obtains_field <| obtains_choice obtains_field <|
    obtains_choice obtains_field ?_
  by_cases hString : nType = TYPES.STRING
  · rw [if_pos hString, if_pos hString, hString]
    exact obtains_fieldBytes
  rw [if_neg hString, if_neg hString]
  by_cases hBytes : nType = TYPES.BYTES
  · rw [if_pos hBytes, if_pos hBytes, hBytes]
    exact obtains_fieldBytes
  rw [if_neg hBytes, if_neg hBytes]
  exact obtains_none

/-- What is obtained past `n` bytes. -/
theorem Obtained.after {o : Option Datum} (h : Obtained (c.skip n) 0 fRet value c' o) :
    Obtained c n fRet value c' o := by
  cases o with
  | none => exact h
  | some d => exact h

/-- The name of a field is read before the register is looked at. -/
theorem obtains_objectValue {state : State} {strValue : SizedBytes}
    (hAt : c.At (serializeBytes strValue ++ vchRest)) :
    Obtains c (serializeBytes strValue).length (objectValue state vRet c)
      (Lookup.objectDatum state strValue) := by
  intro fRet value c' h
  simp only [objectValue, bind_eq_ok, Prod.exists] at h
  obtain ⟨strRead, c₁, hRead, h⟩ := h
  obtain ⟨rfl, rfl, -⟩ := hAt.extractBytes_eq strValue.2 hRead
  have hFound : ∃ o, Lookup.objectDatum state strValue = .ok o ∧
      Obtained (c.skip (serializeBytes strValue).length) 0 fRet value c' o := by
    unfold Lookup.objectDatum
    by_cases hType : state.nType ≠ REGISTER.OBJECT
    · rw [if_pos hType] at h ⊢
      exact obtains_none _ _ _ h
    · rw [if_neg hType] at h ⊢
      obtain ⟨object, hParse, h⟩ := bind_eq_ok.mp h
      rw [hParse, ok_bind]
      cases object with
      | none => exact obtains_none _ _ _ h
      | some object =>
          obtain ⟨nType, hField, h⟩ := bind_eq_ok.mp h
          simp only [hField, ok_bind]
          cases nType with
          | none => exact obtains_none _ _ _ h
          | some nType => exact obtains_fieldValue _ _ _ h
  obtain ⟨o, hDatum, hObtained⟩ := hFound
  exact ⟨o, hDatum, hObtained.after⟩

/-- The cost is not of what is obtained. -/
theorem Obtained.paid {o : Option Datum} {nPaid : UInt64}
    (h : Obtained { c with nCost := nPaid } n fRet value c' o) : Obtained c n fRet value c' o := by
  cases o with
  | none => exact h
  | some d => exact h

theorem obtained_push {α : Type} [FixedWidth α] {a : α} (h : c.push α a = .ok (value, c')) :
    Obtained c 0 true value c' (some (.of a)) := by
  simp only [push, map_eq_ok, Prod.exists, Prod.mk.injEq, allocate_eq_datum] at h
  obtain ⟨v, vm, hAllocate, rfl, rfl⟩ := h
  exact ⟨rfl, vm, _, hAllocate, rfl⟩

theorem obtained_pushBytes (h : c.pushBytes vch = .ok (value, c')) :
    Obtained c 0 true value c' (some (.bytes vch)) := by
  simp only [pushBytes, map_eq_ok, Prod.exists, Prod.mk.injEq] at h
  obtain ⟨v, vm, hAllocate, rfl, rfl⟩ := h
  exact ⟨rfl, vm, _, hAllocate, rfl⟩

/-- The pre-state of the caller is looked up. -/
theorem obtains_prestate (hAt : c.At (k.name ++ vchRest)) :
    Obtains c k.name.length (k.readPrestate vRet c)
      (do k.datum (← callerState { contract := {}, caller := c.caller })) := by
  have hState : callerState { contract := {}, caller := c.caller } = c.callerState := rfl
  have hField {α : Type} [FixedWidth α] {strOP : String} {f : State → α} {nCost : UInt64} :
      Obtains c 0 (c.callerField α strOP f nCost)
        (do let state ← c.callerState; .ok (some (.of (f state)))) := by
    intro fRet value c' h
    simp only [callerField, bind_eq_ok, Prod.exists, pure_eq_ok, Prod.mk.injEq, spend_eq_ok] at h
    obtain ⟨state, hRead, c₁, ⟨-, rfl⟩, v, c₂, hPush, rfl, rfl, rfl⟩ := h
    rw [hRead]
    exact ⟨_, rfl, (obtained_push hPush).paid⟩
  rw [hState]
  cases k with
  | CREATED => exact hField
  | MODIFIED => exact hField
  | OWNER => exact hField
  | TYPE => exact hField
  | STATE =>
      intro fRet value c' h
      simp only [Lookup.readPrestate, callerData, double, bind_eq_ok, Prod.exists, pure_eq_ok,
        Prod.mk.injEq] at h
      obtain ⟨state, hRead, c₁, ⟨-, -, rfl⟩, v, c₂, hPush, rfl, rfl, rfl⟩ := h
      rw [hRead]
      exact ⟨_, rfl, (obtained_pushBytes hPush).paid⟩
  | VALUE strValue =>
      intro fRet value c' h
      simp only [Lookup.readPrestate, callerValue, bind_eq_ok] at h
      obtain ⟨state, hRead, h⟩ := h
      rw [hRead]
      exact obtains_objectValue hAt _ _ _ h

/-! ## Register lookups -/

/-- An address that was allocated is freed again. -/
theorem deallocateData_allocated {α : Type} [FixedWidth α] {vm vm' vm'' : BaseVM} {d : Datum}
    {a : α} (hStores : Stores vm vchUsed) (hAllocate : d.allocate vm = .ok (value, vm'))
    (hWide : d.nBytes ≤ d.block.length) (h : vm'.deallocateData α value = .ok (a, vm'')) :
    d.nBytes = FixedWidth.width α ∧ a = FixedWidth.decode (d.block.take (FixedWidth.width α)) ∧
      vm'' = vm := by
  obtain ⟨-, rfl, hStores'⟩ := (allocate_eq_ok hStores).mp hAllocate
  simp only [deallocateData, bind_eq_ok, reject_eq_ok, pure_eq_ok, Prod.mk.injEq, not_not] at h
  obtain ⟨⟨⟩, hTop, -, hWidth, rfl, rfl⟩ := h
  obtain ⟨-, -, hEnd, -⟩ := checkTop_eq_ok.mp hTop
  have hWidth : d.nBytes = FixedWidth.width α := hWidth
  refine ⟨hWidth, ?_, ?_⟩
  · have hBytes : vm'.bytes (valueAt vm.nPointer d) = d.block.take (FixedWidth.width α) := by
      show (vm'.vRegister.drop (8 * vm.nPointer)).take d.nBytes = _
      rw [hStores'.memory, List.append_assoc, ← hStores.pointer, List.drop_left,
        List.take_append_of_le_length hWide, hWidth]
    rw [hBytes]
  · exact (hStores'.release hStores.pointer hEnd).unique hStores

theorem datum_wide : l.datum.nBytes ≤ l.datum.block.length := by
  have hWord {α : Type} [FixedWidth α] {a : α} :
      (Datum.of a).nBytes ≤ (Datum.of a).block.length := by
    unfold Datum.of
    split
    next hSmall => simpa [Datum.nBytes, Datum.block] using hSmall
    next => simp [Datum.nBytes, Datum.block]
  have hBytes {vch : List UInt8} : (Datum.bytes vch).nBytes ≤ (Datum.bytes vch).block.length := by
    simp [Datum.nBytes, Datum.block]
  cases l with
  | UINT8_T n => exact hWord
  | UINT16_T n => exact hWord
  | UINT32_T n => exact hWord
  | UINT64_T n => exact hWord
  | UINT256_T n => exact hWord
  | UINT512_T n => exact hWord
  | UINT1024_T n => exact hWord
  | STRING str => exact hBytes
  | BYTES vch => exact hBytes

/-- A register is looked up by the address that was allocated, and the address is freed. -/
theorem registerState_allocated {vm : BaseVM} {stateOpt : Option State}
    (hStores : Stores vm vchUsed) (hAllocate : l.datum.allocate vm = .ok (vRet, c.vm))
    (h : c.registerState disk vRet = .ok (stateOpt, c')) :
    ∃ hashRegister, Term.address l = .ok hashRegister ∧
      stateOpt = disk.register.ReadState hashRegister ∧ c' = { c with vm } := by
  simp only [registerState, bind_eq_ok, Prod.exists, pure_eq_ok, Prod.mk.injEq] at h
  obtain ⟨hashRegister, vm', hFree, rfl, rfl⟩ := h
  obtain ⟨hWidth, hAddress, rfl⟩ :=
    deallocateData_allocated hStores hAllocate datum_wide hFree
  refine ⟨hashRegister, ?_, rfl, rfl⟩
  have hWidth : l.datum.nBytes = 32 := hWidth
  rw [Term.address, reject_of_not (not_not.mpr hWidth), ok_bind, hAddress]
  rfl

/-- A register is looked up.  The name of a field is read only of a register that exists. -/
theorem obtains_register {vm : BaseVM} (hStores : Stores vm vchUsed)
    (hAllocate : l.datum.allocate vm = .ok (vRet, c.vm)) (hAt : c.At (k.name ++ vchRest))
    (hFound : (Term.register l k).Found disk) :
    Obtains { c with vm } k.name.length (k.readRegister disk vRet c)
      ((Term.register l k).datum disk c.caller) := by
  have hField {α : Type} [FixedWidth α] {strOP : String} {f : State → α} {nCost : UInt64}
      {k : Lookup} (hDatum : ∀ state, k.datum state = .ok (some (.of (f state)))) :
      Obtains { c with vm } 0 (c.registerField α disk strOP f nCost vRet)
        ((Term.register l k).datum disk c.caller) := by
    intro fRet value c' h
    simp only [registerField, bind_eq_ok, Prod.exists] at h
    obtain ⟨stateOpt, c₁, hState, h⟩ := h
    obtain ⟨hashRegister, hAddress, rfl, rfl⟩ := registerState_allocated hStores hAllocate hState
    simp only [Term.datum, hAddress, ok_bind]
    cases hRead : disk.register.ReadState hashRegister with
    | none =>
        rw [hRead] at h
        exact obtains_none _ _ _ h
    | some state =>
        rw [hRead] at h
        simp only [bind_eq_ok, Prod.exists, pure_eq_ok, Prod.mk.injEq, spend_eq_ok] at h
        obtain ⟨c₂, ⟨-, rfl⟩, v, c₃, hPush, rfl, rfl, rfl⟩ := h
        exact ⟨_, hDatum state, (obtained_push hPush).paid⟩
  cases k with
  | CREATED => exact hField fun _ => rfl
  | MODIFIED => exact hField fun _ => rfl
  | OWNER => exact hField fun _ => rfl
  | TYPE => exact hField fun _ => rfl
  | STATE =>
      intro fRet value c' h
      simp only [Lookup.readRegister, registerData, bind_eq_ok, Prod.exists] at h
      obtain ⟨stateOpt, c₁, hState, h⟩ := h
      obtain ⟨hashRegister, hAddress, rfl, rfl⟩ := registerState_allocated hStores hAllocate hState
      simp only [Term.datum, hAddress, ok_bind]
      cases hRead : disk.register.ReadState hashRegister with
      | none =>
          rw [hRead] at h
          exact obtains_none _ _ _ h
      | some state =>
          rw [hRead] at h
          simp only [bind_eq_ok, Prod.exists, pure_eq_ok, Prod.mk.injEq, spend_eq_ok] at h
          obtain ⟨c₂, ⟨-, rfl⟩, v, c₃, hPush, rfl, rfl, rfl⟩ := h
          exact ⟨_, rfl, (obtained_pushBytes hPush).paid⟩
  | VALUE strValue =>
      intro fRet value c' h
      simp only [Lookup.readRegister, registerValue, bind_eq_ok, Prod.exists] at h
      obtain ⟨stateOpt, c₁, hState, h⟩ := h
      obtain ⟨hashRegister, hAddress, rfl, rfl⟩ := registerState_allocated hStores hAllocate hState
      simp only [Term.datum, hAddress, ok_bind]
      cases hRead : disk.register.ReadState hashRegister with
      | none => exact absurd hRead (hFound _ hAddress)
      | some state =>
          rw [hRead] at h
          simp only [bind_eq_ok, spend_eq_ok] at h
          obtain ⟨c₂, ⟨-, rfl⟩, h⟩ := h
          have hName : At { c with vm, nCost := c.nCost + 4096 } (serializeBytes strValue ++ vchRest) :=
            hAt.congr rfl
          obtain ⟨o, hDatum, hObtained⟩ := obtains_objectValue hName _ _ _ h
          exact ⟨o, hDatum, hObtained.paid⟩

/-! ## Terms -/

/-- The operation ends an operand. -/
def ends (nOP : UInt8) : Bool :=
  nOP ∈ [OP.EQUALS, OP.LESSTHAN, OP.GREATERTHAN, OP.LESSEQUALS, OP.GREATEREQUALS, OP.NOTEQUALS,
    OP.CONTAINS, OP.AND, OP.OR, OP.GROUP, OP.UNGROUP]

/-- What is left of the stream does not go on with the operand. -/
def Ends (vch : List UInt8) : Prop := ∀ nOP vchRest, vch = nOP :: vchRest → ends nOP = true

theorem binary_ends (h : ends nOP = true) : binary nOP = false := by
  simp only [ends, List.mem_cons, List.not_mem_nil, or_false, decide_eq_true_eq] at h
  rcases h with rfl | rfl | rfl | rfl | rfl | rfl | rfl | rfl | rfl | rfl | rfl <;> rfl

theorem unary_ends (h : ends nOP = true) : unary rt disk nOP vRet c = none := by
  simp only [ends, List.mem_cons, List.not_mem_nil, or_false, decide_eq_true_eq] at h
  rcases h with rfl | rfl | rfl | rfl | rfl | rfl | rfl | rfl | rfl | rfl | rfl <;> rfl

/-- An operand ends at an operation that does not belong to it. -/
theorem getValue_ends (hAt : c.At vch) (hEnds : Ends vch) :
    getValue rt disk (n + 1) vRet c = .ok (true, vRet, c) := by
  rw [getValue_succ]
  cases vch with
  | nil => rw [if_pos hAt.atEnd]
  | cons nOP vchRest =>
      obtain ⟨hRead, -⟩ := hAt.op
      have hOp : ends nOP = true := hEnds nOP vchRest rfl
      rw [if_neg (by simp [hAt.not_atEnd]), hRead]
      simp only [ok_bind, binary_ends hOp, unary_ends hOp, Option.isSome_none, Bool.false_eq_true,
        or_self, if_false, rewind_skip hAt.1]
      rfl

/-- An operation of an operand is followed by the next. -/
theorem getValue_unary (hAt : c.At (nOP :: vchRest)) (hBinary : binary nOP = false)
    (hUnary : unary rt disk nOP vRet (c.skip 1) = some operand) :
    getValue rt disk (n + 1) vRet c = (do
      let (fRet, vRet, c) ← operand
      if fRet then getValue rt disk n vRet c else .ok (false, vRet, c)) := by
  obtain ⟨hRead, -⟩ := hAt.op
  rw [getValue_succ, if_neg (by simp [hAt.not_atEnd]), hRead]
  simp only [ok_bind, hUnary, Option.isSome_some, or_true, if_true, operation, hBinary,
    Bool.false_eq_true, if_false, Option.getD_some]

theorem binary_literal : binary l.op = false := by cases l <;> rfl

theorem unary_literal : unary rt disk l.op vRet c = some (l.read c) := by cases l <;> rfl

theorem binary_register : binary k.registerOP = false := by cases k <;> rfl

theorem unary_register : unary rt disk k.registerOP vRet c = some (k.readRegister disk vRet c) := by
  cases k <;> rfl

theorem binary_prestate : binary k.prestateOP = false := by cases k <;> rfl

theorem unary_prestate : unary rt disk k.prestateOP vRet c = some (k.readPrestate vRet c) := by
  cases k <;> rfl

/-- A literal at the cursor, and then the rest of its operand. -/
theorem getValue_literal (hAt : c.At (l.op :: (l.payload ++ vchRest))) :
    getValue rt disk (n + 1) vRet c = .ok (fRet, value, c') ↔
      ∃ vNext c₁, Loaded (c.skip 1) l vNext c₁ ∧
        getValue rt disk n vNext c₁ = .ok (fRet, value, c') := by
  obtain ⟨-, hPayload⟩ := hAt.op
  rw [getValue_unary hAt binary_literal unary_literal]
  simp only [bind_eq_ok, Prod.exists, read_literal hPayload, ite_eq_ok]
  constructor
  · rintro ⟨f, v, c₁, ⟨rfl, hLoaded⟩, ⟨-, hNext⟩ | ⟨hNot, -⟩⟩
    · exact ⟨v, c₁, hLoaded, hNext⟩
    · exact absurd rfl hNot
  · rintro ⟨v, c₁, hLoaded, hNext⟩
    exact ⟨true, v, c₁, ⟨rfl, hLoaded⟩, .inl ⟨rfl, hNext⟩⟩

theorem Loaded.at (h : Loaded c l value c') (hAt : c.At (l.payload ++ vchRest)) :
    c'.At vchRest := by
  obtain ⟨-, -, vm, -, rfl⟩ := h
  obtain ⟨hFits, hDrop⟩ := hAt
  exact ⟨(fits_skip ..).mpr (Stream.fits_of_drop hFits hDrop rfl), Stream.drop_advance hDrop rfl⟩

/-- The bytes past what was read. -/
theorem At.skip (h : c.At (vch ++ vchRest)) : (c.skip vch.length).At vchRest :=
  ⟨(fits_skip ..).mpr (Stream.fits_of_drop h.1 h.2 rfl), Stream.drop_advance h.2 rfl⟩

theorem Obtained.at {o : Option Datum} (h : Obtained c vch.length fRet value c' o)
    (hAt : c.At (vch ++ vchRest)) : c'.At vchRest := by
  cases o with
  | none =>
      obtain ⟨-, nCost, rfl⟩ := h
      exact hAt.skip
  | some d =>
      obtain ⟨-, vm, nCost, -, rfl⟩ := h
      exact hAt.skip

/-- A lookup ends its operand: what comes after does not go on. -/
theorem getValue_lookup {o : Option Datum} {v : Value} {f : Bool} {c₁ : Condition}
    (hObtained : Obtained c n f v c₁ o) (hAt : c₁.At vchRest) (hEnds : Ends vchRest) {m : Nat}
    (h : f = true ∧ getValue rt disk (m + 1) v c₁ = .ok (fRet, value, c') ∨
      ¬ f = true ∧ .ok (false, v, c₁) = (.ok (fRet, value, c') : Result Operand)) :
    Obtained c n fRet value c' o := by
  rcases h with ⟨hTrue, h⟩ | ⟨hFalse, h⟩
  · rw [getValue_ends hAt hEnds] at h
    cases h
    rwa [← hTrue]
  · cases h
    rwa [← Bool.not_eq_true _ |>.mp hFalse]

theorem Loaded.obtained (h : Loaded c l value c') :
    Obtained c l.payload.length true value c' (some l.datum) := by
  obtain ⟨-, -, vm, hAllocate, rfl⟩ := h
  exact ⟨rfl, vm, _, hAllocate, rfl⟩

/-- What is obtained past `m` more bytes. -/
theorem Obtained.skipped {o : Option Datum} {m : Nat} (h : Obtained (c.skip m) n fRet value c' o) :
    Obtained c (m + n) fRet value c' o := by
  unfold Obtained at h ⊢
  simp only [skip_skip] at h
  exact h

/-- A term is read to its end, and leaves what it is. -/
theorem getValue_term {m : Nat} (hAt : c.At (t.bytes ++ vchRest)) (hEnds : Ends vchRest)
    (hFuel : t.bytes.length < m) (hStores : Stores c.vm vchUsed) (hFinds : c.Finds disk t)
    (h : getValue rt disk m {} c = .ok (fRet, value, c')) :
    ∃ o, t.datum disk c.caller = .ok o ∧ Obtained c t.bytes.length fRet value c' o := by
  cases t with
  | literal l =>
      obtain ⟨m, rfl⟩ : ∃ n, m = n + 2 := ⟨m - 2, by simp [Term.bytes] at hFuel; omega⟩
      obtain ⟨vNext, c₁, hLoaded, h⟩ := (getValue_literal hAt).mp h
      rw [getValue_ends (hLoaded.at hAt.op.2) hEnds] at h
      cases h
      have hObtained := hLoaded.obtained.skipped
      rw [Nat.add_comm] at hObtained
      exact ⟨_, rfl, hObtained⟩
  | register l k =>
      obtain ⟨m, rfl⟩ : ∃ n, m = n + 3 := ⟨m - 3, by simp [Term.bytes] at hFuel; omega⟩
      have hBytes : (Term.register l k).bytes ++ vchRest =
          l.op :: (l.payload ++ k.registerOP :: (k.name ++ vchRest)) := by
        simp [Term.bytes]
      rw [hBytes] at hAt
      obtain ⟨vNext, c₁, hLoaded, h⟩ := (getValue_literal hAt).mp h
      have hAt' := hLoaded.at hAt.op.2
      have hFound := hFinds l k _ _ rfl hLoaded
      obtain ⟨-, -, vm, hAllocate, hEq⟩ := hLoaded
      rw [getValue_unary hAt' binary_register unary_register] at h
      simp only [bind_eq_ok, Prod.exists, ite_eq_ok] at h
      obtain ⟨f, v, c₂, hLookup, h⟩ := h
      have hName := hAt'.op.2
      have hAddress : l.datum.allocate c.vm = .ok (vNext, (c₁.skip 1).vm) := by
        rw [hEq]
        exact hAllocate
      -- the address is freed again, so only the cursor and the cost are others
      have hFreed : { c₁.skip 1 with vm := c.vm } =
          { c.skip (1 + l.payload.length + 1) with nCost := c₁.nCost } := by
        rw [hEq]
        simp [Condition.skip]
      have hCaller : (c₁.skip 1).caller = c.caller := by
        rw [hEq]
        rfl
      obtain ⟨o, hDatum, hObtained⟩ := obtains_register hStores hAddress hName hFound _ _ _ hLookup
      rw [hCaller] at hDatum
      have hRest := hObtained.at (hName.congr rfl)
      rw [hFreed] at hObtained
      have hDone := (getValue_lookup hObtained hRest hEnds h).paid.skipped
      have hLength : 1 + l.payload.length + 1 + k.name.length = (Term.register l k).bytes.length := by
        simp [Term.bytes]
        omega
      rw [hLength] at hDone
      exact ⟨o, hDatum, hDone⟩
  | prestate k =>
      obtain ⟨m, rfl⟩ : ∃ n, m = n + 2 := ⟨m - 2, by simp [Term.bytes] at hFuel; omega⟩
      rw [getValue_unary hAt binary_prestate unary_prestate] at h
      simp only [bind_eq_ok, Prod.exists, ite_eq_ok] at h
      obtain ⟨f, v, c₂, hLookup, h⟩ := h
      have hName : (c.skip 1).At (k.name ++ vchRest) := hAt.op.2
      obtain ⟨o, hDatum, hObtained⟩ := obtains_prestate hName _ _ _ hLookup
      have hDone := getValue_lookup hObtained (hObtained.at hName) hEnds h
      have hAll := hDone.skipped
      rw [Nat.add_comm] at hAll
      exact ⟨o, hDatum, hAll⟩

/-! ## Comparisons -/

theorem At.remaining (h : c.At vch) :
    c.contract.ssCondition.size - c.contract.ssCondition.nReadPos = vch.length := by
  have hLength := congrArg List.length h.2
  rwa [List.length_drop] at hLength

theorem GetValue_term (hAt : c.At (t.bytes ++ vchRest)) (hEnds : Ends vchRest)
    (hStores : Stores c.vm vchUsed) (hFinds : c.Finds disk t)
    (h : c.GetValue rt disk = .ok (fRet, value, c')) :
    ∃ o, t.datum disk c.caller = .ok o ∧ Obtained c t.bytes.length fRet value c' o := by
  refine getValue_term hAt hEnds ?_ hStores hFinds h
  rw [hAt.remaining, List.length_append]
  omega

theorem ends_compares (h : compares nOP = true) : ends nOP = true := by
  have hAll : [OP.EQUALS, OP.LESSTHAN, OP.GREATERTHAN, OP.LESSEQUALS, OP.GREATEREQUALS,
      OP.NOTEQUALS, OP.CONTAINS].all ends = true := by decide
  exact List.all_eq_true.mp hAll nOP (of_decide_eq_true h)

/-- After the left term comes the comparison. -/
theorem ends_left : Ends (cmp.OPERATION :: vch) := by
  intro nOP vchRest hEq
  rw [← (List.cons.inj hEq).1]
  exact ends_compares cmp.isCompare

/-- Freeing what was allocated restores the memory. -/
theorem free_allocated {vm : BaseVM} {d : Datum} (hStores : Stores vm vchUsed)
    (hAllocate : d.allocate vm = .ok (value, c.vm)) (h : c.free true value = .ok c') :
    c' = { c with vm } := by
  obtain ⟨-, rfl, hStores'⟩ := (allocate_eq_ok hStores).mp hAllocate
  simp only [free, if_true, map_eq_ok, deallocate_eq_ok] at h
  obtain ⟨vm', ⟨hTop, rfl⟩, rfl⟩ := h
  obtain ⟨-, -, hEnd, -⟩ := checkTop_eq_ok.mp hTop
  rw [(hStores'.release hStores.pointer hEnd).unique hStores]

theorem free_nothing (h : c.free false value = .ok c') : c' = c := by
  cases h
  rfl

/-- What is obtained, in any memory. -/
theorem Obtained.stores {o : Option Datum} (h : Obtained c n fRet value c' o)
    (hStores : Stores c.vm vchUsed) : ∃ vchUsed', Stores c'.vm vchUsed' := by
  cases o with
  | none =>
      obtain ⟨-, nCost, rfl⟩ := h
      exact ⟨_, hStores⟩
  | some d =>
      obtain ⟨-, vm, nCost, hAllocate, rfl⟩ := h
      exact ⟨_, ((allocate_eq_ok hStores).mp hAllocate).2.2⟩

theorem Obtained.caller {o : Option Datum} (h : Obtained c n fRet value c' o) :
    c'.caller = c.caller := by
  cases o with
  | none =>
      obtain ⟨-, nCost, rfl⟩ := h
      rfl
  | some d =>
      obtain ⟨-, vm, nCost, -, rfl⟩ := h
      rfl

/-- What was obtained is given back, when only the cursor and the cost have changed since. -/
theorem Obtained.freed {o : Option Datum} {c'' : Condition} {m : Nat}
    (h : Obtained c n fRet value c' o) (hStores : Stores c.vm vchUsed)
    (hFree : Condition.free fRet value { c'.skip m with nCost } = .ok c'') :
    ∃ nCost, c'' = { c.skip (n + m) with nCost } := by
  cases o with
  | none =>
      obtain ⟨rfl, nPaid, rfl⟩ := h
      refine ⟨nCost, ?_⟩
      rw [free_nothing hFree, ← skip_skip]
      rfl
  | some d =>
      obtain ⟨rfl, vm, nPaid, hAllocate, rfl⟩ := h
      refine ⟨nCost, ?_⟩
      rw [free_allocated hStores hAllocate hFree, ← skip_skip]
      rfl

/-- The value of a comparison, from what its terms obtained. -/
theorem value_of_obtained {a b : Option Datum} {m : Nat} {fLeft fRight : Bool}
    {vLeft vRight : Value} {c₁ c₂ : Condition} (hVm : c.vm = {})
    (hLeft : cmp.left.datum disk c.caller = .ok a) (hRight : cmp.right.datum disk c.caller = .ok b)
    (hObtainedLeft : Obtained c n fLeft vLeft c₁ a)
    (hObtainedRight : Obtained (c₁.skip 1) m fRight vRight c₂ b) :
    cmp.value rt disk c.caller =
      .ok (fLeft && fRight && (comparison rt cmp.OPERATION vLeft vRight c₂.vm).getD false) := by
  rw [Comparison.value, hLeft, hRight, ok_bind, ok_bind]
  cases a with
  | none =>
      obtain ⟨rfl, -⟩ := hObtainedLeft
      rfl
  | some a =>
      obtain ⟨rfl, vm, nCost, hAllocate, rfl⟩ := hObtainedLeft
      cases b with
      | none =>
          obtain ⟨rfl, -⟩ := hObtainedRight
          rfl
      | some b =>
          obtain ⟨rfl, vm', nCost', hAllocate', rfl⟩ := hObtainedRight
          have hSecond : b.allocate vm = .ok (vRight, vm') := hAllocate'
          simp only [Comparison.compare, ← hVm, hAllocate, ok_bind, hSecond, Bool.true_and]
          rfl

/-- A comparison of version 2 reads its own bytes, and gives the memory back. -/
theorem evaluateV2_comparison (hAt : c.At (cmp.bytes ++ vchRest)) (hEnds : Ends vchRest)
    (hVm : c.vm = {}) (hFinds : c.FindsBoth rt disk cmp)
    (h : c.evaluateV2 rt disk = .ok (fEvaluate, c')) :
    cmp.value rt disk c.caller = .ok fEvaluate ∧
      ∃ nCost, c' = { c.skip cmp.bytes.length with nCost } := by
  have hStores : Stores c.vm [] := by
    rw [hVm]
    exact stores_fresh
  rw [Comparison.bytes, List.append_assoc, List.cons_append] at hAt
  simp only [evaluateV2, bind_eq_ok, Prod.exists, ite_eq_ok, pure_eq_ok, Prod.mk.injEq] at h
  obtain ⟨fLeft, vLeft, c₁, hLeft, h⟩ := h
  obtain ⟨a, hDatumLeft, hObtainedLeft⟩ := GetValue_term hAt ends_left hStores hFinds.1 hLeft
  have hAtOP := hObtainedLeft.at hAt
  obtain ⟨hReadOP, hAtRight⟩ := hAtOP.op
  rcases h with ⟨hEnd, -⟩ | ⟨-, OPERATION, c₂, hRead, h⟩
  · rw [hAtOP.not_atEnd] at hEnd
    cases hEnd
  rw [hReadOP] at hRead
  cases hRead
  rcases h with ⟨-, fRight, vRight, c₂, hRight, c₃, hFreeRight, c₄, hFreeLeft, hValue, rfl⟩ |
    ⟨hNot, -⟩
  · obtain ⟨vchLeft, hStoresLeft⟩ := hObtainedLeft.stores hStores
    obtain ⟨b, hDatumRight, hObtainedRight⟩ :=
      GetValue_term hAtRight hEnds hStoresLeft (hFinds.2 _ _ _ hLeft) hRight
    have hCaller : (c₁.skip 1).caller = c.caller := hObtainedLeft.caller
    rw [hCaller] at hDatumRight
    refine ⟨?_, ?_⟩
    · rw [value_of_obtained hVm hDatumLeft hDatumRight hObtainedLeft hObtainedRight, hValue]
    · obtain ⟨nPaid, rfl⟩ := Obtained.freed (m := 0) hObtainedRight hStoresLeft hFreeRight
      rw [skip_skip, Nat.add_zero] at hFreeLeft
      obtain ⟨nCost, hEq⟩ := hObtainedLeft.freed hStores hFreeLeft
      refine ⟨nCost, hEq.trans ?_⟩
      have hLength : cmp.left.bytes.length + (1 + cmp.right.bytes.length) = cmp.bytes.length := by
        simp [Comparison.bytes]
        omega
      rw [hLength]
  · exact absurd cmp.isCompare hNot

/-- A comparison does not begin with an operation on groups. -/
theorem grouping_left (cmp : Comparison) : ∃ nOP vchRest, cmp.bytes = nOP :: vchRest ∧ grouping nOP = false := by
  obtain ⟨left, OPERATION, right, isCompare⟩ := cmp
  cases left with
  | literal l => exact ⟨l.op, _, rfl, by cases l <;> rfl⟩
  | register l k => exact ⟨l.op, _, rfl, by cases l <;> rfl⟩
  | prestate k => exact ⟨k.prestateOP, _, rfl, by cases k <;> rfl⟩

end Condition

end Nexus.Operation
