import Nexus.LLD.Database
import Nexus.Register.BaseVM

/-!
# Conditions

The machine that runs the conditions of a contract.  `GetValue` computes an
operand, `Evaluate` compares two operands, and `Execute` combines comparisons
with `AND`, `OR` and groups on a stack of pending connectives.
-/

namespace Nexus.Operation

open Nexus.Lib.Bytes
open Nexus.Lib.Checked
open Nexus.Util
open Nexus.Register
open Nexus.LLD

/-! ## Operation codes -/

namespace OP

def EQUALS : UInt8 := 0x80
def LESSTHAN : UInt8 := 0x81
def GREATERTHAN : UInt8 := 0x82
def NOTEQUALS : UInt8 := 0x83
def CONTAINS : UInt8 := 0x84
def LESSEQUALS : UInt8 := 0x85
def GREATEREQUALS : UInt8 := 0x86
def ADD : UInt8 := 0x90
def SUB : UInt8 := 0x91
def DIV : UInt8 := 0x92
def MUL : UInt8 := 0x93
def MOD : UInt8 := 0x94
def INC : UInt8 := 0x95
def DEC : UInt8 := 0x96
def EXP : UInt8 := 0x97
def SUBDATA : UInt8 := 0x98
def CAT : UInt8 := 0x99
def AND : UInt8 := 0xa0
def OR : UInt8 := 0xa1
def GROUP : UInt8 := 0xa2
def UNGROUP : UInt8 := 0xa3

def REGISTER.CREATED : UInt8 := 0xb0
def REGISTER.MODIFIED : UInt8 := 0xb1
def REGISTER.OWNER : UInt8 := 0xb2
def REGISTER.TYPE : UInt8 := 0xb3
def REGISTER.STATE : UInt8 := 0xb4
def REGISTER.VALUE : UInt8 := 0xb5
def CALLER.GENESIS : UInt8 := 0xc0
def CALLER.TIMESTAMP : UInt8 := 0xc1
def CALLER.OPERATIONS : UInt8 := 0xc2
def CALLER.PRESTATE.CREATED : UInt8 := 0xc4
def CALLER.PRESTATE.MODIFIED : UInt8 := 0xc5
def CALLER.PRESTATE.OWNER : UInt8 := 0xc6
def CALLER.PRESTATE.TYPE : UInt8 := 0xc7
def CALLER.PRESTATE.STATE : UInt8 := 0xc8
def CALLER.PRESTATE.VALUE : UInt8 := 0xc9
def CONTRACT.GENESIS : UInt8 := 0xca
def CONTRACT.TIMESTAMP : UInt8 := 0xcb
def CONTRACT.OPERATIONS : UInt8 := 0xcc
def LEDGER.HEIGHT : UInt8 := 0xd0
def LEDGER.SUPPLY : UInt8 := 0xd1
def LEDGER.TIMESTAMP : UInt8 := 0xd2
def CRYPTO.SK256 : UInt8 := 0xe0
def CRYPTO.SK512 : UInt8 := 0xe1

end OP

/-! ## The machine -/

structure Condition where
  vm : BaseVM := {}
  /-- The contract whose conditions are executed. -/
  contract : Contract
  /-- The contract that is calling validation. -/
  caller : Contract
  /-- The stack of open groups: the value so far and the pending connective. -/
  vEvaluate : List (Bool × UInt8) := [(false, OP.RESERVED)]
  nCost : UInt64 := 0
  deriving DecidableEq, Repr

/-- The contract register lookups of an operand end in. -/
abbrev Operand := Bool × Value × Condition

namespace Condition

/-- `operator>=`: read from the condition stream. -/
def extract (α : Type) [FixedWidth α] (c : Condition) : Result (α × Condition) :=
  (c.contract.ssCondition.extract α).map fun (a, ss) =>
    (a, { c with contract.ssCondition := ss })

/-- `operator>=` for byte vectors and strings. -/
def extractBytes (c : Condition) : Result (List UInt8 × Condition) :=
  c.contract.ssCondition.extractBytes.map fun (vch, ss) =>
    (vch, { c with contract.ssCondition := ss })

/-- `contract.Rewind(1)`. -/
def rewind (c : Condition) : Result Condition :=
  (c.contract.ssCondition.rewind 1).map fun ss => { c with contract.ssCondition := ss }

/-- `contract.End(CONDITIONS)`. -/
def atEnd (c : Condition) : Bool := c.contract.ssCondition.atEnd

/-- Add to the cost, which may not overflow. -/
def spend (strOP : String) (n : UInt64) (c : Condition) : Result Condition := do
  reject (c.nCost + n < c.nCost) (.exception (strOP ++ " costs value overflow"))
  return { c with nCost := c.nCost + n }

/-- Allocate a fixed-width value as the result. -/
def push (α : Type) [FixedWidth α] (c : Condition) (data : α) : Result (Value × Condition) :=
  (c.vm.allocate α data).map fun (value, vm) => (value, { c with vm })

/-- Allocate a byte vector as the result. -/
def pushBytes (c : Condition) (data : List UInt8) : Result (Value × Condition) :=
  (c.vm.allocateBytes data).map fun (value, vm) => (value, { c with vm })

/-- Allocate a fixed-width value and add to the cost. -/
def load (α : Type) [FixedWidth α] (strOP : String) (data : α) (nCost : UInt64) (c : Condition) :
    Result Operand := do
  let (value, c) ← c.push α data
  let c ← c.spend strOP nCost
  return (true, value, c)

/-- Allocate a byte vector and add to the cost. -/
def loadBytes (strOP : String) (data : List UInt8) (nCost : UInt64) (c : Condition) :
    Result Operand := do
  let (value, c) ← c.pushBytes data
  let c ← c.spend strOP nCost
  return (true, value, c)

/-! ## Arithmetic -/

/-- The cost of an arithmetic operation. -/
def arithmeticCost (OPERATION : UInt8) : UInt64 :=
  if OPERATION = OP.EXP then 256
  else if OPERATION = OP.DIV ∨ OPERATION = OP.MUL ∨ OPERATION = OP.MOD then 128
  else 64

/-- The name of an arithmetic operation in messages. -/
def arithmeticName (OPERATION : UInt8) : String :=
  if OPERATION = OP.ADD then "OP::ADD"
  else if OPERATION = OP.SUB then "OP::SUB"
  else if OPERATION = OP.DIV then "OP::DIV"
  else if OPERATION = OP.MUL then "OP::MUL"
  else if OPERATION = OP.EXP then "OP::EXP"
  else if OPERATION = OP.MOD then "OP::MOD"
  else if OPERATION = OP.INC then "OP::INC"
  else "OP::DEC"

/-- The loop of `EXP`.  The exponent is read from memory in every turn. -/
def power (vRet vExp : Value) (nBase : UInt64) : Nat → UInt64 → BaseVM → Result BaseVM
  | 0, _, _ => .error (.exception "OP::EXP 64-bit value overflow")
  | n + 1, e, vm =>
      if e < vm.at_ vExp then do
        reject (nBase ≠ 0 ∧ 0xffffffffffffffff / nBase < vm.at_ vRet)
          (.exception "OP::EXP 64-bit value overflow")
        power vRet vExp nBase n (e + 1) (vm.setAt vRet (vm.at_ vRet * nBase))
      else .ok vm

/-- The computation of an operation on two numbers, in place of the left one. -/
def compute (OPERATION : UInt8) (vRet vArg : Value) (vm : BaseVM) : Result BaseVM :=
  let a := vm.at_ vRet
  let b := vm.at_ vArg
  if OPERATION = OP.ADD then do
    reject (a + b < a) (.exception "OP::ADD 64-bit value overflow")
    return vm.setAt vRet (a + b)
  else if OPERATION = OP.SUB then do
    reject (a < a - b) (.exception "OP::SUB 64-bit value overflow")
    return vm.setAt vRet (a - b)
  else if OPERATION = OP.DIV then do
    reject (b = 0) (.exception "OP::DIV cannot divide by zero")
    return vm.setAt vRet (a / b)
  else if OPERATION = OP.MUL then do
    reject (b ≠ 0 ∧ 0xffffffffffffffff / b < a) (.exception "OP::MUL 64-bit value overflow")
    return vm.setAt vRet (a * b)
  else if OPERATION = OP.EXP then
    let vm := if b = 0 then vm.setAt vRet 1 else vm
    power vRet vArg (vm.at_ vRet) ((vm.at_ vArg).toNat + 65) 1 vm
  else do
    reject (b = 0) (.exception "OP::MOD cannot divide by zero")
    return vm.setAt vRet (a % b)

/-- An operation on the result and a second operand. -/
def arithmetic (OPERATION : UInt8) (vRet vArg : Value) (c : Condition) : Result Operand := do
  reject (1 < vArg.size ∨ 1 < vRet.size)
    (.exception (arithmeticName OPERATION ++ " computation greater than 64-bits"))
  let vm ← compute OPERATION vRet vArg c.vm
  let vm ← vm.deallocate vArg
  let c ← { c with vm }.spend (arithmeticName OPERATION) (arithmeticCost OPERATION)
  return (true, vRet, c)

/-- `INC` and `DEC`, by the number added; the register may not become `nLimit`. -/
def increment (OPERATION : UInt8) (n nLimit : UInt64) (vRet : Value) (c : Condition) :
    Result Operand := do
  reject (1 < vRet.size)
    (.exception (arithmeticName OPERATION ++ " computation greater than 64-bits"))
  reject (c.vm.at_ vRet + n = nLimit)
    (.exception (arithmeticName OPERATION ++ " 64-bit value overflow"))
  let c ← { c with vm := c.vm.setAt vRet (c.vm.at_ vRet + n) }.spend (arithmeticName OPERATION) 64
  return (true, vRet, c)

/-! ## Byte operations -/

/-- `SUBDATA`.  The slice is not checked against the data. -/
def subdata (rt : Runtime) (vRet : Value) (c : Condition) : Result Operand := do
  let (nBegin, c) ← c.extract UInt16
  let (nSize, c) ← c.extract UInt16
  let (vData, vm) ← c.vm.deallocateBytes vRet
  let vAlloc := (List.range nSize.toNat).map fun i => BaseVM.byteAt rt vData (nBegin.toNat + i)
  loadBytes "OP::SUBDATA" vAlloc (UInt64.ofNat vData.length) { c with vm }

/-- `CAT` of the result and a second operand. -/
def cat (vRet vCat : Value) (c : Condition) : Result Operand := do
  let vAlloc := c.vm.bytes vRet ++ c.vm.bytes vCat
  let vm ← c.vm.deallocate vCat
  let vm ← vm.deallocate vRet
  loadBytes "OP::CAT" vAlloc (UInt64.ofNat vCat.size) { c with vm }

/-- `SK256` and `SK512` of the result. -/
def crypto (α : Type) [FixedWidth α] (strOP : String) (hash : List UInt8 → α) (vRet : Value)
    (c : Condition) : Result Operand := do
  reject vRet.null (.exception (strOP ++ ": can't hash with no input"))
  let vm ← c.vm.deallocate vRet
  load α strOP (hash (c.vm.bytes vRet)) 2048 { c with vm }

/-! ## Literals -/

/-- A literal of a fixed-width type. -/
def literal (α : Type) [FixedWidth α] (strOP : String) (c : Condition) : Result Operand := do
  let (n, c) ← c.extract α
  c.load α strOP n (UInt64.ofNat (FixedWidth.width α))

/-- A string or byte vector literal, which is not empty. -/
def literalBytes (strOP strEmpty : String) (c : Condition) : Result Operand := do
  let (vData, c) ← c.extractBytes
  reject (vData = []) (.exception (strOP ++ strEmpty))
  c.loadBytes strOP vData (UInt64.ofNat vData.length)

/-! ## Register lookups -/

/-- The state of the register whose address is the result.  `none` is a register that
does not exist. -/
def registerState (disk : Disk) (vRet : Value) (c : Condition) :
    Result (Option State × Condition) := do
  let (hashRegister, vm) ← c.vm.deallocateData Uint256 vRet
  return (disk.register.ReadState hashRegister, { c with vm })

/-- The pre-state of the caller.  Its register script is reset before and after. -/
def callerState (c : Condition) : Result State := do
  let (_, caller) ← c.caller.resetRegisters.extractRegister UInt8
  let (state, _) ← caller.extractState
  return state

/-- A field of the state of a register, at a cost. -/
def registerField (α : Type) [FixedWidth α] (disk : Disk) (strOP : String) (field : State → α)
    (nCost : UInt64) (vRet : Value) (c : Condition) : Result Operand := do
  let (stateOpt, c) ← c.registerState disk vRet
  match stateOpt with
  | none => return (false, vRet, c)
  | some state =>
      let c ← c.spend strOP nCost
      let (value, c) ← c.push α (field state)
      return (true, value, c)

/-- A field of the pre-state of the caller, at a cost. -/
def callerField (α : Type) [FixedWidth α] (strOP : String) (field : State → α) (nCost : UInt64)
    (c : Condition) : Result Operand := do
  let state ← c.callerState
  let c ← c.spend strOP nCost
  let (value, c) ← c.push α (field state)
  return (true, value, c)

/-- `REGISTER::STATE`: the data of a register. -/
def registerData (disk : Disk) (vRet : Value) (c : Condition) : Result Operand := do
  let (stateOpt, c) ← c.registerState disk vRet
  match stateOpt with
  | none => return (false, vRet, c)
  | some state =>
      let c ← c.spend "OP::REGISTER::STATE" (UInt64.ofNat (4096 + state.vchState.length))
      let (value, c) ← c.pushBytes state.vchState
      return (true, value, c)

/-- The charge of an operation that checks the size but adds the cost to itself. -/
def double (strOP : String) (n : UInt64) (c : Condition) : Result Condition := do
  reject (c.nCost + n < c.nCost) (.exception (strOP ++ " costs value overflow"))
  return { c with nCost := c.nCost + c.nCost }

/-- `CALLER::PRESTATE::STATE`: the data of the pre-state. -/
def callerData (c : Condition) : Result Operand := do
  let state ← c.callerState
  let c ← c.double "OP::CALLER::PRESTATE::STATE" (UInt64.ofNat state.vchState.length)
  let (value, c) ← c.pushBytes state.vchState
  return (true, value, c)

/-- A call that returned `false`, as a value. -/
def caught {α : Type} : Result α → Result (Option α)
  | .ok a => .ok (some a)
  | .error (.error _) => .ok none
  | .error (.exception strMessage) => .error (.exception strMessage)

/-- `Object::Type`: the type of a field. -/
def fieldType (object : Object) (strName : List UInt8) : Result UInt8 := do
  let (_, nType, _) ← object.find strName
  reject (nType = TYPES.UNSUPPORTED) (.error "unsupported type")
  return nType

/-- A field of a fixed-width type. -/
def field (α : Type) [FieldType α] (strOP : String) (object : Object) (strName : List UInt8)
    (vRet : Value) (c : Condition) : Result Operand := do
  match ← caught (object.Read α strName) with
  | none => return (false, vRet, c)
  | some nValue => c.load α strOP nValue (UInt64.ofNat (FixedWidth.width α))

/-- A string or byte vector field. -/
def fieldBytes (strOP : String) (nType : UInt8) (object : Object) (strName : List UInt8)
    (vRet : Value) (c : Condition) : Result Operand := do
  match ← caught (object.ReadBytes nType strName) with
  | none => return (false, vRet, c)
  | some vData => c.loadBytes strOP vData (UInt64.ofNat vData.length)

/-- The switch on the type of a field. -/
def fieldValue (object : Object) (strName : List UInt8) (nType : UInt8) (vRet : Value)
    (c : Condition) : Result Operand :=
  if nType = TYPES.UINT8_T then
    field UInt8 "OP::REGISTER::VALUE::UINT8_T" object strName vRet c
  else if nType = TYPES.UINT16_T then
    field UInt16 "OP::REGISTER::VALUE::UINT16_T" object strName vRet c
  else if nType = TYPES.UINT32_T then
    field UInt32 "OP::REGISTER::VALUE::UINT32_T" object strName vRet c
  else if nType = TYPES.UINT64_T then
    field UInt64 "OP::REGISTER::VALUE::UINT64_T" object strName vRet c
  else if nType = TYPES.UINT256_T then
    field Uint256 "OP::REGISTER::VALUE::UINT256_T" object strName vRet c
  else if nType = TYPES.UINT512_T then
    field Uint512 "OP::REGISTER::VALUE::UINT512_T" object strName vRet c
  else if nType = TYPES.UINT1024_T then
    field Uint1024 "OP::REGISTER::VALUE::UINT1024_T" object strName vRet c
  else if nType = TYPES.STRING then
    fieldBytes "OP::REGISTER::VALUE::STRING" TYPES.STRING object strName vRet c
  else if nType = TYPES.BYTES then
    fieldBytes "OP::REGISTER::VALUE::BYTES" TYPES.BYTES object strName vRet c
  else .ok (false, vRet, c)

/-- The value of a named field of an object, whose name is in the condition stream. -/
def objectValue (state : State) (vRet : Value) (c : Condition) : Result Operand := do
  let (strValue, c) ← c.extractBytes
  if state.nType ≠ REGISTER.OBJECT then return (false, vRet, c)
  else
    match ← caught (Object.Parse { state }) with
    | none => return (false, vRet, c)
    | some object =>
        match ← caught (fieldType object strValue) with
        | none => return (false, vRet, c)
        | some nType => fieldValue object strValue nType vRet c

/-- `REGISTER::VALUE`. -/
def registerValue (disk : Disk) (vRet : Value) (c : Condition) : Result Operand := do
  let (stateOpt, c) ← c.registerState disk vRet
  match stateOpt with
  | none => return (false, vRet, c)
  | some state =>
      let c ← c.spend "OP::REGISTER::VALUE" 4096
      objectValue state vRet c

/-- `CALLER::PRESTATE::VALUE`. -/
def callerValue (vRet : Value) (c : Condition) : Result Operand := do
  let state ← c.callerState
  objectValue state vRet c

/-! ## Operations of a contract -/

/-- Where the primitive begins in the operations. -/
def offset (vBytes : List UInt8) : Nat :=
  if vBytes.head? = some OP.CONDITION then 1
  else if vBytes.head? = some OP.VALIDATE then 69
  else 0

/-- The operations past a condition or a validation. -/
def operations (strOP : String) (vBytes : List UInt8) (vRet : Value) (c : Condition) :
    Result Operand :=
  if vBytes.length ≤ offset vBytes then .ok (false, vRet, c)
  else do
    let (value, c) ← c.pushBytes (vBytes.drop (offset vBytes))
    let c ← c.double strOP (UInt64.ofNat vBytes.length)
    return (true, value, c)

/-- `CONTRACT::OPERATIONS`. -/
def contractOperations (vRet : Value) (c : Condition) : Result Operand := do
  reject (c.contract.ssOperation.vchData = [])
    (.exception "OP::CONTRACT::OPERATIONS contract has empty operations")
  operations "OP::CONTRACT::OPERATIONS" c.contract.ssOperation.vchData vRet c

/-- `CALLER::OPERATIONS`. -/
def callerOperations (vRet : Value) (c : Condition) : Result Operand :=
  operations "OP::CALLER::OPERATIONS" c.caller.ssOperation.vchData vRet c

/-! ## Operands -/

/-- The operations that take a second operand. -/
def binary (OPERATION : UInt8) : Bool :=
  OPERATION ∈ [OP.ADD, OP.SUB, OP.DIV, OP.MUL, OP.EXP, OP.MOD, OP.CAT]

/-- The operations that work on the result so far, and the values.  `none` is an
operation that does not belong to an operand. -/
def unary (rt : Runtime) (disk : Disk) (OPERATION : UInt8) (vRet : Value) (c : Condition) :
    Option (Result Operand) :=
  if OPERATION = OP.INC then some (increment OP.INC 1 0 vRet c)
  else if OPERATION = OP.DEC then
    some (increment OP.DEC 0xffffffffffffffff 0xffffffffffffffff vRet c)
  else if OPERATION = OP.SUBDATA then some (subdata rt vRet c)
  else if OPERATION = OP.TYPES.UINT8_T then some (literal UInt8 "OP::TYPES::UINT8_T" c)
  else if OPERATION = OP.TYPES.UINT16_T then some (literal UInt16 "OP::TYPES::UINT16_T" c)
  else if OPERATION = OP.TYPES.UINT32_T then some (literal UInt32 "OP::TYPES::UINT32_T" c)
  else if OPERATION = OP.TYPES.UINT64_T then some (literal UInt64 "OP::TYPES::UINT64_T" c)
  else if OPERATION = OP.TYPES.UINT256_T then some (literal Uint256 "OP::TYPES::UINT256_T" c)
  else if OPERATION = OP.TYPES.UINT512_T then some (literal Uint512 "OP::TYPES::UINT512_T" c)
  else if OPERATION = OP.TYPES.UINT1024_T then some (literal Uint1024 "OP::TYPES::UINT1024_T" c)
  else if OPERATION = OP.TYPES.STRING then
    some (literalBytes "OP::TYPES::STRING" " string is empty" c)
  else if OPERATION = OP.TYPES.BYTES then
    some (literalBytes "OP::TYPES::BYTES" " vector is empty" c)
  else if OPERATION = OP.REGISTER.MODIFIED then
    some (registerField UInt64 disk "OP::REGISTER::MODIFIED" (·.nModified) 5004 vRet c)
  else if OPERATION = OP.CALLER.PRESTATE.MODIFIED then
    some (callerField UInt64 "OP::CALLER::PRESTATE::MODIFIED" (·.nModified) 8 c)
  else if OPERATION = OP.REGISTER.CREATED then
    some (registerField UInt64 disk "OP::REGISTER::CREATED" (·.nCreated) 5004 vRet c)
  else if OPERATION = OP.CALLER.PRESTATE.CREATED then
    some (callerField UInt64 "OP::CALLER::PRESTATE::CREATED" (·.nCreated) 8 c)
  else if OPERATION = OP.REGISTER.OWNER then
    some (registerField Uint256 disk "OP::REGISTER::OWNER" (·.hashOwner) 4128 vRet c)
  else if OPERATION = OP.CALLER.PRESTATE.OWNER then
    some (callerField Uint256 "OP::CALLER::PRESTATE::OWNER" (·.hashOwner) 32 c)
  else if OPERATION = OP.REGISTER.TYPE then
    some (registerField UInt8 disk "OP::REGISTER::TYPE" (·.nType) 4097 vRet c)
  else if OPERATION = OP.CALLER.PRESTATE.TYPE then
    some (callerField UInt8 "OP::CALLER::PRESTATE::TYPE" (·.nType) 1 c)
  else if OPERATION = OP.REGISTER.STATE then some (registerData disk vRet c)
  else if OPERATION = OP.CALLER.PRESTATE.STATE then some (callerData c)
  else if OPERATION = OP.REGISTER.VALUE then some (registerValue disk vRet c)
  else if OPERATION = OP.CALLER.PRESTATE.VALUE then some (callerValue vRet c)
  else if OPERATION = OP.CALLER.GENESIS then
    some (load Uint256 "OP::CALLER::GENESIS" c.caller.hashCaller 32 c)
  else if OPERATION = OP.CALLER.TIMESTAMP then
    some (load UInt64 "OP::CALLER::TIMESTAMP" c.caller.nTimestamp 8 c)
  else if OPERATION = OP.CONTRACT.GENESIS then
    some (load Uint256 "OP::CONTRACT::GENESIS" c.contract.hashCaller 32 c)
  else if OPERATION = OP.CONTRACT.TIMESTAMP then
    some (load UInt64 "OP::CONTRACT::TIMESTAMP" c.contract.nTimestamp 8 c)
  else if OPERATION = OP.CONTRACT.OPERATIONS then some (contractOperations vRet c)
  else if OPERATION = OP.CALLER.OPERATIONS then some (callerOperations vRet c)
  else if OPERATION = OP.LEDGER.HEIGHT then
    some (load UInt32 "OP::LEDGER::HEIGHT" rt.nBestHeight 4 c)
  else if OPERATION = OP.LEDGER.SUPPLY then
    some (load UInt64 "OP::LEDGER::SUPPLY" rt.nBestMoneySupply 8 c)
  else if OPERATION = OP.LEDGER.TIMESTAMP then
    some (load UInt64 "OP::LEDGER::TIMESTAMP" rt.nBestTime 8 c)
  else if OPERATION = OP.CRYPTO.SK256 then
    some (crypto Uint256 "OP::CRYPTO::SK256" rt.SK256 vRet c)
  else if OPERATION = OP.CRYPTO.SK512 then
    some (crypto Uint512 "OP::CRYPTO::SK512" rt.SK512 vRet c)
  else none

/-- `GetValue`: compute an operand until an operation does not belong to it.  Every
turn and every second operand consumes a byte, so the bytes left bound the depth. -/
def getValue (rt : Runtime) (disk : Disk) : Nat → Value → Condition → Result Operand
  | 0, _, _ => .error (.exception "")
  | n + 1, vRet, c =>
      if c.atEnd then .ok (true, vRet, c)
      else do
        let (OPERATION, c) ← c.extract UInt8
        let next : Operand → Result Operand := fun (fRet, vRet, c) =>
          if fRet then getValue rt disk n vRet c else .ok (false, vRet, c)
        if binary OPERATION then
          let (fArg, vArg, c) ← getValue rt disk n {} c
          if !fArg then .ok (false, vRet, c)
          else if OPERATION = OP.CAT then cat vRet vArg c >>= next
          else arithmetic OPERATION vRet vArg c >>= next
        else
          match unary rt disk OPERATION vRet c with
          | some operand => operand >>= next
          | none => do
              let c ← c.rewind
              return (true, vRet, c)

def GetValue (rt : Runtime) (disk : Disk) (c : Condition) : Result Operand :=
  getValue rt disk (c.contract.ssCondition.size - c.contract.ssCondition.nReadPos + 1) {} c

/-! ## Comparisons -/

/-- The comparison of two values.  `none` is an operation that does not compare. -/
def comparison (rt : Runtime) (OPERATION : UInt8) (vLeft vRight : Value) (vm : BaseVM) :
    Option Bool :=
  if OPERATION = OP.EQUALS then some (vm.compare vLeft vRight == 0)
  else if OPERATION = OP.LESSTHAN then some (vm.compare vLeft vRight < 0)
  else if OPERATION = OP.GREATERTHAN then some (0 < vm.compare vLeft vRight)
  else if OPERATION = OP.LESSEQUALS then some (vm.compare vLeft vRight ≤ 0)
  else if OPERATION = OP.GREATEREQUALS then some (0 ≤ vm.compare vLeft vRight)
  else if OPERATION = OP.NOTEQUALS then some (vm.compare vLeft vRight != 0)
  else if OPERATION = OP.CONTAINS then some (vm.contains rt vLeft vRight)
  else none

/-- The operation compares. -/
def compares (OPERATION : UInt8) : Bool :=
  OPERATION ∈ [OP.EQUALS, OP.LESSTHAN, OP.GREATERTHAN, OP.LESSEQUALS, OP.GREATEREQUALS,
    OP.NOTEQUALS, OP.CONTAINS]

/-- `EvaluateV1`: a value that cannot be obtained is an exception. -/
def evaluateV1 (rt : Runtime) (disk : Disk) (c : Condition) : Result (Bool × Condition) := do
  let (fLeft, vLeft, c) ← c.GetValue rt disk
  reject (fLeft = false) (.exception "failed to get l-value")
  let (OPERATION, c) ← c.extract UInt8
  if compares OPERATION then do
    let (fRight, vRight, c) ← c.GetValue rt disk
    reject (fRight = false) (.exception "failed to get r-value")
    let fRet := (comparison rt OPERATION vLeft vRight c.vm).getD false
    let vm ← c.vm.deallocate vRight
    let vm ← vm.deallocate vLeft
    return (fRet, { c with vm })
  else return (false, c)

/-- Free a value if it was obtained. -/
def free (f : Bool) (value : Value) (c : Condition) : Result Condition :=
  if f then (c.vm.deallocate value).map fun vm => { c with vm } else .ok c

/-- `EvaluateV2`: a value that cannot be obtained makes the comparison false. -/
def evaluateV2 (rt : Runtime) (disk : Disk) (c : Condition) : Result (Bool × Condition) := do
  let (fLeft, vLeft, c) ← c.GetValue rt disk
  if c.atEnd then return (false, c)
  else do
    let (OPERATION, c) ← c.extract UInt8
    if compares OPERATION then do
      let (fRight, vRight, c) ← c.GetValue rt disk
      let fRet :=
        fLeft && fRight && (comparison rt OPERATION vLeft vRight c.vm).getD false
      let c ← c.free fRight vRight
      let c ← c.free fLeft vLeft
      return (fRet, c)
    else return (false, c)

/-- `Evaluate`, by the transaction version of the caller. -/
def Evaluate (rt : Runtime) (disk : Disk) (c : Condition) : Result (Bool × Condition) :=
  if c.caller.nVersion = 1 then c.evaluateV1 rt disk
  else if c.caller.nVersion = 2 then c.evaluateV2 rt disk
  else .ok (false, c)

/-! ## Groups -/

/-- Combine a value into the top of the stack, by its pending connective. -/
def combine (f : Bool) : List (Bool × UInt8) → Result (List (Bool × UInt8))
  | [] => .error (.error "malformed conditional statement")
  | (fTop, nOP) :: vEvaluate =>
      if nOP = OP.RESERVED then .ok ((f, nOP) :: vEvaluate)
      else if nOP = OP.AND then .ok ((fTop && f, nOP) :: vEvaluate)
      else if nOP = OP.OR then .ok ((fTop || f, nOP) :: vEvaluate)
      else .error (.error "conditional type is unsupported")

/-- `AND` and `OR`: set the pending connective of the top group, which may not be
`nOther`. -/
def connect (nOP nOther : UInt8) (strMessage : String) :
    List (Bool × UInt8) → Result (List (Bool × UInt8))
  | [] => .error (.error "evaluate ungrouping count incomplete")
  | (fTop, nTop) :: vEvaluate => do
      reject (nTop = nOther) (.error strMessage)
      return (fTop, nOP) :: vEvaluate

/-- `UNGROUP`.  Popping the base group leaves no top to read, which is undefined; here
it throws. -/
def ungroup : List (Bool × UInt8) → Result (List (Bool × UInt8))
  | [] => .error (.error "malformed conditional statement")
  | [_] => .error (.exception "top of an empty stack")
  | (fEvaluate, _) :: vEvaluate => combine fEvaluate vEvaluate

/-- One turn of the loop of `Execute`. -/
def step (rt : Runtime) (disk : Disk) (c : Condition) : Result Condition := do
  let (OPERATION, c) ← c.extract UInt8
  if OPERATION = OP.GROUP then
    spend "OP::GROUP" 128 { c with vEvaluate := (false, OP.RESERVED) :: c.vEvaluate }
  else if OPERATION = OP.UNGROUP then
    (ungroup c.vEvaluate).map fun vEvaluate => { c with vEvaluate }
  else if OPERATION = OP.AND then
    (connect OP.AND OP.OR "cannot evaluate OP::AND with previous OP::OR" c.vEvaluate).map
      fun vEvaluate => { c with vEvaluate }
  else if OPERATION = OP.OR then
    (connect OP.OR OP.AND "cannot evaluate OP::OR with previous OP::AND" c.vEvaluate).map
      fun vEvaluate => { c with vEvaluate }
  else do
    let c ← c.rewind
    reject (c.vEvaluate = []) (.error "malformed conditional statement")
    let (fEvaluate, c) ← c.Evaluate rt disk
    let vEvaluate ← combine fEvaluate c.vEvaluate
    return { c with vEvaluate }

/-- The loop of `Execute`.  With a known transaction version every turn consumes a byte,
so the bytes left bound the turns; with an unknown one the loop does not end. -/
def loop (rt : Runtime) (disk : Disk) : Nat → Condition → Result Condition
  | 0, c => if c.atEnd then .ok c else .error (.exception "Unknown transaction version")
  | n + 1, c => if c.atEnd then .ok c else c.step rt disk >>= loop rt disk n

/-- The value of the base group, when all other groups are closed. -/
def result : List (Bool × UInt8) → Result Bool
  | [(f, _)] => .ok f
  | _ => .error (.error "evaluate groups count incomplete")

/-- `Execute`: the result, and the cost. -/
def Execute (rt : Runtime) (disk : Disk) (c : Condition) : Result (Bool × UInt64) := do
  let c := { c with contract.ssCondition := c.contract.ssCondition.reset }
  let c ← loop rt disk c.contract.ssCondition.size c
  let f ← result c.vEvaluate
  return (f, c.nCost)

end Condition

end Nexus.Operation
