import Nexus.Operation.Condition

/-!
# Conditions of the API

The condition by which a transfer or a debit expires, and the search for it in the conditions of a
contract.
-/

namespace Nexus.API

open Nexus.Lib.Bytes
open Nexus.Lib.Checked
open Nexus.Util
open Nexus.Operation

/-! ## Strings -/

def IsAllDigit (strIn : List UInt8) : Bool :=
  !strIn.isEmpty && strIn.all fun c => 0x30 ≤ c && c ≤ 0x39

/-- The number that `strtoull` reads from digits. -/
def decimal (strIn : List UInt8) : Nat := strIn.foldl (fun n c => 10 * n + (c.toNat - 0x30)) 0

/-- `IsUINT64`, of digits. -/
def IsUINT64 (strIn : List UInt8) : Bool := decimal strIn < 2 ^ 64

/-! ## AddExpires -/

/-- The number of seconds after which a contract expires: a day, if the caller gives none. -/
def expires (params : Option (List UInt8)) : Result UInt64 :=
  match params with
  | none => .ok 86400
  | some strExpires => do
      reject (!IsAllDigit strExpires || !IsUINT64 strExpires) (.exception "Invalid expiration time")
      return UInt64.ofNat (decimal strExpires)

/-- `operator<=`: write to the condition stream. -/
def appendCondition (vch : List UInt8) (contract : Contract) : Contract :=
  { contract with ssCondition.vchData := contract.ssCondition.vchData ++ vch }

/-- The caller is the given one, or is not. -/
def genesisClause (nOP : UInt8) (hashCaller : Uint256) : List UInt8 :=
  OP.CALLER.GENESIS :: nOP :: OP.TYPES.UINT256_T :: FixedWidth.encode hashCaller

/-- The contract expires behind the best block, or in front of it. -/
def timestampClause (nOP : UInt8) (nExpires : UInt64) : List UInt8 :=
  OP.CONTRACT.TIMESTAMP :: OP.ADD :: OP.TYPES.UINT64_T ::
    (FixedWidth.encode nExpires ++ [nOP, OP.LEDGER.TIMESTAMP])

/-- The condition for others than the sender, before the expiration. -/
def recipientGroup (hashCaller : Uint256) (nExpires : UInt64) : List UInt8 :=
  [OP.GROUP] ++ genesisClause OP.NOTEQUALS hashCaller ++ [OP.AND] ++
    timestampClause OP.GREATERTHAN nExpires ++ [OP.UNGROUP]

/-- The condition for the sender, after the expiration. -/
def senderGroup (hashCaller : Uint256) (nExpires : UInt64) : List UInt8 :=
  [OP.GROUP] ++ genesisClause OP.EQUALS hashCaller ++ [OP.AND] ++
    timestampClause OP.LESSTHAN nExpires ++ [OP.UNGROUP]

/-- The condition for a sender who is a holder of a tokenized asset, before the expiration. -/
def holderGroup (hashCaller : Uint256) (nExpires : UInt64) : List UInt8 :=
  [OP.GROUP] ++ genesisClause OP.EQUALS hashCaller ++ [OP.AND] ++
    [OP.CONTRACT.OPERATIONS, OP.SUBDATA] ++ FixedWidth.encode (1 : UInt16) ++
    FixedWidth.encode (32 : UInt16) ++ [OP.NOTEQUALS] ++
    [OP.CALLER.OPERATIONS, OP.SUBDATA] ++ FixedWidth.encode (101 : UInt16) ++
    FixedWidth.encode (32 : UInt16) ++ [OP.AND] ++
    timestampClause OP.GREATERTHAN nExpires ++ [OP.UNGROUP]

/-- The condition of an expiration. -/
def expiration (hashCaller : Uint256) (nExpires : UInt64) : List UInt8 :=
  recipientGroup hashCaller nExpires ++ [OP.OR] ++ senderGroup hashCaller nExpires

/-- `AddExpires`. -/
def AddExpires (params : Option (List UInt8)) (hashCaller : Uint256) (contract : Contract)
    (fTokenizedDebit : Bool) : Result (Contract × Bool) := do
  let nExpires ← expires params
  let contract := appendCondition (expiration hashCaller nExpires) contract
  let contract :=
    if fTokenizedDebit then appendCondition ([OP.OR] ++ holderGroup hashCaller nExpires) contract
    else contract
  return (contract, true)

/-! ## HasCondition -/

/-- The bytes of data behind an operation, which are not compared. -/
def dataWidth (byte : UInt8) : Nat :=
  if byte = OP.TYPES.UINT8_T then 1
  else if byte = OP.TYPES.UINT16_T then 2
  else if byte = OP.TYPES.UINT32_T then 4
  else if byte = OP.TYPES.UINT64_T then 8
  else if byte = OP.TYPES.UINT256_T then 32
  else if byte = OP.TYPES.UINT512_T then 64
  else if byte = OP.TYPES.UINT1024_T then 128
  else if byte = OP.SUBDATA then 4
  else 0

/-- Go past the data of an operation. -/
def skipData (byte : UInt8) (ss : Stream) : Result Stream :=
  if byte = OP.TYPES.BYTES ∨ byte = OP.TYPES.STRING then ss.extractBytes.map Prod.snd
  else ss.seek (dataWidth byte)

/-- The inner loop of `HasCondition`: where it leaves the stream of the condition.  Every turn reads
a byte of it. -/
def compareStreams : Nat → Stream → Stream → Result Stream
  | 0, condition, _ => .ok condition
  | n + 1, condition, contract =>
      if condition.atEnd || contract.atEnd then .ok condition
      else do
        let (byte, condition) ← condition.extract UInt8
        let (compare, contract) ← contract.extract UInt8
        if byte ≠ compare then return condition
        else do
          let condition ← skipData byte condition
          let contract ← skipData byte contract
          compareStreams n condition contract

/-- The outer loop of `HasCondition`.  Every turn resets the stream of the condition, and reads a byte
of the contract. -/
def searchCondition (condition : Stream) : Nat → Stream → Result Bool
  | 0, _ => .ok false
  | n + 1, contract =>
      if contract.atEnd then .ok false
      else do
        let (byte, ss) ← condition.reset.extract UInt8
        let (compare, contract) ← contract.extract UInt8
        if compare = byte then do
          let ss ← compareStreams condition.size ss contract
          if ss.atEnd then return true
          else searchCondition condition n contract
        else searchCondition condition n contract

/-- `HasCondition`. -/
def HasCondition (contract condition : Contract) : Result Bool :=
  searchCondition condition.ssCondition contract.ssCondition.size contract.ssCondition.reset

/-- `HasExpires`. -/
def HasExpires (contract : Contract) : Result Bool := do
  let (condition, _) ← AddExpires none 0 {} false
  HasCondition contract condition

end Nexus.API
