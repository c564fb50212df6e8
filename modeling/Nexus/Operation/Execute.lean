import Nexus.Operation.Condition
import Nexus.Operation.Stake

/-!
# Executing a contract

`Execute` with `FLAGS::BLOCK` on a full node.  The optional prefix is a condition
or the validation of another contract's conditions; then one primitive is
verified, calculated on the pre-state that the contract carries, compared with
the post-state it carries, and committed.
-/

namespace Nexus.Operation

open Nexus.Lib.Bytes
open Nexus.Lib.Checked
open Nexus.Util
open Nexus.Register
open Nexus.LLD

/-! ## Conditions of a referenced contract -/

/-- The cost that conditions may have for free. -/
def CONDITION_LIMIT_FREE : UInt64 := 4096

/-- Add the cost of conditions beyond the free limit. -/
def assess (nCost nConditions : UInt64) : UInt64 :=
  if CONDITION_LIMIT_FREE < nConditions then nCost + (nConditions - CONDITION_LIMIT_FREE)
  else nCost

/-- Execute conditions that must be satisfied.  The result is their cost. -/
def satisfy (rt : Runtime) (disk : Disk) (strMessage : String) (contract caller : Contract) :
    Result UInt64 := do
  let (f, nConditions) ← orError strMessage (Condition.Execute rt disk { contract, caller })
  reject (f = false) (.error strMessage)
  return nConditions

namespace Validate

/-- The contract is a transfer or a debit with a condition.  Under version 1 it must be
open to everybody. -/
def checkCondition (nVersion : UInt32) (condition : Contract) : Result Unit := do
  let (nOP, condition) ← condition.extract UInt8
  if nOP = OP.TRANSFER then do
    let (_, condition) ← condition.extract Uint256
    let (hashTransfer, condition) ← condition.extract Uint256
    let (nType, condition) ← condition.extract UInt8
    reject (nType ≠ Transfer.CLAIM)
      (.error "OP::VALIDATE: cannot validate on forced transfer")
    reject (nVersion = 1 ∧ hashTransfer ≠ WILDCARD_ADDRESS)
      (.error "OP::VALIDATE: cannot validate without wildcard")
    reject (condition.atEnd = false)
      (.error "OP::VALIDATE: can't validate with extra conditions")
  else if nOP = OP.DEBIT then do
    let (_, condition) ← condition.extract Uint256
    let (hashTo, condition) ← condition.extract Uint256
    let (_, condition) ← condition.extract UInt64
    let (_, condition) ← condition.extract UInt64
    reject (nVersion ≤ 1 ∧ hashTo ≠ WILDCARD_ADDRESS)
      (.error "OP::VALIDATE: cannot validate without wildcard")
    reject (condition.atEnd = false)
      (.error "OP::VALIDATE: can't validate with extra conditions")
  else .error (.error "invalid validate PRIMITIVE op")

/-- `Verify(contract, condition, nCost)`. -/
def Verify (rt : Runtime) (disk : Disk) (contract condition : Contract) (nCost : UInt64) :
    Result UInt64 := do
  let condition := condition.reset
  reject condition.noConditions (.error "OP::VALIDATE: cannot validate with no conditions")
  let (nOP, condition) ← condition.extract UInt8
  reject (nOP ≠ OP.CONDITION) (.error "OP::VALIDATE: incorrect condition op")
  checkCondition contract.nVersion condition
  let nConditions ← satisfy rt disk "OP::VALIDATE: conditions not satisfied" condition contract
  return assess nCost nConditions

def Commit (disk : Disk) (hashTx : Uint512) (nContract : UInt32) (hashCaller : Uint256) :
    Result Disk := do
  reject (disk.contract.HasContract (hashTx, nContract))
    (.error "OP::VALIDATE: cannot validate when already fulfilled")
  return { disk with contract := disk.contract.WriteContract (hashTx, nContract) hashCaller }

end Validate

/-- The conditions of the contract that a claim or a credit refers to.  A conditional
contract that was validated is for its validator alone. -/
def checkConditions (rt : Runtime) (disk : Disk) (strOP : String) (hashTx : Uint512)
    (nContract : UInt32) (referenced contract : Contract) (nCost : UInt64) : Result UInt64 :=
  if referenced.noConditions then .ok nCost
  else do
    let (nType, referenced) ← referenced.extract UInt8
    let nConditions ←
      match if nType = OP.CONDITION then disk.contract.ReadContract (hashTx, nContract)
        else none with
      | some hashValidator =>
          (reject (hashValidator ≠ contract.hashCaller)
            (.error (strOP ++ ": caller is not authorized to claim validation"))).map fun _ => 0
      | none => satisfy rt disk (strOP ++ ": conditions not satisfied") referenced contract
    return assess nCost nConditions

/-! ## Calculation -/

/-- Calculate the post-state from the pre-state in the contract, and check it against the
post-state there. -/
def calculate (rt : Runtime) (strOP : String) (f : State → Result State) (contract : Contract) :
    Result (State × Contract) := do
  let (state, contract) ← contract.preState (strOP ++ ": register pre-state doesn't exist")
  let state ← f state
  let contract ← contract.postState rt state (strOP ++ ": register post-state doesn't exist")
    (strOP ++ ": invalid register post-state")
  return (state, contract)

/-- The contract has no conditions. -/
def noConditions (strMessage : String) (contract : Contract) : Result Unit :=
  reject (contract.noConditions = false) (.error strMessage)

/-- What executing a primitive leaves: the contract, the databases and the cost. -/
abbrev Executed := Contract × Disk × UInt64

/-! ## Register operations -/

/-- `WriteState` as a `Commit`. -/
def commitState (rt : Runtime) (disk : Disk) (state : State) (hashAddress : Uint256) : Disk :=
  { disk with register := disk.register.WriteState rt hashAddress state }

def executeWRITE (rt : Runtime) (disk : Disk) (contract : Contract) (nCost : UInt64) :
    Result Executed := do
  noConditions "OP::WRITE: conditions not allowed on write" contract
  let contract ← Write.Verify rt contract
  let (hashAddress, contract) ← contract.extract Uint256
  let (vchData, contract) ← contract.extractBytes
  let (state, contract) ← calculate rt "OP::WRITE"
    (fun state => Write.Execute rt state vchData contract.nTimestamp) contract
  return (contract, commitState rt disk state hashAddress, nCost)

/-- `Append::Execute` and the check of the register size. -/
def appendState (rt : Runtime) (vchData : List UInt8) (nTimestamp : UInt64) (state : State) :
    Result State := do
  let state ← Append.Execute rt state vchData nTimestamp
  reject (MAX_REGISTER_SIZE < state.vchState.length)
    (.error "OP::APPEND: register size out of bounds ")
  return state

def executeAPPEND (rt : Runtime) (disk : Disk) (contract : Contract) (nCost : UInt64) :
    Result Executed := do
  noConditions "OP::APPEND: conditions not allowed on append" contract
  let contract ← Append.Verify rt contract
  let (hashAddress, contract) ← contract.extract Uint256
  let (vchData, contract) ← contract.extractBytes
  let (state, contract) ← calculate rt "OP::APPEND"
    (appendState rt vchData contract.nTimestamp) contract
  return (contract, commitState rt disk state hashAddress, nCost)

/-- The state that a creation starts from. -/
def createdState (nType : UInt8) (hashOwner : Uint256) : State :=
  { nVersion := 1, nType, hashOwner }

def executeCREATE (rt : Runtime) (disk : Disk) (contract : Contract) (nCost : UInt64) :
    Result Executed := do
  noConditions "OP::CREATE: conditions not allowed on create" contract
  let contract ← Create.Verify contract
  let (hashAddress, contract) ← contract.extract Uint256
  let (nType, contract) ← contract.extract UInt8
  let (vchData, contract) ← contract.extractBytes
  reject (MAX_REGISTER_SIZE < vchData.length)
    (.error "OP::CREATE: register size out of bounds ")
  let state ← Create.Execute rt (createdState nType contract.hashCaller) vchData
    contract.nTimestamp
  let contract ← contract.postState rt state "OP::CREATE: register post-state doesn't exist"
    "OP::CREATE: invalid register post-state"
  let (disk, nCost) ← Create.Commit rt disk state hashAddress nCost
  return (contract, disk, nCost)

/-- The owner of a register that is transferred. -/
def transferOwner (nVersion : UInt32) (hashCaller hashTransfer : Uint256) (nType : UInt8) :
    Uint256 :=
  if nType = Transfer.FORCE then hashTransfer
  else if 1 < nVersion then SetType hashCaller GENESIS.SYSTEM
  else 0

def executeTRANSFER (rt : Runtime) (disk : Disk) (contract : Contract) (nCost : UInt64) :
    Result Executed := do
  let contract ← Transfer.Verify rt contract
  let (hashAddress, contract) ← contract.extract Uint256
  let (hashTransfer, contract) ← contract.extract Uint256
  let (nType, contract) ← contract.extract UInt8
  let hashNewOwner := transferOwner contract.nVersion contract.hashCaller hashTransfer nType
  let (state, contract) ← calculate rt "OP::TRANSFER"
    (fun state => Transfer.Execute rt state hashNewOwner contract.nTimestamp) contract
  return (contract, Transfer.Commit rt disk state contract.hashTx hashAddress hashTransfer, nCost)

/-- The pre-state of a claim has a message of its own. -/
def calculateClaim (rt : Runtime) (contract : Contract) : Result (State × Contract) := do
  let (state, contract) ← contract.preState "OP::CLAIM: register script not in pre-state"
  let state ← Claim.Execute rt state contract.hashCaller contract.nTimestamp
  let contract ← contract.postState rt state "OP::CLAIM: register post-state doesn't exist"
    "OP::CLAIM: invalid register post-state"
  return (state, contract)

def executeCLAIM (rt : Runtime) (disk : Disk) (contract : Contract) (nCost : UInt64) :
    Result Executed := do
  noConditions "OP::CLAIM: conditions not allowed on claim" contract
  let (hashTx, contract) ← contract.extract Uint512
  let (nContract, contract) ← contract.extract UInt32
  let (hashAddress, contract) ← contract.extract Uint256
  let transfer ← disk.ReadContract rt hashTx nContract
  let transfer ← Claim.Verify rt contract transfer
  let nCost ← checkConditions rt disk "OP::CLAIM" hashTx nContract transfer contract nCost
  let (state, contract) ← calculateClaim rt contract
  let disk ← Claim.Commit rt disk state hashAddress hashTx nContract
  return (contract, disk, nCost)

/-! ## Coinbase and stake -/

/-- The contract is not prefixed by a validation. -/
def noValidate (strMessage : String) (fValidate : Bool) : Result Unit :=
  reject fValidate (.error strMessage)

def executeCOINBASE (rt : Runtime) (disk : Disk) (fValidate : Bool) (contract : Contract)
    (nCost : UInt64) : Result Executed := do
  noValidate "OP::COINBASE: cannot use OP::VALIDATE with coinbase" fValidate
  let contract ← Coinbase.Verify rt contract
  let (hashGenesis, contract) ← contract.extract Uint256
  let contract ← contract.seek 16
  let disk :=
    if contract.hashCaller ≠ hashGenesis then Coinbase.Commit disk hashGenesis contract.hashTx
    else disk
  return (contract, disk, nCost)

/-- `TRUST` and `TRUSTPOOL`, by the operands to seek over. -/
def executeStake (rt : Runtime) (strOP : String) (verify : Runtime → Contract → Result Contract)
    (nSeek : Nat) (disk : Disk) (fValidate : Bool) (contract : Contract) (nCost : UInt64) :
    Result Executed := do
  noValidate (strOP ++ ": cannot use OP::VALIDATE with trust") fValidate
  noConditions (strOP ++ ": conditions not allowed on trust") contract
  let contract ← verify rt contract
  let contract ← contract.seek nSeek
  let (nScore, contract) ← contract.extract UInt64
  let (nStakeChange, contract) ← contract.extract Int64
  let (nReward, contract) ← contract.extract UInt64
  let (state, contract) ← calculate rt strOP
    (fun state => Trust.Execute rt state nReward nScore nStakeChange contract.nTimestamp) contract
  let disk ← Trust.Commit rt disk state
  return (contract, disk, nCost)

def executeTRUST (rt : Runtime) (disk : Disk) (fValidate : Bool) (contract : Contract)
    (nCost : UInt64) : Result Executed :=
  executeStake rt "OP::TRUST" Trust.Verify 64 disk fValidate contract nCost

def executeTRUSTPOOL (rt : Runtime) (disk : Disk) (fValidate : Bool) (contract : Contract)
    (nCost : UInt64) : Result Executed :=
  executeStake rt "OP::TRUSTPOOL" Trustpool.Verify 112 disk fValidate contract nCost

/-- `GENESIS` and `GENESISPOOL`, by the operands to seek over. -/
def executeFirstStake (rt : Runtime) (strOP : String)
    (verify : Runtime → Contract → Result Contract) (nSeek : Nat) (disk : Disk)
    (fValidate : Bool) (contract : Contract) (nCost : UInt64) : Result Executed := do
  noValidate (strOP ++ ": cannot use OP::VALIDATE with genesis") fValidate
  noConditions (strOP ++ ": conditions not allowed on genesis") contract
  let contract ← verify rt contract
  let contract ← contract.seek nSeek
  let (nReward, contract) ← contract.extract UInt64
  let (state, contract) ← calculate rt strOP
    (fun state => Genesis.Execute rt state nReward contract.nTimestamp) contract
  let disk ← Genesis.Commit rt disk state
  return (contract, disk, nCost)

/-- `GENESIS` seeks over nothing. -/
def executeGENESIS (rt : Runtime) (disk : Disk) (fValidate : Bool) (contract : Contract)
    (nCost : UInt64) : Result Executed :=
  executeFirstStake rt "OP::GENESIS" Genesis.Verify 0 disk fValidate contract nCost

def executeGENESISPOOL (rt : Runtime) (disk : Disk) (fValidate : Bool) (contract : Contract)
    (nCost : UInt64) : Result Executed :=
  executeFirstStake rt "OP::GENESISPOOL" Genesispool.Verify 48 disk fValidate contract nCost

def executeMIGRATE (rt : Runtime) (disk : Disk) (contract : Contract) (nCost : UInt64) :
    Result Executed := do
  noConditions "OP::MIGRATE: conditions not allowed on migrate" contract
  let (hashTx, contract) ← contract.extract Uint512
  let debit ← disk.ReadContract rt hashTx 0
  let debit ← Migrate.BuildMigrateDebit disk debit hashTx
  Migrate.Verify disk contract debit
  let contract ← contract.reset.seek 65
  let (migrate, contract) ← Migrate.operands contract
  let (state, contract) ← calculate rt "OP::MIGRATE"
    (fun state => Migrate.Execute rt state migrate.nAmount migrate.nScore contract.nTimestamp)
    contract
  let disk ← Migrate.Commit rt disk state migrate.hashAccount contract.hashCaller hashTx
    migrate.hashTrust migrate.hashLast
  return (contract, disk, nCost)

/-! ## Finance -/

def executeDEBIT (rt : Runtime) (disk : Disk) (contract : Contract) (nCost : UInt64) :
    Result Executed := do
  let contract ← Debit.Verify rt contract
  let (hashFrom, contract) ← contract.extract Uint256
  let (hashTo, contract) ← contract.extract Uint256
  let (nAmount, contract) ← contract.extract UInt64
  let (_, contract) ← contract.extract UInt64
  let (state, contract) ← calculate rt "OP::DEBIT"
    (fun state => Debit.Execute rt state nAmount contract.nTimestamp) contract
  let disk ← Debit.Commit rt disk state contract.hashTx hashFrom hashTo
  return (contract, disk, nCost)

def executeCREDIT (rt : Runtime) (disk : Disk) (contract : Contract) (nCost : UInt64) :
    Result Executed := do
  noConditions "OP::CREDIT: conditions not allowed on credit" contract
  let (credit, contract) ← Credit.operands contract
  let debit ← disk.ReadContract rt credit.hashTx credit.nContract
  let (contract, debit) ← Credit.Verify disk contract debit
  let nCost ← checkConditions rt disk "OP::CREDIT" credit.hashTx credit.nContract debit contract
    nCost
  let (state, contract) ← calculate rt "OP::CREDIT"
    (fun state => Credit.Execute rt state credit.nCredit contract.nTimestamp) contract
  let disk ← Credit.Commit rt disk state debit credit.hashAccount credit.hashProof credit.hashTx
    credit.nContract credit.nCredit
  return (contract, disk, nCost)

def executeFEE (rt : Runtime) (disk : Disk) (contract : Contract) (nCost : UInt64) :
    Result Executed := do
  noConditions "OP::FEE: conditions not allowed on fees" contract
  let contract ← Fee.Verify rt contract
  let (hashAddress, contract) ← contract.extract Uint256
  let (nFees, contract) ← contract.extract UInt64
  let (state, contract) ← calculate rt "OP::FEE"
    (fun state => Fee.Execute rt state nFees contract.nTimestamp) contract
  return (contract, commitState rt disk state hashAddress, nCost)

/-- `AUTHORIZE` is only seeked over. -/
def executeAUTHORIZE (disk : Disk) (contract : Contract) (nCost : UInt64) : Result Executed := do
  let contract ← contract.seek 96
  return (contract, disk, nCost)

def executeLEGACY (rt : Runtime) (disk : Disk) (contract : Contract) (nCost : UInt64) :
    Result Executed := do
  noConditions "OP::LEGACY: conditions not allowed on legacy" contract
  let contract ← Legacy.Verify rt contract
  let (hashAddress, contract) ← contract.extract Uint256
  let (nAmount, contract) ← contract.extract UInt64
  let (state, contract) ← calculate rt "OP::LEGACY"
    (fun state => Legacy.Execute rt state nAmount contract.nTimestamp) contract
  let disk := commitState rt disk state hashAddress
  let (_, contract) ← contract.extractBytes
  return (contract, disk, nCost)

/-! ## Dispatch -/

/-- The prefix of a contract: a condition, or the validation of another contract.  The
result has the operation code of the primitive and the flag of a validation. -/
def executePrefix (rt : Runtime) (disk : Disk) (contract : Contract) (nCost : UInt64) :
    Result (UInt8 × Bool × Executed) := do
  let (nOP, contract) ← contract.extract UInt8
  if nOP = OP.CONDITION then do
    let (nOP, contract) ← contract.extract UInt8
    reject (nOP ≠ OP.TRANSFER ∧ nOP ≠ OP.DEBIT) (.error "unsupported OP for condition")
    return (nOP, false, contract, disk, nCost)
  else if nOP = OP.VALIDATE then do
    let (hashTx, contract) ← contract.extract Uint512
    let (nContract, contract) ← contract.extract UInt32
    let condition ← disk.ReadContract rt hashTx nContract
    let nCost ← Validate.Verify rt disk contract condition nCost
    let disk ← Validate.Commit disk hashTx nContract contract.hashCaller
    let (nOP, contract) ← contract.extract UInt8
    return (nOP, true, contract, disk, nCost)
  else .ok (nOP, false, contract, disk, nCost)

/-- The switch on the primitive. -/
def executePrimitive (rt : Runtime) (disk : Disk) (fValidate : Bool) (contract : Contract)
    (nCost : UInt64) : Primitive → Result Executed
  | .WRITE => executeWRITE rt disk contract nCost
  | .APPEND => executeAPPEND rt disk contract nCost
  | .CREATE => executeCREATE rt disk contract nCost
  | .TRANSFER => executeTRANSFER rt disk contract nCost
  | .CLAIM => executeCLAIM rt disk contract nCost
  | .COINBASE => executeCOINBASE rt disk fValidate contract nCost
  | .TRUST => executeTRUST rt disk fValidate contract nCost
  | .TRUSTPOOL => executeTRUSTPOOL rt disk fValidate contract nCost
  | .GENESIS => executeGENESIS rt disk fValidate contract nCost
  | .GENESISPOOL => executeGENESISPOOL rt disk fValidate contract nCost
  | .DEBIT => executeDEBIT rt disk contract nCost
  | .CREDIT => executeCREDIT rt disk contract nCost
  | .MIGRATE => executeMIGRATE rt disk contract nCost
  | .AUTHORIZE => executeAUTHORIZE disk contract nCost
  | .FEE => executeFEE rt disk contract nCost
  | .LEGACY => executeLEGACY rt disk contract nCost

/-- The body of the `try` block. -/
def executeBody (rt : Runtime) (disk : Disk) (contract : Contract) (nCost : UInt64) :
    Result (Disk × UInt64) := do
  let (nOP, fValidate, contract, disk, nCost) ← executePrefix rt disk contract.reset nCost
  let op ← demand (Primitive.ofOP nOP) (.error "invalid code for contract execution ")
  let (contract, disk, nCost) ← executePrimitive rt disk fValidate contract nCost op
  reject (contract.atEnd = false) (.error "contract can only have one PRIMITIVE")
  return (disk, nCost)

/-- The `catch` block: an exception is an error. -/
def catching {α : Type} : Result α → Result α
  | .error (.exception strMessage) => .error (.error ("exception encountered " ++ strMessage))
  | x => x

/-- `Execute(contract, FLAGS::BLOCK, nCost)`: the databases and the cost it leaves. -/
def Execute (rt : Runtime) (disk : Disk) (contract : Contract) (nCost : UInt64) :
    Result (Disk × UInt64) :=
  catching (executeBody rt disk contract nCost)

end Nexus.Operation
