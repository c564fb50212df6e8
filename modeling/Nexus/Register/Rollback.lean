import Nexus.Operation.Execute

/-!
# Rolling back a contract

`Rollback` with `FLAGS::BLOCK`: the inverse of `Execute` that a disconnected block
runs.  It writes the pre-state that the contract carries, and takes back the
proofs, claimed amounts, events, indexes and validations.
-/

namespace Nexus.Register

open Nexus.Lib.Bytes
open Nexus.Lib.Checked
open Nexus.Util
open Nexus.Operation
open Nexus.LLD

/-- The pre-state in the script. -/
def rollbackState (strMissing : String) (contract : Contract) : Result State := do
  let (state, _) ← contract.preState strMissing
  return state

/-- Write the pre-state of a register back. -/
def rollbackRegister (rt : Runtime) (disk : Disk) (strMissing : String) (hashAddress : Address)
    (contract : Contract) : Result Disk := do
  let state ← rollbackState strMissing contract
  return commitState rt disk state hashAddress

/-- Take back the last event of an address. -/
def rollbackEvent (disk : Disk) (strMessage : String) (hashAddress : Uint256) : Result Disk := do
  let ledger ← demand (disk.ledger.EraseEvent hashAddress) (.error strMessage)
  return { disk with ledger }

/-- `WRITE` and `APPEND`. -/
def rollbackData (rt : Runtime) (disk : Disk) (strMissing : String) (contract : Contract) :
    Result (Contract × Disk) := do
  let (hashAddress, contract) ← contract.extract Uint256
  let (nSize, contract) ← contract.readCompactSize
  let contract ← contract.seek nSize
  let disk ← rollbackRegister rt disk strMissing hashAddress contract
  return (contract, disk)

def rollbackCREATE (disk : Disk) (contract : Contract) : Result (Contract × Disk) := do
  let (hashAddress, contract) ← contract.extract Uint256
  let (_, contract) ← contract.extract UInt8
  let (nSize, contract) ← contract.readCompactSize
  let contract ← contract.seek nSize
  return (contract, { disk with register := disk.register.EraseState hashAddress })

def rollbackTRANSFER (rt : Runtime) (disk : Disk) (contract : Contract) :
    Result (Contract × Disk) := do
  let (hashAddress, contract) ← contract.extract Uint256
  let (hashTransfer, contract) ← contract.extract Uint256
  let contract ← contract.seek 1
  let disk ← rollbackRegister rt disk "OP::TRANSFER: register state not in pre-state"
    hashAddress contract
  if hashTransfer ≠ WILDCARD_ADDRESS then do
    let disk ← rollbackEvent disk "OP::TRANSFER: failed to rollback event" hashTransfer
    return (contract, disk)
  else .ok (contract, disk)

def rollbackCLAIM (rt : Runtime) (disk : Disk) (contract : Contract) :
    Result (Contract × Disk) := do
  let (hashTx, contract) ← contract.extract Uint512
  let (nContract, contract) ← contract.extract UInt32
  let (hashAddress, contract) ← contract.extract Uint256
  let disk := { disk with ledger := disk.ledger.EraseProof hashAddress hashTx nContract }
  let disk ← rollbackRegister rt disk "OP::CLAIM: register state not in pre-state"
    hashAddress contract
  return (contract, disk)

def rollbackCOINBASE (disk : Disk) (contract : Contract) : Result (Contract × Disk) := do
  let (hashGenesis, contract) ← contract.extract Uint256
  let contract ← contract.seek 16
  if contract.hashCaller ≠ hashGenesis then do
    let disk ← rollbackEvent disk "" hashGenesis
    return (contract, disk)
  else .ok (contract, disk)

/-- `TRUST` and `TRUSTPOOL`. -/
def rollbackStake (rt : Runtime) (disk : Disk) (strMissing : String) (nSeek : Nat)
    (contract : Contract) : Result (Contract × Disk) := do
  let contract ← contract.seek nSeek
  let state ← rollbackState strMissing contract
  return (contract,
    { disk with register := RegisterDB.WriteTrust rt disk.register state.hashOwner state })

/-- `GENESIS` and `GENESISPOOL`. -/
def rollbackFirstStake (rt : Runtime) (disk : Disk) (strMissing : String) (nSeek : Nat)
    (contract : Contract) : Result (Contract × Disk) := do
  let contract ← contract.seek nSeek
  let state ← rollbackState strMissing contract
  let hashAddress := RegisterDB.trustAddress rt state.hashOwner
  return (contract,
    { disk with
      register :=
        (disk.register.WriteState rt hashAddress state).EraseTrust contract.hashCaller })

/-- The register that was paid is read before the wildcard is considered. -/
def rollbackDEBIT (rt : Runtime) (disk : Disk) (contract : Contract) :
    Result (Contract × Disk) := do
  let (hashFrom, contract) ← contract.extract Uint256
  let (hashTo, contract) ← contract.extract Uint256
  let contract ← contract.seek 16
  let disk ← rollbackRegister rt disk "OP::DEBIT: register state not in pre-state"
    hashFrom contract
  let stateTo ← demand (disk.register.ReadState hashTo) (.error "failed to read register to")
  if hashTo ≠ WILDCARD_ADDRESS then do
    let disk ← rollbackEvent disk "OP::DEBIT: failed to rollback event" stateTo.hashOwner
    return (contract, disk)
  else .ok (contract, disk)

/-- Take back the claimed amount of a debit to an object, by the first byte of the
referenced contract. -/
def rollbackClaimed (ledger : LedgerDB) (debit : Contract) (hashTx : Uint512)
    (nContract : UInt32) (nAmount : UInt64) : Result LedgerDB := do
  let (nDebit, debit) ← debit.extract UInt8
  if nDebit = OP.DEBIT then do
    let (_, debit) ← debit.extract Uint256
    let (hashTo, _) ← debit.extract Uint256
    if Address.IsObject hashTo then do
      let nClaimed ← demand (ledger.ReadClaimed hashTx nContract)
        (.error "OP::CREDIT: failed to read claimed amount")
      reject (nClaimed < nAmount) (.error "OP::CREDIT: amount larger than claimed (overflow)")
      return ledger.WriteClaimed hashTx nContract (nClaimed - nAmount)
    else .ok ledger
  else .ok ledger

def rollbackCREDIT (rt : Runtime) (disk : Disk) (contract : Contract) :
    Result (Contract × Disk) := do
  let (credit, contract) ← Credit.operands contract
  let disk :=
    { disk with
      ledger := disk.ledger.EraseProof credit.hashProof credit.hashTx credit.nContract }
  let disk ← rollbackRegister rt disk "OP::CREDIT: register state not in pre-state"
    credit.hashAccount contract
  let debit ← disk.ReadContract rt credit.hashTx credit.nContract
  let ledger ← rollbackClaimed disk.ledger debit credit.hashTx credit.nContract credit.nCredit
  return (contract, { disk with ledger })

def rollbackMIGRATE (rt : Runtime) (disk : Disk) (contract : Contract) :
    Result (Contract × Disk) := do
  let (hashTx, contract) ← contract.extract Uint512
  let (hashAccount, contract) ← contract.extract Uint256
  let (hashTrust, contract) ← contract.extract Uint576
  let contract ← contract.seek 76
  let disk ← rollbackRegister rt disk "OP::MIGRATE: register state not in pre-state"
    hashAccount contract
  return (contract,
    { disk with
      register := disk.register.EraseTrust contract.hashCaller
      ledger :=
        (disk.ledger.EraseProof WILDCARD_ADDRESS hashTx 0).EraseStake contract.hashCaller
      legacy := disk.legacy.EraseTrustConversion hashTrust })

def rollbackFEE (rt : Runtime) (disk : Disk) (contract : Contract) :
    Result (Contract × Disk) := do
  let (hashAddress, contract) ← contract.extract Uint256
  let contract ← contract.seek 8
  let disk ← rollbackRegister rt disk "OP::FEE: register state not in pre-state"
    hashAddress contract
  return (contract, disk)

def rollbackAUTHORIZE (disk : Disk) (contract : Contract) : Result (Contract × Disk) := do
  let contract ← contract.seek 96
  return (contract, disk)

def rollbackLEGACY (rt : Runtime) (disk : Disk) (contract : Contract) :
    Result (Contract × Disk) := do
  let (hashFrom, contract) ← contract.extract Uint256
  let contract ← contract.seek 8
  let (_, contract) ← contract.extractBytes
  let disk ← rollbackRegister rt disk "OP::LEGACY: register state not in pre-state"
    hashFrom contract
  return (contract, disk)

/-- The switch on the primitive. -/
def rollbackPrimitive (rt : Runtime) (disk : Disk) (contract : Contract) :
    Primitive → Result (Contract × Disk)
  | .WRITE => rollbackData rt disk "OP::WRITE: register state not in pre-state" contract
  | .APPEND => rollbackData rt disk "OP::APPEND: egister state not in pre-state" contract
  | .CREATE => rollbackCREATE disk contract
  | .TRANSFER => rollbackTRANSFER rt disk contract
  | .CLAIM => rollbackCLAIM rt disk contract
  | .COINBASE => rollbackCOINBASE disk contract
  | .TRUST =>
      rollbackStake rt disk "OP::TRUST: register state not in pre-state" 88 contract
  | .TRUSTPOOL =>
      rollbackStake rt disk "OP::TRUSTPOOL: register state not in pre-state" 136 contract
  | .GENESIS =>
      rollbackFirstStake rt disk "OP::GENESIS: register state not in pre-state" 8 contract
  | .GENESISPOOL =>
      rollbackFirstStake rt disk "OP::GENESISPOOL: register state not in pre-state" 56 contract
  | .DEBIT => rollbackDEBIT rt disk contract
  | .CREDIT => rollbackCREDIT rt disk contract
  | .MIGRATE => rollbackMIGRATE rt disk contract
  | .AUTHORIZE => rollbackAUTHORIZE disk contract
  | .FEE => rollbackFEE rt disk contract
  | .LEGACY => rollbackLEGACY rt disk contract

/-- The prefix: a validation is erased. -/
def rollbackPrefix (disk : Disk) (contract : Contract) : Result (UInt8 × Contract × Disk) := do
  let (nOP, contract) ← contract.extract UInt8
  if nOP = OP.CONDITION then do
    let (nOP, contract) ← contract.extract UInt8
    return (nOP, contract, disk)
  else if nOP = OP.VALIDATE then do
    let (hashTx, contract) ← contract.extract Uint512
    let (nContract, contract) ← contract.extract UInt32
    let disk := { disk with contract := disk.contract.EraseContract (hashTx, nContract) }
    let (nOP, contract) ← contract.extract UInt8
    return (nOP, contract, disk)
  else .ok (nOP, contract, disk)

/-- The body of the `try` block.  `WRITE` and `APPEND` return before the end of the
stream is checked. -/
def rollbackBody (rt : Runtime) (disk : Disk) (contract : Contract) : Result Disk := do
  let (nOP, contract, disk) ← rollbackPrefix disk contract.reset
  let op ← demand (Primitive.ofOP nOP) (.error "invalid code for contract execution")
  let (contract, disk) ← rollbackPrimitive rt disk contract op
  reject (op ≠ .WRITE ∧ op ≠ .APPEND ∧ contract.atEnd = false)
    (.error "can only have one PRIMITIVE per contract")
  return disk

/-- `Rollback(contract, FLAGS::BLOCK)`: the databases it leaves. -/
def Rollback (rt : Runtime) (disk : Disk) (contract : Contract) : Result Disk :=
  catching (rollbackBody rt disk contract)

end Nexus.Register
