import Nexus.Operation.Execute

/-!
# Verifying and building register scripts

`Build` writes the register script of a contract: the pre-state of its register,
and the hash of the post-state.  `Verify` compares the pre-state in the script
with the current state and calculates the post-state again.  Both thread a map
of the states that earlier contracts of the transaction left, which is read
before the database.
-/

namespace Nexus.Register

open Nexus.Lib.Bytes
open Nexus.Lib.Checked
open Nexus.Util
open Nexus.Operation
open Nexus.LLD

/-- `std::map<uint256_t, State>`. -/
abbrev States := Uint256 → Option State

/-- A state by address: from the map, or from the database. -/
def readState (disk : Disk) (mapStates : States) (hashAddress : Address) : Option State :=
  mapStates hashAddress <|> disk.register.ReadState hashAddress

/-- The address of the trust account of the caller. -/
def callerTrust (rt : Runtime) (contract : Contract) : Address :=
  RegisterDB.trustAddress rt contract.hashCaller

/-! ## Verify -/

/-- Check the pre-state in the script against the current state, and calculate the
post-state from the current state.  `check` is an early check of the pre-state,
and `fOwner` says that the caller must be the owner. -/
def verifyRegister (rt : Runtime) (disk : Disk) (mapStates : States) (strOP : String)
    (hashAddress : Address) (check : State → Result Unit) (fOwner : Bool)
    (f : State → Result State) (contract : Contract) : Result States := do
  let (prestate, contract) ← contract.preState (strOP ++ ": register state not in pre-state")
  check prestate
  let state ← demand (readState disk mapStates hashAddress)
    (.error (strOP ++ ": failed to read pre-state"))
  reject (prestate.Equal rt state = false) (.error (strOP ++ ": pre-state verification failed"))
  reject (fOwner = true ∧ contract.hashCaller ≠ prestate.hashOwner)
    (.error (strOP ++ ": not authorized "))
  let state ← f state
  return Function.update mapStates hashAddress (some state)

/-- Most primitives have no early check. -/
def noCheck (_ : State) : Result Unit := .ok ()

/-- The early check of `GENESIS` and `GENESISPOOL`. -/
def checkOwner (strOP : String) (hashCaller : Uint256) (prestate : State) : Result Unit :=
  reject (prestate.hashOwner ≠ hashCaller) (.error (strOP ++ ": caller is not state owner"))

def verifyWRITE (rt : Runtime) (disk : Disk) (mapStates : States) (contract : Contract) :
    Result (Contract × States) := do
  let (hashAddress, contract) ← contract.extract Uint256
  let (vchData, contract) ← contract.extractBytes
  let mapStates ← verifyRegister rt disk mapStates "OP::WRITE" hashAddress noCheck true
    (fun state => Write.Execute rt state vchData contract.nTimestamp) contract
  return (contract, mapStates)

def verifyAPPEND (rt : Runtime) (disk : Disk) (mapStates : States) (contract : Contract) :
    Result (Contract × States) := do
  let (hashAddress, contract) ← contract.extract Uint256
  let (vchData, contract) ← contract.extractBytes
  let mapStates ← verifyRegister rt disk mapStates "OP::APPEND" hashAddress noCheck true
    (fun state => Append.Execute rt state vchData contract.nTimestamp) contract
  return (contract, mapStates)

def verifyCREATE (rt : Runtime) (mapStates : States) (contract : Contract) :
    Result (Contract × States) := do
  let (hashAddress, contract) ← contract.extract Uint256
  let (nType, contract) ← contract.extract UInt8
  let (vchData, contract) ← contract.extractBytes
  let state ← Create.Execute rt (createdState nType contract.hashCaller) vchData
    contract.nTimestamp
  return (contract, Function.update mapStates hashAddress (some state))

def verifyTRANSFER (rt : Runtime) (disk : Disk) (mapStates : States) (contract : Contract) :
    Result (Contract × States) := do
  let (hashAddress, contract) ← contract.extract Uint256
  let (hashTransfer, contract) ← contract.extract Uint256
  let (nType, contract) ← contract.extract UInt8
  let hashNewOwner := transferOwner contract.nVersion contract.hashCaller hashTransfer nType
  let mapStates ← verifyRegister rt disk mapStates "OP::TRANSFER" hashAddress noCheck true
    (fun state => Transfer.Execute rt state hashNewOwner contract.nTimestamp) contract
  return (contract, mapStates)

/-- A claim is not by the owner of the pre-state. -/
def verifyCLAIM (rt : Runtime) (disk : Disk) (mapStates : States) (contract : Contract) :
    Result (Contract × States) := do
  let contract ← contract.seek 68
  let (hashAddress, contract) ← contract.extract Uint256
  let mapStates ← verifyRegister rt disk mapStates "OP::CLAIM" hashAddress noCheck false
    (fun state => Claim.Execute rt state contract.hashCaller contract.nTimestamp) contract
  return (contract, mapStates)

/-- `TRUST` and `TRUSTPOOL`. -/
def verifyStake (rt : Runtime) (disk : Disk) (mapStates : States) (strOP : String) (nSeek : Nat)
    (contract : Contract) : Result (Contract × States) := do
  let contract ← contract.seek nSeek
  let (nScore, contract) ← contract.extract UInt64
  let (nStakeChange, contract) ← contract.extract Int64
  let (nReward, contract) ← contract.extract UInt64
  let mapStates ← verifyRegister rt disk mapStates strOP (callerTrust rt contract) noCheck true
    (fun state => Trust.Execute rt state nReward nScore nStakeChange contract.nTimestamp) contract
  return (contract, mapStates)

/-- `GENESIS` and `GENESISPOOL`. -/
def verifyFirstStake (rt : Runtime) (disk : Disk) (mapStates : States) (strOP : String)
    (nSeek : Nat) (contract : Contract) : Result (Contract × States) := do
  let contract ← contract.seek nSeek
  let (nReward, contract) ← contract.extract UInt64
  let mapStates ← verifyRegister rt disk mapStates strOP (callerTrust rt contract)
    (checkOwner strOP contract.hashCaller) true
    (fun state => Genesis.Execute rt state nReward contract.nTimestamp) contract
  return (contract, mapStates)

/-- The marker of the pre-state is read before the reference; the two are in different
streams. -/
def verifyDEBIT (rt : Runtime) (disk : Disk) (mapStates : States) (contract : Contract) :
    Result (Contract × States) := do
  let (hashAddress, contract) ← contract.extract Uint256
  let contract ← contract.seek 32
  let (nAmount, contract) ← contract.extract UInt64
  let (_, contract) ← contract.extract UInt64
  let mapStates ← verifyRegister rt disk mapStates "OP::DEBIT" hashAddress noCheck true
    (fun state => Debit.Execute rt state nAmount contract.nTimestamp) contract
  return (contract, mapStates)

def verifyCREDIT (rt : Runtime) (disk : Disk) (mapStates : States) (contract : Contract) :
    Result (Contract × States) := do
  let contract ← contract.seek 68
  let (hashAddress, contract) ← contract.extract Uint256
  let contract ← contract.seek 32
  let (nAmount, contract) ← contract.extract UInt64
  let mapStates ← verifyRegister rt disk mapStates "OP::CREDIT" hashAddress noCheck true
    (fun state => Credit.Execute rt state nAmount contract.nTimestamp) contract
  return (contract, mapStates)

def verifyMIGRATE (rt : Runtime) (disk : Disk) (mapStates : States) (contract : Contract) :
    Result (Contract × States) := do
  let contract ← contract.seek 64
  let (hashAccount, contract) ← contract.extract Uint256
  let contract ← contract.seek 72
  let (nAmount, contract) ← contract.extract UInt64
  let (nScore, contract) ← contract.extract UInt32
  let contract ← contract.seek 64
  let mapStates ← verifyRegister rt disk mapStates "OP::MIGRATE" hashAccount noCheck true
    (fun state => Migrate.Execute rt state nAmount nScore contract.nTimestamp) contract
  return (contract, mapStates)

def verifyFEE (rt : Runtime) (disk : Disk) (mapStates : States) (contract : Contract) :
    Result (Contract × States) := do
  let (hashAddress, contract) ← contract.extract Uint256
  let (nFees, contract) ← contract.extract UInt64
  let mapStates ← verifyRegister rt disk mapStates "OP::FEE" hashAddress noCheck true
    (fun state => Fee.Execute rt state nFees contract.nTimestamp) contract
  return (contract, mapStates)

def verifyLEGACY (rt : Runtime) (disk : Disk) (mapStates : States) (contract : Contract) :
    Result (Contract × States) := do
  let (hashAddress, contract) ← contract.extract Uint256
  let (nAmount, contract) ← contract.extract UInt64
  let mapStates ← verifyRegister rt disk mapStates "OP::LEGACY" hashAddress noCheck true
    (fun state => Legacy.Execute rt state nAmount contract.nTimestamp) contract
  let (nSize, contract) ← contract.readCompactSize
  let contract ← contract.seek nSize
  return (contract, mapStates)

/-- Primitives that change no register are seeked over. -/
def seekOver (mapStates : States) (nSize : Nat) (contract : Contract) :
    Result (Contract × States) := do
  let contract ← contract.seek nSize
  return (contract, mapStates)

/-- The switch on the primitive. -/
def verifyPrimitive (rt : Runtime) (disk : Disk) (mapStates : States) (contract : Contract) :
    Primitive → Result (Contract × States)
  | .WRITE => verifyWRITE rt disk mapStates contract
  | .APPEND => verifyAPPEND rt disk mapStates contract
  | .CREATE => verifyCREATE rt mapStates contract
  | .TRANSFER => verifyTRANSFER rt disk mapStates contract
  | .CLAIM => verifyCLAIM rt disk mapStates contract
  | .COINBASE => seekOver mapStates 48 contract
  | .TRUST => verifyStake rt disk mapStates "OP::TRUST" 64 contract
  | .TRUSTPOOL => verifyStake rt disk mapStates "OP::TRUSTPOOL" 112 contract
  | .GENESIS => verifyFirstStake rt disk mapStates "OP::GENESIS" 0 contract
  | .GENESISPOOL => verifyFirstStake rt disk mapStates "OP::GENESISPOOL" 48 contract
  | .DEBIT => verifyDEBIT rt disk mapStates contract
  | .CREDIT => verifyCREDIT rt disk mapStates contract
  | .MIGRATE => verifyMIGRATE rt disk mapStates contract
  | .AUTHORIZE => seekOver mapStates 96 contract
  | .FEE => verifyFEE rt disk mapStates contract
  | .LEGACY => verifyLEGACY rt disk mapStates contract

/-- The operation code past the prefix. -/
def verifyPrefix (contract : Contract) : Result (UInt8 × Contract) := do
  let (nOP, contract) ← contract.extract UInt8
  if nOP = OP.CONDITION then contract.extract UInt8
  else if nOP = OP.VALIDATE then do
    let contract ← contract.seek 68
    contract.extract UInt8
  else .ok (nOP, contract)

/-- The switch on the operation code.  A second validation is seeked over. -/
def verifyOP (rt : Runtime) (disk : Disk) (mapStates : States) (nOP : UInt8)
    (contract : Contract) : Result (Contract × States) :=
  if nOP = OP.VALIDATE then seekOver mapStates 68 contract
  else do
    let op ← demand (Primitive.ofOP nOP) (.error "invalid code for contract verification")
    verifyPrimitive rt disk mapStates contract op

/-- The body of the `try` block.  `WRITE` and `APPEND` return before the end of the
stream is checked. -/
def verifyBody (rt : Runtime) (disk : Disk) (mapStates : States) (contract : Contract) :
    Result States := do
  let (nOP, contract) ← verifyPrefix contract.reset
  let (contract, mapStates) ← verifyOP rt disk mapStates nOP contract
  reject (nOP ≠ OP.WRITE ∧ nOP ≠ OP.APPEND ∧ contract.atEnd = false)
    (.error "can only have one PRIMITIVE per contract")
  return mapStates

/-- `Verify(contract, mapStates, FLAGS::BLOCK)`: the map it leaves. -/
def Verify (rt : Runtime) (disk : Disk) (mapStates : States) (contract : Contract) :
    Result States :=
  catching (verifyBody rt disk mapStates contract)

/-! ## Build -/

/-- `operator<<=`: add to the end of the register script. -/
def writeRegister (contract : Contract) (vch : List UInt8) : Contract :=
  { contract with ssRegister.vchData := contract.ssRegister.vchData ++ vch }

/-- Write the post-state: its marker and its hash. -/
def writePostState (rt : Runtime) (contract : Contract) (state : State) : Contract :=
  writeRegister (writeRegister contract (FixedWidth.encode STATES.POSTSTATE))
    (FixedWidth.encode (state.GetHash rt))

/-- Write the pre-state of a register from the current state, calculate, and write the
post-state. -/
def buildRegister (rt : Runtime) (disk : Disk) (mapStates : States) (strOP : String)
    (hashAddress : Address) (fOwner : Bool) (f : State → Result State) (contract : Contract) :
    Result (Contract × States) := do
  let contract := writeRegister contract (FixedWidth.encode STATES.PRESTATE)
  let state ← demand (readState disk mapStates hashAddress)
    (.error (strOP ++ ": register pre-state doesn't exist"))
  reject (fOwner = true ∧ state.hashOwner ≠ contract.hashCaller)
    (.error (strOP ++ ": cannot generate pre-state if not owner"))
  let contract := writeRegister contract state.serialize
  let state ← f state
  return (writePostState rt contract state,
    Function.update mapStates hashAddress (some state))

def buildWRITE (rt : Runtime) (disk : Disk) (mapStates : States) (contract : Contract) :
    Result (Contract × States) := do
  let (hashAddress, contract) ← contract.extract Uint256
  let (vchData, contract) ← contract.extractBytes
  buildRegister rt disk mapStates "OP::WRITE" hashAddress true
    (fun state => orError "OP::WRITE: cannot generate post-state"
      (Write.Execute rt state vchData contract.nTimestamp)) contract

def buildAPPEND (rt : Runtime) (disk : Disk) (mapStates : States) (contract : Contract) :
    Result (Contract × States) := do
  let (hashAddress, contract) ← contract.extract Uint256
  let (vchData, contract) ← contract.extractBytes
  buildRegister rt disk mapStates "OP::APPEND" hashAddress true
    (fun state => orError "OP::APPEND: cannot generate post-state"
      (Append.Execute rt state vchData contract.nTimestamp)) contract

def buildCREATE (rt : Runtime) (mapStates : States) (contract : Contract) :
    Result (Contract × States) := do
  let (hashAddress, contract) ← contract.extract Uint256
  let (nType, contract) ← contract.extract UInt8
  let (vchData, contract) ← contract.extractBytes
  let state ← orError "OP::CREATE: cannot generate post-state"
    (Create.Execute rt (createdState nType contract.hashCaller) vchData contract.nTimestamp)
  return (writePostState rt contract state, Function.update mapStates hashAddress (some state))

def buildTRANSFER (rt : Runtime) (disk : Disk) (mapStates : States) (contract : Contract) :
    Result (Contract × States) := do
  let (hashAddress, contract) ← contract.extract Uint256
  let (hashTransfer, contract) ← contract.extract Uint256
  let (nType, contract) ← contract.extract UInt8
  let hashNewOwner := transferOwner contract.nVersion contract.hashCaller hashTransfer nType
  buildRegister rt disk mapStates "OP::TRANSFER" hashAddress true
    (fun state => orError "OP::TRANSFER: cannot generate post-state"
      (Transfer.Execute rt state hashNewOwner contract.nTimestamp)) contract

def buildCLAIM (rt : Runtime) (disk : Disk) (mapStates : States) (contract : Contract) :
    Result (Contract × States) := do
  let contract ← contract.seek 68
  let (hashAddress, contract) ← contract.extract Uint256
  buildRegister rt disk mapStates "OP::CLAIM" hashAddress false
    (fun state => orError "OP::CLAIM: cannot generate post-state"
      (Claim.Execute rt state contract.hashCaller contract.nTimestamp)) contract

/-- `TRUST` and `TRUSTPOOL` need an indexed trust account. -/
def buildStake (rt : Runtime) (disk : Disk) (mapStates : States) (strOP : String) (nSeek : Nat)
    (contract : Contract) : Result (Contract × States) := do
  let contract ← contract.seek nSeek
  let (nScore, contract) ← contract.extract UInt64
  let (nStakeChange, contract) ← contract.extract Int64
  let (nReward, contract) ← contract.extract UInt64
  reject (disk.register.HasTrust contract.hashCaller = false)
    (.error (strOP ++ ": no trust without genesis"))
  buildRegister rt disk mapStates strOP (callerTrust rt contract) false
    (fun state => Trust.Execute rt state nReward nScore nStakeChange contract.nTimestamp) contract

/-- `GENESIS` and `GENESISPOOL` need a trust account that is not indexed. -/
def buildFirstStake (rt : Runtime) (disk : Disk) (mapStates : States) (strOP : String)
    (nSeek : Nat) (contract : Contract) : Result (Contract × States) := do
  let contract ← contract.seek nSeek
  let (nReward, contract) ← contract.extract UInt64
  reject (disk.register.HasTrust contract.hashCaller)
    (.error (strOP ++ ": trust account previously indexed"))
  buildRegister rt disk mapStates strOP (callerTrust rt contract) false
    (fun state => orError (strOP ++ ": cannot generate post-state")
      (Genesis.Execute rt state nReward contract.nTimestamp)) contract

def buildDEBIT (rt : Runtime) (disk : Disk) (mapStates : States) (contract : Contract) :
    Result (Contract × States) := do
  let (hashFrom, contract) ← contract.extract Uint256
  let contract ← contract.seek 32
  let (nAmount, contract) ← contract.extract UInt64
  let (_, contract) ← contract.extract UInt64
  buildRegister rt disk mapStates "OP::DEBIT" hashFrom false
    (fun state => orError "OP::DEBIT: cannot generate post-state"
      (Debit.Execute rt state nAmount contract.nTimestamp)) contract

def buildCREDIT (rt : Runtime) (disk : Disk) (mapStates : States) (contract : Contract) :
    Result (Contract × States) := do
  let contract ← contract.seek 68
  let (hashAddress, contract) ← contract.extract Uint256
  let (_, contract) ← contract.extract Uint256
  let (nAmount, contract) ← contract.extract UInt64
  buildRegister rt disk mapStates "OP::CREDIT" hashAddress false
    (fun state => orError "OP::CREDIT: cannot generate post-state"
      (Credit.Execute rt state nAmount contract.nTimestamp)) contract

def buildMIGRATE (rt : Runtime) (disk : Disk) (mapStates : States) (contract : Contract) :
    Result (Contract × States) := do
  let contract ← contract.seek 64
  let (hashAccount, contract) ← contract.extract Uint256
  let contract ← contract.seek 72
  let (nAmount, contract) ← contract.extract UInt64
  let (nScore, contract) ← contract.extract UInt32
  let contract ← contract.seek 64
  reject (disk.register.HasTrust contract.hashCaller)
    (.error "OP::MIGRATE: trust account previously indexed")
  buildRegister rt disk mapStates "OP::MIGRATE" hashAccount false
    (fun state => orError "OP::MIGRATE: cannot generate post-state"
      (Migrate.Execute rt state nAmount nScore contract.nTimestamp)) contract

def buildFEE (rt : Runtime) (disk : Disk) (mapStates : States) (contract : Contract) :
    Result (Contract × States) := do
  let (hashAddress, contract) ← contract.extract Uint256
  let (nFees, contract) ← contract.extract UInt64
  buildRegister rt disk mapStates "OP::FEE" hashAddress false
    (fun state => orError "OP::FEE: cannot generate post-state"
      (Fee.Execute rt state nFees contract.nTimestamp)) contract

def buildLEGACY (rt : Runtime) (disk : Disk) (mapStates : States) (contract : Contract) :
    Result (Contract × States) := do
  let (hashAddress, contract) ← contract.extract Uint256
  let (nAmount, contract) ← contract.extract UInt64
  let (contract, mapStates) ← buildRegister rt disk mapStates "OP::LEGACY" hashAddress false
    (fun state => orError "OP::LEGACY: cannot generate post-state"
      (Legacy.Execute rt state nAmount contract.nTimestamp)) contract
  let (_, contract) ← contract.extractBytes
  return (contract, mapStates)

/-- The switch on the primitive. -/
def buildPrimitive (rt : Runtime) (disk : Disk) (mapStates : States) (contract : Contract) :
    Primitive → Result (Contract × States)
  | .WRITE => buildWRITE rt disk mapStates contract
  | .APPEND => buildAPPEND rt disk mapStates contract
  | .CREATE => buildCREATE rt mapStates contract
  | .TRANSFER => buildTRANSFER rt disk mapStates contract
  | .CLAIM => buildCLAIM rt disk mapStates contract
  | .COINBASE => seekOver mapStates 48 contract
  | .TRUST => buildStake rt disk mapStates "OP::TRUST" 64 contract
  | .TRUSTPOOL => buildStake rt disk mapStates "OP::TRUSTPOOL" 112 contract
  | .GENESIS => buildFirstStake rt disk mapStates "OP::GENESIS" 0 contract
  | .GENESISPOOL => buildFirstStake rt disk mapStates "OP::GENESISPOOL" 48 contract
  | .DEBIT => buildDEBIT rt disk mapStates contract
  | .CREDIT => buildCREDIT rt disk mapStates contract
  | .MIGRATE => buildMIGRATE rt disk mapStates contract
  | .AUTHORIZE => seekOver mapStates 96 contract
  | .FEE => buildFEE rt disk mapStates contract
  | .LEGACY => buildLEGACY rt disk mapStates contract

/-- The switch on the operation code.  A second validation is seeked over. -/
def buildOP (rt : Runtime) (disk : Disk) (mapStates : States) (nOP : UInt8)
    (contract : Contract) : Result (Contract × States) :=
  if nOP = OP.VALIDATE then seekOver mapStates 68 contract
  else do
    let op ← demand (Primitive.ofOP nOP) (.error "invalid code for register buildling")
    buildPrimitive rt disk mapStates contract op

/-- The body of the `try` block. -/
def buildBody (rt : Runtime) (disk : Disk) (mapStates : States) (contract : Contract) :
    Result (Contract × States) := do
  let (nOP, contract) ← contract.extract UInt8
  let (contract, mapStates) ← buildOP rt disk mapStates nOP contract
  reject (contract.atEnd = false) (.error "can only include one PRIMITIVE OP")
  return (contract, mapStates)

/-- `Clear(REGISTERS)`. -/
def clearRegisters (contract : Contract) : Contract := { contract with ssRegister := {} }

/-- `Build(contract, mapStates, FLAGS::BLOCK)`: the contract with its script, and the map.
The primitive is sought outside of the `try` block. -/
def Build (rt : Runtime) (disk : Disk) (mapStates : States) (contract : Contract) :
    Result (Contract × States) := do
  let contract ← (clearRegisters contract.reset).seekToPrimitive
  catching (buildBody rt disk mapStates contract)

end Nexus.Register
