import Nexus.Operation.Registers

/-!
# Finance operations

`DEBIT`, `CREDIT`, `FEE`, `LEGACY` and `COINBASE`.  A debit takes an amount from
the balance of an account and names its recipient; a credit refers to the debit
by transaction and contract, and adds the amount to an account.  What keeps a
debit from being credited twice are two records: the proofs, and for payments
to an object the claimed amount.
-/

namespace Nexus.Operation

open Nexus.Lib.Bytes
open Nexus.Lib.Checked
open Nexus.Util
open Nexus.Register
open Nexus.LLD

/-! ## Debits -/

/-- The calculation of an operation that takes an amount from an account: `DEBIT`,
`FEE` and `LEGACY` differ in the check of the token. -/
def executeDebit (rt : Runtime) (checkToken : Object → Result Unit) (account : State)
    (nAmount nTimestamp : UInt64) : Result State := do
  let object ← orError "failed to parse account object register" (Object.Parse { state := account })
  reject (object.Base ≠ .ACCOUNT) (.error "cannot debit from non-standard object register")
  checkToken object
  let nBalance ← object.get UInt64 (bytesOf "balance")
  reject (nBalance < nAmount) (.error "account doesn't have sufficient balance")
  let object ← orError "balance could not be written to object register"
    (object.Write (bytesOf "balance") (nBalance - nAmount))
  finish rt "memory address is in invalid state" object.state nTimestamp

/-- The account holds the native token. -/
def checkNative (strMessage : String) (object : Object) : Result Unit := do
  let hashToken ← object.get Uint256 (bytesOf "token")
  reject (hashToken ≠ 0) (.error strMessage)

/-- The valid pre-state that a `Verify` reads, owned by the caller. -/
def verifyOwned (rt : Runtime) (contract : Contract) : Result Contract := do
  let (state, contract) ← verifyState rt contract
  reject (state.hashOwner ≠ contract.hashCaller) (.error "caller not authorized ")
  return contract

namespace Debit

/-- The event of a debit goes to the owner of the receiving register. -/
def Commit (rt : Runtime) (disk : Disk) (account : State) (hashTx : Uint512)
    (hashFrom hashTo : Uint256) : Result Disk :=
  if hashTo ≠ WILDCARD_ADDRESS then do
    let state ← demand (disk.register.ReadState hashTo) (.error "failed to read register to")
    return { disk with
      ledger :=
        if state.IsNull then disk.ledger else disk.ledger.WriteEvent state.hashOwner hashTx
      register := disk.register.WriteState rt hashFrom account }
  else .ok { disk with register := disk.register.WriteState rt hashFrom account }

def Execute (rt : Runtime) (account : State) (nAmount nTimestamp : UInt64) : Result State :=
  executeDebit rt (fun _ => .ok ()) account nAmount nTimestamp

def Verify (rt : Runtime) (contract : Contract) : Result Contract := do
  let contract ← beginVerify OP.DEBIT contract
  let (hashFrom, contract) ← contract.extract Uint256
  reject (Reserved hashFrom) (.error "cannot debit with reserved address")
  let (hashTo, contract) ← contract.extract Uint256
  reject (Reserved hashTo) (.error "cannot debit to reserved address")
  reject (Address.IsWildcard hashTo ∧ contract.noConditions)
    (.error "cannot debit to wildcard with no conditions")
  reject (Address.IsWildcard hashTo = false ∧ Address.IsAccount hashTo = false ∧
      Address.IsToken hashTo = false ∧ Address.IsTrust hashTo = false ∧
      Address.IsObject hashTo = false) (.error "cannot debit to unsupported object register")
  reject (hashFrom = hashTo) (.error "cannot debit to the same address as from")
  let contract ← verifyOwned rt contract
  let contract ← contract.rewind 64
  return contract.resetRegisters

end Debit

/-! ## Fees -/

namespace Fee

def Execute (rt : Runtime) (account : State) (nFees nTimestamp : UInt64) : Result State :=
  executeDebit rt (checkNative "cannot pay fees with non-native token") account nFees nTimestamp

def Verify (rt : Runtime) (contract : Contract) : Result Contract := do
  let contract ← beginVerify OP.FEE contract
  let (hashFrom, contract) ← contract.extract Uint256
  reject (Reserved hashFrom) (.error "cannot transfer reserved address")
  let (_, contract) ← contract.extract UInt64
  let contract ← verifyOwned rt contract
  let contract ← contract.rewind 40
  return contract.resetRegisters

end Fee

/-! ## Payments to legacy outputs -/

namespace Legacy

def Execute (rt : Runtime) (account : State) (nAmount nTimestamp : UInt64) : Result State :=
  executeDebit rt (checkNative "cannot transfer to UTXO with non-native token") account nAmount
    nTimestamp

def Verify (rt : Runtime) (contract : Contract) : Result Contract := do
  let contract ← beginVerify OP.LEGACY contract
  let (hashFrom, contract) ← contract.extract Uint256
  reject (Reserved hashFrom) (.error "cannot transfer reserved address")
  let contract ← verifyOwned rt contract
  let contract ← contract.rewind 32
  return contract.resetRegisters

end Legacy

/-! ## Coinbase -/

namespace Coinbase

def Commit (disk : Disk) (hashAddress : Uint256) (hashTx : Uint512) : Disk :=
  { disk with ledger := disk.ledger.WriteEvent hashAddress hashTx }

def Verify (rt : Runtime) (contract : Contract) : Result Contract := do
  let contract ← contract.rewind 1
  let (nOP, contract) ← contract.extract UInt8
  reject (nOP ≠ OP.COINBASE) (.error "called with incorrect OP")
  let (hashGenesis, contract) ← contract.extract Uint256
  reject (GetType hashGenesis ≠ if rt.fTestNet then 0xa2 else 0xa1)
    (.error "invalid genesis for coinbase")
  contract.rewind 32

end Coinbase

/-! ## Credits -/

namespace Credit

/-- The claimed amount is recorded for a debit to an object, by the first byte of the
referenced contract. -/
def commitClaimed (ledger : LedgerDB) (debit : Contract) (hashTx : Uint512) (nContract : UInt32)
    (nAmount : UInt64) : Result LedgerDB := do
  let (nType, debit) ← debit.reset.extract UInt8
  if nType = OP.DEBIT then do
    let (_, debit) ← debit.extract Uint256
    let (hashTo, _) ← debit.extract Uint256
    if Address.IsObject hashTo then
      let nClaimed := (ledger.ReadClaimed hashTx nContract).getD 0
      .ok (ledger.WriteClaimed hashTx nContract (nClaimed + nAmount))
    else .ok ledger
  else .ok ledger

def Commit (rt : Runtime) (disk : Disk) (account : State) (debit : Contract)
    (hashAddress hashProof : Uint256) (hashTx : Uint512) (nContract : UInt32) (nAmount : UInt64) :
    Result Disk := do
  reject (disk.ledger.HasProof hashProof hashTx nContract) (.error "credit is already claimed ")
  let ledger := disk.ledger.WriteProof hashProof hashTx nContract
  let ledger ← commitClaimed ledger debit hashTx nContract nAmount
  return { disk with ledger, register := disk.register.WriteState rt hashAddress account }

def Execute (rt : Runtime) (account : State) (nAmount nTimestamp : UInt64) : Result State := do
  let object ← orError "failed to parse account object register" (Object.Parse { state := account })
  reject (object.Base ≠ .ACCOUNT) (.error "cannot credit to a non-account base object")
  let nBalance ← object.get UInt64 (bytesOf "balance")
  let object ← orError "balance could not be written to object register"
    (object.Write (bytesOf "balance") (nBalance + nAmount))
  finish rt "memory address is in invalid state" object.state nTimestamp

/-- The operands of a credit. -/
structure Operands where
  hashTx : Uint512
  nContract : UInt32
  hashAccount : Address
  hashProof : Address
  nCredit : UInt64
  deriving DecidableEq, Repr

/-- The operands in the operation stream, after the operation code. -/
def operands (contract : Contract) : Result (Operands × Contract) := do
  let (hashTx, contract) ← contract.extract Uint512
  let (nContract, contract) ← contract.extract UInt32
  let (hashAccount, contract) ← contract.extract Uint256
  let (hashProof, contract) ← contract.extract Uint256
  let (nCredit, contract) ← contract.extract UInt64
  return ({ hashTx, nContract, hashAccount, hashProof, nCredit }, contract)

/-- The path of a credit that refers to a coinbase. -/
def verifyCoinbase (hashCaller : Uint256) (account : Object) (credit : Operands)
    (debit : Contract) : Result Unit := do
  reject (credit.hashProof ≠ hashCaller) (.error "proof for coinbase needs to be genesis")
  let (hashPublic, debit) ← debit.extract Uint256
  reject (hashPublic ≠ hashCaller) (.error "cannot claim coinbase from different sigchain")
  let (nCoinbase, _) ← debit.extract UInt64
  reject (credit.nCredit ≠ nCoinbase) (.error "credit and coinbase mismatch")
  let hashToken ← account.get Uint256 (bytesOf "token")
  reject (hashToken ≠ 0) (.error "credit disabled for coinbase of non-native token")

/-- The path of a credit that refers to a legacy output. -/
def verifyOutput (hashFrom hashTo : Address) (credit : Operands) (debit : Contract) :
    Result Unit := do
  reject (credit.hashProof ≠ hashFrom) (.error "proof must equal from for credit")
  reject (hashTo ≠ credit.hashAccount) (.error "must have same address as UTXO to")
  let (nDebit, _) ← debit.extract UInt64
  reject (nDebit ≠ credit.nCredit) (.error "debit and credit value mismatch")

/-- The check of a credit in full.  Of a debit to an object it is the part that is not
claimed yet, if some of it is. -/
def checkAmount (ledger : LedgerDB) (hashTo : Address) (credit : Operands) (nDebit : UInt64) :
    Result Unit :=
  if Address.IsObject hashTo then
    match ledger.ReadClaimed credit.hashTx credit.nContract with
    | some nClaimed => do
        reject (nClaimed = nDebit) (.error "credit is already claimed")
        reject (nDebit < nClaimed + credit.nCredit)
          (.error "credit is beyond claimable debit amount")
    | none => .ok ()
  else reject (nDebit ≠ credit.nCredit) (.error "debit and credit value mismatch")

/-- The path of a one-to-one credit and of a return to self. -/
def verifyFull (ledger : LedgerDB) (hashFrom hashTo : Address) (credit : Operands)
    (debit : Contract) : Result Unit := do
  reject (credit.hashProof ≠ hashFrom) (.error "proof must equal from for credit")
  let (nDebit, _) ← debit.extract UInt64
  checkAmount ledger hashTo credit nDebit

/-- The share of a debit for a balance of the token.  A zero supply divides by zero,
which does not return. -/
def nPartial (nBalance nDebit nSupply : UInt64) : Result UInt64 := do
  reject (nSupply = 0) (.exception "division by zero")
  return nBalance * nDebit / nSupply

/-- The path of a partial payment to the holders of a token. -/
def verifyPartial (disk : Disk) (hashCaller : Uint256) (hashTo : Address) (credit : Operands)
    (debit : Contract) : Result Unit := do
  reject (Address.IsObject hashTo = false) (.error "partial payment is not to object")
  let stateTo ← demand (disk.register.ReadState hashTo) (.error "failed to read hash to")
  reject (Range stateTo.nType = false) (.error "debit to is out of range")
  let stateProof ← demand (disk.register.ReadState credit.hashProof)
    (.error "failed to read credit proof")
  let proof ← orError "failed to parse owner object register" (Object.Parse { state := stateProof })
  reject (debit.nTimestamp < proof.state.nModified) (.error "temporal proof is stale")
  reject (proof.Standard ≠ .ACCOUNT) (.error "owner object is not a token")
  reject (proof.state.hashOwner ≠ hashCaller) (.error "not authorized to use this temporal proof")
  let stateToken ← demand (disk.register.ReadState stateTo.hashOwner)
    (.error "credit from raw object can't be without owner")
  let token ← orError "failed to parse owner object register" (Object.Parse { state := stateToken })
  reject (token.Standard ≠ .TOKEN) (.error "owner object is not a token")
  let hashProofToken ← proof.get Uint256 (bytesOf "token")
  let hashToken ← token.get Uint256 (bytesOf "token")
  reject (hashProofToken ≠ hashToken) (.error "account proof identifier not token identifier")
  let (nDebit, _) ← debit.extract UInt64
  let nBalance ← proof.get UInt64 (bytesOf "balance")
  let nSupply ← token.get UInt64 (bytesOf "supply")
  let nShare ← nPartial nBalance nDebit nSupply
  reject (credit.nCredit ≠ nShare) (.error "partial credit mismatch with claimed proof")
  let nClaimed := (disk.ledger.ReadClaimed credit.hashTx credit.nContract).getD 0
  reject (nDebit < nClaimed + credit.nCredit) (.error "credit is beyond claimable debit amount")

/-- The paths of a credit that refers to a debit from a register: the token must be the
same, and then the credit is in full or partial. -/
def verifyAccount (disk : Disk) (hashCaller : Uint256) (account : Object) (hashFrom hashTo : Address)
    (credit : Operands) (debit : Contract) : Result Unit := do
  let (stateFrom, debit) ← debit.preState "register debit not in pre-state"
  let accountFrom ← orError "failed to parse account from" (Object.Parse { state := stateFrom })
  reject (accountFrom.Base ≠ .ACCOUNT) (.error "debit from must have a base account object")
  let hashTokenFrom ← accountFrom.get Uint256 (bytesOf "token")
  let hashToken ← account.get Uint256 (bytesOf "token")
  reject (hashTokenFrom ≠ hashToken) (.error "credit can't be of different identifier")
  if hashTo = credit.hashAccount ∨ hashTo = WILDCARD_ADDRESS ∨
      (hashFrom = credit.hashAccount ∧ credit.hashProof = credit.hashAccount) then
    verifyFull disk.ledger hashFrom hashTo credit debit
  else verifyPartial disk hashCaller hashTo credit debit

/-- The paths of a credit that refers to a debit. -/
def verifyDebit (disk : Disk) (hashCaller : Uint256) (account : Object) (credit : Operands)
    (debit : Contract) : Result Unit := do
  let (hashFrom, debit) ← debit.extract Uint256
  reject (Reserved hashFrom) (.error "cannot credit register with reserved address")
  let (hashTo, debit) ← debit.extract Uint256
  reject (Reserved hashTo) (.error "cannot credit register with reserved address")
  if hashFrom = WILDCARD_ADDRESS then verifyOutput hashFrom hashTo credit debit
  else verifyAccount disk hashCaller account hashFrom hashTo credit debit

/-- `Verify(contract, debit)`.  The result is the two contracts with their streams
reset; the operation cursor of the credit stays after its operands. -/
def Verify (disk : Disk) (contract debit : Contract) : Result (Contract × Contract) := do
  let contract := contract.resetOperations.resetRegisters
  let (nOP, contract) ← contract.extract UInt8
  reject (nOP ≠ OP.CREDIT) (.error "called with incorrect OP")
  let (credit, contract) ← operands contract
  let (state, contract) ← contract.preState "register contract not in pre-state"
  reject (contract.hashCaller ≠ state.hashOwner) (.error "no write permissions for caller ")
  let account ← orError "failed to parse account" (Object.Parse { state })
  let debit ← debit.seekToPrimitive
  let (nOP, debit) ← debit.extract UInt8
  (if nOP = OP.COINBASE then verifyCoinbase contract.hashCaller account credit debit
  else do
    reject (nOP ≠ OP.DEBIT) (.error "tx claim is not a debit")
    verifyDebit disk contract.hashCaller account credit debit)
  return (contract.resetRegisters, debit.resetOperations.resetRegisters)

end Credit

end Nexus.Operation
