import Nexus.Operation.Finance

/-!
# Stake operations

`TRUST` and `GENESIS`, their pooled forms, and `MIGRATE`.  They write the trust
account of the caller: its trust score, its balance and its stake.
-/

namespace Nexus.Operation

open Nexus.Lib.Bytes
open Nexus.Lib.Checked
open Nexus.Util
open Nexus.Register
open Nexus.LLD

/-! ## Trust -/

namespace Trust

def Commit (rt : Runtime) (disk : Disk) (state : State) : Result Disk := do
  reject (disk.register.HasTrust state.hashOwner = false) (.error "trust account not indexed")
  return { disk with register := RegisterDB.WriteTrust rt disk.register state.hashOwner state }

/-- The stake added from the balance and the stake removed to it. -/
def stakeChange (nStakeChange : Int64) (nBalancePrev nStakePrev : UInt64) :
    Result (UInt64 × UInt64) :=
  if 0 < nStakeChange then do
    reject (nBalancePrev < nStakeChange.toUInt64)
      (.error "cannot add stake exceeding existing trust account balance")
    return (nStakeChange.toUInt64, 0)
  else if nStakeChange < 0 then do
    reject (nStakePrev < (0 - nStakeChange).toUInt64)
      (.error "cannot unstake more than existing stake balance")
    return (0, (0 - nStakeChange).toUInt64)
  else .ok (0, 0)

def Execute (rt : Runtime) (state : State) (nReward nScore : UInt64) (nStakeChange : Int64)
    (nTimestamp : UInt64) : Result State := do
  let trust ← orError "Failed to parse account object register" (Object.Parse { state })
  reject (trust.Standard ≠ .TRUST) (.error "no trust for non-trust account")
  let nStakePrev ← trust.get UInt64 (bytesOf "stake")
  let nBalancePrev ← trust.get UInt64 (bytesOf "balance")
  let (nStakeAdded, nStakeRemoved) ← stakeChange nStakeChange nBalancePrev nStakePrev
  let trust ← orError "trust could not be written to object register"
    (trust.Write (bytesOf "trust") nScore)
  let trust ← orError "balance could not be written to object register"
    (trust.Write (bytesOf "balance") (nBalancePrev + nReward + nStakeRemoved - nStakeAdded))
  let trust ← orError "stake could not be written to object register"
    (trust.Write (bytesOf "stake") (nStakePrev + nStakeAdded - nStakeRemoved))
  finish rt "trust address is in invalid state" trust.state nTimestamp

/-- `Verify` for the operation code of the solo or the pooled form. -/
def verifyOP (rt : Runtime) (nOP : UInt8) (contract : Contract) : Result Contract := do
  let contract ← beginVerify nOP contract
  let contract ← verifyOwned rt contract
  return contract.resetRegisters

def Verify (rt : Runtime) (contract : Contract) : Result Contract := verifyOP rt OP.TRUST contract

end Trust

namespace Trustpool

def Commit (rt : Runtime) (disk : Disk) (state : State) : Result Disk := Trust.Commit rt disk state

def Execute (rt : Runtime) (state : State) (nReward nScore : UInt64) (nStakeChange : Int64)
    (nTimestamp : UInt64) : Result State :=
  Trust.Execute rt state nReward nScore nStakeChange nTimestamp

def Verify (rt : Runtime) (contract : Contract) : Result Contract :=
  Trust.verifyOP rt OP.TRUSTPOOL contract

end Trustpool

/-! ## Genesis -/

namespace Genesis

def Commit (rt : Runtime) (disk : Disk) (state : State) : Result Disk := do
  reject (disk.register.HasTrust state.hashOwner) (.error "cannot create genesis when already exists")
  let register := RegisterDB.WriteTrust rt disk.register state.hashOwner state
  return { disk with
    register := register.IndexTrust state.hashOwner
      (RegisterDB.trustAddress rt state.hashOwner) }

def Execute (rt : Runtime) (state : State) (nReward nTimestamp : UInt64) : Result State := do
  let trust ← orError "failed to parse trust account object register" (Object.Parse { state })
  reject (trust.Standard ≠ .TRUST) (.error "no genesis for non-trust account")
  let nStake ← trust.get UInt64 (bytesOf "stake")
  reject (nStake ≠ 0) (.error "cannot create genesis with already existing stake")
  let nTrust ← trust.get UInt64 (bytesOf "trust")
  reject (nTrust ≠ if rt.fTestNet ∧ rt.fTrustBoost then Create.ONE_YEAR else 0)
    (.error "cannot create genesis with already existing trust")
  let nBalance ← trust.get UInt64 (bytesOf "balance")
  reject (nBalance = 0) (.error "cannot create genesis with no available balance")
  let trust ← orError "stake could not be written to object register"
    (trust.Write (bytesOf "stake") nBalance)
  let trust ← orError "balance could not be written to object register"
    (trust.Write (bytesOf "balance") nReward)
  finish rt "memory address is in invalid state" trust.state nTimestamp

def Verify (rt : Runtime) (contract : Contract) : Result Contract :=
  Trust.verifyOP rt OP.GENESIS contract

end Genesis

namespace Genesispool

def Commit (rt : Runtime) (disk : Disk) (state : State) : Result Disk := Genesis.Commit rt disk state

def Execute (rt : Runtime) (state : State) (nReward nTimestamp : UInt64) : Result State :=
  Genesis.Execute rt state nReward nTimestamp

def Verify (rt : Runtime) (contract : Contract) : Result Contract :=
  Trust.verifyOP rt OP.GENESISPOOL contract

end Genesispool

/-! ## Migration of a trust key -/

namespace Migrate

def Commit (rt : Runtime) (disk : Disk) (trust : State) (hashAddress hashCaller : Uint256)
    (hashTx : Uint512) (hashTrust : Uint576) (hashLast : Uint512) : Result Disk := do
  reject (disk.ledger.HasProof WILDCARD_ADDRESS hashTx 0) (.error "migrate credit is already claimed")
  return { disk with
    register := (disk.register.WriteState rt hashAddress trust).IndexTrust hashCaller hashAddress
    ledger := (disk.ledger.WriteProof WILDCARD_ADDRESS hashTx 0).WriteStake hashCaller hashLast
    legacy := disk.legacy.WriteTrustConversion hashTrust }

def Execute (rt : Runtime) (state : State) (nAmount : UInt64) (nScore : UInt32)
    (nTimestamp : UInt64) : Result State := do
  let trust ← orError "failed to parse account object register" (Object.Parse { state })
  reject (trust.Standard ≠ .TRUST) (.error "cannot migrate to a non-trust account")
  let nStake ← trust.get UInt64 (bytesOf "stake")
  reject (nStake ≠ 0) (.error "cannot migrate with already existing stake")
  let nTrust ← trust.get UInt64 (bytesOf "trust")
  reject (nTrust ≠ 0) (.error "cannot migrate with already existing trust")
  let trust ← orError "stake could not be written to object register"
    (trust.Write (bytesOf "stake") nAmount)
  let trust ← orError "trust could not be written to object register"
    (trust.Write (bytesOf "trust") nScore.toUInt64)
  finish rt "trust account is in invalid state" trust.state nTimestamp

/-- `BuildMigrateDebit`: the debit with the data of the trust key at its end. -/
def BuildMigrateDebit (disk : Disk) (debit : Contract) (hashTx : Uint512) : Result Contract := do
  let (nScore, hashLast, hashTrust) ← demand (disk.legacy.migration hashTx)
    (.error "debit is not a trust key migration")
  return { debit with
    ssOperation.vchData := debit.ssOperation.vchData ++ FixedWidth.encode nScore ++
      FixedWidth.encode hashLast ++ FixedWidth.encode hashTrust }

/-- The operands of a migration, after the transaction. -/
structure Operands where
  hashAccount : Address
  hashTrust : Uint576
  nAmount : UInt64
  nScore : UInt32
  hashLast : Uint512
  deriving DecidableEq, Repr

def operands (contract : Contract) : Result (Operands × Contract) := do
  let (hashAccount, contract) ← contract.extract Uint256
  let (hashTrust, contract) ← contract.extract Uint576
  let (nAmount, contract) ← contract.extract UInt64
  let (nScore, contract) ← contract.extract UInt32
  let (hashLast, contract) ← contract.extract Uint512
  return ({ hashAccount, hashTrust, nAmount, nScore, hashLast }, contract)

/-- The account of a migration is new and belongs to the caller. -/
def verifyAccount (disk : Disk) (contract : Contract) : Result Unit := do
  let (state, contract) ← contract.preState "register contract not in pre-state"
  reject (contract.hashCaller ≠ state.hashOwner) (.error "no write permissions for caller ")
  let _ ← orError "failed to parse account" (Object.Parse { state })
  reject (disk.register.HasTrust contract.hashCaller) (.error "trust account is not new")

/-- The debit agrees with the operands of the migration. -/
def verifyDebit (disk : Disk) (migrate : Operands) (debit : Contract) : Result Unit := do
  let (nOP, debit) ← debit.reset.extract UInt8
  reject (nOP ≠ OP.DEBIT) (.error "tx claim is not a debit")
  let (hashFrom, debit) ← debit.extract Uint256
  let (hashTo, debit) ← debit.extract Uint256
  let (nDebit, debit) ← debit.extract UInt64
  let debit ← debit.seek 8
  let (nScoreDebit, debit) ← debit.extract UInt32
  let (hashLastDebit, debit) ← debit.extract Uint512
  let (hashTrustDebit, _) ← debit.extract Uint576
  reject (Reserved hashTo) (.error "cannot credit register with reserved address")
  reject (hashFrom ≠ WILDCARD_ADDRESS) (.error "migrate debit register must be from UTXO")
  reject (disk.legacy.HasTrustConversion migrate.hashTrust) (.error "trust key is already converted")
  reject (hashTo ≠ migrate.hashAccount)
    (.error "trust account register address must match debit")
  reject (nDebit ≠ migrate.nAmount) (.error "debit and credit value mismatch")
  reject (nScoreDebit ≠ migrate.nScore) (.error "debit and credit trust score mismatch")
  reject (hashLastDebit ≠ migrate.hashLast) (.error "debit and credit hash last stake mismatch")
  reject (hashTrustDebit ≠ migrate.hashTrust) (.error "debit and credit trust key mismatch")

/-- `Verify(contract, debit)`. -/
def Verify (disk : Disk) (contract debit : Contract) : Result Unit := do
  let (nOP, contract) ← contract.reset.extract UInt8
  reject (nOP ≠ OP.MIGRATE) (.error "called with incorrect OP")
  reject (1 < contract.nVersion) (.error "OP::MIGRATE: invalid transaction version")
  reject (debit.noConditions = false)
    (.error "OP::MIGRATE: conditions not allowed on migrate debit")
  let contract ← contract.seek 64
  let (migrate, contract) ← operands contract
  verifyAccount disk contract
  verifyDebit disk migrate debit

end Migrate

end Nexus.Operation
