import Nexus.Ledger.SigChain

/-!
# Rewards of stake

What `CheckTrust` allows a coinstake to mint.  A coinstake states its own reward, and
the reward is calculated again from the stake, the trust and the times of the blocks.
In a pool every coinstake but the last pays a fee, which goes to the last.
-/

namespace Nexus.Ledger

open Nexus.Lib.Checked
open Nexus.Util
open Nexus.Register
open Nexus.Operation
open Nexus.LLD

def TRUST_KEY_TIMESPAN : UInt64 := 259200
def TRUST_KEY_TIMESPAN_TESTNET : UInt64 := 10800
def TESTNET_MINIMUM_INTERVAL : UInt32 := 10
def MAINNET_MINIMUM_INTERVAL_LEGACY : UInt32 := 120
def MAINNET_MINIMUM_INTERVAL_PREPOOL : UInt32 := 250
def MAINNET_MINIMUM_INTERVAL : UInt32 := 60
def POOL_FEE_PCT : UInt64 := 16

def MaxBlockAge (rt : LedgerRuntime) : UInt64 :=
  if rt.fTestNet then TRUST_KEY_TIMESPAN_TESTNET else TRUST_KEY_TIMESPAN

def MinStakeInterval (rt : LedgerRuntime) (block : BlockState) : UInt32 :=
  if rt.fTestNet then TESTNET_MINIMUM_INTERVAL
  else if block.nVersion < 7 then MAINNET_MINIMUM_INTERVAL_LEGACY
  else if block.nVersion < 9 then MAINNET_MINIMUM_INTERVAL_PREPOOL
  else MAINNET_MINIMUM_INTERVAL

def GetPoolStakeFee (nReward : UInt64) : UInt64 := (POOL_FEE_PCT * nReward) / 100

/-- The score by the age of the last stake. -/
def agedScore (rt : LedgerRuntime) (nScorePrev nBlockAge : UInt64) : UInt64 :=
  if nBlockAge ≤ MaxBlockAge rt then nScorePrev + nBlockAge
  else
    let nPenalty := (nBlockAge - MaxBlockAge rt) * 3
    if nPenalty < nScorePrev then nScorePrev - nPenalty else 0

/-- `GetTrustScore`: stake that is removed takes its part of the score with it. -/
def GetTrustScore (rt : LedgerRuntime) (nScorePrev nBlockAge nStake : UInt64)
    (nStakeChange : Int64) (nVersion : UInt32) : Result UInt64 := do
  let nScore := agedScore rt nScorePrev nBlockAge
  if nStakeChange < 0 then
    let nUnstake := 0 - nStakeChange.toUInt64
    let nStakeNew := if nUnstake < nStake then nStake - nUnstake else 0
    reject (nStake = 0) (.exception "Division by zero")
    if 7 < nVersion then
      return UInt64.ofNat (nStakeNew.toNat * nScore.toNat / nStake.toNat)
    else return (nStakeNew * nScore) / nStake
  else return nScore

namespace Transaction

variable (rt : ChainRuntime) (db : Records) (tx : Transaction) (block : BlockState)

/-- `IsTrustPool() || IsGenesisPool()`. -/
def isPool : Result Bool := do
  if ← tx.IsTrustPool then return true else tx.IsGenesisPool

/-- `IsGenesis() || IsGenesisPool()`. -/
def isGenesisStake : Result Bool := do
  if ← tx.IsGenesis then return true else tx.IsGenesisPool

/-- The trust account in the pre-state of a coinstake. -/
def trustAccount (contract : Contract) : Result Object := do
  let (_, contract) ← contract.extractRegister UInt8
  let (state, _) ← contract.extractState
  let account ← Object.Parse { state }
  reject (account.Standard ≠ .TRUST) (.error "stake producer account is not a trust account")
  return account

/-- The operands of a coinstake that has a stake before. -/
def trustOperands (contract : Contract) (fPool : Bool) :
    Result (Uint512 × UInt64 × Int64 × UInt64) := do
  let contract ← contract.seek 1
  let (hashLastClaimed, contract) ← contract.extract Uint512
  let contract ← if fPool then contract.seek 48 else .ok contract
  let (nClaimedTrust, contract) ← contract.extract UInt64
  let (nStakeChange, contract) ← contract.extract Int64
  let (nClaimedReward, _) ← contract.extract UInt64
  return (hashLastClaimed, nClaimedTrust, nStakeChange, nClaimedReward)

/-- The reward that a first coinstake claims. -/
def genesisOperand (contract : Contract) (fPool : Bool) : Result UInt64 := do
  let contract ← contract.seek 1
  let contract ← if fPool then contract.seek 48 else .ok contract
  let (nClaimedReward, _) ← contract.extract UInt64
  return nClaimedReward

/-- What is left of a reward after the fee of the pool, and the fees so far. -/
def poolReward (nReward nPoolFeeTotal : UInt64) : UInt64 × UInt64 :=
  (nReward - GetPoolStakeFee nReward, nPoolFeeTotal + GetPoolStakeFee nReward)

/-- The reward of a coinstake that has a stake before, and the fees of the pool so far. -/
def checkTrustReward (contract : Contract) (account : Object) (statePrev : BlockState)
    (nPoolFeeTotal : UInt64) (fPool fBlockFinder : Bool) : Result (UInt64 × UInt64) := do
  let (hashLastClaimed, nClaimedTrust, nStakeChange, nClaimedReward) ← trustOperands contract fPool
  let hashLast ← demand (db.ReadStake tx.hashGenesis) (.error "last stake not in database")
  reject (hashLast ≠ hashLastClaimed) (.error "last stake ")
  let nTrustPrev ← account.get UInt64 (bytesOf "trust")
  let nStake ← account.get UInt64 (bytesOf "stake")
  let stateLast ← demand (db.ReadBlockOf hashLastClaimed) (.error "last block not in database")
  let nBlockAge := statePrev.nTime - stateLast.nTime
  let nScorePrev := if block.nVersion = 8 ∧ stateLast.nVersion = 7 then
      (rt.CheckConsistency db hashLast).getD nTrustPrev
    else nTrustPrev
  let nTrust ← GetTrustScore rt.toLedgerRuntime nScorePrev nBlockAge nStake nStakeChange block.nVersion
  reject (nClaimedTrust ≠ nTrust) (.error "claimed trust score ")
  reject (block.nHeight - stateLast.nHeight ≤ MinStakeInterval rt.toLedgerRuntime block)
    (.error "stake block interval ")
  let nTime := if fPool ∧ ¬ fBlockFinder then statePrev.nTime - stateLast.nTime
    else block.nTime - stateLast.nTime
  let nReward := rt.GetCoinstakeReward nStake nTime nTrust false
  let (nReward, nPoolFeeTotal) :=
    if fPool then
      if fBlockFinder then (nReward + nPoolFeeTotal, nPoolFeeTotal)
      else poolReward nReward nPoolFeeTotal
    else (nReward, 0)
  reject (nClaimedReward ≠ nReward) (.error "claimed stake reward ")
  return (nReward, nPoolFeeTotal)

/-- The reward of a first coinstake, and the fees of the pool so far. -/
def checkGenesisReward (contract : Contract) (account : Object) (statePrev : BlockState)
    (nPoolFeeTotal : UInt64) (fPool : Bool) : Result (UInt64 × UInt64) := do
  let nClaimedReward ← genesisOperand contract fPool
  let nStake ← account.get UInt64 (bytesOf "balance")
  let nAge := (if fPool then statePrev.nTime else block.nTime) - account.state.nModified
  let nReward := rt.GetCoinstakeReward nStake nAge 0 true
  let (nReward, nPoolFeeTotal) :=
    if fPool then poolReward nReward nPoolFeeTotal else (nReward, 0)
  reject (nClaimedReward ≠ nReward) (.error "claimed stake genesis reward ")
  return (nReward, nPoolFeeTotal)

/-- `CheckTrust`: what a coinstake mints, and the fees of the pool so far. -/
def CheckTrust (nPoolFeeTotal : UInt64) (fBlockFinder : Bool) : Result (UInt64 × UInt64) := do
  reject (¬ (← tx.IsCoinStake)) (.error "no trust on non coinstake")
  let fPool ← tx.isPool
  let contract ← demand tx.vContracts.head? (.exception "contract read out of bounds")
  let contract := contract.reset
  let account ← trustAccount contract
  let statePrev ← demand (db.ReadBlock block.hashPrevBlock) (.error "prev block not in database")
  if ← tx.isTrustStake then
    checkTrustReward rt db tx block contract account statePrev nPoolFeeTotal fPool fBlockFinder
  else if ← tx.isGenesisStake then
    checkGenesisReward rt block contract account statePrev nPoolFeeTotal fPool
  else .error (.error "invalid pooled stake operation")

end Transaction

end Nexus.Ledger
