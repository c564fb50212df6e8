import Nexus.Ledger.Tritium
import Nexus.Ledger.Trust

/-!
# Pools of stake

A block of pooled stake has many producers, all of them pooled coinstakes, and the
last is the block finder.  `Check` looks at the producers and at the other
transactions, which may be no coinstakes.  The reward of a coinstake before the
fee of the pool is a function of its stake, its time and its trust score.
-/

namespace Nexus.Ledger

open Nexus.Lib.Checked
open Nexus.Util
open Nexus.Register
open Nexus.Operation
open Nexus.LLD

namespace TritiumBlock

variable (rt : LedgerRuntime) (block : TritiumBlock)

/-- The time of a coinstake is neither in the future nor after its block. -/
def checkStakeTime (strName : String) (tx : Transaction) : Result Unit := do
  reject (rt.unifiedtimestamp + rt.maxdrift < tx.nTimestamp)
    (.error (strName ++ " timestamp too far in the future"))
  reject (block.nTime < tx.nTimestamp) (.error (strName ++ " timestamp is after block timestamp"))

def checkPoolProducer (txPool : Transaction) : Result Unit := do
  reject ((← txPool.isPool) = false)
    (.error "pooled stake producer transaction must be pooled trust or genesis")
  block.checkStakeTime rt "pooled coinstake" txPool

/-- `IsTrust() || IsGenesis()`. -/
def isSolo (tx : Transaction) : Result Bool := do
  if ← tx.IsTrust then return true else tx.IsGenesis

/-- `Check` of the producers of a proof of stake, from version 9 on. -/
def checkStakeProducers : Result Unit := do
  let txProducer ← demand block.vProducer.getLast? (.error "missing producer transaction")
  reject ((← txProducer.IsCoinStake) = false)
    (.error "block finder transaction must be a coinstake for proof of stake")
  if ← isSolo txProducer then
    reject (1 < block.vProducer.length)
      (.error "cannot have more than one producer transaction for solo proof of stake")
    block.checkStakeTime rt "coinstake" txProducer
  else
    reject ((← txProducer.IsTrustPool) = false)
      (.error "pooled stake block finder must be pooled trust")
    block.vProducer.forM (block.checkPoolProducer rt)

/-- `IsCoinBase() || IsCoinStake() || IsPrivate()`. -/
def isProducer (tx : Transaction) : Result Bool := do
  if ← tx.IsCoinBase then return true
  else if ← tx.IsCoinStake then return true
  else tx.IsPrivate

/-- `Check` of a transaction that is no producer.  A transaction that is not found is missing, which
fails once all are read. -/
def checkOther (read : Uint512 → Option Transaction) (proof : UInt8 × Uint512) : Result Unit := do
  if proof.1 = TRANSACTION.TRITIUM then
    let tx ← demand (read proof.2) (.error "missing transactions")
    reject ((← isProducer tx) = true)
      (.error "cannot have non-producer coinbase / coinstake transaction")

/-- The hashes of the transactions and the producers. -/
def vHashes : List Uint512 :=
  block.vtx.map Prod.snd ++ block.vProducer.map fun tx => tx.GetHash rt.toRuntime

/-- What `Check` says of the transactions of a proof of stake, from version 9 on. -/
def checkTransactions (read : Uint512 → Option Transaction) : Result Unit := do
  block.checkStakeProducers rt
  block.vtx.forM (checkOther read)
  reject (¬ (block.vHashes rt).Nodup) (.error "duplicate transaction")

end TritiumBlock

namespace Transaction

variable (rt : ChainRuntime) (db : Records) (tx : Transaction) (block : BlockState)

/-- The reward of a coinstake that has a stake before, at the trust score that it claims. -/
def grossTrustReward (contract : Contract) (account : Object) (statePrev : BlockState)
    (fPool fBlockFinder : Bool) : Result UInt64 := do
  let (hashLastClaimed, nClaimedTrust, _, _) ← trustOperands contract fPool
  let nStake ← account.get UInt64 (bytesOf "stake")
  let stateLast ← demand (db.ReadBlockOf hashLastClaimed) (.error "last block not in database")
  let nTime := if fPool ∧ ¬ fBlockFinder then statePrev.nTime - stateLast.nTime
    else block.nTime - stateLast.nTime
  return rt.GetCoinstakeReward nStake nTime nClaimedTrust false

/-- The reward of a first coinstake. -/
def grossGenesisReward (account : Object) (statePrev : BlockState) (fPool : Bool) : Result UInt64 := do
  let nStake ← account.get UInt64 (bytesOf "balance")
  let nAge := (if fPool then statePrev.nTime else block.nTime) - account.state.nModified
  return rt.GetCoinstakeReward nStake nAge 0 true

/-- `GetCoinstakeReward` of a coinstake: its reward without the fees of a pool. -/
def grossReward (fBlockFinder : Bool) : Result UInt64 := do
  let fPool ← tx.isPool
  let contract ← demand tx.vContracts.head? (.exception "contract read out of bounds")
  let account ← trustAccount contract.reset
  let statePrev ← demand (db.ReadBlock block.hashPrevBlock) (.error "prev block not in database")
  if ← tx.isTrustStake then
    grossTrustReward rt db block contract.reset account statePrev fPool fBlockFinder
  else grossGenesisReward rt block account statePrev fPool

end Transaction

end Nexus.Ledger
