import Nexus.Ledger.Chain
import Nexus.LLD.Memory
import Nexus.Operation.Cost
import Nexus.Operation.Execute
import Nexus.Register.Rollback
import Nexus.Register.Verify

/-!
# Transactions of signature chains

A transaction that is not the first of its chain follows the one it names: the
next sequence number, no earlier, with the key its predecessor announced, or the
recovery key.  Connecting one to a block executes its contracts and moves the
keys of its chain forward; disconnecting moves them back.
-/

namespace Nexus.Ledger

open Nexus.Lib.Checked
open Nexus.Util
open Nexus.Register
open Nexus.Operation
open Nexus.LLD

def TX_FEE_INTERVAL : UInt64 := 10

namespace Transaction

variable (rt : LedgerRuntime) (tx : Transaction)

/-- `Bind`: a contract with the fields of its transaction. -/
def bind (contract : Contract) : Contract :=
  { contract.reset with
    hashCaller := tx.hashGenesis
    nTimestamp := tx.nTimestamp
    hashTx := tx.GetHash rt.toRuntime
    nVersion := tx.nVersion }

def contracts : List Contract := tx.vContracts.map (tx.bind rt)

def IsFirst : Prop := tx.nSequence = 0

instance : Decidable tx.IsFirst := by
  unfold IsFirst
  infer_instance

/-- `PrevHash`: the hash of the public key. -/
def PrevHash : Uint256 := rt.SK256 tx.vchPubKey

/-- Some contract has the operation. -/
def hasPrimitive (nOP : UInt8) : List Contract → Result Bool
  | [] => .ok false
  | contract :: vContracts => do
      if (← contract.primitive) = nOP then return true else hasPrimitive nOP vContracts

def IsCoinBase : Result Bool := hasPrimitive OP.COINBASE tx.vContracts
def IsPrivate : Result Bool := hasPrimitive OP.AUTHORIZE tx.vContracts
def IsTrust : Result Bool := hasPrimitive OP.TRUST tx.vContracts
def IsGenesis : Result Bool := hasPrimitive OP.GENESIS tx.vContracts
def IsTrustPool : Result Bool := hasPrimitive OP.TRUSTPOOL tx.vContracts
def IsGenesisPool : Result Bool := hasPrimitive OP.GENESISPOOL tx.vContracts

def IsCoinStake : Result Bool := do
  if ← tx.IsTrustPool then return true
  else if ← tx.IsTrust then return true
  else if ← tx.IsGenesisPool then return true
  else tx.IsGenesis

/-- `IsTrust() || IsTrustPool()`. -/
def isTrustStake : Result Bool := do
  if ← tx.IsTrust then return true else tx.IsTrustPool

/-- The fee that one contract pays. -/
def fee (nFee : UInt64) (contract : Contract) : Result UInt64 := do
  if (← contract.primitive) = OP.FEE then return nFee + (← contract.Value) else return nFee

/-- `Fees`: the sum of the fees that the contracts pay. -/
def Fees : Result UInt64 := tx.vContracts.foldlM fee 0

/-- The fees that a first transaction may use up. -/
def firstFees : UInt64 := 2 * Object.ACCOUNT_FEE + 2 * Object.NAME_FEE + 1 * Object.CRYPTO_FEE

/-- `Verify`: the pre-states of all contracts. -/
def Verify (disk : Disk) : Result States :=
  (tx.contracts rt).foldlM (fun mapStates contract =>
    Register.Verify rt.toRuntime disk mapStates contract) fun _ => none

/-! ## Connecting -/

/-- The first transaction of a chain that is paid from a reserve has the key of the tables. -/
def checkPayout (nSwitchVersion : UInt32) : Result Unit := do
  if rt.unifiedtimestamp < rt.StartBlockTimelock nSwitchVersion then return
  match (rt.Ambassador nSwitchVersion).find? (·.hashGenesis = tx.hashGenesis) with
  | none => pure ()
  | some payout =>
      reject (payout.hashKey ≠ tx.PrevHash rt) (.error "AMBASSADOR sigchain using invalid credentials")
  match (rt.Developer nSwitchVersion).find? (·.hashGenesis = tx.hashGenesis) with
  | none => pure ()
  | some _ =>
      let payout ← demand (rt.DEVELOPER.find? (·.hashGenesis = tx.hashGenesis))
        (.exception "map::at")
      reject (payout.hashKey ≠ tx.PrevHash rt) (.error "DEVELOPER sigchain using invalid credentials")

def checkPayouts : Result Unit :=
  ((List.range' 7 (rt.CurrentBlockVersion.toNat - 6)).map UInt32.ofNat).forM (tx.checkPayout rt)

/-- The transaction follows `txPrev` in its chain. -/
def checkPrev (txPrev : Transaction) : Result Unit := do
  reject (txPrev.nSequence + 1 ≠ tx.nSequence) (.error "prev transaction incorrect sequence")
  reject (tx.nTimestamp < txPrev.nTimestamp) (.error "timestamp too far in the past ")
  let fRecovery ← if txPrev.hashNext ≠ tx.PrevHash rt then do
      reject (txPrev.hashRecovery ≠ tx.PrevHash rt) (.error "invalid signature chain credentials")
      reject (txPrev.hashRecovery = 0) (.error "NOTICE: recovery hash disabled")
      pure true
    else pure false
  reject (fRecovery = false ∧ txPrev.hashRecovery ≠ tx.hashRecovery ∧ txPrev.hashRecovery ≠ 0)
    (.error "recovery hash broken chain")
  reject (txPrev.hashGenesis ≠ tx.hashGenesis) (.error "genesis hash broken chain")

/-- What a contract depends on is in the chain, and mature if it is a coinbase. -/
def checkDependant (chain : ChainState) (db : Records) (block : BlockState) (hashPrev : Uint512)
    (nContract : UInt32) : Result Unit := do
  reject (db.HasIndex hashPrev = false) (.error " not indexed")
  let dependant ← db.ReadContract rt.toRuntime hashPrev nContract
  if (← dependant.primitive) = OP.COINBASE then
    let nConfirms ← demand (ReadConfirmations db hashPrev block)
      (.error "failed to read confirmations for coinbase")
    reject (nConfirms + 1 < MaturityCoinBase rt chain block) (.error "coinbase is immature ")

/-- One contract is executed, and its cost added. -/
def connectContract (nFlags : FLAGS) (chain : ChainState) (block : BlockState) (fApplyTxFee : Bool)
    (x : Records × UInt64) (contract : Contract) : Result (Records × UInt64) := do
  let (db, nCost) := x
  match nFlags, ← contract.Dependant with
  | .BLOCK, some (hashPrev, nContract) => checkDependant rt chain db block hashPrev nContract
  | _, _ => pure ()
  let (disk, nCost) ← Execute (chain.runtime rt) db.toDisk contract nCost
  let nCost ← if fApplyTxFee then TxCost contract nCost else .ok nCost
  return ({ db with toDisk := disk }, nCost)

/-- The rules of the chain: whether transaction fees apply, and the keys that are written. -/
def connectChain (nFlags : FLAGS) (db : Records) : Result (Records × Bool) := do
  if tx.IsFirst then
    tx.checkPayouts rt
    return (if nFlags = .BLOCK then db.WriteGenesis tx.hashGenesis (tx.GetHash rt.toRuntime) else db,
      false)
  else
    let txPrev ← demand (db.ledger.ReadTx tx.hashPrevTx) (.error "prev transaction not on disk")
    tx.checkPrev rt txPrev
    return (db, tx.nTimestamp - txPrev.nTimestamp < TX_FEE_INTERVAL)

/-- `Connect`.  With `FLAGS::MEMPOOL` the databases are those that the pool overlays. -/
def Connect (nFlags : FLAGS) (chain : ChainState) (db : Records) (block : BlockState) :
    Result Records := do
  let (db, fApplyTxFee) ← tx.connectChain rt nFlags db
  let (db, nCost) ← (tx.contracts rt).foldlM (connectContract rt nFlags chain block fApplyTxFee)
    (db, 0)
  if rt.fPrivate = false then
    let nFees ← if tx.IsFirst then .ok firstFees else tx.Fees
    reject (nFees < nCost) (.error "not enough fees supplied ")
  return if nFlags = .BLOCK then db.WriteLast tx.hashGenesis (tx.GetHash rt.toRuntime) else db

/-! ## Disconnecting -/

/-- The stake key goes back to the stake before, or is erased with the first one. -/
def disconnectStake (db : Records) : Result Records := do
  if ← tx.IsCoinStake then
    if ← tx.isTrustStake then
      let contract ← demand tx.vContracts.head? (.exception "contract read out of bounds")
      let hashLast ← contract.Previous
      return db.WriteStake tx.hashGenesis hashLast
    else return db.EraseStake tx.hashGenesis
  else return db

/-- `Disconnect` with `FLAGS::BLOCK`.  An erase in a database transaction succeeds, and the
`else` of the source belongs to its failure: the last hash of a first transaction is erased,
and then written. -/
def Disconnect (db : Records) : Result Records := do
  let db := if tx.IsFirst then db.EraseLast tx.hashGenesis else db
  let db := db.WriteLast tx.hashGenesis tx.hashPrevTx
  let db ← tx.disconnectStake db
  let disk ← (tx.contracts rt).reverse.foldlM (fun disk contract =>
    Rollback rt.toRuntime disk contract) db.toDisk
  return { db with toDisk := disk }

end Transaction

end Nexus.Ledger
