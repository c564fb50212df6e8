import Nexus.Ledger.State
import Nexus.Legacy.Trust

/-!
# Connecting legacy transactions

A legacy transaction spends outputs of legacy transactions, and of payments to the
older ledger in signature chains.  `Connect` marks what it spends, records the last
stake of a coinstake's key, and writes an event for each output to a register;
`Disconnect` takes it back, and finds the earlier stake through the script of the
coinstake.  Both are modelled with `FLAGS::BLOCK`.
-/

namespace Nexus.Operation

open Nexus.Lib.Checked
open Nexus.Util
open Nexus.LLD

/-- `Contract::Legacy`: the output of a payment to the older ledger.  The address is skipped
from the beginning of the stream, whether or not the payment stands there. -/
def Contract.Legacy (contract : Contract) : Result (Option TxOut) := do
  if (← contract.primitive) ≠ OP.LEGACY then return none
  else
    let ss ← contract.ssOperation.seekBegin 33
    let (nValue, ss) ← ss.extract UInt64
    let (scriptPubKey, _) ← ss.extractBytes
    return some { nValue := nValue.toInt64, scriptPubKey }

end Nexus.Operation

namespace Nexus.Legacy

open Nexus.Lib.Checked
open Nexus.Util
open Nexus.Register
open Nexus.Operation
open Nexus.Ledger
open Nexus.LLD

/-- A transaction that is spent from. -/
inductive Input where
  | LEGACY (txPrev : Transaction)
  | TRITIUM (txPrev : Ledger.Transaction)

abbrev Inputs := Uint512 → Option Input

def NEXUS_MATURITY_COINSTAKE : UInt32 := 250

/-- `MaturityCoinStake`. -/
def MaturityCoinStake (rt : LedgerRuntime) (chain : ChainState) (block : BlockState) : UInt32 :=
  let nVersion := if block.IsNull then chain.stateBest.nVersion else block.nVersion
  if rt.fTestNet then TESTNET_MATURITY_BLOCKS
  else if nVersion < 7 then NEXUS_MATURITY_LEGACY
  else NEXUS_MATURITY_COINSTAKE

namespace Transaction

variable (rt : LegacyRuntime) (db : Records) (tx : Transaction)

/-! ## Inputs -/

/-- The transaction of a signature chain that an input names by its type, if there is one. -/
def chainInput (txin : TxIn) : Option Ledger.Transaction :=
  if rt.StartBlockTimelock 7 ≤ tx.nTime.toUInt64 ∧ GetType txin.prevout.hash = TRITIUM then
    db.ledger.ReadTx txin.prevout.hash
  else none

/-- The transaction of an input is read, unless it was for an earlier input. -/
def fetchInput (legacy : LegacyRecords) (inputs : Inputs) (txin : TxIn) : Result Inputs := do
  let ⟨hash, n⟩ := txin.prevout
  if (inputs hash).isSome then return inputs
  else
    match chainInput rt db tx txin with
    | some txPrev =>
        reject (txPrev.vContracts.length ≤ n.toNat) (.error "prevout is out of range ")
        let contract ← txPrev.contract rt.toRuntime n
        reject ((← contract.primitive) ≠ OP.LEGACY) (.error "can't spend from UTXO with no OP::LEGACY")
        return Function.update inputs hash (some (.TRITIUM txPrev))
    | none =>
        let txPrev ← demand (legacy.ReadTx hash) (.error "tx not found")
        reject (txPrev.vout.length ≤ n.toNat) (.error "prevout is out of range ")
        return Function.update inputs hash (some (.LEGACY txPrev))

def FetchInputs (legacy : LegacyRecords) : Result Inputs :=
  if tx.IsCoinBase then .ok fun _ => none
  else tx.spending.foldlM (fun inputs x => fetchInput rt db tx legacy inputs x.1) fun _ => none

/-- `GetOutputFor`, from a transaction of a signature chain. -/
def chainOutput (txPrev : Ledger.Transaction) (n : UInt32) : Result TxOut := do
  reject (txPrev.vContracts.length ≤ n.toNat) (.exception "prevout.n out of range")
  let contract ← txPrev.contract rt.toRuntime n
  demand (← contract.Legacy) (.exception "invalid tritium operation")

/-! ## Connect -/

/-- The output of a coinbase or a coinstake is mature in a block. -/
def checkMaturity (state : BlockState) (txPrev : Transaction) : Result Unit := do
  if txPrev.IsCoinBase ∨ txPrev.IsCoinStake then
    let statePrev ← demand (db.ReadBlockOf (txPrev.GetHash rt.toRuntime))
      (.error "failed to read previous tx block")
    let nMaturity :=
      if txPrev.IsCoinBase then MaturityCoinBase rt.toLedgerRuntime rt.chain state
      else MaturityCoinStake rt.toLedgerRuntime rt.chain state
    reject (state.nHeight - statePrev.nHeight < nMaturity)
      (.error "tried to spend immature balance ")

/-- The legacy output of an input, which may be spent from a block. -/
def legacyOutput (state : BlockState) (txPrev : Transaction) (txin : TxIn) : Result TxOut := do
  reject (db.HasIndex txin.prevout.hash = false) (.error "Legacy tx not connected")
  let txout ← demand txPrev.vout[txin.prevout.n.toNat]? (.error "prevout is out of range")
  checkMaturity rt db state txPrev
  reject (tx.nTime < txPrev.nTime) (.error "transaction timestamp earlier than input transaction")
  return txout

/-- The output of an input from a signature chain, which may be spent from a block. -/
def tritiumOutput (txPrev : Ledger.Transaction) (txin : TxIn) : Result TxOut := do
  reject (tx.nTime.toUInt64 < rt.StartBlockTimelock 7)
    (.error "legacy spends of tritium inputs not available until version 7")
  reject (db.HasIndex txin.prevout.hash = false) (.error "Tritium tx not connected")
  reject (txPrev.vContracts.length ≤ txin.prevout.n.toNat) (.error "prevout is out of range")
  reject ((← txPrev.IsCoinBase) ∨ (← txPrev.IsCoinStake))
    (.error "cannot spend producer from UTXO")
  reject (tx.nTime.toUInt64 < txPrev.nTimestamp)
    (.error "transaction timestamp earlier than input transaction")
  chainOutput rt txPrev txin.prevout.n

/-- What is not checked while the chain is synchronizing. -/
def checkScript (input : Input) (txout : TxOut) (txin : TxIn) (nIn : Nat) : Result Unit :=
  if rt.Synchronizing then .ok ()
  else
    match input with
    | .LEGACY txPrev =>
        reject (rt.VerifySignature txPrev tx nIn = false) (.error "signature is invalid")
    | .TRITIUM txPrev => do
        reject (txin.prevout.hash ≠ txPrev.GetHash rt.toRuntime) (.error "prevout.hash mismatch")
        reject (rt.VerifyScript txin.scriptSig txout.scriptPubKey tx nIn = false)
          (.error "invalid script")

/-- The output of an input, which may be spent from a block. -/
def inputOutput (state : BlockState) (input : Input) (txin : TxIn) : Result TxOut :=
  match input with
  | .LEGACY txPrev => legacyOutput rt db tx state txPrev txin
  | .TRITIUM txPrev => tritiumOutput rt db tx txPrev txin

/-- An input is added to the value, and its output is marked as spent. -/
def connectInput (state : BlockState) (inputs : Inputs) (x : LegacyRecords × UInt64)
    (txin : TxIn × Nat) : Result (LegacyRecords × UInt64) := do
  let ⟨hash, n⟩ := txin.1.prevout
  let input ← demand (inputs hash) (.exception "assert")
  let txout ← inputOutput rt db tx state input txin.1
  let nValueIn := x.2 + txout.nValue.toUInt64
  reject (¬ MoneyRange txout.nValue ∨ ¬ MoneyRange nValueIn.toInt64)
    (.error "txin values out of range")
  reject (x.1.IsSpent hash n = true) (.error "prev tx is already spent")
  checkScript rt tx input txout txin.1 txin.2
  return (x.1.WriteSpend hash n, nValueIn)

/-- The record of a key that has a genesis, from disk or from the chain. -/
def trustRecord (side : LegacySide) (state : BlockState) (cKey : Uint576) :
    Result Legacy.TrustKey :=
  match side.ReadTrustKey cKey with
  | some trustKey => .ok trustKey
  | none => FindGenesis rt db side.legacy cKey state.hashPrevBlock

/-- The trust score is checked from version 5 on. -/
def checkScore (legacy : LegacyRecords) (state : BlockState) (trustKey : Legacy.TrustKey) :
    Result Unit :=
  if 5 ≤ state.nVersion then CheckTrust rt db legacy tx state trustKey else .ok ()

/-- The record of a coinstake's key before this stake. -/
def stakeKey (side : LegacySide) (state : BlockState) (vTrustKey : List UInt8) :
    Result Legacy.TrustKey := do
  if tx.IsGenesis then
    reject (5 ≤ state.nVersion ∧ tx.stakeScript.length ≠ 8) (.error "genesis unexpected size ")
    let trustKey : Legacy.TrustKey := {
      vchPubKey := vTrustKey
      hashGenesisBlock := state.GetHash rt.toLedgerRuntime
      hashGenesisTx := tx.GetHash rt.toRuntime
      nGenesisTime := state.nTime.toUInt32 }
    trustKey.CheckGenesis rt state
    return trustKey
  else if tx.IsTrust then
    let trustKey ← trustRecord rt db side state (SetBytes rt.toRuntime vTrustKey)
    reject (trustKey.vchPubKey ≠ vTrustKey) (.error "trust key and block trust key mismatch")
    let stateGenesis ← demand (db.ReadBlock trustKey.hashGenesisBlock)
      (.error "genesis block not found")
    trustKey.CheckGenesis rt stateGenesis
    checkScore rt db tx side.legacy state trustKey
    return trustKey
  else return {}

/-- A coinstake is recorded for its key. -/
def connectStake (side : LegacySide) (state : BlockState) : Result LegacySide :=
  if tx.IsCoinStake then do
    let vTrustKey ← tx.TrustKey rt
    let trustKey ← stakeKey rt db tx side state vTrustKey
    let trustKey ← trustKey.staked rt side.legacy (state.GetHash rt.toLedgerRuntime) state
    return side.WriteTrustKey (SetBytes rt.toRuntime vTrustKey) trustKey
  else .ok side

/-- An event for the owner of a register that an output pays. -/
def connectOut (hashTx : Uint512) (legacy : LegacyRecords) (txout : TxOut) : Result LegacyRecords :=
  match ExtractRegister txout.scriptPubKey with
  | none => .ok legacy
  | some hashTo => do
      let state ← demand (db.register.ReadState hashTo) (.error "failed to read register to")
      return legacy.WriteEvent state.hashOwner hashTx

/-- The values of a coinstake, or of a transaction that may pay a fee. -/
def checkValues (side : LegacySide) (state : BlockState) (nValueIn : UInt64) : Result Unit := do
  if tx.IsCoinStake then
    let nStakeReward ← rt.CoinstakeReward db side state tx
    let txout ← demand tx.vout.head? (.exception "vector::front")
    -- The value of the output is divided as a signed integer, and compared as an unsigned one.
    reject ((nStakeReward + nValueIn) / 1000 < (txout.nValue / 1000).toUInt64)
      (.error " stake reward mismatch ")
  else
    reject (nValueIn < (← tx.GetValueOut)) (.error " value in < value out ")

/-- The size of the first script of a coinbase or a coinstake. -/
def checkScriptSize (state : BlockState) : Result Unit :=
  reject ((tx.IsCoinBase ∨ tx.IsCoinStake) ∧ (tx.stakeScript.length < 2 ∨
    (if state.nVersion < 5 then 100 else 144) < tx.stakeScript.length))
    (.error "coinbase/coinstake script invalid size ")

/-- `Connect`: the databases, and what the transaction mints. -/
def Connect (side : LegacySide) (inputs : Inputs) (state : BlockState) :
    Result (LegacySide × Mint) := do
  checkScriptSize tx state
  if tx.IsCoinBase then
    let nValueOut ← tx.GetValueOut
    return (side, .set nValueOut.toUInt32.toInt32)
  else
    let side ← connectStake rt db tx side state
    let (legacy, nValueIn) ← tx.spending.foldlM (connectInput rt db tx state inputs) (side.legacy, 0)
    checkValues rt db tx { side with legacy } state nValueIn
    let nValueOut ← tx.GetValueOut
    let legacy ← tx.vout.foldlM (connectOut db (tx.GetHash rt.toRuntime)) legacy
    return ({ side with legacy }, .add (nValueOut - nValueIn).toUInt32.toInt32)

/-! ## Disconnect -/

def eraseSpend (legacy : LegacyRecords) (txin : TxIn × Nat) : LegacyRecords :=
  legacy.EraseSpend txin.1.prevout.hash txin.1.prevout.n

def disconnectOut (legacy : LegacyRecords) (txout : TxOut) : Result LegacyRecords :=
  match ExtractRegister txout.scriptPubKey with
  | none => .ok legacy
  | some hashTo => do
      let stateReg ← demand (db.register.ReadState hashTo) (.error "failed to read register to")
      demand (legacy.EraseEvent stateReg.hashOwner) (.error "failed to write event for account ")

/-- The record of a key goes back to the block that the coinstake names. -/
def disconnectStake (side : LegacySide) (state : BlockState) : Result LegacySide := do
  let cKey := SetBytes rt.toRuntime (← tx.TrustKey rt)
  match side.ReadTrustKey cKey with
  | none => return side
  | some trustKey =>
      if state.GetHash rt.toLedgerRuntime = trustKey.hashGenesisBlock then
        return side.EraseTrustKey cKey
      else
        let (hashLastBlock, _, _) ← tx.ExtractTrust
        let statePrev ← demand (db.ReadBlock hashLastBlock)
          (.error "failed to read previous stake block")
        let trustKey ← trustKey.staked rt side.legacy hashLastBlock statePrev
        return side.WriteTrustKey cKey trustKey

/-- The spends and the events are erased. -/
def disconnectSpends (legacy : LegacyRecords) : Result LegacyRecords :=
  if tx.IsCoinBase then .ok legacy
  else tx.vout.foldlM (disconnectOut db) (tx.spending.foldl eraseSpend legacy)

def Disconnect (side : LegacySide) (state : BlockState) : Result LegacySide := do
  let legacy ← disconnectSpends db tx side.legacy
  if tx.IsCoinStake then disconnectStake rt db tx { side with legacy } state
  else return { side with legacy }

end Transaction

/-- The legacy branch of a block, which reads its transaction and inputs from disk.  The memory
pool is as in `rest`. -/
def LegacyRuntime.side (rt : LegacyRuntime) (rest : Periphery LegacySide) : Periphery LegacySide :=
  { rest with
    connectLegacy := fun side db state hash => do
      let tx ← demand (side.legacy.ReadTx hash) (.error "transaction not on disk")
      let inputs ← tx.FetchInputs rt db side.legacy
      let (side, _) ← tx.Connect rt db side inputs state
      return side
    disconnectLegacy := fun side db state hash => do
      let tx ← demand (side.legacy.ReadTx hash) (.error "transaction is not on disk")
      tx.Disconnect rt db side state }

end Nexus.Legacy
