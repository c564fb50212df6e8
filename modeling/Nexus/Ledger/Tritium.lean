import Nexus.Ledger.Mempool

/-!
# Accepting a block

A block is checked against the block before it.  Then a transaction is opened over the
databases, the transactions of the block are written to disk, and the block is
indexed.  What a call has written when it returns or throws stays in the
transaction that is open.
-/

namespace Nexus.Ledger

open Nexus.Lib.Checked
open Nexus.Util
open Nexus.LLD

structure TritiumBlock extends Block where
  nTime : UInt64 := 0
  /-- The producer before version 9. -/
  producer : Transaction := {}
  /-- The producers from version 9 on. -/
  vProducer : List Transaction := []
  /-- The other transactions: the type and the hash of each. -/
  vtx : List (UInt8 × Uint512) := []

namespace TritiumBlock

/-- The producers of a block of its version. -/
def producers (block : TritiumBlock) : List Transaction :=
  if block.nVersion < 9 then [block.producer] else block.vProducer

/-- `BlockState(block)`. -/
def state (rt : Runtime) (block : TritiumBlock) : BlockState where
  toBlock := block.toBlock
  nTime := block.nTime
  vtx := block.vtx ++ block.producers.map fun tx => (TRANSACTION.TRITIUM, tx.GetHash rt)

end TritiumBlock

/-- The calls that open and close a transaction over the databases. -/
inductive TxnCall where
  | TxnBegin
  | TxnAbort
  | TxnCommit
  deriving DecidableEq

/-- A node and its legacy database, and both databases before the transaction that is open
over them. -/
structure Session (σ τ : Type) where
  node : Node σ
  legacy : τ
  saved : Option (Records × τ) := none
  /-- The calls so far. -/
  txns : List TxnCall := []

namespace Session

variable {σ τ : Type} (session : Session σ τ)

/-- The databases as they are read. -/
def disk : Records × τ := (session.node.db, session.legacy)

def withDisk (disk : Records × τ) : Session σ τ :=
  { session with node := { session.node with db := disk.1 }, legacy := disk.2 }

/-- `TxnBegin`: a transaction that is open is dropped. -/
def TxnBegin : Session σ τ :=
  let disk := session.saved.getD session.disk
  { session.withDisk disk with saved := some disk, txns := session.txns ++ [.TxnBegin] }

def TxnAbort : Session σ τ :=
  { session.withDisk (session.saved.getD session.disk) with
    saved := none
    txns := session.txns ++ [.TxnAbort] }

def TxnCommit : Session σ τ :=
  { session with saved := none, txns := session.txns ++ [.TxnCommit] }

end Session

/-- What accepting a block calls. -/
structure AcceptRuntime (σ τ : Type) extends LedgerRuntime where
  side : Periphery σ
  /-- `GetNextTargetRequired` after a block, by channel: in floating point. -/
  GetNextTargetRequired : Records → BlockState → UInt32 → Result UInt32
  /-- `ChainState::Synchronizing()`. -/
  Synchronizing : Bool
  IsDescendant : Records → BlockState → Result Bool
  CheckStake : Records → TritiumBlock → Result Bool
  /-- A legacy transaction in the pool, and whether it is in conflict. -/
  poolLegacy : σ → Uint512 → Option Bool
  hasLegacy : τ → Uint512 → Bool
  writeLegacy : τ → Uint512 → τ
  hasLegacy_write : ∀ legacy hash hash',
    hasLegacy (writeLegacy legacy hash) hash' = (decide (hash = hash') || hasLegacy legacy hash')
  /-- `BlockState::Index`, with the node and the legacy database it leaves however it ends. -/
  Index : BlockState → Node σ → τ → (Node σ × τ) × Outcome

namespace TritiumBlock

variable {σ τ : Type} (rt : AcceptRuntime σ τ) (block : TritiumBlock)

/-- The genesis that may produce private blocks. -/
def privateGenesis (fTestNet : Bool) : Uint256 :=
  if fTestNet then 0xa2a74c14508bd09e104eff93d86cbbdc5c9556ae68546895d964d8374a0e9a41
  else 0xa1a74c14508bd09e104eff93d86cbbdc5c9556ae68546895d964d8374a0e9a41

/-- The checks before the transaction is opened. -/
def checkAccept (db : Records) : Result Unit := do
  let statePrev ← demand (db.ReadBlock block.hashPrevBlock)
    (.error "previous block state not found")
  reject (statePrev.nHeight + 1 ≠ block.nHeight) (.error "incorrect block height.")
  let nTarget ← rt.GetNextTargetRequired db statePrev block.nChannel
  reject (block.nBits ≠ nTarget) (.error "incorrect proof-of-work/proof-of-stake")
  reject (block.nTime ≤ statePrev.nTime) (.error "block's timestamp too early")
  if rt.Synchronizing = false then
    let fDescendant ← rt.IsDescendant db statePrev
    reject (fDescendant = false) (.error "not descendant of last checkpoint")
  if block.IsPrivate then
    let producer ← demand block.producers.head? (.exception "vector::operator[]")
    reject (producer.hashGenesis ≠ privateGenesis rt.fTestNet) (.error "invalid genesis generated")
  if block.nChannel = CHANNEL.STAKE then
    let fStake ← rt.CheckStake db block
    reject (fStake = false) (.error "invalid proof of stake")
  reject (∃ tx ∈ block.producers, tx.nTimestamp ≤ statePrev.nTime)
    (.error "producer can't be before previous block")

/-- `ReadTx` with `FLAGS::MEMPOOL`, and whether the transaction is in conflict. -/
def readTx (node : Node σ) (hash : Uint512) : Option (Transaction × Bool) :=
  match node.pool.mapConflicts hash with
  | some tx => some (tx, true)
  | none => ((node.pool.find hash) <|> node.db.ledger.ReadTx hash).map fun tx => (tx, false)

/-- `ReadTx` of a legacy transaction, and whether it is in conflict. -/
def readLegacy (session : Session σ τ) (hash : Uint512) : Option Bool :=
  rt.poolLegacy session.node.side hash <|>
    if rt.hasLegacy session.legacy hash then some false else none

/-- One transaction of the block is written to disk: the flag of a conflict so far. -/
def writeTx (session : Session σ τ) (fConflicted : Bool) (proof : UInt8 × Uint512) :
    Option (Session σ τ × Bool) :=
  if proof.1 = TRANSACTION.TRITIUM then
    (readTx session.node proof.2).map fun (tx, fConflict) =>
      ({ session with node.db := session.node.db.WriteTx proof.2 tx }, fConflicted || fConflict)
  else if proof.1 = TRANSACTION.LEGACY then
    (readLegacy rt session proof.2).map fun fConflict =>
      ({ session with legacy := rt.writeLegacy session.legacy proof.2 },
        fConflicted || fConflict)
  else none

/-- The transactions of the block are written to disk, up to one that is not found. -/
def writeTxs : List (UInt8 × Uint512) → Session σ τ → Bool → Session σ τ × Option Bool
  | [], session, fConflicted => (session, some fConflicted)
  | proof :: vtx, session, fConflicted =>
      match writeTx rt session fConflicted proof with
      | none => (session, none)
      | some (session, fConflicted) => writeTxs vtx session fConflicted

/-- The producers are written to disk. -/
def writeProducers (session : Session σ τ) : Session σ τ :=
  { session with
    node := block.producers.foldl
      (fun node tx => { node with db := node.db.WriteTx (tx.GetHash rt.toRuntime) tx })
      session.node }

/-- `Accept`, once the transactions of the block are written. -/
def acceptState (state : BlockState) (session : Session σ τ) : Session σ τ × Outcome :=
  match rt.Index state session.node session.legacy with
  | ((node, legacy), .threw) => ({ session with node, legacy }, .threw)
  | ((node, legacy), .returned false) => ({ session with node, legacy }.TxnAbort, .returned false)
  | ((node, legacy), .returned true) =>
      let session := { session with node, legacy }.TxnCommit
      if state.GetHash rt.toLedgerRuntime = node.chain.hashBestChain then
        ({ session with node := node.Check rt.toRuntime rt.side }, .returned true)
      else (session, .returned true)

/-- `Accept`, once the transaction is open. -/
def acceptBlock (session : Session σ τ) : Session σ τ × Outcome :=
  let state := block.state rt.toRuntime
  match writeTxs rt block.vtx session state.fConflicted with
  | (session, none) => (session, .returned false)
  | (session, some fConflicted) =>
      acceptState rt { state with fConflicted } (writeProducers rt block session)

/-- `Accept`. -/
def Accept (session : Session σ τ) : Session σ τ × Outcome :=
  match block.checkAccept rt session.node.db with
  | .error (.error _) => (session, .returned false)
  | .error (.exception _) => (session, .threw)
  | .ok _ => block.acceptBlock rt session.TxnBegin

end TritiumBlock

end Nexus.Ledger
