import Nexus.Ledger.Mempool

/-!
# Connecting blocks

`Connect` and `Disconnect` of one block, and `SetBest`, which walks from the best
block and from the new one to where they fork, disconnects the one branch,
connects the other, and offers what was disconnected to the memory pool.  The
best state in memory is the block that `SetBest` was called on; what `Connect`
calculates goes to the copy that it was called on, and to disk.
-/

namespace Nexus.Ledger

open Nexus.Lib.Checked
open Nexus.Util
open Nexus.LLD

/-- `nMint` is of 32 bits, and takes the low bits of what is added. -/
def addMint (nMint : Int32) (nReward : UInt64) : Int32 := nMint + nReward.toUInt32.toInt32

def Mint.apply : Mint → Int32 → Int32
  | .set nMint, _ => nMint
  | .add nDelta, nMint => nMint + nDelta

namespace BlockState

variable {σ : Type} (rt : ChainRuntime) (side : Periphery σ)

/-! ## Connect -/

/-- The block as it is changed, the node, and the fees of the pool of stakes so far. -/
structure Connecting (σ : Type) where
  state : BlockState
  node : Node σ
  nPoolFeeTotal : UInt64

/-- A coinstake is checked, its reward minted, and its stake written. -/
def connectStake (x : Connecting σ) (tx : Transaction) (hash hashBlockFinder : Uint512) :
    Result (Connecting σ) := do
  if ← tx.IsCoinStake then
    let (nReward, nPoolFeeTotal) ←
      tx.CheckTrust rt x.node.db x.state x.nPoolFeeTotal (hash = hashBlockFinder)
    return {
      state := { x.state with nMint := addMint x.state.nMint nReward }
      node := { x.node with db := x.node.db.WriteStake tx.hashGenesis hash }
      nPoolFeeTotal }
  else return x

/-- The ledger rules of a signature chain at its end. -/
def checkLast (db : Records) (tx : Transaction) : Result Unit := do
  if ¬ tx.IsFirst then
    let hashLast ← demand (db.ReadLast tx.hashGenesis) (.error "failed to read last on non-genesis")
    reject (tx.hashPrevTx ≠ hashLast) (.error "last hash hash mismatch")

def connectTritium (x : Connecting σ) (hash hashBlockFinder : Uint512) :
    Result (Connecting σ) := do
  reject (x.node.db.HasIndex hash) (.error "transaction overwrites not allowed")
  let tx ← demand (x.node.db.ledger.ReadTx hash) (.error "transaction not on disk")
  checkLast x.node.db tx
  let _ ← tx.Verify rt.toLedgerRuntime x.node.db.toDisk
  let db ← tx.Connect rt.toLedgerRuntime .BLOCK x.node.chain x.node.db x.state
  let nFees ← tx.Fees
  connectStake rt
    { x with state := { x.state with nFees := x.state.nFees + nFees }, node := { x.node with db } }
    tx hash hashBlockFinder

def connectLegacy (x : Connecting σ) (hash : Uint512) : Result (Connecting σ) := do
  reject (x.node.db.HasIndex hash) (.error "transaction overwrites not allowed")
  let s ← side.connectLegacy x.node.side x.node.db x.state hash
  return { x with
    state := { x.state with nMint := (side.legacyMint hash).apply x.state.nMint }
    node := { x.node with side := s } }

/-- One transaction of a block is connected, and indexed. -/
def connectTx (hashBlock : Uint1024) (hashBlockFinder : Uint512) (x : Connecting σ)
    (proof : UInt8 × Uint512) : Result (Connecting σ) := do
  let x ←
    if proof.1 = TRANSACTION.TRITIUM then connectTritium rt x proof.2 hashBlockFinder
    else if proof.1 = TRANSACTION.LEGACY then connectLegacy side x proof.2
    else .error (.error "using an unknown transaction type")
  return { x with node := { x.node with db := x.node.db.IndexBlock proof.2 hashBlock } }

/-- The pointer of the block before is set.  The genesis block is held in memory as well. -/
def setNext (rt : LedgerRuntime) (node : Node σ) (prev : BlockState) (hashNextBlock : Uint1024) :
    Node σ :=
  let prev := { prev with hashNextBlock }
  { node with
    db := node.db.WriteBlock (prev.GetHash rt) prev
    chain.stateGenesis :=
      if prev.GetHash rt = rt.hashGenesis then some prev else node.chain.stateGenesis }

/-- `Connect`: the block as it is written, and the node. -/
def Connect (node : Node σ) (state : BlockState) : Result (BlockState × Node σ) := do
  let hash := state.GetHash rt.toLedgerRuntime
  let finder ← demand state.vtx.getLast? (.exception "vector::back")
  let x ← state.vtx.foldlM (connectTx rt side hash finder.2)
    { state := { state with nFees := 0 }, node, nPoolFeeTotal := 0 }
  let prev ← state.Prev x.node.db
  let state :=
    { x.state with
      nMoneySupply :=
        (if prev.IsNull then 0 else prev.nMoneySupply) + x.state.nMint.toInt64.toUInt64
      nFeeReserve := x.state.nFeeReserve + x.state.nFees }
  let node := { x.node with db := x.node.db.WriteBlock hash state }
  return (state, if prev.IsNull then node else setNext rt.toLedgerRuntime node prev hash)

/-! ## Disconnect -/

def disconnectTx (state : BlockState) (node : Node σ) (proof : UInt8 × Uint512) :
    Result (Node σ) := do
  let node ←
    if proof.1 = TRANSACTION.TRITIUM then do
      let tx ← demand (node.db.ledger.ReadTx proof.2) (.error "transaction is not on disk")
      let db ← tx.Disconnect rt.toLedgerRuntime node.db
      pure { node with db }
    else if proof.1 = TRANSACTION.LEGACY then do
      let s ← side.disconnectLegacy node.side node.db state proof.2
      pure { node with side := s }
    else .ok node
  return { node with db := node.db.EraseIndex proof.2 }

/-- `Disconnect`. -/
def Disconnect (node : Node σ) (state : BlockState) : Result (Node σ) := do
  let node ← state.vtx.reverse.foldlM (disconnectTx rt side state) node
  let prev ← state.Prev node.db
  if prev.IsNull then return node
  else
    return { node with
      db := node.db.WriteBlock (prev.GetHash rt.toLedgerRuntime) { prev with hashNextBlock := 0 } }

/-! ## The fork -/

/-- Go back while the new branch is higher than the best one. -/
def walkLonger (db : Records) (fork : BlockState) :
    Nat → BlockState → List BlockState → Result (BlockState × List BlockState)
  | 0, _, _ => .error (.exception "out of fuel")
  | nFuel + 1, longer, vConnect =>
      if fork.nHeight < longer.nHeight then do
        let prev ← longer.Prev db
        reject prev.IsNull (.error "failed to find longer ancestor block")
        walkLonger db fork nFuel prev (vConnect ++ [longer])
      else .ok (longer, vConnect)

/-- Go back on both branches until they meet: the blocks to disconnect, and those to connect. -/
def findFork (db : Records) : Nat → BlockState → BlockState → List BlockState → List BlockState →
    Result (List BlockState × List BlockState)
  | 0, _, _, _, _ => .error (.exception "out of fuel")
  | nFuel + 1, fork, longer, vDisconnect, vConnect =>
      if fork.Equal longer then .ok (vDisconnect, vConnect)
      else do
        let (longer, vConnect) ← walkLonger db fork nFuel longer vConnect
        if fork.Equal longer then return (vDisconnect, vConnect)
        else do
          let prev ← fork.Prev db
          reject prev.IsNull (.error "failed to find ancestor fork block")
          findFork db nFuel prev longer (vDisconnect ++ [fork]) vConnect

/-! ## SetBest -/

/-- A block is disconnected, and erased if nothing is connected in its place. -/
def disconnectBlock (fErase : Bool) (node : Node σ) (state : BlockState) : Result (Node σ) := do
  let node ← Disconnect rt side node state
  return if fErase then
      { node with db := node.db.EraseBlock (state.GetHash rt.toLedgerRuntime) }
    else node

def connectBlock (node : Node σ) (state : BlockState) : Result (Node σ) :=
  (Connect rt side node state).map Prod.snd

/-- A transaction that was disconnected is offered to the pool, or erased if its block was. -/
def resurrect (nFuel : Nat) (fErase : Bool) (node : Node σ) (proof : UInt8 × Uint512) :
    Result (Node σ) := do
  if proof.1 = TRANSACTION.TRITIUM then
    if fErase then return { node with db := node.db.EraseTx proof.2 }
    else
      let tx ← demand (node.db.ledger.ReadTx proof.2) (.error "transaction not on disk")
      if ← tx.IsCoinBase then return node
      else if ← tx.IsCoinStake then return node
      else
        match node.Accept (node.chain.runtime rt.toLedgerRuntime) side nFuel tx with
        | none => .error (.exception "out of fuel")
        | some (_, .threw) => .error (.exception "mempool")
        | some (node, .returned _) => return node
  else if proof.1 = TRANSACTION.LEGACY then
    let s ← if fErase then side.eraseLegacy node.side proof.2
      else side.resurrectLegacy node.side node.db proof.2
    return { node with side := s }
  else return node

/-- `SetBest` once there is a genesis block. -/
def setBestChain (nFuel : Nat) (node : Node σ) (state : BlockState) : Result (Node σ) := do
  let (vDisconnect, vConnect) ← findFork node.db nFuel node.chain.stateBest state [] []
  let node ← vDisconnect.foldlM (disconnectBlock rt side vConnect.isEmpty) node
  let vResurrect := vDisconnect.flatMap fun state => state.vtx.reverse
  let node ← vConnect.reverse.foldlM (connectBlock rt side) node
  let vDelete := vConnect.reverse.flatMap fun state => state.vtx
  let node ← vResurrect.reverse.foldlM (resurrect rt side nFuel vConnect.isEmpty) node
  let node := vDelete.foldl (fun node proof => node.Remove side proof.2) node
  let hash := state.GetHash rt.toLedgerRuntime
  return { node with
    db := node.db.WriteBestChain hash
    chain :=
      { node.chain with
        stateBest := state
        hashBestChain := hash
        nBestHeight := state.nHeight
        nBestChainTrust := state.nChainTrust } }

/-- `SetBest`. -/
def SetBest (nFuel : Nat) (node : Node σ) (state : BlockState) : Result (Node σ) :=
  match node.chain.stateGenesis with
  | some _ => setBestChain rt side nFuel node state
  | none =>
      let hash := state.GetHash rt.toLedgerRuntime
      .ok { node with
        db := (node.db.WriteBestChain hash).WriteBlock hash state
        chain.stateGenesis := some state }

end BlockState

end Nexus.Ledger
