import Nexus.Ledger.Index
import Nexus.Ledger.Tritium

/-!
# Checkpoints

A block is indexed, and set to be the best if it is better than the one that is; with
each block that is connected the checkpoint of the block before the new one is
hardened.  What a call has done when it fails is left to its caller: the databases are
aborted, the chain state in memory is not.

A call is modelled as its steps in order, up to one that fails.
-/

namespace Nexus.Ledger

open Nexus.Lib.Checked
open Nexus.Util
open Nexus.LLD

/-- `IsDescendant` on a node that is not synchronizing: one of the blocks from `check` back names
the checkpoint. -/
def isDescendant (db : Records) (chain : ChainState) (state : BlockState) :
    Nat → BlockState → Result Bool
  | 0, _ => .error (.exception "out of fuel")
  | nFuel + 1, check =>
      if check.IsNull then .ok false
      else if chain.hashCheckpoint = check.hashCheckpoint then .ok true
      else if state.nHeight < chain.nCheckpointHeight then .ok false
      else do
        let check ← check.Prev db
        isDescendant db chain state nFuel check

def IsDescendant (nFuel : Nat) (chain : ChainState) (db : Records) (state : BlockState) :
    Result Bool :=
  if chain.hashCheckpoint = 0 then .ok true else isDescendant db chain state nFuel state

namespace BlockState

variable {σ : Type}

/-- `HardenCheckpoint`. -/
def HardenCheckpoint (node : Node σ) (state : BlockState) : Node σ :=
  if IsNewTimespan node.db node.chain.hashCheckpoint state then
    let chain := { node.chain with hashCheckpoint := state.hashCheckpoint }
    match node.db.ReadBlock state.hashCheckpoint with
    | none => { node with chain }
    | some stateCheckpoint =>
        { node with chain := { chain with nCheckpointHeight := stateCheckpoint.nHeight } }
  else node

/-! ## Steps -/

/-- The steps of `SetBest` that may fail. -/
inductive Step where
  | disconnect (state : BlockState)
  | connect (state : BlockState)
  | harden
  | resurrect (proof : UInt8 × Uint512)

/-- What `SetBest` calls. -/
structure BestRuntime (σ : Type) extends ChainRuntime where
  side : Periphery σ
  /-- What a step that fails has written besides the records of blocks. -/
  leaves : Node σ → Step → Node σ
  /-- The most blocks that a search goes back. -/
  nFuel : Nat

variable (rt : BestRuntime σ)

def Step.run (state : BlockState) (fErase : Bool) (node : Node σ) : Step → Result (Node σ)
  | .disconnect fork => disconnectBlock rt.toChainRuntime rt.side fErase node fork
  | .connect longer => connectBlock rt.toChainRuntime rt.side node longer
  | .harden => (state.Prev node.db).map (HardenCheckpoint node)
  | .resurrect proof => BlockState.resurrect rt.toChainRuntime rt.side rt.nFuel fErase node proof

/-- A step that fails leaves the blocks, the best chain and the chain state. -/
def Step.left (node : Node σ) (step : Step) : Node σ :=
  let node' := rt.leaves node step
  { node' with
    db := { node'.db with blocks := node.db.blocks, bestChain := node.db.bestChain }
    chain := node.chain }

/-- The steps one after another, up to one that fails. -/
def runSteps (state : BlockState) (fErase : Bool) : List Step → Node σ → Node σ × Result Unit
  | [], node => (node, .ok ())
  | step :: steps, node =>
      match step.run rt state fErase node with
      | .error e => (step.left rt node, .error e)
      | .ok node => runSteps state fErase steps node

/-- A block is connected, and a checkpoint hardened. -/
def connectSteps (state : BlockState) : List Step := [.connect state, .harden]

def steps (vDisconnect vConnect : List BlockState) : List Step :=
  vDisconnect.map .disconnect ++ vConnect.reverse.flatMap connectSteps ++
    ((vDisconnect.flatMap fun state => state.vtx.reverse).reverse.map .resurrect)

/-- The end of `SetBest`, which does not fail. -/
def finishBest (state : BlockState) (vConnect : List BlockState) (node : Node σ) : Node σ :=
  let vDelete := vConnect.reverse.flatMap fun state => state.vtx
  let node := vDelete.foldl (fun node proof => node.Remove rt.side proof.2) node
  let hash := state.GetHash rt.toLedgerRuntime
  { node with
    db := node.db.WriteBestChain hash
    chain :=
      { node.chain with
        stateBest := state
        hashBestChain := hash
        nBestHeight := state.nHeight
        nBestChainTrust := state.nChainTrust } }

/-- `SetBest`, with the checkpoints that it hardens, and what it leaves. -/
def setBest (node : Node σ) (state : BlockState) : Node σ × Result Unit :=
  match node.chain.stateGenesis with
  | none =>
      let hash := state.GetHash rt.toLedgerRuntime
      ({ node with
          db := (node.db.WriteBestChain hash).WriteBlock hash state
          chain.stateGenesis := some state }, .ok ())
  | some _ =>
      match findFork node.db rt.nFuel node.chain.stateBest state [] [] with
      | .error e => (node, .error e)
      | .ok (vDisconnect, vConnect) =>
          match runSteps rt state vConnect.isEmpty (steps vDisconnect vConnect) node with
          | (node, .error e) => (node, .error e)
          | (node, .ok _) => (finishBest rt state vConnect node, .ok ())

/-! ## Index -/

/-- The channels in which a block weighs as much as the best one, and more than it. -/
def nEquals (state best : BlockState) : Nat :=
  (List.finRange 3).countP fun n => state.nChannelWeight n = best.nChannelWeight n

def nGreater (state best : BlockState) : Nat :=
  (List.finRange 3).countP fun n => best.nChannelWeight n < state.nChannelWeight n

/-- Whether `Index` sets the block to be the best. -/
def better (chain : ChainState) (state : BlockState) : Bool :=
  if 7 ≤ state.nVersion ∧ ¬ state.IsPrivate then
    let nEquals := nEquals state chain.stateBest
    let nGreater := nGreater state chain.stateBest +
      if chain.nBestHeight + 1 < state.nHeight ∧ nEquals = 1 ∧ nGreater state chain.stateBest = 1
      then 1 else 0
    ¬ state.fConflicted ∧ ((nEquals = 2 ∧ nGreater = 1) ∨ 1 < nGreater)
  else chain.nBestChainTrust < state.nChainTrust

/-- A result as it is returned. -/
def outcome : Result Unit → Outcome
  | .ok _ => .returned true
  | .error (.error _) => .returned false
  | .error (.exception _) => .threw

/-- `Index`. -/
def index (readLegacy : σ → Uint512 → Option Legacy.Transaction) (node : Node σ)
    (state : BlockState) : Node σ × Result Unit :=
  match indexed rt.toChainRuntime readLegacy rt.nFuel node state with
  | .error e => (node, .error e)
  | .ok state =>
      let node := { node with
        db := node.db.WriteBlock (state.GetHash rt.toLedgerRuntime) state }
      if better node.chain state then setBest rt node state else (node, .ok ())

end BlockState

/-- What accepting a block calls, besides what is modelled here.  The legacy database is a part of
what the legacy code works on. -/
structure NodeRuntime (σ τ : Type) extends BlockState.BestRuntime σ where
  GetNextTargetRequired : Records → BlockState → UInt32 → Result UInt32
  CheckStake : Records → TritiumBlock → Result Bool
  poolLegacy : σ → Uint512 → Option Bool
  readLegacy : σ → Uint512 → Option Legacy.Transaction
  hasLegacy : τ → Uint512 → Bool
  writeLegacy : τ → Uint512 → τ
  hasLegacy_write : ∀ legacy hash hash',
    hasLegacy (writeLegacy legacy hash) hash' = (decide (hash = hash') || hasLegacy legacy hash')
  mount : σ → τ → σ
  unmount : σ → τ

/-- `Accept` on a node that is not synchronizing, with its chain state. -/
def NodeRuntime.accept {σ τ : Type} (rt : NodeRuntime σ τ) (chain : ChainState) :
    AcceptRuntime σ τ where
  toLedgerRuntime := rt.toLedgerRuntime
  side := rt.side
  GetNextTargetRequired := rt.GetNextTargetRequired
  Synchronizing := false
  IsDescendant := IsDescendant rt.nFuel chain
  CheckStake := rt.CheckStake
  poolLegacy := rt.poolLegacy
  hasLegacy := rt.hasLegacy
  writeLegacy := rt.writeLegacy
  hasLegacy_write := rt.hasLegacy_write
  Index state node legacy :=
    let node := { node with side := rt.mount node.side legacy }
    match BlockState.index rt.toBestRuntime rt.readLegacy node state with
    | (node, result) => ((node, rt.unmount node.side), BlockState.outcome result)

/-- A block is passed to `Accept`. -/
def NodeRuntime.Accept {σ τ : Type} (rt : NodeRuntime σ τ) (session : Session σ τ)
    (block : TritiumBlock) : Session σ τ × Outcome :=
  block.Accept (rt.accept session.node.chain) session

end Nexus.Ledger
