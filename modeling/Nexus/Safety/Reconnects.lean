import Mathlib.Logic.Relation
import Nexus.Ledger.Connected
import Nexus.Safety.Acceptance
import Nexus.Safety.Forks

/-!
# Connecting a block again

A block that was disconnected is read back from the disk with the sums of its
first connection in it.  The fees are added to its reserve once more, and what
its transactions mint to its mint.
-/

namespace Nexus.Safety

open Nexus.Lib
open Nexus.Lib.Bytes
open Nexus.Lib.Checked
open Nexus.Util
open Nexus.Operation
open Nexus.LLD
open Nexus.Ledger

variable {σ : Type} {rt : ChainRuntime} {side : Periphery σ}
variable {node node₁ node₂ node₃ : Node σ} {block tip block₁ block₂ block₃ prev : BlockState}
variable {hashGenesis : Uint1024}

/-- Two nodes have the same records of a block, and of its parent. -/
def SameRecords (rt : ChainRuntime) (block : BlockState) (node₁ node₂ : Node σ) : Prop :=
  node₂.db.ReadBlock (block.GetHash rt.toLedgerRuntime) =
      node₁.db.ReadBlock (block.GetHash rt.toLedgerRuntime) ∧
    node₂.db.ReadBlock block.hashPrevBlock = node₁.db.ReadBlock block.hashPrevBlock

/-- What came between left the records of a block and its parent, and the transactions. -/
def Later (rt : ChainRuntime) (block : BlockState) (node₁ node₂ : Node σ) : Prop :=
  SameRecords rt block node₁ node₂ ∧ SameTxs node₁.db.toDisk node₂.db.toDisk

@[simp] theorem record_record (state : BlockState) : state.record.record = state.record := rfl

@[simp] theorem getHash_record (rt : LedgerRuntime) (state : BlockState) :
    state.record.GetHash rt = state.GetHash rt := rfl

theorem getHash_connected (rt : LedgerRuntime) (state prev : BlockState) (t : Tally) :
    (state.connected t prev).GetHash rt = state.GetHash rt := rfl

/-- The two records that `Connect` writes. -/
theorem connect_records {node' : Node σ} {state' : BlockState}
    (hRead : node.db.ReadBlock block.hashPrevBlock = some prev)
    (hKey : prev.GetHash rt.toLedgerRuntime = block.hashPrevBlock) (hNull : ¬ prev.IsNull)
    (hPrev : block.hashPrevBlock ≠ 0)
    (hApart : block.hashPrevBlock ≠ block.GetHash rt.toLedgerRuntime)
    (h : BlockState.Connect rt side node block = .ok (state', node')) :
    ∃ t, tally side node.db.ledger.txs block.vtx = .ok t ∧ state' = block.connected t prev ∧
      node'.db.ReadBlock (block.GetHash rt.toLedgerRuntime) = some state'.record ∧
      node'.db.ReadBlock block.hashPrevBlock = some
        { prev with hashNextBlock := block.GetHash rt.toLedgerRuntime }.record ∧
      SameTxs node.db.toDisk node'.db.toDisk := by
  obtain ⟨t, prev', hTally, hParent, hState, hBlocks, -, hTxs, -, -⟩ := BlockState.Connect_ok h
  rw [BlockState.Prev, if_neg hPrev, hRead, demand_some] at hParent
  cases hParent
  refine ⟨t, hTally, hState, ?_, ?_, hTxs⟩
  · unfold Records.ReadBlock
    rw [hBlocks, BlockState.pointed, if_neg hNull, hKey, Function.update_of_ne hApart.symm,
      Function.update_self]
  · unfold Records.ReadBlock
    rw [hBlocks, BlockState.pointed, if_neg hNull, hKey, Function.update_self]

/-- A block is connected: its record, its parent that points to it, and the transactions. -/
structure OnChain (rt : ChainRuntime) (block prev : BlockState) (txs : Uint512 → Option Transaction)
    (record : BlockState) (node : Node σ) : Prop where
  record : node.db.ReadBlock (block.GetHash rt.toLedgerRuntime) = some record
  parent : node.db.ReadBlock block.hashPrevBlock =
    some { prev with hashNextBlock := block.GetHash rt.toLedgerRuntime }.record
  txs : node.db.ledger.txs = txs

theorem OnChain.later {txs : Uint512 → Option Transaction} {record : BlockState}
    (h : OnChain rt block prev txs record node₁) (hLater : Later rt block node₁ node₂) :
    OnChain rt block prev txs record node₂ :=
  ⟨hLater.1.1.trans h.record, hLater.1.2.trans h.parent, Eq.trans hLater.2 h.txs⟩

/-- The environment of a chain with a toy hash, without rewards. -/
def exampleChain : ChainRuntime :=
  { exampleLedger with
    GetCoinbaseReward := fun _ _ _ _ => 0
    GetReleasedReserve := fun _ _ _ _ => 0
    Weight := fun _ _ => .ok 0
    CheckConsistency := fun _ _ => none }

/-- The first transaction of a signature chain, with a coinbase of its own. -/
def minerTx : Transaction :=
  { hashGenesis := alice
    vContracts :=
      [{ ssOperation :=
          { vchData := FixedWidth.encode OP.COINBASE ++ FixedWidth.encode alice ++
              FixedWidth.encode (50 : UInt64) ++ FixedWidth.encode (0 : UInt64) } }] }

/-- A block with a legacy transaction and its producer. -/
def minedBlock : BlockState :=
  { nVersion := 9, hashPrevBlock := firstBlock.GetHash exampleLedger, nChannel := CHANNEL.HASH,
    nHeight := 1, nBits := 1, nMint := 50
    vtx := [(TRANSACTION.LEGACY, 7), (TRANSACTION.TRITIUM, minerTx.GetHash exampleRuntime)] }

instance (node₁ node₂ : Node Unit) : Decidable (SameRecords exampleChain minedBlock node₁ node₂) := by
  unfold SameRecords
  infer_instance

end Nexus.Safety
