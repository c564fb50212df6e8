import Nexus.Ledger.Kept

/-!
# What connecting a block changes

`Connect` adds up the fees of the transactions and what they mint, writes the
block with the sums, and sets the pointer of the block before.  The sums are
those of the transactions on disk, which no step of a block writes.

## Main results

* `Connect_ok`: the block that `Connect` leaves, and the records it writes.
* `Disconnect_ok`: the one record of a block that `Disconnect` writes.
-/

namespace Nexus.Ledger

open Nexus.Lib.Checked
open Nexus.Util
open Nexus.Register
open Nexus.Operation
open Nexus.LLD

/-! ## Sums over a block -/

deriving instance DecidableEq for Mint

/-- Two effects on a mint, one after the other. -/
def Mint.comp : Mint → Mint → Mint
  | _, .set nMint => .set nMint
  | .set nMint, .add nDelta => .set (nMint + nDelta)
  | .add nMint, .add nDelta => .add (nMint + nDelta)

@[simp] theorem Mint.apply_comp (mint mint' : Mint) (nMint : Int32) :
    (mint.comp mint').apply nMint = mint'.apply (mint.apply nMint) := by
  cases mint' with
  | set n => rfl
  | add n =>
      cases mint with
      | set m => rfl
      | add m => exact (Int32.add_assoc nMint m n).symm

@[simp] theorem Mint.apply_zero (nMint : Int32) : (Mint.add 0).apply nMint = nMint :=
  Int32.add_zero nMint

/-- The reward that a coinstake states. -/
def Transaction.claimedReward (tx : Transaction) : Result UInt64 := do
  let fPool ← tx.isPool
  let contract ← demand tx.vContracts.head? (.exception "contract read out of bounds")
  if ← tx.isTrustStake then
    let operands ← Transaction.trustOperands contract.reset fPool
    return operands.2.2.2
  else Transaction.genesisOperand contract.reset fPool

/-- The fees and the mint of some transactions. -/
structure Tally where
  nFees : UInt64 := 0
  mint : Mint := .add 0
  deriving DecidableEq

variable {σ : Type} (side : Periphery σ)

def tallyTx (txs : Uint512 → Option Transaction) (tally : Tally) (proof : UInt8 × Uint512) :
    Result Tally :=
  if proof.1 = TRANSACTION.TRITIUM then do
    let tx ← demand (txs proof.2) (.error "transaction not on disk")
    let nFees ← tx.Fees
    let mint ←
      if ← tx.IsCoinStake then
        (tx.claimedReward).map fun nReward => Mint.add nReward.toUInt32.toInt32
      else .ok (.add 0)
    return { nFees := tally.nFees + nFees, mint := tally.mint.comp mint }
  else .ok { tally with mint := tally.mint.comp (side.legacyMint proof.2) }

/-- The fees and the mint of the transactions of a block. -/
def tally (txs : Uint512 → Option Transaction) (vtx : List (UInt8 × Uint512)) : Result Tally :=
  vtx.foldlM (tallyTx side txs) {}

/-- A block with the sums of its transactions. -/
def Tally.onto (tally : Tally) (state : BlockState) : BlockState :=
  { state with nFees := tally.nFees, nMint := tally.mint.apply state.nMint }

variable {side} {rt : ChainRuntime}

theorem checkTrustReward_claimed {db : Records} {tx : Transaction} {block statePrev : BlockState}
    {contract : Contract} {account : Object} {n n' nReward : UInt64} {fPool fBlockFinder : Bool}
    (h : tx.checkTrustReward rt db block contract account statePrev n fPool fBlockFinder =
      .ok (nReward, n')) :
    ∃ operands, Transaction.trustOperands contract fPool = .ok operands ∧
      operands.2.2.2 = nReward := by
  simp only [Transaction.checkTrustReward, bind_eq_ok, Prod.exists, reject_eq_ok, pure_eq_ok,
    Prod.mk.injEq, not_not] at h
  obtain ⟨hash, nTrust, nStake, nClaimed, hOperands, h⟩ := h
  refine ⟨(hash, nTrust, nStake, nClaimed), hOperands, ?_⟩
  obtain ⟨_, -, _, -, _, -, _, -, _, -, _, -, _, -, _, -, _, hClaimed, hReward, -⟩ := h
  exact hClaimed.trans hReward

theorem checkGenesisReward_claimed {block statePrev : BlockState} {contract : Contract}
    {account : Object} {n n' nReward : UInt64} {fPool : Bool}
    (h : Transaction.checkGenesisReward rt block contract account statePrev n fPool =
      .ok (nReward, n')) :
    Transaction.genesisOperand contract fPool = .ok nReward := by
  simp only [Transaction.checkGenesisReward, bind_eq_ok, reject_eq_ok, pure_eq_ok,
    Prod.mk.injEq, not_not] at h
  obtain ⟨nClaimed, hOperand, _, -, _, hClaimed, hReward, -⟩ := h
  rw [hOperand, hClaimed, hReward]

/-- A reward that is allowed is the one that is stated. -/
theorem CheckTrust_reward {db : Records} {tx : Transaction} {block : BlockState}
    {nPoolFeeTotal nPoolFeeTotal' nReward : UInt64} {fBlockFinder : Bool}
    (h : tx.CheckTrust rt db block nPoolFeeTotal fBlockFinder = .ok (nReward, nPoolFeeTotal')) :
    tx.claimedReward = .ok nReward := by
  simp only [Transaction.CheckTrust, bind_eq_ok, demand_eq_ok, reject_eq_ok] at h
  obtain ⟨_, -, _, -, fPool, hPool, contract, hContract, account, -, statePrev, -, fTrust, hTrust,
    h⟩ := h
  simp only [Transaction.claimedReward, hPool, hContract, hTrust, ok_bind, demand_some]
  cases fTrust with
  | true =>
      rw [if_pos rfl] at h ⊢
      obtain ⟨operands, hOperands, rfl⟩ := checkTrustReward_claimed h
      rw [hOperands]
      rfl
  | false =>
      rw [if_neg Bool.false_ne_true] at h ⊢
      simp only [bind_eq_ok, ite_eq_ok, Bool.not_eq_true, reduceCtorEq, and_false, or_false] at h
      obtain ⟨_, -, -, h⟩ := h
      exact checkGenesisReward_claimed h

/-! ## Records that stay -/

/-- The blocks, the best chain and the transactions are the same. -/
structure Kept (db db' : Records) : Prop where
  blocks : db'.blocks = db.blocks
  bestChain : db'.bestChain = db.bestChain
  txs : SameTxs db.toDisk db'.toDisk

variable {db db' : Records} {tx : Transaction}

theorem Kept.refl (db : Records) : Kept db db := ⟨rfl, rfl, rfl⟩

theorem Kept.trans {db'' : Records} (h : Kept db db') (h' : Kept db' db'') : Kept db db'' :=
  ⟨h'.blocks.trans h.blocks, h'.bestChain.trans h.bestChain, h.txs.trans h'.txs⟩

theorem connectContract_eq_ok {rt : LedgerRuntime} {nFlags : FLAGS} {chain : ChainState}
    {block : BlockState} {fApplyTxFee : Bool} {x x' : Records × UInt64} {contract : Contract}
    (h : Transaction.connectContract rt nFlags chain block fApplyTxFee x contract = .ok x') :
    ∃ disk nCost nCost', Execute (chain.runtime rt) x.1.toDisk contract x.2 = .ok (disk, nCost) ∧
      x' = ({ x.1 with toDisk := disk }, nCost') := by
  simp only [Transaction.connectContract, bind_eq_ok] at h
  obtain ⟨dependant, -, h⟩ := h
  split at h
  · simp only [bind_eq_ok, Prod.exists, ite_eq_ok, pure_eq_ok, Except.ok.injEq] at h
    obtain ⟨_, -, disk, nCost, hExecute, ⟨-, nCost', -, rfl⟩ | ⟨-, nCost', -, rfl⟩⟩ := h
    · exact ⟨disk, nCost, nCost', hExecute, rfl⟩
    · exact ⟨disk, nCost, nCost', hExecute, rfl⟩
  · simp only [bind_eq_ok, Prod.exists, ite_eq_ok, pure_eq_ok, Except.ok.injEq] at h
    obtain ⟨disk, nCost, hExecute, ⟨-, nCost', -, rfl⟩ | ⟨-, nCost', -, rfl⟩⟩ := h
    · exact ⟨disk, nCost, nCost', hExecute, rfl⟩
    · exact ⟨disk, nCost, nCost', hExecute, rfl⟩

theorem connectContract_kept {rt : LedgerRuntime} {nFlags : FLAGS} {chain : ChainState}
    {block : BlockState} {fApplyTxFee : Bool} {x x' : Records × UInt64} {contract : Contract}
    (h : Transaction.connectContract rt nFlags chain block fApplyTxFee x contract = .ok x') :
    Kept x.1 x'.1 := by
  obtain ⟨disk, nCost, nCost', hExecute, rfl⟩ := connectContract_eq_ok h
  obtain ⟨_, _, -, hTxs, -⟩ := Execute_kept hExecute
  exact ⟨rfl, rfl, hTxs⟩

theorem Transaction.connectChain_kept {rt : LedgerRuntime} {nFlags : FLAGS} {fApplyTxFee : Bool}
    (h : tx.connectChain rt nFlags db = .ok (db', fApplyTxFee)) : Kept db db' := by
  simp only [Transaction.connectChain, ite_eq_ok, bind_eq_ok, pure_eq_ok, Prod.mk.injEq] at h
  rcases h with ⟨-, _, -, rfl, -⟩ | ⟨-, _, -, _, -, rfl, -⟩
  · split <;> exact ⟨rfl, rfl, rfl⟩
  · exact Kept.refl db

theorem Transaction.Connect_eq_ok {rt : LedgerRuntime} {nFlags : FLAGS} {chain : ChainState}
    {block : BlockState} (h : tx.Connect rt nFlags chain db block = .ok db') :
    ∃ db₁ fApplyTxFee db₂ nCost, tx.connectChain rt nFlags db = .ok (db₁, fApplyTxFee) ∧
      (tx.contracts rt).foldlM (connectContract rt nFlags chain block fApplyTxFee)
        (db₁, 0) = .ok (db₂, nCost) ∧
      db' = if nFlags = .BLOCK then db₂.WriteLast tx.hashGenesis (tx.GetHash rt.toRuntime)
        else db₂ := by
  simp only [Transaction.Connect, bind_eq_ok, Prod.exists] at h
  obtain ⟨db₁, fApplyTxFee, hChain, db₂, nCost, hContracts, h⟩ := h
  refine ⟨db₁, fApplyTxFee, db₂, nCost, hChain, hContracts, ?_⟩
  generalize hAfter : (if nFlags = .BLOCK then
    db₂.WriteLast tx.hashGenesis (tx.GetHash rt.toRuntime) else db₂) = after at h ⊢
  split at h
  · split at h
    · simp only [bind_eq_ok, pure_eq_ok, Except.ok.injEq] at h
      obtain ⟨_, -, _, -, h⟩ := h
      exact h.symm
    · simp only [bind_eq_ok, pure_eq_ok] at h
      obtain ⟨_, -, _, -, h⟩ := h
      exact h.symm
  · exact (Except.ok.inj h).symm

/-- A transaction that is connected. -/
theorem Transaction.Connect_kept {rt : LedgerRuntime} {nFlags : FLAGS} {chain : ChainState}
    {block : BlockState} (h : tx.Connect rt nFlags chain db block = .ok db') : Kept db db' := by
  obtain ⟨db₁, fApplyTxFee, db₂, nCost, hChain, hContracts, rfl⟩ := Connect_eq_ok h
  have hTrans {x y z : Records × UInt64} (h : Kept x.1 y.1) (h' : Kept y.1 z.1) : Kept x.1 z.1 :=
    h.trans h'
  have hKept : Kept db₁ db₂ := foldlM_keeps (fun x x' => Kept x.1 x'.1) (fun x => Kept.refl x.1)
    hTrans (fun _ _ _ _ hTurn => connectContract_kept hTurn) hContracts
  have hConnected := (connectChain_kept hChain).trans hKept
  split
  · exact ⟨hConnected.blocks, hConnected.bestChain, hConnected.txs⟩
  · exact hConnected

/-- A transaction that is disconnected. -/
theorem Transaction.Disconnect_kept {rt : LedgerRuntime} (h : tx.Disconnect rt db = .ok db') :
    Kept db db' := by
  simp only [Transaction.Disconnect, Transaction.disconnectStake, bind_eq_ok, pure_eq_ok] at h
  obtain ⟨db₁, hStake, disk, hContracts, rfl⟩ := h
  have hKept : Kept db db₁ := by
    obtain ⟨fCoinStake, -, hStake⟩ := hStake
    simp only [ite_eq_ok, bind_eq_ok, pure_eq_ok] at hStake
    rcases hStake with ⟨-, _, -, ⟨-, _, -, _, -, rfl⟩ | ⟨-, rfl⟩⟩ | ⟨-, rfl⟩
    · split <;> exact ⟨rfl, rfl, rfl⟩
    · split <;> exact ⟨rfl, rfl, rfl⟩
    · split <;> exact ⟨rfl, rfl, rfl⟩
  have hTxs : SameTxs db₁.toDisk disk := foldlM_keeps SameTxs (fun _ => rfl)
    SameTxs.trans (fun _ _ _ _ hTurn => (Rollback_kept hTurn).choose_spec.choose_spec.2.1) hContracts
  exact ⟨hKept.blocks, hKept.bestChain, hKept.txs.trans hTxs⟩

/-! ## Blocks -/

namespace BlockState

variable {node node' : Node σ} {state state' prev : BlockState} {x x' : Connecting σ} {t : Tally}

/-- A block whose first transactions, with the tally `t`, are connected. -/
structure Connects (node : Node σ) (state : BlockState) (t : Tally) (x : Connecting σ) : Prop where
  state : x.state = t.onto state
  kept : Kept node.db x.node.db
  chain : x.node.chain = node.chain
  pool : x.node.pool = node.pool

theorem connectStake_ok {hash hashBlockFinder : Uint512}
    (h : connectStake rt x tx hash hashBlockFinder = .ok x') :
    ∃ fCoinStake nReward, tx.IsCoinStake = .ok fCoinStake ∧
      (fCoinStake = true → tx.claimedReward = .ok nReward) ∧
      x'.state = { x.state with
        nMint := if fCoinStake then addMint x.state.nMint nReward else x.state.nMint } ∧
      Kept x.node.db x'.node.db ∧ x'.node.chain = x.node.chain ∧ x'.node.pool = x.node.pool := by
  simp only [connectStake, bind_eq_ok] at h
  obtain ⟨fCoinStake, hCoinStake, h⟩ := h
  cases fCoinStake with
  | true =>
      simp only [if_true, bind_eq_ok, Prod.exists, pure_eq_ok] at h
      obtain ⟨nReward, nPoolFeeTotal, hReward, rfl⟩ := h
      exact ⟨true, nReward, hCoinStake, fun _ => CheckTrust_reward hReward, rfl, ⟨rfl, rfl, rfl⟩,
        rfl, rfl⟩
  | false =>
      simp only [Bool.false_eq_true, if_false, pure_eq_ok] at h
      subst h
      exact ⟨false, 0, hCoinStake, nofun, rfl, Kept.refl _, rfl, rfl⟩

theorem connectTritium_ok {hash hashBlockFinder : Uint512}
    (hConnects : Connects node state t x)
    (h : connectTritium rt x hash hashBlockFinder = .ok x') :
    ∃ t', tallyTx side node.db.ledger.txs t (TRANSACTION.TRITIUM, hash) = .ok t' ∧
      Connects node state t' x' := by
  simp only [connectTritium, bind_eq_ok, demand_eq_ok, LedgerDB.ReadTx] at h
  obtain ⟨_, -, tx, hRead, _, -, _, -, db, hConnect, nFees, hFees, hStake⟩ := h
  obtain ⟨fCoinStake, nReward, hCoinStake, hReward, hState, hKept, hChain, hPool⟩ :=
    connectStake_ok hStake
  have hRead' : node.db.ledger.txs hash = some tx := by rw [← hConnects.kept.txs, hRead]
  have hKept' := (hConnects.kept.trans (Transaction.Connect_kept hConnect)).trans hKept
  cases fCoinStake with
  | true =>
      refine ⟨⟨t.nFees + nFees, t.mint.comp (.add nReward.toUInt32.toInt32)⟩, ?_, ?_, hKept',
        hChain.trans hConnects.chain, hPool.trans hConnects.pool⟩
      · simp only [tallyTx, if_true, hRead', demand_some, ok_bind, hFees, hCoinStake, hReward rfl,
          map_ok]
        rfl
      · rw [hState, hConnects.state]
        simp only [Tally.onto, Mint.apply_comp, if_true]
        rfl
  | false =>
      refine ⟨⟨t.nFees + nFees, t.mint.comp (.add 0)⟩, ?_, ?_, hKept',
        hChain.trans hConnects.chain, hPool.trans hConnects.pool⟩
      · simp only [tallyTx, if_true, hRead', demand_some, ok_bind, hFees, hCoinStake,
          Bool.false_eq_true, if_false]
        rfl
      · rw [hState, hConnects.state]
        simp only [Tally.onto, Mint.apply_comp, Mint.apply_zero, Bool.false_eq_true, if_false]

theorem connectLegacy_ok {hash : Uint512} (hConnects : Connects node state t x)
    (h : connectLegacy side x hash = .ok x') :
    Connects node state { t with mint := t.mint.comp (side.legacyMint hash) } x' := by
  simp only [connectLegacy, bind_eq_ok, pure_eq_ok] at h
  obtain ⟨_, -, s, -, rfl⟩ := h
  refine ⟨?_, hConnects.kept, hConnects.chain, hConnects.pool⟩
  simp only [hConnects.state, Tally.onto, Mint.apply_comp]

/-- One transaction of a block. -/
theorem connectTx_ok {hashBlock : Uint1024} {hashBlockFinder : Uint512} {proof : UInt8 × Uint512}
    (hConnects : Connects node state t x)
    (h : connectTx rt side hashBlock hashBlockFinder x proof = .ok x') :
    ∃ t', tallyTx side node.db.ledger.txs t proof = .ok t' ∧ Connects node state t' x' := by
  obtain ⟨nType, hash⟩ := proof
  simp only [connectTx] at h
  by_cases hTritium : nType = TRANSACTION.TRITIUM
  · subst hTritium
    simp only [if_true, bind_eq_ok, pure_eq_ok] at h
    obtain ⟨x₁, hConnect, rfl⟩ := h
    obtain ⟨t', hTally, hConnects'⟩ := @connectTritium_ok _ side _ _ _ _ _ _ _ _ hConnects hConnect
    exact ⟨t', hTally, hConnects'.state,
      ⟨hConnects'.kept.blocks, hConnects'.kept.bestChain, hConnects'.kept.txs⟩,
      hConnects'.chain, hConnects'.pool⟩
  · rw [if_neg hTritium] at h
    by_cases hLegacy : nType = TRANSACTION.LEGACY
    · rw [if_pos hLegacy] at h
      simp only [bind_eq_ok, pure_eq_ok] at h
      obtain ⟨x₁, hConnect, rfl⟩ := h
      have hConnects' := connectLegacy_ok hConnects hConnect
      refine ⟨_, if_neg hTritium, hConnects'.state, ⟨hConnects'.kept.blocks,
        hConnects'.kept.bestChain, hConnects'.kept.txs⟩, hConnects'.chain, hConnects'.pool⟩
    · rw [if_neg hLegacy] at h
      cases h

/-- All transactions of a block. -/
theorem connectTxs_ok {hashBlock : Uint1024} {hashBlockFinder : Uint512}
    {vtx : List (UInt8 × Uint512)} (hConnects : Connects node state t x)
    (h : vtx.foldlM (connectTx rt side hashBlock hashBlockFinder) x = .ok x') :
    ∃ t', vtx.foldlM (tallyTx side node.db.ledger.txs) t = .ok t' ∧
      Connects node state t' x' := by
  induction vtx generalizing t x with
  | nil =>
      rw [foldlM_nil_eq_ok] at h
      subst h
      exact ⟨t, rfl, hConnects⟩
  | cons proof vtx ih =>
      obtain ⟨x₁, hFirst, hRest⟩ := foldlM_cons_eq_ok.mp h
      obtain ⟨t₁, hTally, hConnects₁⟩ := connectTx_ok hConnects hFirst
      obtain ⟨t', hTally', hConnects'⟩ := ih hConnects₁ hRest
      exact ⟨t', foldlM_cons_eq_ok.mpr ⟨t₁, hTally, hTally'⟩, hConnects'⟩

/-- The block that `Connect` writes. -/
def connected (state : BlockState) (t : Tally) (prev : BlockState) : BlockState :=
  { t.onto state with
    nMoneySupply :=
      (if prev.IsNull then 0 else prev.nMoneySupply) +
        (t.mint.apply state.nMint).toInt64.toUInt64
    nFeeReserve := state.nFeeReserve + t.nFees }

/-- The blocks when the pointer of the block before is set. -/
def pointed (rt : LedgerRuntime) (blocks : Uint1024 → Option BlockState) (prev : BlockState)
    (hashNextBlock : Uint1024) : Uint1024 → Option BlockState :=
  if prev.IsNull then blocks
  else Function.update blocks (prev.GetHash rt) (some { prev with hashNextBlock }.record)

theorem Prev_congr (h : Kept db db') : state.Prev db' = state.Prev db := by
  unfold Prev Records.ReadBlock
  rw [h.blocks]

/-- What `Connect` calculates, and writes. -/
theorem Connect_ok (h : Connect rt side node state = .ok (state', node')) :
    ∃ t prev, tally side node.db.ledger.txs state.vtx = .ok t ∧ state.Prev node.db = .ok prev ∧
      state' = state.connected t prev ∧
      node'.db.blocks = pointed rt.toLedgerRuntime
        (Function.update node.db.blocks (state.GetHash rt.toLedgerRuntime) (some state'.record))
        prev (state.GetHash rt.toLedgerRuntime) ∧
      node'.db.bestChain = node.db.bestChain ∧ SameTxs node.db.toDisk node'.db.toDisk ∧
      node'.chain = { node.chain with stateGenesis := node'.chain.stateGenesis } ∧
      node'.pool = node.pool := by
  simp only [Connect, bind_eq_ok, pure_eq_ok, Prod.mk.injEq] at h
  obtain ⟨finder, -, x, hTxs, prev, hPrev, hState, hNode⟩ := h
  have hStart : Connects node state ({} : Tally)
      { state := { state with nFees := 0 }, node, nPoolFeeTotal := 0 } := by
    refine ⟨?_, Kept.refl _, rfl, rfl⟩
    simp only [Tally.onto, Mint.apply_zero]
  obtain ⟨t, hTally, hConnects⟩ := connectTxs_ok hStart hTxs
  rw [Prev_congr hConnects.kept] at hPrev
  have hConnected : state' = state.connected t prev := by
    rw [← hState, hConnects.state]
    rfl
  refine ⟨t, prev, hTally, hPrev, hConnected, ?_⟩
  rw [← hNode, hState]
  unfold pointed
  by_cases hNull : prev.IsNull
  · simp only [if_pos hNull]
    refine ⟨?_, hConnects.kept.bestChain, hConnects.kept.txs, ?_, hConnects.pool⟩
    · simp only [Records.WriteBlock, hConnects.kept.blocks]
    · simp only [hConnects.chain]
  · simp only [if_neg hNull]
    refine ⟨?_, hConnects.kept.bestChain, hConnects.kept.txs, ?_, hConnects.pool⟩
    · simp only [setNext, Records.WriteBlock, hConnects.kept.blocks]
      rfl
    · simp only [setNext, hConnects.chain]

theorem disconnectTx_ok {proof : UInt8 × Uint512}
    (h : disconnectTx rt side state node proof = .ok node') :
    Kept node.db node'.db ∧ node'.chain = node.chain ∧ node'.pool = node.pool := by
  simp only [disconnectTx, ite_eq_ok, bind_eq_ok, pure_eq_ok, Except.ok.injEq] at h
  rcases h with ⟨-, tx, -, db, hDisconnect, _, rfl, rfl⟩ |
    ⟨-, ⟨-, s, -, _, rfl, rfl⟩ | ⟨-, _, rfl, rfl⟩⟩
  · have hKept := Transaction.Disconnect_kept hDisconnect
    exact ⟨⟨hKept.blocks, hKept.bestChain, hKept.txs⟩, rfl, rfl⟩
  · exact ⟨⟨rfl, rfl, rfl⟩, rfl, rfl⟩
  · exact ⟨⟨rfl, rfl, rfl⟩, rfl, rfl⟩

/-- What `Disconnect` writes: the block before the one that it is called on. -/
theorem Disconnect_ok (h : Disconnect rt side node state = .ok node') :
    ∃ prev, state.Prev node.db = .ok prev ∧
      node'.db.blocks = pointed rt.toLedgerRuntime node.db.blocks prev 0 ∧
      node'.db.bestChain = node.db.bestChain ∧ SameTxs node.db.toDisk node'.db.toDisk ∧
      node'.chain = node.chain ∧ node'.pool = node.pool := by
  simp only [Disconnect, bind_eq_ok] at h
  obtain ⟨node₁, hTxs, prev, hPrev, h⟩ := h
  have hTrans {x y z : Node σ}
      (h : Kept x.db y.db ∧ y.chain = x.chain ∧ y.pool = x.pool)
      (h' : Kept y.db z.db ∧ z.chain = y.chain ∧ z.pool = y.pool) :
      Kept x.db z.db ∧ z.chain = x.chain ∧ z.pool = x.pool :=
    ⟨h.1.trans h'.1, h'.2.1.trans h.2.1, h'.2.2.trans h.2.2⟩
  obtain ⟨hKept, hChain, hPool⟩ := foldlM_keeps
    (fun node node' : Node σ => Kept node.db node'.db ∧ node'.chain = node.chain ∧
      node'.pool = node.pool)
    (fun node => ⟨Kept.refl _, rfl, rfl⟩) hTrans
    (fun _ _ _ _ hTurn => disconnectTx_ok hTurn) hTxs
  rw [Prev_congr hKept] at hPrev
  refine ⟨prev, hPrev, ?_⟩
  unfold pointed
  split at h
  · rw [pure_eq_ok] at h
    subst h
    rw [if_pos ‹_›]
    exact ⟨hKept.blocks, hKept.bestChain, hKept.txs, hChain, hPool⟩
  · rw [pure_eq_ok] at h
    subst h
    rw [if_neg ‹_›]
    refine ⟨?_, hKept.bestChain, hKept.txs, hChain, hPool⟩
    simp only [Records.WriteBlock, hKept.blocks]

end BlockState

end Nexus.Ledger
