import Nexus.Ledger.Checkpoints
import Nexus.Ledger.Connected

/-!
# What the steps of a call keep

Blocks that are connected and disconnected keep the fields that were written when they
were indexed.  The memory pool changes neither the records nor the chain state.

## Main results

* `along_steps`: what the steps of `SetBest` keep, and the one checkpoint that they may
  harden.
-/

namespace Nexus.Ledger

open Nexus.Lib.Checked
open Nexus.Util
open Nexus.LLD

variable {σ : Type}

/-! ## The memory pool -/

/-- The records and the chain state are the same. -/
def SameBase (node node' : Node σ) : Prop := node'.db = node.db ∧ node'.chain = node.chain

namespace SameBase

variable {node node' node'' : Node σ}

theorem refl (node : Node σ) : SameBase node node := ⟨rfl, rfl⟩

theorem trans (h : SameBase node node') (h' : SameBase node' node'') : SameBase node node'' :=
  ⟨h'.1.trans h.1, h'.2.trans h.2⟩

end SameBase

namespace Node

variable {rt : Runtime} {side : Periphery σ} {node node' : Node σ} {tx : Transaction}

theorem remove_base (hashTx : Uint512) : SameBase node (node.Remove side hashTx) := by
  unfold Remove
  dsimp only
  split
  · exact ⟨rfl, rfl⟩
  · exact ⟨rfl, rfl⟩

theorem connect_base : SameBase node (node.connect rt side tx).1 := by
  unfold connect
  split
  · exact ⟨rfl, rfl⟩
  · exact ⟨rfl, rfl⟩

theorem acceptNew_base : SameBase node (node.acceptNew rt side tx).1 := by
  unfold acceptNew
  split
  · exact SameBase.refl node
  · exact SameBase.refl node
  · split
    · exact connect_base
    · split
      · exact ⟨rfl, rfl⟩
      · split
        · exact ⟨rfl, rfl⟩
        · split
          · exact SameBase.refl node
          · split
            · exact ⟨rfl, rfl⟩
            · exact connect_base

/-- A transaction that is offered to the pool, and the orphans that wait for it. -/
theorem accept_base (nFuel : Nat) :
    (∀ (node : Node σ) tx r, node.Accept rt side nFuel tx = some r → SameBase node r.1) ∧
      ∀ (node : Node σ) hashTx r, Node.Accept.processOrphans rt side nFuel node hashTx = some r →
        SameBase node r.1 := by
  induction nFuel with
  | zero =>
      refine ⟨fun node tx r h => ?_, fun node hashTx r h => ?_⟩
      · rw [Node.Accept] at h
        cases h
      · rw [Node.Accept.processOrphans] at h
        cases h
  | succ nFuel ih =>
      refine ⟨fun node tx r h => ?_, fun node hashTx r h => ?_⟩
      · rw [Node.Accept] at h
        split at h
        · obtain rfl := Option.some.inj h
          exact SameBase.refl node
        · have hNew := @acceptNew_base σ rt side node tx
          cases hAccept : node.acceptNew rt side tx with
          | mk node₁ outcome =>
              rw [hAccept] at h hNew
              cases outcome with
              | threw =>
                  obtain rfl := Option.some.inj h
                  exact hNew
              | returned fResult =>
                  cases fResult with
                  | false =>
                      obtain rfl := Option.some.inj h
                      exact hNew
                  | true =>
                      cases hOrphans : Node.Accept.processOrphans rt side nFuel node₁
                          (tx.GetHash rt) with
                      | none => simp [hOrphans] at h
                      | some r₁ =>
                          have hRest := hNew.trans (ih.2 node₁ _ r₁ hOrphans)
                          obtain ⟨node₂, outcome⟩ := r₁
                          cases outcome with
                          | threw =>
                              simp only [hOrphans, Option.bind_eq_bind, Option.bind_some,
                                Option.some.injEq] at h
                              subst h
                              exact hRest
                          | returned fResult =>
                              simp only [hOrphans, Option.bind_eq_bind, Option.bind_some,
                                Option.some.injEq] at h
                              subst h
                              exact hRest
      · rw [Node.Accept.processOrphans] at h
        split at h
        · obtain rfl := Option.some.inj h
          exact SameBase.refl node
        · rename_i tx hOrphan
          cases hAccept : node.Accept rt side nFuel tx with
          | none => simp [hAccept] at h
          | some r₁ =>
              have hFirst := ih.1 node tx r₁ hAccept
              obtain ⟨node₁, outcome⟩ := r₁
              cases outcome with
              | threw =>
                  simp only [hAccept, Option.bind_eq_bind, Option.bind_some,
                    Option.some.injEq] at h
                  subst h
                  exact hFirst
              | returned fResult =>
                  cases fResult with
                  | false =>
                      simp only [hAccept, Option.bind_eq_bind, Option.bind_some,
                        Option.some.injEq] at h
                      subst h
                      exact hFirst
                  | true =>
                      simp only [hAccept, Option.bind_eq_bind, Option.bind_some] at h
                      have hRelease : SameBase node₁ (node₁.release hashTx (tx.GetHash rt)) :=
                        ⟨rfl, rfl⟩
                      exact (SameBase.trans hFirst hRelease).trans (ih.2 _ _ r h)

theorem eraseChain_base (vtx : List Transaction) (node : Node σ) :
    SameBase node (node.eraseChain rt side vtx) := by
  induction vtx generalizing node with
  | nil => exact SameBase.refl node
  | cons tx vtx ih =>
      rw [Node.eraseChain]
      cases side.disconnectMemory .ERASE node.side node.db tx with
      | mk s fResult =>
          cases fResult with
          | false => exact ⟨rfl, rfl⟩
          | true =>
              refine SameBase.trans ?_ (ih _)
              split
              · exact ⟨rfl, rfl⟩
              · exact ⟨rfl, rfl⟩

theorem removeBehind_base (hashLast : Uint512) (vtx : List Transaction) (node : Node σ) :
    SameBase node (node.removeBehind rt side hashLast vtx) := by
  induction vtx generalizing node with
  | nil => exact SameBase.refl node
  | cons tx vtx ih =>
      rw [Node.removeBehind]
      split
      · exact SameBase.refl node
      · cases side.disconnectMemory .MEMPOOL node.side node.db tx with
        | mk s fResult =>
            cases fResult with
            | false => exact ⟨rfl, rfl⟩
            | true =>
                have hSide : SameBase node { node with side := s } := ⟨rfl, rfl⟩
                exact (hSide.trans (remove_base _)).trans (ih _)

theorem checkSequence_base (vtx : List Transaction) (node : Node σ) :
    SameBase node (node.checkSequence rt side vtx) := by
  unfold checkSequence
  dsimp only
  split
  · exact SameBase.refl node
  · split
    · exact SameBase.refl node
    · have hBegin : SameBase node { node with side := side.TxnBegin node.side } := ⟨rfl, rfl⟩
      exact (hBegin.trans (removeBehind_base _ _ _)).trans ⟨rfl, rfl⟩

theorem checkChains_base (chains : List (Uint256 × List Transaction)) (node : Node σ) :
    SameBase node (node.checkChains rt side chains) := by
  induction chains generalizing node with
  | nil => exact SameBase.refl node
  | cons chain chains ih =>
      obtain ⟨hashGenesis, vtx⟩ := chain
      have hChain : SameBase node (node.checkChain rt side hashGenesis vtx).1 := by
        unfold checkChain
        split
        · exact SameBase.refl node
        · split
          · exact checkSequence_base vtx node
          · split
            · exact SameBase.refl node
            · split
              · exact eraseChain_base _ node
              · exact checkSequence_base vtx node
      rw [Node.checkChains]
      cases hResult : node.checkChain rt side hashGenesis vtx with
      | mk node₁ fResult =>
          rw [hResult] at hChain
          cases fResult with
          | false => exact hChain
          | true => exact hChain.trans (ih node₁)

/-- The pool is checked. -/
theorem check_base : SameBase node (node.Check rt side) := checkChains_base _ node

end Node

/-! ## Records of blocks -/

namespace BlockState

/-- A block as it was indexed: without what is written when it is connected, or one after it. -/
def frozen (state : BlockState) : BlockState :=
  { state with
    fConflicted := false, nMoneySupply := 0, nMint := 0, nFees := 0, nFeeReserve := 0
    hashNextBlock := 0 }

end BlockState

open BlockState

/-- The blocks as they were indexed. -/
def viewOf (blocks : Uint1024 → Option BlockState) (hash : Uint1024) : Option BlockState :=
  (blocks hash).map frozen

/-- The records hold the same blocks. -/
def SameView (db db' : Records) : Prop := viewOf db'.blocks = viewOf db.blocks

/-- Every block is stored under its hash. -/
def KeyedBlocks (rt : LedgerRuntime) (db : Records) : Prop :=
  ∀ hash state, db.ReadBlock hash = some state → state.GetHash rt = hash

variable {rt : LedgerRuntime} {db db' : Records} {blocks : Uint1024 → Option BlockState}
  {state state' prev : BlockState} {hash : Uint1024}

theorem SameView.trans {db'' : Records} (h : SameView db db') (h' : SameView db' db'') :
    SameView db db'' := Eq.trans h' h

theorem SameView.symm (h : SameView db db') : SameView db' db := Eq.symm h

/-- A block that is read from the one is read from the other. -/
theorem SameView.read (h : SameView db db') (hRead : db.ReadBlock hash = some state) :
    ∃ state', db'.ReadBlock hash = some state' ∧ state'.frozen = state.frozen := by
  have hView : viewOf db'.blocks hash = some state.frozen := by
    rw [h]
    exact congrArg (Option.map frozen) hRead
  exact Option.map_eq_some_iff.mp hView

theorem viewOf_update (h : viewOf blocks hash = some state.frozen)
    (hSame : state'.frozen = state.frozen) :
    viewOf (Function.update blocks hash (some state')) = viewOf blocks := by
  funext hash'
  by_cases hHash : hash' = hash
  · subst hHash
    rw [h, viewOf, Function.update_self, Option.map_some, hSame]
  · rw [viewOf, Function.update_of_ne hHash]
    rfl

theorem KeyedBlocks.same (hKeyed : KeyedBlocks rt db) (h : SameView db db') :
    KeyedBlocks rt db' := by
  intro hash state hRead
  obtain ⟨state', hRead', hFrozen⟩ := h.symm.read hRead
  have hHash : state'.frozen.GetHash rt = state.frozen.GetHash rt := by rw [hFrozen]
  exact Eq.trans (b := state'.GetHash rt) (Eq.symm hHash) (hKeyed hash state' hRead')

/-- The pointer of the block before one is set. -/
theorem viewOf_pointed (hPrev : prev.IsNull ∨ viewOf blocks (prev.GetHash rt) = some prev.frozen)
    (hashNextBlock : Uint1024) :
    viewOf (pointed rt blocks prev hashNextBlock) = viewOf blocks := by
  unfold pointed
  by_cases hNull : prev.IsNull
  · rw [if_pos hNull]
  · rw [if_neg hNull]
    exact viewOf_update (hPrev.resolve_left hNull) rfl

theorem KeyedBlocks.view (hKeyed : KeyedBlocks rt db) (hRead : db.ReadBlock hash = some state) :
    viewOf db.blocks (state.GetHash rt) = some state.frozen := by
  rw [hKeyed hash state hRead]
  exact congrArg (Option.map frozen) hRead

theorem prev_read (h : state.Prev db = .ok prev) :
    prev.IsNull ∨ db.ReadBlock state.hashPrevBlock = some prev := by
  unfold BlockState.Prev at h
  split at h
  · left
    obtain rfl := Except.ok.inj h
    rfl
  · right
    exact demand_eq_ok.mp h

/-! ## Connecting and disconnecting -/

variable {side : Periphery σ} {crt : ChainRuntime} {node node' : Node σ}

theorem connectBlock_view (hKeyed : KeyedBlocks crt.toLedgerRuntime node.db)
    (hState : viewOf node.db.blocks (state.GetHash crt.toLedgerRuntime) = some state.frozen)
    (h : connectBlock crt side node state = .ok node') :
    SameView node.db node'.db ∧
      node'.chain = { node.chain with stateGenesis := node'.chain.stateGenesis } := by
  rw [connectBlock, map_eq_ok] at h
  obtain ⟨⟨state', node₁⟩, hConnect, rfl⟩ := h
  obtain ⟨t, prev, -, hPrev, rfl, hBlocks, -, -, hChain, -⟩ := Connect_ok hConnect
  refine ⟨?_, hChain⟩
  have hFrozen : (state.connected t prev).record.frozen = state.frozen := rfl
  have hWritten : viewOf (Function.update node.db.blocks (state.GetHash crt.toLedgerRuntime)
      (some (state.connected t prev).record)) = viewOf node.db.blocks :=
    viewOf_update hState hFrozen
  unfold SameView
  rw [hBlocks, ← hWritten]
  apply viewOf_pointed
  cases prev_read hPrev with
  | inl hNull => exact .inl hNull
  | inr hRead =>
      right
      rw [hWritten]
      exact hKeyed.view hRead

theorem disconnectBlock_view (hKeyed : KeyedBlocks crt.toLedgerRuntime node.db)
    (h : disconnectBlock crt side false node state = .ok node') :
    SameView node.db node'.db ∧ node'.chain = node.chain := by
  simp only [disconnectBlock, bind_eq_ok, Bool.false_eq_true, if_false, pure_eq_ok] at h
  obtain ⟨node₁, hDisconnect, rfl⟩ := h
  obtain ⟨prev, hPrev, hBlocks, -, -, hChain, -⟩ := Disconnect_ok hDisconnect
  refine ⟨?_, hChain⟩
  unfold SameView
  rw [hBlocks]
  apply viewOf_pointed
  cases prev_read hPrev with
  | inl hNull => exact .inl hNull
  | inr hRead => exact .inr (hKeyed.view hRead)

theorem resurrect_base {nFuel : Nat} {proof : UInt8 × Uint512}
    (h : resurrect crt side nFuel false node proof = .ok node') : SameBase node node' := by
  simp only [resurrect, Bool.false_eq_true, if_false] at h
  split at h
  · simp only [bind_eq_ok, demand_eq_ok] at h
    obtain ⟨tx, -, fCoinBase, -, h⟩ := h
    split at h
    · obtain rfl := pure_eq_ok.mp h
      exact SameBase.refl node
    · rw [bind_eq_ok] at h
      obtain ⟨fCoinStake, -, h⟩ := h
      split at h
      · obtain rfl := pure_eq_ok.mp h
        exact SameBase.refl node
      · split at h
        · cases h
        · cases h
        · rename_i hAccept
          obtain rfl := pure_eq_ok.mp h
          exact (Node.accept_base nFuel).1 node tx _ hAccept
  · split at h
    · simp only [bind_eq_ok, pure_eq_ok] at h
      obtain ⟨s, -, rfl⟩ := h
      exact ⟨rfl, rfl⟩
    · obtain rfl := pure_eq_ok.mp h
      exact SameBase.refl node

/-! ## Checkpoints -/

/-- The timespans are those of the blocks as they were indexed. -/
theorem IsNewTimespan_congr {hashCheckpoint hashCheckpoint' : Uint1024} (hSame : SameView db db')
    (hFrozen : prev.frozen = state.frozen) (hSome : hashCheckpoint ≠ 0)
    (hSome' : hashCheckpoint' ≠ 0) :
    IsNewTimespan db' hashCheckpoint' prev = IsNewTimespan db hashCheckpoint state := by
  have hPrevHash : prev.hashPrevBlock = state.hashPrevBlock := congrArg (·.hashPrevBlock) hFrozen
  have hCheck : prev.hashCheckpoint = state.hashCheckpoint := congrArg (·.hashCheckpoint) hFrozen
  have hTime : prev.nTime = state.nTime := congrArg (·.nTime) hFrozen
  unfold IsNewTimespan
  rw [if_neg hSome, if_neg hSome', hPrevHash, hCheck, hTime]
  have hBlock (hash : Uint1024) :
      (db'.ReadBlock hash).map (·.nTime) = (db.ReadBlock hash).map (·.nTime) := by
    have hView := congrFun hSame hash
    have hTimes := congrArg (Option.map (·.nTime)) hView
    rw [viewOf, viewOf, Option.map_map, Option.map_map] at hTimes
    exact hTimes
  have hFirst := hBlock state.hashPrevBlock
  have hSecond := hBlock state.hashCheckpoint
  cases h₁ : db.ReadBlock state.hashPrevBlock <;> cases h₂ : db.ReadBlock state.hashCheckpoint <;>
    cases h₃ : db'.ReadBlock state.hashPrevBlock <;> cases h₄ : db'.ReadBlock state.hashCheckpoint <;>
    simp_all

/-- The checkpoint and its height. -/
def checkpoint (chain : ChainState) : Uint1024 × UInt32 :=
  (chain.hashCheckpoint, chain.nCheckpointHeight)

/-- The checkpoint that may be hardened with a block: that of the block before it, if a new
timespan starts there. -/
structure PendingCheckpoint (node₁ : Node σ) (state prev : BlockState)
    (hardened : Option (Uint1024 × UInt32)) : Prop where
  notFirst : state.hashPrevBlock ≠ 0
  read : node₁.db.ReadBlock state.hashPrevBlock = some prev
  notNull : node₁.chain.hashCheckpoint ≠ 0
  pending : prev.hashCheckpoint ≠ 0
  hardens : IsNewTimespan node₁.db node₁.chain.hashCheckpoint prev = true →
    ∃ stateCheck, node₁.db.ReadBlock prev.hashCheckpoint = some stateCheck ∧
      hardened = some (prev.hashCheckpoint, stateCheck.nHeight)
  hardened : ∀ x ∈ hardened, x.1 = prev.hashCheckpoint

/-- A node on the way of a call that began with `node₁`: the blocks are the same, and the
checkpoint is what it was, or the one that is hardened. -/
structure Along (node₁ : Node σ) (hardened : Option (Uint1024 × UInt32)) (node : Node σ) :
    Prop where
  view : SameView node₁.db node.db
  stateBest : node.chain.stateBest = node₁.chain.stateBest
  hashBestChain : node.chain.hashBestChain = node₁.chain.hashBestChain
  stateGenesis : node₁.chain.stateGenesis.isSome → node.chain.stateGenesis.isSome
  checkpoint : checkpoint node.chain = checkpoint node₁.chain ∨
    some (checkpoint node.chain) = hardened

variable {node₁ : Node σ} {hardened : Option (Uint1024 × UInt32)}

theorem Along.refl (node₁ : Node σ) (hardened : Option (Uint1024 × UInt32)) :
    Along node₁ hardened node₁ := ⟨rfl, rfl, rfl, id, .inl rfl⟩

/-- A step that leaves the chain state. -/
theorem Along.of_chain (hAlong : Along node₁ hardened node) (hView : SameView node.db node'.db)
    (hChain : node'.chain = node.chain) : Along node₁ hardened node' where
  view := hAlong.view.trans hView
  stateBest := by rw [hChain, hAlong.stateBest]
  hashBestChain := by rw [hChain, hAlong.hashBestChain]
  stateGenesis := by
    rw [hChain]
    exact hAlong.stateGenesis
  checkpoint := by
    rw [hChain]
    exact hAlong.checkpoint

/-- The genesis block that is held in memory stays. -/
theorem connectBlock_genesis (h : connectBlock crt side node state = .ok node')
    (hSome : node.chain.stateGenesis.isSome) : node'.chain.stateGenesis.isSome := by
  rw [connectBlock, map_eq_ok] at h
  obtain ⟨⟨state', node₁⟩, hConnect, rfl⟩ := h
  simp only [Connect, bind_eq_ok, pure_eq_ok, Prod.mk.injEq] at hConnect
  obtain ⟨finder, -, x, hTxs, prev, -, -, hNode⟩ := hConnect
  have hStart : Connects node state ({} : Tally)
      { state := { state with nFees := 0 }, node, nPoolFeeTotal := 0 } := by
    refine ⟨?_, Kept.refl _, rfl, rfl⟩
    simp only [Tally.onto, Mint.apply_zero]
  obtain ⟨t, -, hConnects⟩ := connectTxs_ok hStart hTxs
  have hChain : x.node.chain.stateGenesis.isSome := by
    rw [hConnects.chain]
    exact hSome
  rw [← hNode]
  split
  · exact hChain
  · simp only [setNext]
    split
    · rfl
    · exact hChain

theorem along_connect (hKeyed : KeyedBlocks crt.toLedgerRuntime node₁.db)
    (hAlong : Along node₁ hardened node)
    (hState : viewOf node₁.db.blocks (state.GetHash crt.toLedgerRuntime) = some state.frozen)
    (h : connectBlock crt side node state = .ok node') : Along node₁ hardened node' := by
  have hHere : viewOf node.db.blocks (state.GetHash crt.toLedgerRuntime) = some state.frozen := by
    rw [hAlong.view, hState]
  obtain ⟨hView, hChain⟩ := connectBlock_view (hKeyed.same hAlong.view) hHere h
  refine ⟨hAlong.view.trans hView, ?_, ?_, fun hSome => ?_, ?_⟩
  · rw [hChain]
    exact hAlong.stateBest
  · rw [hChain]
    exact hAlong.hashBestChain
  · exact connectBlock_genesis h (hAlong.stateGenesis hSome)
  · rw [hChain]
    exact hAlong.checkpoint

/-- The checkpoint is hardened, or was hardened before. -/
theorem along_harden (hPending : PendingCheckpoint node₁ state prev hardened)
    (hAlong : Along node₁ hardened node)
    (h : (state.Prev node.db).map (HardenCheckpoint node) = .ok node') :
    Along node₁ hardened node' := by
  rw [map_eq_ok] at h
  obtain ⟨prev', hPrev, rfl⟩ := h
  rw [BlockState.Prev, if_neg hPending.notFirst, demand_eq_ok] at hPrev
  obtain ⟨prev'', hRead, hFrozen⟩ := hAlong.view.read hPending.read
  rw [hPrev] at hRead
  obtain rfl := Option.some.inj hRead
  have hCheck : prev'.hashCheckpoint = prev.hashCheckpoint := congrArg (·.hashCheckpoint) hFrozen
  have hSome : node.chain.hashCheckpoint ≠ 0 := by
    cases hAlong.checkpoint with
    | inl hSame =>
        rw [show node.chain.hashCheckpoint = _ from congrArg Prod.fst hSame]
        exact hPending.notNull
    | inr hSame =>
        rw [show node.chain.hashCheckpoint = _ from hPending.hardened _ hSame.symm]
        exact hPending.pending
  have hNew := IsNewTimespan_congr hAlong.view hFrozen hPending.notNull hSome
  unfold HardenCheckpoint
  cases hTimespan : IsNewTimespan node.db node.chain.hashCheckpoint prev' with
  | false => exact hAlong
  | true =>
      rw [hTimespan] at hNew
      obtain ⟨stateCheck, hReadCheck, hHardened⟩ := hPending.hardens hNew.symm
      obtain ⟨stateCheck', hReadCheck', hFrozenCheck⟩ := hAlong.view.read hReadCheck
      have hHeight : stateCheck'.nHeight = stateCheck.nHeight :=
        congrArg (·.nHeight) hFrozenCheck
      simp only [if_true, hCheck, hReadCheck']
      refine ⟨hAlong.view, hAlong.stateBest, hAlong.hashBestChain, hAlong.stateGenesis, .inr ?_⟩
      rw [hHardened, checkpoint, hHeight]

section Steps

variable {brt : BestRuntime σ}

/-- A step of `SetBest`. -/
theorem along_step {step : Step} (hKeyed : KeyedBlocks brt.toLedgerRuntime node₁.db)
    (hConnect : ∀ s, step = .connect s →
      viewOf node₁.db.blocks (s.GetHash brt.toLedgerRuntime) = some s.frozen)
    (hHarden : step = .harden → PendingCheckpoint node₁ state prev hardened)
    (hAlong : Along node₁ hardened node) (h : step.run brt state false node = .ok node') :
    Along node₁ hardened node' := by
  cases step with
  | disconnect fork =>
      obtain ⟨hView, hChain⟩ := disconnectBlock_view (hKeyed.same hAlong.view) h
      exact hAlong.of_chain hView hChain
  | connect longer => exact along_connect hKeyed hAlong (hConnect longer rfl) h
  | harden => exact along_harden (hHarden rfl) hAlong h
  | resurrect proof =>
      obtain ⟨hDb, hChain⟩ := resurrect_base h
      exact hAlong.of_chain (congrArg (fun db : Records => viewOf db.blocks) hDb) hChain

/-- The steps of `SetBest`, up to one that fails. -/
theorem along_steps {steps : List Step} (hKeyed : KeyedBlocks brt.toLedgerRuntime node₁.db)
    (hConnect : ∀ s, .connect s ∈ steps →
      viewOf node₁.db.blocks (s.GetHash brt.toLedgerRuntime) = some s.frozen)
    (hHarden : .harden ∈ steps → PendingCheckpoint node₁ state prev hardened)
    (hAlong : Along node₁ hardened node) :
    Along node₁ hardened (runSteps brt state false steps node).1 := by
  induction steps generalizing node with
  | nil => exact hAlong
  | cons step steps ih =>
      unfold runSteps
      cases hRun : step.run brt state false node with
      | error e =>
          -- What a step that fails has written is not in the records of blocks.
          exact hAlong.of_chain rfl rfl
      | ok node' =>
          apply ih (fun s hMem => hConnect s (List.mem_cons_of_mem _ hMem))
            fun hMem => hHarden (List.mem_cons_of_mem _ hMem)
          exact along_step hKeyed (fun s hStep => hConnect s (hStep ▸ List.mem_cons_self))
            (fun hStep => hHarden (hStep ▸ List.mem_cons_self)) hAlong hRun

theorem runSteps_append {fErase : Bool} (steps steps' : List Step) (node : Node σ) :
    runSteps brt state fErase (steps ++ steps') node =
      match runSteps brt state fErase steps node with
      | (node, .error e) => (node, .error e)
      | (node, .ok _) => runSteps brt state fErase steps' node := by
  induction steps generalizing node with
  | nil => rfl
  | cons step steps ih =>
      rw [List.cons_append, runSteps, runSteps]
      cases step.run brt state fErase node with
      | error e => rfl
      | ok node' => exact ih node'

end Steps

end Nexus.Ledger
