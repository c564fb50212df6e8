import Nexus.Safety.Ownership
import Nexus.Safety.Restarts

/-!
# The blocks of the transactions

A transaction that is in the index is not connected again, and `Disconnect` takes the transactions of
its block out of the index.  So over any sequence of reorganisations each transaction is in one block
of the best chain at most, and the index names that block.

## Main results

* `chain_confirmed`: the index and the best chain go together over every run of `SetBest`.
-/

namespace Nexus.Safety

open Nexus.Lib
open Nexus.Lib.Checked
open Nexus.Util
open Nexus.LLD
open Nexus.Ledger
open Nexus.Ledger.BlockState

variable {σ : Type} {rt : LedgerRuntime} {crt : ChainRuntime} {side : Periphery σ}
  {node node' : Node σ} {block block' state : BlockState} {chain chain' : List BlockState}
  {db db' : Records} {tx : Transaction} {vtx : List (UInt8 × Uint512)}

def hashesOf (vtx : List (UInt8 × Uint512)) : List Uint512 := vtx.map Prod.snd

/-- No transaction is twice in the connected blocks, and the index names the block of each. -/
structure ConfirmedIn (rt : LedgerRuntime) (index : Uint512 → Option Uint1024)
    (chain : List BlockState) : Prop where
  nodup : (chain.flatMap fun block => hashesOf block.vtx).Nodup
  index_iff : ∀ hash hashBlock, index hash = some hashBlock ↔
    ∃ block ∈ chain, hash ∈ hashesOf block.vtx ∧ block.GetHash rt = hashBlock

/-! ## Transactions -/

theorem connectContracts_index {nFlags : FLAGS} {chain : ChainState} {fApplyTxFee : Bool}
    {vContracts : List Operation.Contract} {x x' : Records × UInt64}
    (h : vContracts.foldlM (Transaction.connectContract rt nFlags chain block fApplyTxFee) x =
      .ok x') : x'.1.index = x.1.index := by
  have hTrans {x y z : Records × UInt64} (h : y.1.index = x.1.index) (h' : z.1.index = y.1.index) :
      z.1.index = x.1.index := h'.trans h
  refine foldlM_keeps (fun x x' => x'.1.index = x.1.index) (fun _ => rfl) hTrans ?_ h
  intro x contract x' _ hTurn
  obtain ⟨_, _, _, -, rfl⟩ := connectContract_eq_ok hTurn
  rfl

theorem connect_index {nFlags : FLAGS} {chain : ChainState}
    (h : tx.Connect rt nFlags chain db block = .ok db') : db'.index = db.index := by
  obtain ⟨db₁, fApplyTxFee, db₂, nCost, hChain, hContracts, rfl⟩ := Transaction.Connect_eq_ok h
  have hIndex : db₂.index = db₁.index := connectContracts_index hContracts
  have hFirst : db₁.index = db.index := by
    simp only [Transaction.connectChain, ite_eq_ok, bind_eq_ok, pure_eq_ok, Prod.mk.injEq] at hChain
    rcases hChain with ⟨-, _, -, rfl, -⟩ | ⟨-, _, -, _, -, rfl, -⟩
    · split <;> rfl
    · rfl
  rw [← hFirst, ← hIndex]
  split <;> rfl

theorem disconnect_index (h : tx.Disconnect rt db = .ok db') : db'.index = db.index := by
  simp only [Transaction.Disconnect, Transaction.disconnectStake, bind_eq_ok, pure_eq_ok] at h
  obtain ⟨db₁, ⟨fCoinStake, -, hStake⟩, disk, -, rfl⟩ := h
  show db₁.index = db.index
  simp only [ite_eq_ok, bind_eq_ok, pure_eq_ok] at hStake
  rcases hStake with ⟨-, _, -, ⟨-, _, -, _, -, rfl⟩ | ⟨-, rfl⟩⟩ | ⟨-, rfl⟩
  · split <;> rfl
  · split <;> rfl
  · split <;> rfl

/-! ## Blocks -/

/-- A transaction that is connected was not in the index, and then names the block. -/
theorem connectTx_index {x x' : BlockState.Connecting σ} {hashBlock : Uint1024}
    {hashBlockFinder : Uint512} {proof : UInt8 × Uint512}
    (h : BlockState.connectTx crt side hashBlock hashBlockFinder x proof = .ok x') :
    x.node.db.index proof.2 = none ∧
      x'.node.db.index = Function.update x.node.db.index proof.2 (some hashBlock) := by
  obtain ⟨nType, hash⟩ := proof
  have hNone (hFree : ¬ x.node.db.HasIndex hash = true) : x.node.db.index hash = none := by
    simpa [Records.HasIndex] using hFree
  simp only [BlockState.connectTx] at h
  by_cases hTritium : nType = TRANSACTION.TRITIUM
  · rw [if_pos hTritium] at h
    simp only [BlockState.connectTritium, bind_eq_ok, pure_eq_ok, reject_eq_ok] at h
    obtain ⟨x₁, ⟨_, hFree, tx, -, _, -, _, -, db, hConnect, nFees, -, hStake⟩, rfl⟩ := h
    have hIndex := connect_index hConnect
    refine ⟨hNone hFree, ?_⟩
    obtain ⟨fCoinStake, -, hStake⟩ := bind_eq_ok.mp hStake
    cases fCoinStake with
    | true =>
        simp only [if_true, bind_eq_ok, Prod.exists, pure_eq_ok] at hStake
        obtain ⟨_, _, -, rfl⟩ := hStake
        exact congrArg (Function.update · hash (some hashBlock)) hIndex
    | false =>
        simp only [Bool.false_eq_true, if_false, pure_eq_ok] at hStake
        subst hStake
        exact congrArg (Function.update · hash (some hashBlock)) hIndex
  · rw [if_neg hTritium] at h
    by_cases hLegacy : nType = TRANSACTION.LEGACY
    · rw [if_pos hLegacy] at h
      simp only [BlockState.connectLegacy, bind_eq_ok, pure_eq_ok, reject_eq_ok] at h
      obtain ⟨x₁, ⟨_, hFree, s, -, rfl⟩, rfl⟩ := h
      exact ⟨hNone hFree, rfl⟩
    · rw [if_neg hLegacy] at h
      cases h

/-- The transactions of a block are different ones, none of them was in the index, and all of them
are in it behind the loop. -/
theorem connectTxs_index {x x' : BlockState.Connecting σ} {hashBlock : Uint1024}
    {hashBlockFinder : Uint512}
    (h : vtx.foldlM (BlockState.connectTx crt side hashBlock hashBlockFinder) x = .ok x') :
    (hashesOf vtx).Nodup ∧ (∀ hash ∈ hashesOf vtx, x.node.db.index hash = none) ∧
      ∀ hash, x'.node.db.index hash =
        if hash ∈ hashesOf vtx then some hashBlock else x.node.db.index hash := by
  induction vtx generalizing x with
  | nil =>
      rw [foldlM_nil_eq_ok] at h
      rw [← h]
      simp [hashesOf]
  | cons proof vtx ih =>
      obtain ⟨x₁, hFirst, hRest⟩ := foldlM_cons_eq_ok.mp h
      obtain ⟨hFree, hIndex⟩ := connectTx_index hFirst
      obtain ⟨hNodup, hNone, hAll⟩ := ih hRest
      have hCons : hashesOf (proof :: vtx) = proof.2 :: hashesOf vtx := rfl
      have hNot : proof.2 ∉ hashesOf vtx := by
        intro hMem
        have hBoth := hNone _ hMem
        rw [hIndex, Function.update_self] at hBoth
        cases hBoth
      rw [hCons]
      refine ⟨List.nodup_cons.mpr ⟨hNot, hNodup⟩, ?_, fun hash => ?_⟩
      · rw [List.forall_mem_cons]
        refine ⟨hFree, fun hash hMem => ?_⟩
        have hOther := hNone hash hMem
        have hApart : hash ≠ proof.2 := fun hSame => hNot (hSame ▸ hMem)
        rwa [hIndex, Function.update_of_ne hApart] at hOther
      · rw [hAll, hIndex, Function.update_apply]
        by_cases hSame : hash = proof.2
        · simp [hSame]
        · simp [hSame]

theorem disconnectTx_index {proof : UInt8 × Uint512}
    (h : BlockState.disconnectTx crt side state node proof = .ok node') :
    node'.db.index = Function.update node.db.index proof.2 none := by
  simp only [BlockState.disconnectTx, ite_eq_ok, bind_eq_ok, pure_eq_ok, Except.ok.injEq] at h
  rcases h with ⟨-, tx, -, db, hDisconnect, _, rfl, rfl⟩ |
    ⟨-, ⟨-, s, -, _, rfl, rfl⟩ | ⟨-, _, rfl, rfl⟩⟩
  · exact congrArg (Function.update · proof.2 none) (disconnect_index hDisconnect)
  · rfl
  · rfl

theorem disconnectTxs_index
    (h : vtx.foldlM (BlockState.disconnectTx crt side state) node = .ok node') (hash : Uint512) :
    node'.db.index hash = if hash ∈ hashesOf vtx then none else node.db.index hash := by
  induction vtx generalizing node with
  | nil =>
      rw [foldlM_nil_eq_ok] at h
      rw [← h]
      simp [hashesOf]
  | cons proof vtx ih =>
      obtain ⟨node₁, hFirst, hRest⟩ := foldlM_cons_eq_ok.mp h
      have hCons : hashesOf (proof :: vtx) = proof.2 :: hashesOf vtx := rfl
      rw [ih hRest, disconnectTx_index hFirst, Function.update_apply, hCons]
      by_cases hSame : hash = proof.2
      · simp [hSame]
      · simp [hSame]

theorem Connect_index (h : ConnectsBlock crt side node block node') :
    (hashesOf block.vtx).Nodup ∧ (∀ hash ∈ hashesOf block.vtx, node.db.index hash = none) ∧
      ∀ hash, node'.db.index hash = if hash ∈ hashesOf block.vtx then
        some (block.GetHash crt.toLedgerRuntime) else node.db.index hash := by
  obtain ⟨block', h⟩ := h
  simp only [BlockState.Connect, bind_eq_ok, pure_eq_ok, Prod.mk.injEq] at h
  obtain ⟨finder, -, x, hTxs, prev, -, -, rfl⟩ := h
  obtain ⟨hNodup, hNone, hAll⟩ := connectTxs_index hTxs
  refine ⟨hNodup, hNone, fun hash => ?_⟩
  rw [← hAll]
  split <;> rfl

theorem Disconnect_index (h : BlockState.Disconnect crt side node state = .ok node')
    (hash : Uint512) :
    node'.db.index hash = if hash ∈ hashesOf state.vtx then none else node.db.index hash := by
  simp only [BlockState.Disconnect, bind_eq_ok] at h
  obtain ⟨node₁, hTxs, prev, -, h⟩ := h
  have hMem : hash ∈ hashesOf state.vtx.reverse ↔ hash ∈ hashesOf state.vtx := by simp [hashesOf]
  have hIndex := disconnectTxs_index hTxs hash
  simp only [hMem] at hIndex
  rw [← hIndex]
  split at h
  · rw [← Except.ok.inj h]
  · rw [← Except.ok.inj h]
    rfl

/-! ## Connected blocks -/

theorem ConfirmedIn.connect (h : ConfirmedIn crt.toLedgerRuntime node.db.index chain)
    (hConnect : ConnectsBlock crt side node block node') :
    ConfirmedIn crt.toLedgerRuntime node'.db.index (block :: chain) := by
  obtain ⟨hNodup, hNone, hAll⟩ := Connect_index hConnect
  have hApart {hash : Uint512} (hMem : hash ∈ hashesOf block.vtx) {other : BlockState}
      (hOther : other ∈ chain) : hash ∉ hashesOf other.vtx := by
    intro hBoth
    have hSome := (h.index_iff hash _).mpr ⟨other, hOther, hBoth, rfl⟩
    rw [hNone hash hMem] at hSome
    cases hSome
  constructor
  · rw [List.flatMap_cons, List.nodup_append]
    refine ⟨hNodup, h.nodup, fun hash hMem hash' hMem' hSame => ?_⟩
    obtain ⟨other, hOther, hBoth⟩ := List.mem_flatMap.mp hMem'
    exact hApart hMem hOther (hSame ▸ hBoth)
  · intro hash hashBlock
    rw [hAll]
    by_cases hMem : hash ∈ hashesOf block.vtx
    · rw [if_pos hMem]
      constructor
      · intro hSame
        exact ⟨block, List.mem_cons_self, hMem, Option.some.inj hSame⟩
      · rintro ⟨other, hOther, hBoth, hSame⟩
        rcases List.mem_cons.mp hOther with rfl | hBehind
        · rw [hSame]
        · exact absurd hBoth (hApart hMem hBehind)
    · rw [if_neg hMem, h.index_iff]
      simp [hMem]

theorem ConfirmedIn.disconnect
    (h : ConfirmedIn crt.toLedgerRuntime node.db.index (block :: chain))
    (hVtx : state.vtx = block.vtx)
    (hDisconnect : BlockState.Disconnect crt side node state = .ok node') :
    ConfirmedIn crt.toLedgerRuntime node'.db.index chain := by
  have hNodup := h.nodup
  rw [List.flatMap_cons, List.nodup_append] at hNodup
  refine ⟨hNodup.2.1, fun hash hashBlock => ?_⟩
  rw [Disconnect_index hDisconnect hash, hVtx]
  by_cases hMem : hash ∈ hashesOf block.vtx
  · rw [if_pos hMem]
    refine iff_of_false (by simp) ?_
    rintro ⟨other, hOther, hBoth, -⟩
    exact hNodup.2.2 hash hMem hash (List.mem_flatMap.mpr ⟨other, hOther, hBoth⟩) rfl
  · rw [if_neg hMem, h.index_iff]
    simp [hMem]

/-! ## Reorganisations -/

/-- Blocks with the same transactions and the same hash. -/
def SameContent (rt : LedgerRuntime) (block block' : BlockState) : Prop :=
  block'.vtx = block.vtx ∧ block'.GetHash rt = block.GetHash rt

theorem ConfirmedIn.congr {index : Uint512 → Option Uint1024}
    (hSame : List.Forall₂ (SameContent rt) chain chain') (h : ConfirmedIn rt index chain) :
    ConfirmedIn rt index chain' := by
  have hHashes : (chain'.flatMap fun block => hashesOf block.vtx) =
      chain.flatMap fun block => hashesOf block.vtx := by
    clear h
    induction hSame with
    | nil => rfl
    | cons hHead _ ih => rw [List.flatMap_cons, List.flatMap_cons, hHead.1, ih]
  have hNamed (hash : Uint512) (hashBlock : Uint1024) :
      (∃ block ∈ chain', hash ∈ hashesOf block.vtx ∧ block.GetHash rt = hashBlock) ↔
        ∃ block ∈ chain, hash ∈ hashesOf block.vtx ∧ block.GetHash rt = hashBlock := by
    clear h hHashes
    induction hSame with
    | nil => exact Iff.rfl
    | cons hHead _ ih => simp only [List.mem_cons, exists_eq_or_imp, hHead.1, hHead.2, ih]
  refine ⟨hHashes ▸ h.nodup, fun hash hashBlock => ?_⟩
  rw [hNamed, h.index_iff]

theorem runSteps_cons_ok {brt : BestRuntime σ} {step : Step} {steps : List Step}
    (h : runSteps brt state false (step :: steps) node = (node', .ok ())) :
    ∃ node₁, step.run brt state false node = .ok node₁ ∧
      runSteps brt state false steps node₁ = (node', .ok ()) := by
  rw [runSteps] at h
  cases hRun : step.run brt state false node with
  | error e =>
      rw [hRun] at h
      cases (Prod.mk.inj h).2
  | ok node₁ =>
      rw [hRun] at h
      exact ⟨node₁, rfl, h⟩

theorem runSteps_append_ok {brt : BestRuntime σ} {steps steps' : List Step}
    (h : runSteps brt state false (steps ++ steps') node = (node', .ok ())) :
    ∃ node₁, runSteps brt state false steps node = (node₁, .ok ()) ∧
      runSteps brt state false steps' node₁ = (node', .ok ()) := by
  rw [runSteps_append] at h
  cases hFirst : runSteps brt state false steps node with
  | mk node₁ result =>
      rw [hFirst] at h
      cases result with
      | error e => cases (Prod.mk.inj h).2
      | ok u => exact ⟨node₁, rfl, h⟩

variable {brt : BestRuntime σ} {hashFirst : Uint1024} {prev : BlockState}
  {vDisconnect vConnect : List BlockState}

theorem confirmed_disconnects
    (hSteps : runSteps brt state false (vDisconnect.map .disconnect) node = (node', .ok ()))
    (h : ConfirmedIn brt.toLedgerRuntime node.db.index (vDisconnect ++ chain)) :
    ConfirmedIn brt.toLedgerRuntime node'.db.index chain := by
  induction vDisconnect generalizing node with
  | nil =>
      rw [← (Prod.mk.inj hSteps).1]
      exact h
  | cons block vDisconnect ih =>
      obtain ⟨node₁, hRun, hRest⟩ := runSteps_cons_ok hSteps
      obtain ⟨node₂, hDisconnect, hSame⟩ := bind_eq_ok.mp hRun
      obtain rfl := pure_eq_ok.mp hSame
      exact ih hRest (h.disconnect rfl hDisconnect)

theorem confirmed_connects
    (hSteps : runSteps brt state false (vConnect.flatMap connectSteps) node = (node', .ok ()))
    (h : ConfirmedIn brt.toLedgerRuntime node.db.index chain) :
    ConfirmedIn brt.toLedgerRuntime node'.db.index (vConnect.reverse ++ chain) := by
  induction vConnect generalizing node chain with
  | nil =>
      rw [← (Prod.mk.inj hSteps).1]
      exact h
  | cons block vConnect ih =>
      have hFlat : (block :: vConnect).flatMap connectSteps =
          .connect block :: .harden :: vConnect.flatMap connectSteps := rfl
      rw [hFlat] at hSteps
      obtain ⟨node₁, hConnect, hSteps'⟩ := runSteps_cons_ok hSteps
      obtain ⟨node₂, hHarden, hRest⟩ := runSteps_cons_ok hSteps'
      obtain ⟨connected, hConnected, rfl⟩ := map_eq_ok.mp hConnect
      have hNext : ConfirmedIn brt.toLedgerRuntime node₂.db.index (block :: chain) := by
        rw [harden_base hHarden]
        exact h.connect ⟨connected.1, hConnected⟩
      rw [List.reverse_cons, List.append_assoc]
      exact ih hRest hNext

/-- Behind the steps of `SetBest` the connected blocks are in the place of the disconnected ones. -/
theorem confirmed_steps
    (hSteps : runSteps brt state false (steps vDisconnect vConnect) node = (node', .ok ()))
    (h : ConfirmedIn brt.toLedgerRuntime node.db.index (vDisconnect ++ chain)) :
    ConfirmedIn brt.toLedgerRuntime node'.db.index (vConnect ++ chain) := by
  obtain ⟨node₁, hBlocks, hResurrect⟩ := runSteps_append_ok hSteps
  obtain ⟨node₂, hDisconnects, hConnects⟩ := runSteps_append_ok hBlocks
  rw [(resurrects_base hResurrect).1]
  have hConnected := confirmed_connects hConnects (confirmed_disconnects hDisconnects h)
  rwa [List.reverse_reverse] at hConnected

/-! ## The best chain -/

/-- The stored blocks from one back to the first. -/
def chainOf (db : Records) (state : BlockState) : List BlockState := (blockForest db).lineage state

theorem parent_of_read (hNot : state.hashPrevBlock ≠ 0)
    (hRead : db.ReadBlock state.hashPrevBlock = some prev) :
    (blockForest db).parent state = some prev := (if_neg hNot).trans hRead

/-- Where blocks are added, what is behind a block stays. -/
theorem chainOf_extends (hExtends : ExtendsBlocks db db') (hRooted : (blockForest db).Rooted state)
    (hFrozen : block.frozen = state.frozen) :
    List.Forall₂ (SameContent rt) (chainOf db state) (chainOf db' block) := by
  have hSame {x y : BlockState} (h : y.frozen = x.frozen) : SameContent rt x y :=
    ⟨congrArg (·.vtx) h, hash_frozen h⟩
  induction hRooted generalizing block with
  | @root state hParent hRank =>
      have hZero : (blockForest db').rank block = 0 := by
        rw [← hRank]
        exact congrArg UInt32.toNat (height_frozen hFrozen)
      rw [chainOf, chainOf, Forest.lineage_of_none hParent, Forest.lineage, hZero]
      exact .cons (hSame hFrozen) .nil
  | @child state prev hParent hRank hRooted ih =>
      obtain ⟨hNot, hRead⟩ := read_of_parent hParent
      obtain ⟨prev', hRead', hFrozen'⟩ := hExtends _ _ hRead
      rw [← prev_frozen hFrozen] at hNot hRead'
      have hParent' : (blockForest db').parent block = some prev' := parent_of_read hNot hRead'
      have hRank' : (blockForest db').rank block = (blockForest db').rank prev' + 1 := by
        have hHeight : block.nHeight = state.nHeight := height_frozen hFrozen
        have hHeight' : prev'.nHeight = prev.nHeight := height_frozen hFrozen'
        show block.nHeight.toNat = prev'.nHeight.toNat + 1
        rw [hHeight, hHeight']
        exact hRank
      rw [chainOf, chainOf, Forest.lineage_of_some hParent hRank, Forest.lineage_of_some hParent' hRank']
      exact .cons (hSame hFrozen) (ih hFrozen')

/-- The transactions of the best chain are confirmed, each in one block, and the best block in memory
has the transactions of its record. -/
structure Confirmed (rt : LedgerRuntime) (node : Node σ) : Prop where
  record : ∃ record, node.db.ReadBlock (node.chain.stateBest.GetHash rt) = some record ∧
    record.vtx = node.chain.stateBest.vtx
  chain : ConfirmedIn rt node.db.index (chainOf node.db node.chain.stateBest)

/-- No block of the one chain has a twin in the other: one that compares equal and has another hash. -/
def NoTwins (rt : LedgerRuntime) (db : Records) (best state : BlockState) : Prop :=
  ∀ x ∈ chainOf db best, ∀ y ∈ chainOf db state, x.Equal y → SameHash rt x y

/-- A block of the chain of a stored one has the transactions of its record. -/
theorem record_of_mem (tree : Tree rt db hashFirst) (hStored : Stored rt db state)
    (hRecord : ∃ record, db.ReadBlock (state.GetHash rt) = some record ∧ record.vtx = state.vtx)
    {x : BlockState} (hMem : x ∈ chainOf db state) :
    ∃ record, db.ReadBlock (x.GetHash rt) = some record ∧ record.vtx = x.vtx := by
  cases lineage_read tree hStored hMem with
  | inl hSelf => rwa [hSelf]
  | inr hOther =>
      obtain ⟨hash, hRead⟩ := hOther
      exact ⟨x, by rwa [tree.key hRead], rfl⟩

/-- What two chains without twins have in common is the same blocks, of which the first may be in
memory. -/
theorem sameContent_common {best : BlockState} {common common' : List BlockState}
    (tree : Tree rt db hashFirst) (hBest : Stored rt db best) (hStored : Stored rt db state)
    (hRecord : ∃ record, db.ReadBlock (best.GetHash rt) = some record ∧ record.vtx = best.vtx)
    (hRecord' : ∃ record, db.ReadBlock (state.GetHash rt) = some record ∧ record.vtx = state.vtx)
    (hTwins : NoTwins rt db best state) (hBehind : ∀ x ∈ common, x ∈ chainOf db best)
    (hBehind' : ∀ y ∈ common', y ∈ chainOf db state)
    (hEqual : List.Forall₂ BlockState.Equal common common') :
    List.Forall₂ (SameContent rt) common common' := by
  induction hEqual with
  | nil => exact .nil
  | @cons x y common common' hHead hTail ih =>
      have hMem := hBehind x List.mem_cons_self
      have hMem' := hBehind' y List.mem_cons_self
      have hHash : x.GetHash rt = y.GetHash rt := hTwins x hMem y hMem' hHead
      obtain ⟨record, hRead, hVtx⟩ := record_of_mem tree hBest hRecord hMem
      obtain ⟨record', hRead', hVtx'⟩ := record_of_mem tree hStored hRecord' hMem'
      rw [← hHash, hRead] at hRead'
      obtain rfl := Option.some.inj hRead'
      exact .cons ⟨hVtx'.symm.trans hVtx, hHash.symm⟩
        (ih (fun x hMem => hBehind x (List.mem_cons_of_mem _ hMem))
          fun y hMem => hBehind' y (List.mem_cons_of_mem _ hMem))

/-- The end of `SetBest` leaves the index. -/
theorem finishBest_index (vConnect : List BlockState) :
    (finishBest brt state vConnect node).db.index = node.db.index := by
  have hBase := Ready.removes_base brt (vConnect.reverse.flatMap fun state => state.vtx) node
  have hIndex := congrArg Records.index hBase.1
  exact hIndex

/-- A call of `SetBest` that succeeds, on a block that is not on the best chain and whose chain has no
twins of the best one, leaves the transactions of the new best chain confirmed. -/
theorem setBest_confirmed (tree : Tree brt.toLedgerRuntime node.db hashFirst)
    (hBest : Stored brt.toLedgerRuntime node.db node.chain.stateBest)
    (hWritten : Written brt.toLedgerRuntime node state)
    (hApart : ∀ x ∈ chainOf node.db node.chain.stateBest, ¬ state.Equal x)
    (hTwins : NoTwins brt.toLedgerRuntime node.db node.chain.stateBest state)
    (h : Confirmed brt.toLedgerRuntime node) (hSet : (setBest brt node state).2 = .ok ()) :
    SameView node.db (setBest brt node state).1.db ∧
      Stored brt.toLedgerRuntime (setBest brt node state).1.db (setBest brt node state).1.chain.stateBest ∧
      Confirmed brt.toLedgerRuntime (setBest brt node state).1 := by
  have hStored := hWritten.stored
  obtain ⟨vDisconnect, vConnect, node', hFind, hSteps, hResult⟩ :=
    setBest_runs hWritten.genesis hSet
  obtain ⟨rest, hRest, hHeld⟩ := findFork_adds (P := HeldBlock brt.toLedgerRuntime node.db)
    (fun _ _ hRead => hWritten.keyed.view hRead) hWritten.held hFind
  rw [List.nil_append] at hRest
  obtain ⟨rfl, hBranch⟩ := findFork_ok tree hBest hStored hFind
  -- the block itself is connected
  have hMem : state ∈ vConnect := by
    rw [hBranch, Forest.branch, List.mem_filter, decide_eq_true_eq]
    refine ⟨Forest.mem_lineage_self, fun hMeets => ?_⟩
    obtain ⟨y, hY, hEqual⟩ := hMeets
    exact hApart y hY hEqual
  have hView : SameView node.db node'.db := by
    rw [List.isEmpty_eq_false_iff.mpr (List.ne_nil_of_mem hMem)] at hSteps
    refine steps_view hWritten.keyed (fun s hStep => hHeld s ?_) hSteps
    rw [← hRest]
    exact Ready.connect_mem_steps hStep
  rw [List.isEmpty_eq_false_iff.mpr (List.ne_nil_of_mem hMem)] at hSteps
  obtain ⟨common, common', hLeft, hRight, hEqual⟩ := Forest.lineage_branch
    (hBest.rooted tree) (hStored.rooted tree) equal_tells (hBest.meets hStored tree)
  have hBehind : ∀ x ∈ common, x ∈ chainOf node.db node.chain.stateBest := fun x hMem => by
    rw [chainOf, hLeft]
    exact List.mem_append_right _ hMem
  have hBehind' : ∀ y ∈ common', y ∈ chainOf node.db state := fun y hMem => by
    rw [chainOf, hRight]
    exact List.mem_append_right _ hMem
  have hSame : List.Forall₂ (SameContent brt.toLedgerRuntime) common common' :=
    sameContent_common tree hBest hStored h.record ⟨_, hWritten.read, rfl⟩ hTwins hBehind hBehind' hEqual
  have hBefore := h.chain
  rw [chainOf, hLeft] at hBefore
  have hAfter : ConfirmedIn brt.toLedgerRuntime node'.db.index (chainOf node.db state) := by
    refine ConfirmedIn.congr ?_ (confirmed_steps hSteps hBefore)
    rw [chainOf, hRight, hBranch]
    exact List.rel_append (List.forall₂_same.mpr fun x _ => ⟨rfl, rfl⟩) hSame
  obtain ⟨hFinish, hChain⟩ := Ready.finishBest_view brt state vConnect node'
  have hViewAll := hView.trans hFinish
  obtain ⟨record, hRead, hFrozen⟩ := hViewAll.read hWritten.read
  rw [hResult]
  refine ⟨hViewAll, ?_, ?_, ?_⟩
  · rw [hChain]
    exact hStored.same hViewAll
  · rw [hChain]
    exact ⟨record, hRead, congrArg (·.vtx) hFrozen⟩
  · rw [hChain, finishBest_index]
    exact hAfter.congr (chainOf_extends (extends_of_same hViewAll) (hStored.rooted tree) rfl)

/-! ## Runs -/

/-- A call of `SetBest` that succeeds, on a block that is written and not on the best chain.  Since the
call before, blocks were indexed. -/
structure ReorgCall (brt : BestRuntime σ) (hashFirst : Uint1024) (node : Node σ)
    (call : Node σ × BlockState) (node' : Node σ) : Prop where
  chain : call.1.chain = node.chain
  index : call.1.db.index = node.db.index
  grows : ExtendsBlocks node.db call.1.db
  tree : Tree brt.toLedgerRuntime call.1.db hashFirst
  written : Written brt.toLedgerRuntime call.1 call.2
  leaves : ∀ x ∈ chainOf call.1.db call.1.chain.stateBest, ¬ call.2.Equal x
  noTwins : NoTwins brt.toLedgerRuntime call.1.db call.1.chain.stateBest call.2
  ok : (setBest brt call.1 call.2).2 = .ok ()
  after : node' = (setBest brt call.1 call.2).1

theorem Stored.grows (h : Stored rt db state) (hGrows : ExtendsBlocks db db') : Stored rt db' state := by
  obtain ⟨record, hRead, hEqual⟩ := h
  obtain ⟨record', hRead', hFrozen⟩ := hGrows _ _ hRead
  exact ⟨record', hRead', equal_trans (equal_frozen hFrozen) hEqual⟩

/-- Blocks that are indexed leave the transactions of the best chain confirmed. -/
theorem Confirmed.grows (h : Confirmed rt node) (tree : Tree rt node.db hashFirst)
    (hBest : Stored rt node.db node.chain.stateBest) (hChain : node'.chain = node.chain)
    (hIndex : node'.db.index = node.db.index) (hGrows : ExtendsBlocks node.db node'.db) :
    Confirmed rt node' := by
  obtain ⟨record, hRead, hVtx⟩ := h.record
  obtain ⟨record', hRead', hFrozen⟩ := hGrows _ _ hRead
  have hSame : record'.vtx = record.vtx := congrArg (·.vtx) hFrozen
  constructor
  · rw [hChain]
    exact ⟨record', hRead', hSame.trans hVtx⟩
  · rw [hChain, hIndex]
    exact h.chain.congr (chainOf_extends hGrows (hBest.rooted tree) rfl)

/-- Over every run of `SetBest`, with blocks that are indexed between the calls, no transaction is twice
in the best chain, and the index has the transactions of that chain and no others, each with its
block. -/
theorem chain_confirmed {start : Node σ} {calls : List (Node σ × BlockState)}
    (hRun : Run (ReorgCall brt hashFirst) start calls node)
    (tree : Tree brt.toLedgerRuntime start.db hashFirst)
    (hBest : Stored brt.toLedgerRuntime start.db start.chain.stateBest)
    (hStart : Confirmed brt.toLedgerRuntime start) : Confirmed brt.toLedgerRuntime node := by
  induction hRun with
  | nil => exact hStart
  | cons hCall _ ih =>
      have hBefore := hStart.grows tree hBest hCall.chain hCall.index hCall.grows
      have hBest' := hBest.grows hCall.grows
      rw [← hCall.chain] at hBest'
      obtain ⟨hView, hNext, hAfter⟩ :=
        setBest_confirmed hCall.tree hBest' hCall.written hCall.leaves hCall.noTwins hBefore hCall.ok
      have tree' := hCall.tree.same hView
      rw [← hCall.after] at hAfter tree' hNext
      exact ih tree' hNext hAfter

/-! ## A reorganisation -/

/-- A block on the side branch, with the transaction of `mainBlock`. -/
def reorgBlock : BlockState := names sideBlock (legacyBlock sideBlock 4 200 3 10)

theorem names_hash (check state : BlockState) : (names check state).GetHash rt = state.GetHash rt := rfl

def reorgStates : List BlockState :=
  [names firstBlock firstBlock, names mainBlock mainBlock, names sideBlock sideBlock, reorgBlock]

def reorgNode : Node (Uint512 → Bool) :=
  { forkSession.node with db := blockRecords exampleLedger reorgStates }

/-- A node with another index. -/
def withIndex (node : Node σ) (index : Uint512 → Option Uint1024) : Node σ :=
  { node with db.index := index }

theorem withIndex_view (node : Node σ) (index : Uint512 → Option Uint1024) :
    SameView node.db (withIndex node index).db := rfl

/-- The best block is `mainBlock`, whose transaction is in the index, and the heavier `reorgBlock` is
indexed. -/
def confirmedNode : Node (Uint512 → Bool) :=
  withIndex reorgNode (Function.update (fun _ => none) 10 (some (mainBlock.GetHash exampleLedger)))

theorem confirmedNode_reads :
    confirmedNode.db.ReadBlock (mainBlock.GetHash exampleLedger) = some (names mainBlock mainBlock) ∧
    confirmedNode.db.ReadBlock (reorgBlock.GetHash exampleLedger) = some reorgBlock.record ∧
    confirmedNode.chain.stateGenesis.isSome ∧
    confirmedNode.chain.stateBest.GetHash exampleLedger = mainBlock.GetHash exampleLedger ∧
    (names mainBlock mainBlock).Equal confirmedNode.chain.stateBest ∧
    (names mainBlock mainBlock).vtx = confirmedNode.chain.stateBest.vtx ∧
    reorgBlock.hashPrevBlock ≠ reorgBlock.GetHash exampleLedger ∧
    chainOf confirmedNode.db confirmedNode.chain.stateBest =
      [names mainBlock mainBlock, names firstBlock firstBlock] := by
  unfold chainOf
  decide +kernel

theorem confirmedNode_tree :
    Tree exampleLedger confirmedNode.db (firstBlock.GetHash exampleLedger) := by
  have tree : Tree exampleLedger reorgNode.db (firstBlock.GetHash exampleLedger) :=
    blockRecords_tree (by decide +kernel) (by decide +kernel)
  exact tree.same (withIndex_view reorgNode _)

theorem confirmedNode_best : Stored exampleLedger confirmedNode.db confirmedNode.chain.stateBest := by
  obtain ⟨hMain, -, -, hBest, hEqual, -⟩ := confirmedNode_reads
  rw [← hBest] at hMain
  exact ⟨names mainBlock mainBlock, hMain, hEqual⟩

theorem reorgBlock_written : Written exampleLedger confirmedNode reorgBlock := by
  obtain ⟨-, hRead, hGenesis, -, -, -, hApart, -⟩ := confirmedNode_reads
  exact ⟨hGenesis, fun _ _ => confirmedNode_tree.key, hRead, hApart⟩

/-- `mainBlock` has the only transaction of the best chain. -/
theorem confirmedNode_confirmed : Confirmed exampleLedger confirmedNode := by
  obtain ⟨hMain, -, -, hBest, -, hVtx, -, hChain⟩ := confirmedNode_reads
  rw [← hBest] at hMain
  refine ⟨⟨names mainBlock mainBlock, hMain, hVtx⟩, ?_⟩
  rw [hChain]
  have hTxs : hashesOf (names mainBlock mainBlock).vtx = [10] := rfl
  have hNone : hashesOf (names firstBlock firstBlock).vtx = [] := rfl
  have hName : (names mainBlock mainBlock).GetHash exampleLedger = mainBlock.GetHash exampleLedger :=
    names_hash mainBlock mainBlock
  refine ⟨?_, fun hash hashBlock => ?_⟩
  · rw [List.flatMap_cons, List.flatMap_cons, hTxs, hNone]
    exact List.nodup_singleton 10
  · have hIndex : confirmedNode.db.index hash =
        Function.update (fun _ => none) 10 (some (mainBlock.GetHash exampleLedger)) hash := rfl
    simp only [hIndex, List.mem_cons, List.not_mem_nil, or_false, exists_eq_or_imp, exists_eq_left,
      hTxs, hNone, hName, false_and, Function.update_apply]
    by_cases hSame : hash = 10
    · rw [if_pos hSame, Option.some.injEq, and_iff_right hSame]
    · rw [if_neg hSame]
      exact iff_of_false (by simp) fun hBoth => hSame hBoth.1

/-- `mainBlock` is disconnected, two blocks are connected, and the transaction is in the last of them. -/
theorem confirmedNode_reorganises :
    (findFork confirmedNode.db (exampleBest 0).nFuel confirmedNode.chain.stateBest reorgBlock []
        []).toOption = some ([names mainBlock mainBlock], [reorgBlock, names sideBlock sideBlock]) ∧
      (setBest (exampleBest 0) confirmedNode reorgBlock).2.isOk = true ∧
      (setBest (exampleBest 0) confirmedNode reorgBlock).1.db.index 10 =
        some (reorgBlock.GetHash exampleLedger) := by
  decide +kernel

theorem chain_confirmed_reorganised :
    ∃ node, Run (ReorgCall (exampleBest 0) (firstBlock.GetHash exampleLedger)) confirmedNode
        [(confirmedNode, reorgBlock)] node ∧
      node.db.index 10 = some (reorgBlock.GetHash exampleLedger) ∧ Confirmed exampleLedger node := by
  obtain ⟨-, hOk, hIndex⟩ := confirmedNode_reorganises
  have hSet : (setBest (exampleBest 0) confirmedNode reorgBlock).2 = .ok () := by
    cases hResult : (setBest (exampleBest 0) confirmedNode reorgBlock).2 with
    | error e =>
        rw [hResult] at hOk
        cases hOk
    | ok u => rfl
  have hTwins : NoTwins exampleLedger confirmedNode.db confirmedNode.chain.stateBest reorgBlock := by
    unfold NoTwins chainOf
    decide +kernel
  have hLeaves : ∀ x ∈ chainOf confirmedNode.db confirmedNode.chain.stateBest, ¬ reorgBlock.Equal x := by
    unfold chainOf
    decide +kernel
  have hRun : Run (ReorgCall (exampleBest 0) (firstBlock.GetHash exampleLedger)) confirmedNode
      [(confirmedNode, reorgBlock)] (setBest (exampleBest 0) confirmedNode reorgBlock).1 :=
    .single
      { chain := rfl
        index := rfl
        grows := ExtendsBlocks.refl _
        tree := confirmedNode_tree
        written := reorgBlock_written
        leaves := hLeaves
        noTwins := hTwins
        ok := hSet
        after := rfl }
  exact ⟨_, hRun, hIndex,
    chain_confirmed hRun confirmedNode_tree confirmedNode_best confirmedNode_confirmed⟩

end Nexus.Safety
