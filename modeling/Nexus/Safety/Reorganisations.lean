import Nexus.Safety.Descents

/-!
# Reorganisations and checkpoints

With each block that a reorganisation connects, the checkpoint that the block before the new one
names is hardened: in memory, while the blocks that are still to be connected may fail.

## Main results

* `Ready.setBest_ok`: where `SetBest` goes through, the checkpoint is on the new best chain.
* `Ready.setBest_error`: where it fails, the checkpoint stays if the call finishes behind a new
  timespan.
* `index_spec`: what indexing a new block leaves.
-/

namespace Nexus.Safety

open Nexus.Lib
open Nexus.Lib.Checked
open Nexus.Util
open Nexus.LLD
open Nexus.Ledger

variable {rt : LedgerRuntime} {db db' : Records} {hashFirst h a : Uint1024}
  {state state' prev : BlockState}

/-! ## A reorganisation -/

variable {σ τ : Type}

/-- The checkpoint is the best block or one that it descends from, and the height is its height. -/
structure Final (db : Records) (chain : ChainState) : Prop where
  descends : Descends db chain.hashBestChain chain.hashCheckpoint
  height : (db.ReadBlock chain.hashCheckpoint).map (·.nHeight) = some chain.nCheckpointHeight

/-- The records and the chain state of a node between two calls. -/
structure Settled (rt : LedgerRuntime) (hashFirst : Uint1024) (db : Records) (chain : ChainState) :
    Prop where
  tree : Tree rt db hashFirst
  labels : Labelled db
  zero : db.ReadBlock 0 = none
  best : Stored rt db chain.stateBest
  hashBest : chain.stateBest.GetHash rt = chain.hashBestChain
  genesis : chain.stateGenesis.isSome
  final : Final db chain

theorem Final.same {chain : ChainState} (hFinal : Final db chain) (hSame : SameView db db') :
    Final db' chain where
  descends := hFinal.descends.mono (extends_of_same hSame)
  height := by
    obtain ⟨check, hRead, hHeight⟩ := Option.map_eq_some_iff.mp hFinal.height
    obtain ⟨check', hRead', hFrozen⟩ := hSame.read hRead
    rw [hRead', Option.map_some, height_frozen hFrozen, hHeight]

theorem zero_same (hZero : db.ReadBlock 0 = none) (hSame : SameView db db') :
    db'.ReadBlock 0 = none := by
  cases hRead : db'.ReadBlock 0 with
  | none => rfl
  | some state =>
      obtain ⟨state', hRead', -⟩ := hSame.symm.read hRead
      rw [hZero] at hRead'
      cases hRead'

theorem Settled.same {chain : ChainState} (hSettled : Settled rt hashFirst db chain)
    (hSame : SameView db db') : Settled rt hashFirst db' chain where
  tree := hSettled.tree.same hSame
  labels := hSettled.labels.same hSame
  zero := zero_same hSettled.zero hSame
  best := hSettled.best.same hSame
  hashBest := hSettled.hashBest
  genesis := hSettled.genesis
  final := hSettled.final.same hSame

/-- The chain state is one that names the same blocks. -/
structure SameChain (chain chain' : ChainState) : Prop where
  stateBest : chain'.stateBest = chain.stateBest
  hashBestChain : chain'.hashBestChain = chain.hashBestChain
  genesis : chain.stateGenesis.isSome → chain'.stateGenesis.isSome
  checkpoint : checkpoint chain' = checkpoint chain

theorem SameChain.refl (chain : ChainState) : SameChain chain chain := ⟨rfl, rfl, id, rfl⟩

theorem Settled.congr {chain chain' : ChainState} (hSettled : Settled rt hashFirst db chain)
    (hSame : SameChain chain chain') : Settled rt hashFirst db chain' where
  tree := hSettled.tree
  labels := hSettled.labels
  zero := hSettled.zero
  best := by
    rw [hSame.stateBest]
    exact hSettled.best
  hashBest := by
    rw [hSame.stateBest, hSame.hashBestChain]
    exact hSettled.hashBest
  genesis := hSame.genesis hSettled.genesis
  final := by
    have hCheck : chain'.hashCheckpoint = chain.hashCheckpoint :=
      congrArg Prod.fst hSame.checkpoint
    have hHeight : chain'.nCheckpointHeight = chain.nCheckpointHeight :=
      congrArg Prod.snd hSame.checkpoint
    refine ⟨?_, ?_⟩
    · rw [hCheck, hSame.hashBestChain]
      exact hSettled.final.descends
    · rw [hCheck, hHeight]
      exact hSettled.final.height

/-- The checkpoint is stored, and is no null hash. -/
theorem Settled.notNull {chain : ChainState} (hSettled : Settled rt hashFirst db chain) :
    chain.hashCheckpoint ≠ 0 := by
  intro hNull
  have hHeight := hSettled.final.height
  rw [hNull, hSettled.zero] at hHeight
  cases hHeight

variable {brt : BlockState.BestRuntime σ} {node : Node σ}

/-- The steps up to the first block that is connected. -/
def opening (vDisconnect : List BlockState) (stateFirst : BlockState) : List BlockState.Step :=
  vDisconnect.map .disconnect ++ [.connect stateFirst]

/-- Where a block starts a new timespan, a reorganisation behind it is complete once its first
block is connected. -/
def Finishes (brt : BlockState.BestRuntime σ) (node : Node σ) (state : BlockState) : Prop :=
  ∀ prev ∈ node.db.ReadBlock state.hashPrevBlock,
    IsNewTimespan node.db node.chain.hashCheckpoint prev = true →
      ∀ vDisconnect vConnect stateFirst,
        BlockState.findFork node.db brt.nFuel node.chain.stateBest state [] [] =
            .ok (vDisconnect, vConnect ++ [stateFirst]) →
          (BlockState.runSteps brt state false (opening vDisconnect stateFirst) node).2 = .ok () →
            (BlockState.setBest brt node state).2 = .ok ()

/-- A block that is indexed and that descends from the checkpoint, before it is set to be the
best. -/
structure Ready (rt : LedgerRuntime) (hashFirst : Uint1024) (node : Node σ)
    (state prev : BlockState) : Prop where
  settled : Settled rt hashFirst node.db node.chain
  read : node.db.ReadBlock (state.GetHash rt) = some state.record
  notFirst : state.hashPrevBlock ≠ 0
  readPrev : node.db.ReadBlock state.hashPrevBlock = some prev
  descends : Descends node.db state.hashPrevBlock node.chain.hashCheckpoint
  pending : Descends node.db prev.hashCheckpoint node.chain.hashCheckpoint
  apart : ∀ x ∈ (blockForest node.db).lineage node.chain.stateBest, ¬ state.Equal x

/-- The checkpoint that is hardened behind a block. -/
def hardens (node : Node σ) (prev : BlockState) : Option (Uint1024 × UInt32) :=
  if IsNewTimespan node.db node.chain.hashCheckpoint prev then
    (node.db.ReadBlock prev.hashCheckpoint).map fun stateCheck =>
      (prev.hashCheckpoint, stateCheck.nHeight)
  else none

namespace Ready

theorem stored (hReady : Ready rt hashFirst node state prev) : Stored rt node.db state :=
  ⟨state.record, hReady.read, equal_frozen rfl⟩

theorem descends_self (hReady : Ready rt hashFirst node state prev)
    (hDescends : Descends node.db state.hashPrevBlock a) :
    Descends node.db (state.GetHash rt) a :=
  .step hReady.read hReady.notFirst hDescends

theorem toPending (hReady : Ready rt hashFirst node state prev) :
    PendingCheckpoint node state prev (hardens node prev) where
  notFirst := hReady.notFirst
  read := hReady.readPrev
  notNull := hReady.settled.notNull
  pending := by
    intro hNull
    obtain ⟨check, hRead⟩ := hReady.pending.read
    rw [hNull, hReady.settled.zero] at hRead
    cases hRead
  hardens := by
    intro hNew
    obtain ⟨check, hRead⟩ := hReady.pending.read
    refine ⟨check, hRead, ?_⟩
    rw [hardens, if_pos hNew, hRead]
    rfl
  hardened := by
    intro x hMem
    unfold hardens at hMem
    split at hMem
    · obtain ⟨check, -, rfl⟩ := Option.map_eq_some_iff.mp hMem
      rfl
    · cases hMem

/-- What the walk finds. -/
theorem found (hReady : Ready rt hashFirst node state prev) {nFuel : Nat}
    {vDisconnect vConnect : List BlockState}
    (hFind : BlockState.findFork node.db nFuel node.chain.stateBest state [] [] =
      .ok (vDisconnect, vConnect)) :
    (∀ x ∈ vDisconnect, ∀ h, Descends node.db (state.GetHash rt) h → x.GetHash rt ≠ h) ∧
      (∀ x ∈ vConnect, viewOf node.db.blocks (x.GetHash rt) = some x.frozen) ∧
      vConnect ≠ [] := by
  have tree := hReady.settled.tree
  obtain ⟨rfl, rfl⟩ := findFork_ok tree hReady.settled.best hReady.stored hFind
  refine ⟨fun x hMem h hDescends => branch_not_descends tree hReady.settled.best hReady.stored
    hMem hDescends, fun x hMem => ?_, ?_⟩
  · rw [Forest.branch, List.mem_filter] at hMem
    cases lineage_read tree hReady.stored hMem.1 with
    | inl hSelf =>
        subst hSelf
        exact congrArg (Option.map BlockState.frozen) hReady.read
    | inr hOther =>
        obtain ⟨hash, hRead⟩ := hOther
        rw [tree.key hRead]
        exact congrArg (Option.map BlockState.frozen) hRead
  · intro hEmpty
    rw [Forest.branch, List.filter_eq_nil_iff] at hEmpty
    have hMeets := hEmpty state Forest.mem_lineage_self
    rw [decide_eq_true_eq, not_not] at hMeets
    obtain ⟨y, hY, hEqual⟩ := hMeets
    exact hReady.apart y hY hEqual

section

open BlockState

variable {vDisconnect vConnect : List BlockState} {stateFirst : BlockState}

theorem connect_mem_steps (hMem : .connect state' ∈ steps vDisconnect vConnect) :
    state' ∈ vConnect := by
  simpa [steps, connectSteps, List.mem_flatMap] using hMem

theorem steps_opening (vDisconnect vConnect : List BlockState) (stateFirst : BlockState) :
    ∃ rest, steps vDisconnect (vConnect ++ [stateFirst]) =
      opening vDisconnect stateFirst ++ rest := by
  refine ⟨.harden :: (vConnect.reverse.flatMap connectSteps ++
    (vDisconnect.flatMap fun state => state.vtx.reverse).reverse.map .resurrect), ?_⟩
  simp [steps, opening, connectSteps]

/-- Where no checkpoint is hardened, the chain state stays. -/
theorem sameChain_of_along {node' : Node σ} (hAlong : Along node none node') :
    SameChain node.chain node'.chain where
  stateBest := hAlong.stateBest
  hashBestChain := hAlong.hashBestChain
  genesis := hAlong.stateGenesis
  checkpoint := by
    cases hAlong.checkpoint with
    | inl hSame => exact hSame
    | inr hNone => cases hNone

/-- How a call ends once there is a genesis block. -/
theorem setBest_cases (brt : BestRuntime σ) (node : Node σ) (state : BlockState)
    (hGenesis : node.chain.stateGenesis.isSome) :
    (∃ e, setBest brt node state = (node, .error e)) ∨
      ∃ vDisconnect vConnect, findFork node.db brt.nFuel node.chain.stateBest state [] [] =
          .ok (vDisconnect, vConnect) ∧
        ∃ node' result, runSteps brt state vConnect.isEmpty (steps vDisconnect vConnect) node =
            (node', result) ∧
          ((∃ e, result = .error e ∧ setBest brt node state = (node', .error e)) ∨
            (result = .ok () ∧
              setBest brt node state = (finishBest brt state vConnect node', .ok ()))) := by
  obtain ⟨stateGenesis, hSome⟩ := Option.isSome_iff_exists.mp hGenesis
  cases hFind : findFork node.db brt.nFuel node.chain.stateBest state [] [] with
  | error e =>
      left
      exact ⟨e, by simp only [setBest, hSome, hFind]⟩
  | ok lists =>
      right
      obtain ⟨vDisconnect, vConnect⟩ := lists
      cases hSteps : runSteps brt state vConnect.isEmpty (steps vDisconnect vConnect) node with
      | mk node' result =>
          refine ⟨vDisconnect, vConnect, rfl, node', result, hSteps, ?_⟩
          cases result with
          | error e =>
              left
              exact ⟨e, rfl, by simp only [setBest, hSome, hFind, hSteps]⟩
          | ok u =>
              right
              exact ⟨rfl, by simp only [setBest, hSome, hFind, hSteps]⟩

/-- Transactions that are removed from the pool leave the records and the chain state. -/
theorem removes_base (brt : BestRuntime σ) (vtx : List (UInt8 × Uint512)) (node : Node σ) :
    SameBase node (vtx.foldl (fun node proof => node.Remove brt.side proof.2) node) := by
  induction vtx generalizing node with
  | nil => exact SameBase.refl node
  | cons proof vtx ih => exact (Node.remove_base proof.2).trans (ih _)

/-- The end of a reorganisation changes no block, and no checkpoint. -/
theorem finishBest_view (brt : BestRuntime σ) (state : BlockState) (vConnect : List BlockState)
    (node : Node σ) :
    SameView node.db (finishBest brt state vConnect node).db ∧
      (finishBest brt state vConnect node).chain =
        { node.chain with
          stateBest := state
          hashBestChain := state.GetHash brt.toLedgerRuntime
          nBestHeight := state.nHeight
          nBestChainTrust := state.nChainTrust } := by
  obtain ⟨hDb, hChain⟩ := removes_base brt (vConnect.reverse.flatMap fun state => state.vtx) node
  have hView := congrArg (fun db : Records => viewOf db.blocks) hDb
  refine ⟨hView, ?_⟩
  simp only [finishBest, hChain]

variable (hReady : Ready brt.toLedgerRuntime hashFirst node state prev)
include hReady

theorem keyed : KeyedBlocks brt.toLedgerRuntime node.db := fun _ _ => hReady.settled.tree.key

/-- A reorganisation that fails leaves the checkpoint, if it finishes behind a new timespan. -/
theorem steps_error {e : Fault} (hFinishes : Finishes brt node state)
    (hFind : findFork node.db brt.nFuel node.chain.stateBest state [] [] =
      .ok (vDisconnect, vConnect))
    (hSteps : (runSteps brt state false (steps vDisconnect vConnect) node).2 = .error e)
    (hSet : (setBest brt node state).2 ≠ .ok ()) :
    SameView node.db (runSteps brt state false (steps vDisconnect vConnect) node).1.db ∧
      SameChain node.chain
        (runSteps brt state false (steps vDisconnect vConnect) node).1.chain := by
  obtain ⟨-, hViews, hNot⟩ := hReady.found hFind
  cases hNew : IsNewTimespan node.db node.chain.hashCheckpoint prev with
  | false =>
      have hPending := hReady.toPending
      have hNone : hardens node prev = none := by rw [hardens, hNew]; rfl
      rw [hNone] at hPending
      have hAlong : Along node none
          (runSteps brt state false (steps vDisconnect vConnect) node).1 :=
        along_steps hReady.keyed (fun s hMem => hViews s (connect_mem_steps hMem))
          (fun _ => hPending) (Along.refl node none)
      exact ⟨hAlong.view, sameChain_of_along hAlong⟩
  | true =>
      -- The first block that is connected cannot have been: the rest would not fail.
      obtain ⟨vRest, stateFirst, rfl⟩ : ∃ vRest stateFirst, vConnect = vRest ++ [stateFirst] :=
        ⟨vConnect.dropLast, vConnect.getLast hNot, (List.dropLast_append_getLast hNot).symm⟩
      obtain ⟨rest, hOpening⟩ := steps_opening vDisconnect vRest stateFirst
      have hAlong : Along node none
          (runSteps brt state false (opening vDisconnect stateFirst) node).1 := by
        apply along_steps hReady.keyed ?_ ?_ (Along.refl node none)
        · exact prev
        · intro s hMem
          apply hViews
          simp only [opening, List.mem_append, List.mem_map, reduceCtorEq, and_false, exists_false,
            List.mem_singleton, Step.connect.injEq, false_or] at hMem
          simp only [List.mem_append, List.mem_singleton, hMem, or_true]
        · intro hMem
          simp [opening] at hMem
      have hDone := hFinishes prev hReady.readPrev hNew vDisconnect vRest stateFirst hFind
      rw [hOpening, runSteps_append] at hSteps ⊢
      cases hFirst : runSteps brt state false (opening vDisconnect stateFirst) node with
      | mk node' result =>
          rw [hFirst] at hAlong hDone
          cases result with
          | error e' => exact ⟨hAlong.view, sameChain_of_along hAlong⟩
          | ok u => exact absurd (hDone rfl) hSet

/-- A call that fails leaves the blocks and the chain state. -/
theorem setBest_error {e : Fault} (hFinishes : Finishes brt node state)
    (hSet : (setBest brt node state).2 = .error e) :
    SameView node.db (setBest brt node state).1.db ∧
      SameChain node.chain (setBest brt node state).1.chain := by
  have hNot : (setBest brt node state).2 ≠ .ok () := by
    rw [hSet]
    exact nofun
  cases setBest_cases brt node state hReady.settled.genesis with
  | inl hError =>
      obtain ⟨e', hResult⟩ := hError
      rw [hResult]
      exact ⟨rfl, SameChain.refl _⟩
  | inr hFound =>
      obtain ⟨vDisconnect, vConnect, hFind, node', result, hSteps, hEnd⟩ := hFound
      rw [List.isEmpty_eq_false_iff.mpr (hReady.found hFind).2.2] at hSteps
      cases hEnd with
      | inl hError =>
          obtain ⟨e', rfl, hResult⟩ := hError
          have hLeft := hReady.steps_error (e := e') hFinishes hFind (by rw [hSteps]) hNot
          rw [hSteps] at hLeft
          rw [hResult]
          exact hLeft
      | inr hOk =>
          rw [hOk.2] at hNot
          exact absurd rfl hNot

/-- The checkpoint of a call: a block that the new one descends from, and that descends from the
checkpoint before. -/
theorem checkpoint_spec {x : Uint1024 × UInt32}
    (hCheckpoint : x = checkpoint node.chain ∨ some x = hardens node prev) :
    Descends node.db (state.GetHash brt.toLedgerRuntime) x.1 ∧
      (node.db.ReadBlock x.1).map (·.nHeight) = some x.2 ∧
      Descends node.db x.1 node.chain.hashCheckpoint := by
  cases hCheckpoint with
  | inl hSame =>
      subst hSame
      refine ⟨hReady.descends_self hReady.descends, hReady.settled.final.height, ?_⟩
      obtain ⟨check, hRead⟩ := hReady.descends.read_ancestor
      exact .refl hRead
  | inr hHardened =>
      unfold hardens at hHardened
      split at hHardened
      · obtain ⟨check, hRead, rfl⟩ := Option.map_eq_some_iff.mp hHardened.symm
        have hBefore := hReady.settled.labels.descends hReady.settled.tree hReady.readPrev
        refine ⟨hReady.descends_self hBefore, ?_, hReady.pending⟩
        exact congrArg (Option.map _) hRead
      · cases hHardened

/-- A call that goes through: the best block is the new one, and the checkpoint is what it was or
the one that the block before names. -/
theorem setBest_ok (hSet : (setBest brt node state).2 = .ok ()) :
    SameView node.db (setBest brt node state).1.db ∧
      Settled brt.toLedgerRuntime hashFirst (setBest brt node state).1.db
        (setBest brt node state).1.chain ∧
      Descends node.db (setBest brt node state).1.chain.hashCheckpoint
        node.chain.hashCheckpoint := by
  cases setBest_cases brt node state hReady.settled.genesis with
  | inl hError =>
      obtain ⟨e, hResult⟩ := hError
      rw [hResult] at hSet
      cases hSet
  | inr hFound =>
      obtain ⟨vDisconnect, vConnect, hFind, node', result, hSteps, hEnd⟩ := hFound
      obtain ⟨-, hViews, hNotNil⟩ := hReady.found hFind
      rw [List.isEmpty_eq_false_iff.mpr hNotNil] at hSteps
      have hAlong : Along node (hardens node prev)
          (runSteps brt state false (steps vDisconnect vConnect) node).1 :=
        along_steps hReady.keyed (fun s hMem => hViews s (connect_mem_steps hMem))
          (fun _ => hReady.toPending) (Along.refl node (hardens node prev))
      rw [hSteps] at hAlong
      cases hEnd with
      | inl hError =>
          obtain ⟨e, -, hResult⟩ := hError
          rw [hResult] at hSet
          cases hSet
      | inr hOk =>
          rw [hOk.2]
          obtain ⟨hFinish, hChain⟩ := finishBest_view brt state vConnect node'
          have hView := hAlong.view.trans hFinish
          have hExtends := extends_of_same hView
          obtain ⟨hNew, hHeight, hOld⟩ := hReady.checkpoint_spec hAlong.checkpoint
          have hCheck : (finishBest brt state vConnect node').chain.hashCheckpoint =
              (checkpoint node'.chain).1 := by rw [hChain]; rfl
          refine ⟨hView, ⟨?_, ?_, ?_, ?_, ?_, ?_, ?_, ?_⟩, ?_⟩
          · exact hReady.settled.tree.same hView
          · exact hReady.settled.labels.same hView
          · exact zero_same hReady.settled.zero hView
          · rw [hChain]
            exact hReady.stored.same hView
          · rw [hChain]
          · rw [hChain]
            exact hAlong.stateGenesis hReady.settled.genesis
          · rw [hCheck, hChain]
            exact hNew.mono hExtends
          · obtain ⟨check, hRead, hSame⟩ := Option.map_eq_some_iff.mp hHeight
            obtain ⟨check', hRead', hFrozen⟩ := hView.read hRead
            rw [hCheck, hRead', Option.map_some, height_frozen hFrozen, hSame, hChain]
            rfl
          · rw [hCheck]
            exact hOld

end

end Ready

/-! ## Indexing a block -/

theorem hash_congr (hBlock : state'.toBlock = state.toBlock) (hTime : state'.nTime = state.nTime) :
    state'.GetHash rt = state.GetHash rt := by
  simp only [BlockState.GetHash, BlockState.SignatureHash, hBlock, hTime]

theorem releaseAll_kept {crt : ChainRuntime} {readLegacy : σ → Uint512 → Option Legacy.Transaction}
    {statePrev stateLast : BlockState}
    (hRelease : BlockState.releaseAll crt readLegacy node statePrev stateLast state = .ok state') :
    state'.toBlock = state.toBlock ∧ state'.nTime = state.nTime := by
  unfold BlockState.releaseAll at hRelease
  split at hRelease
  · rw [bind_eq_ok] at hRelease
    obtain ⟨nRewards, -, hFold⟩ := hRelease
    refine foldlM_keeps (fun state state' : BlockState => state'.toBlock = state.toBlock ∧
      state'.nTime = state.nTime) (fun _ => ⟨rfl, rfl⟩)
      (fun h h' => ⟨h'.1.trans h.1, h'.2.trans h.2⟩) ?_ hFold
    intro x n x' _ hTurn
    simp only [BlockState.release, bind_eq_ok, pure_eq_ok] at hTurn
    obtain ⟨u, -, rfl⟩ := hTurn
    exact ⟨rfl, rfl⟩
  · obtain rfl := pure_eq_ok.mp hRelease
    exact ⟨rfl, rfl⟩

/-- A block that is indexed names itself as the pending checkpoint, or the one before it. -/
theorem indexed_ok {crt : ChainRuntime} {readLegacy : σ → Uint512 → Option Legacy.Transaction}
    {nFuel : Nat} (hIndexed : BlockState.indexed crt readLegacy nFuel node state = .ok state') :
    ∃ prev, state.Prev node.db = .ok prev ∧ ¬ prev.IsNull ∧ state'.toBlock = state.toBlock ∧
      state'.nTime = state.nTime ∧
      (state'.hashCheckpoint = state.GetHash crt.toLedgerRuntime ∨
        state'.hashCheckpoint = prev.hashCheckpoint) := by
  simp only [BlockState.indexed, bind_eq_ok, reject_eq_ok, pure_eq_ok, Prod.exists] at hIndexed
  obtain ⟨prev, hPrev, u, hNull, stateLast, fLast, -, state₁, hRelease, state₂, hWeight, nTrust, -,
    rfl⟩ := hIndexed
  obtain ⟨hBlock, hTime⟩ := releaseAll_kept hRelease
  obtain ⟨nChannelWeight, rfl⟩ := BlockState.addWeight_eq hWeight
  refine ⟨prev, hPrev, hNull, hBlock, hTime, ?_⟩
  dsimp only
  split
  · exact .inl (hash_congr hBlock hTime)
  · exact .inr rfl

theorem read_written (db : Records) (hash hash' : Uint1024) (state : BlockState) :
    (db.WriteBlock hash state).ReadBlock hash' =
      if hash' = hash then some state.record else db.ReadBlock hash' :=
  Function.update_apply _ _ _ _

/-- A new block is written. -/
theorem Settled.write {chain : ChainState} (hSettled : Settled rt hashFirst db chain)
    (hNew : db.ReadBlock (state.GetHash rt) = none) (hHash : state.GetHash rt ≠ 0)
    (hBits : ¬ state.IsNull) (hPrev : state.hashPrevBlock ≠ 0)
    (hRead : db.ReadBlock state.hashPrevBlock = some prev)
    (hHeight : state.nHeight.toNat = prev.nHeight.toNat + 1)
    (hCheck : state.hashCheckpoint = state.GetHash rt ∨
      state.hashCheckpoint = prev.hashCheckpoint) :
    Settled rt hashFirst (db.WriteBlock (state.GetHash rt) state) chain ∧
      ∀ hash state', db.ReadBlock hash = some state' →
        (db.WriteBlock (state.GetHash rt) state).ReadBlock hash = some state' := by
  have hKeep : ∀ hash state', db.ReadBlock hash = some state' →
      (db.WriteBlock (state.GetHash rt) state).ReadBlock hash = some state' := by
    intro hash state' hOld
    have hNe : hash ≠ state.GetHash rt := by
      intro hSame
      rw [hSame, hNew] at hOld
      cases hOld
    rw [read_written, if_neg hNe, hOld]
  have hRecord {hash : Uint1024} {state' : BlockState}
      (hRead' : (db.WriteBlock (state.GetHash rt) state).ReadBlock hash = some state') :
      (hash = state.GetHash rt ∧ state' = state.record) ∨ db.ReadBlock hash = some state' := by
    rw [read_written] at hRead'
    by_cases hSame : hash = state.GetHash rt
    · rw [if_pos hSame] at hRead'
      exact .inl ⟨hSame, (Option.some.inj hRead').symm⟩
    · rw [if_neg hSame] at hRead'
      exact .inr hRead'
  have hExtends : ExtendsBlocks db (db.WriteBlock (state.GetHash rt) state) :=
    fun hash state' hOld => ⟨state', hKeep hash state' hOld, rfl⟩
  refine ⟨⟨⟨?_, ?_, ?_⟩, ?_, ?_, ?_, hSettled.hashBest, hSettled.genesis,
    hSettled.final.descends.mono hExtends, ?_⟩, hKeep⟩
  · intro hash state' hRead'
    cases hRecord hRead' with
    | inl hSelf =>
        rw [hSelf.1, hSelf.2]
        rfl
    | inr hOld => exact hSettled.tree.key hOld
  · intro hash state' hRead'
    cases hRecord hRead' with
    | inl hSelf =>
        rw [hSelf.2]
        exact hBits
    | inr hOld => exact hSettled.tree.notNull hOld
  · intro hash state' hRead'
    cases hRecord hRead' with
    | inl hSelf =>
        right
        rw [hSelf.2]
        exact ⟨hPrev, prev, hKeep _ _ hRead, hHeight⟩
    | inr hOld =>
        cases hSettled.tree.parent hOld with
        | inl hFirst => exact .inl hFirst
        | inr hNext =>
            right
            obtain ⟨hNot, prev', hPrevRead, hAbove⟩ := hNext
            exact ⟨hNot, prev', hKeep _ _ hPrevRead, hAbove⟩
  · intro hash state' hRead'
    cases hRecord hRead' with
    | inl hSelf =>
        rw [hSelf.1, hSelf.2]
        cases hCheck with
        | inl hOwn => exact .inl hOwn
        | inr hBefore => exact .inr ⟨hPrev, prev, hKeep _ _ hRead, hBefore⟩
    | inr hOld =>
        cases hSettled.labels hash state' hOld with
        | inl hSelf => exact .inl hSelf
        | inr hLabel =>
            right
            obtain ⟨hNot, prev', hPrevRead, hSame⟩ := hLabel
            exact ⟨hNot, prev', hKeep _ _ hPrevRead, hSame⟩
  · rw [read_written, if_neg (Ne.symm hHash), hSettled.zero]
  · obtain ⟨record, hBest, hEqual⟩ := hSettled.best
    exact ⟨record, hKeep _ _ hBest, hEqual⟩
  · obtain ⟨check, hReadCheck, hSame⟩ := Option.map_eq_some_iff.mp hSettled.final.height
    rw [hKeep _ _ hReadCheck, Option.map_some, hSame]

/-- The node and the block with which `Index` sets the block to be the best, if it does. -/
def setsBest (brt : BlockState.BestRuntime σ)
    (readLegacy : σ → Uint512 → Option Legacy.Transaction) (node : Node σ) (state : BlockState) :
    Option (Node σ × BlockState) :=
  match BlockState.indexed brt.toChainRuntime readLegacy brt.nFuel node state with
  | .error _ => none
  | .ok state =>
      let node := { node with db := node.db.WriteBlock (state.GetHash brt.toLedgerRuntime) state }
      if BlockState.better node.chain state then some (node, state) else none

/-- A new block, above one that descends from the checkpoint. -/
structure Arrives (rt : LedgerRuntime) (hashFirst : Uint1024) (node : Node σ)
    (state : BlockState) : Prop where
  settled : Settled rt hashFirst node.db node.chain
  new : node.db.ReadBlock (state.GetHash rt) = none
  hash : state.GetHash rt ≠ 0
  bits : ¬ state.IsNull
  above : ∀ prev, node.db.ReadBlock state.hashPrevBlock = some prev →
    state.nHeight.toNat = prev.nHeight.toNat + 1 ∧
      ∃ a stateA, Descends node.db state.hashPrevBlock a ∧ node.db.ReadBlock a = some stateA ∧
        stateA.hashCheckpoint = node.chain.hashCheckpoint

section

variable {readLegacy : σ → Uint512 → Option Legacy.Transaction}

/-- The block is written, and may be set to be the best. -/
theorem Arrives.written (hArrives : Arrives brt.toLedgerRuntime hashFirst node state)
    (hIndexed : BlockState.indexed brt.toChainRuntime readLegacy brt.nFuel node state =
      .ok state') :
    let node' := { node with
      db := node.db.WriteBlock (state'.GetHash brt.toLedgerRuntime) state' }
    Settled brt.toLedgerRuntime hashFirst node'.db node.chain ∧ ExtendsBlocks node.db node'.db ∧
      ((∀ x ∈ (blockForest node'.db).lineage node.chain.stateBest, ¬ state'.Equal x) →
        ∃ prev, Ready brt.toLedgerRuntime hashFirst node' state' prev) := by
  obtain ⟨prev, hPrev, hNull, hBlock, hTime, hCheck⟩ := indexed_ok hIndexed
  have hHash : state'.GetHash brt.toLedgerRuntime = state.GetHash brt.toLedgerRuntime :=
    hash_congr hBlock hTime
  have hBefore : state'.hashPrevBlock = state.hashPrevBlock := congrArg (·.hashPrevBlock) hBlock
  have hHeight : state'.nHeight = state.nHeight := congrArg (·.nHeight) hBlock
  have hBits : state'.nBits = state.nBits := congrArg (·.nBits) hBlock
  rw [← hHash] at hCheck
  cases prev_read hPrev with
  | inl hNone => exact absurd hNone hNull
  | inr hRead =>
      have hNotFirst : state.hashPrevBlock ≠ 0 := by
        intro hFirst
        rw [hFirst, hArrives.settled.zero] at hRead
        cases hRead
      obtain ⟨hAbove, a, stateA, hDescends, hReadA, hPending⟩ := hArrives.above prev hRead
      have tree := hArrives.settled.tree
      have labels := hArrives.settled.labels
      have hNew : node.db.ReadBlock (state'.GetHash brt.toLedgerRuntime) = none := by
        rw [hHash]
        exact hArrives.new
      have hNonzero : state'.GetHash brt.toLedgerRuntime ≠ 0 := by
        rw [hHash]
        exact hArrives.hash
      have hSet : ¬ state'.IsNull := by
        unfold Block.IsNull
        rw [hBits]
        exact hArrives.bits
      rw [← hBefore] at hNotFirst hRead hDescends
      rw [← hHeight] at hAbove
      obtain ⟨hSettled, hKeep⟩ := hArrives.settled.write hNew hNonzero hSet hNotFirst hRead hAbove
        hCheck
      have hExtends : ExtendsBlocks node.db
          (node.db.WriteBlock (state'.GetHash brt.toLedgerRuntime) state') :=
        fun hash stateOld hOld => ⟨stateOld, hKeep hash stateOld hOld, rfl⟩
      have hLabel := labels.descends tree hReadA
      have hMono := labels.mono tree hDescends hRead hReadA
      rw [hPending] at hLabel hMono
      refine ⟨hSettled, hExtends, fun hApart => ⟨prev, ?_⟩⟩
      exact {
        settled := hSettled
        read := by
          rw [read_written, if_pos rfl]
        notFirst := hNotFirst
        readPrev := hKeep _ _ hRead
        descends := (hDescends.trans hLabel).mono hExtends
        pending := hMono.mono hExtends
        apart := hApart }

/-- What indexing a new block leaves. -/
structure Indexes (rt : LedgerRuntime) (hashFirst : Uint1024) (node node' : Node σ)
    (result : Result Unit) : Prop where
  extends' : ExtendsBlocks node.db node'.db
  descends : Descends node'.db node'.chain.hashCheckpoint node.chain.hashCheckpoint
  ok : result = .ok () → Settled rt hashFirst node'.db node'.chain
  error : ∀ e, result = .error e → SameChain node.chain node'.chain

theorem Settled.descends_self {chain : ChainState} (hSettled : Settled rt hashFirst db chain) :
    Descends db chain.hashCheckpoint chain.hashCheckpoint := by
  obtain ⟨check, hRead⟩ := hSettled.final.descends.read_ancestor
  exact .refl hRead

/-- `Index`. -/
theorem index_spec (hArrives : Arrives brt.toLedgerRuntime hashFirst node state)
    (hSets : ∀ node' state', setsBest brt readLegacy node state = some (node', state') →
      (∀ x ∈ (blockForest node'.db).lineage node'.chain.stateBest, ¬ state'.Equal x) ∧
        Finishes brt node' state') :
    Indexes brt.toLedgerRuntime hashFirst node (BlockState.index brt readLegacy node state).1
      (BlockState.index brt readLegacy node state).2 := by
  have hSelf := hArrives.settled.descends_self
  unfold setsBest at hSets
  unfold BlockState.index
  cases hIndexed : BlockState.indexed brt.toChainRuntime readLegacy brt.nFuel node state with
  | error e => exact ⟨ExtendsBlocks.refl _, hSelf, nofun, fun _ _ => SameChain.refl _⟩
  | ok state' =>
      rw [hIndexed] at hSets
      obtain ⟨hSettled, hExtends, hReady⟩ := hArrives.written hIndexed
      dsimp only at hSets hReady ⊢
      by_cases hBetter : BlockState.better node.chain state' = true
      · rw [if_pos hBetter] at hSets ⊢
        obtain ⟨hApart, hFinishes⟩ := hSets _ _ rfl
        obtain ⟨prev, hReady⟩ := hReady hApart
        generalize hResult : BlockState.setBest brt _ state' = r
        cases hSet : r.2 with
        | error e =>
            obtain ⟨hView, hChain⟩ := hReady.setBest_error hFinishes (e := e)
              (by rw [hResult]; exact hSet)
            rw [hResult] at hView hChain
            refine ⟨hExtends.trans (extends_of_same hView), ?_, nofun, fun _ _ => hChain⟩
            rw [show r.1.chain.hashCheckpoint = _ from congrArg Prod.fst hChain.checkpoint]
            exact (hSelf.mono hExtends).mono (extends_of_same hView)
        | ok u =>
            obtain ⟨hView, hSettled', hOld⟩ := hReady.setBest_ok (by rw [hResult]; exact hSet)
            rw [hResult] at hView hSettled' hOld
            exact ⟨hExtends.trans (extends_of_same hView), hOld.mono (extends_of_same hView),
              fun _ => hSettled', nofun⟩
      · rw [if_neg hBetter]
        exact ⟨hExtends, hSelf.mono hExtends, fun _ => hSettled, nofun⟩

end

end Nexus.Safety
