import Nexus.Safety.Acceptance
import Nexus.Safety.Reorganisations

/-!
# Hardened checkpoints

What a call of `Accept` leaves of the records and of the chain state, and what a run of calls
leaves.  A reorganisation that fails behind the first block that it connects is undone in the
databases, and the checkpoint that it has hardened in memory is not.

## Main results

* `checkpoints_final`: the checkpoint stays on the best chain, over any run of calls.
-/

namespace Nexus.Safety

open Nexus.Lib
open Nexus.Lib.Checked
open Nexus.Util
open Nexus.LLD
open Nexus.Ledger

variable {rt : LedgerRuntime} {db db' : Records} {hashFirst h : Uint1024}
  {state state' : BlockState}
variable {σ τ : Type}

/-! ## Accepting a block -/

variable {nrt : NodeRuntime σ τ} {session after : Session σ τ} {block : TritiumBlock}

/-- The records without the transaction that is open. -/
def committed (session : Session σ τ) : Records := (session.saved.getD session.disk).1

/-- The node and the block with which `Accept` calls `Index`, if it does. -/
def indexes (nrt : NodeRuntime σ τ) (session : Session σ τ) (block : TritiumBlock) :
    Option (Node σ × BlockState) :=
  let art := nrt.accept session.node.chain
  match block.checkAccept art session.node.db with
  | .error _ => none
  | .ok _ =>
      let state := block.state nrt.toRuntime
      match TritiumBlock.writeTxs art block.vtx session.TxnBegin state.fConflicted with
      | (_, none) => none
      | (session, some fConflicted) =>
          let session := TritiumBlock.writeProducers art block session
          some ({ session.node with side := nrt.mount session.node.side session.legacy },
            { state with fConflicted })

/-- The blocks that a call disconnects, as far as it gets. -/
def disconnects (nrt : NodeRuntime σ τ) (session : Session σ τ) (block : TritiumBlock) :
    List BlockState :=
  match (indexes nrt session block).bind fun x =>
      setsBest nrt.toBestRuntime nrt.readLegacy x.1 x.2 with
  | none => []
  | some (node, state) =>
      match BlockState.findFork node.db nrt.nFuel node.chain.stateBest state [] [] with
      | .error _ => []
      | .ok (vDisconnect, _) => vDisconnect

/-- A new block, which differs from the blocks of the best chain as `operator==` compares them, and
whose reorganisation is complete once its first block is connected, if it starts a new timespan. -/
structure Admitted (nrt : NodeRuntime σ τ) (session : Session σ τ) (block : TritiumBlock) :
    Prop where
  new : (committed session).ReadBlock
    ((block.state nrt.toRuntime).GetHash nrt.toLedgerRuntime) = none
  hash : (block.state nrt.toRuntime).GetHash nrt.toLedgerRuntime ≠ 0
  bits : block.nBits ≠ 0
  height : block.nHeight ≠ 0
  sets : ∀ node state node' state', indexes nrt session block = some (node, state) →
    setsBest nrt.toBestRuntime nrt.readLegacy node state = some (node', state') →
      (∀ x ∈ (blockForest node'.db).lineage node'.chain.stateBest, ¬ state'.Equal x) ∧
        Finishes nrt.toBestRuntime node' state'

/-- A session whose records and chain state are settled, and what a transaction left open shows
more. -/
structure SoundSession (rt : LedgerRuntime) (hashFirst : Uint1024) (session : Session σ τ) : Prop where
  settled : Settled rt hashFirst (committed session) session.node.chain
  extends' : ExtendsBlocks (committed session) session.node.db

theorem isDescendant_null {chain : ChainState} {stateFrom check : BlockState} {nFuel : Nat}
    (hNull : check.IsNull) : isDescendant db chain stateFrom nFuel check ≠ .ok true := by
  cases nFuel with
  | zero => nofun
  | succ nFuel =>
      rw [isDescendant, if_pos hNull]
      nofun

/-- A block behind which the checkpoint is pending. -/
theorem isDescendant_ok {chain : ChainState} {stateFrom : BlockState} {nFuel : Nat}
    (hExtends : ExtendsBlocks db db') (tree : Tree rt db hashFirst) (hRead : db.ReadBlock h = some state)
    (hFrozen : state'.frozen = state.frozen)
    (hWalk : isDescendant db' chain stateFrom nFuel state' = .ok true) :
    ∃ a stateA, Descends db h a ∧ db.ReadBlock a = some stateA ∧
      stateA.hashCheckpoint = chain.hashCheckpoint := by
  induction nFuel generalizing h state state' with
  | zero => cases hWalk
  | succ nFuel ih =>
      unfold isDescendant at hWalk
      split at hWalk
      · cases hWalk
      · split at hWalk
        · rename_i hSame
          exact ⟨h, state, .refl hRead, hRead, (check_frozen hFrozen).symm.trans hSame.symm⟩
        · split at hWalk
          · cases hWalk
          · rw [bind_eq_ok] at hWalk
            obtain ⟨prev', hPrev, hWalk⟩ := hWalk
            cases prev_read hPrev with
            | inl hNull => exact absurd hWalk (isDescendant_null hNull)
            | inr hPrevRead =>
                cases tree.parent hRead with
                | inl hFirst =>
                    exfalso
                    unfold BlockState.Prev at hPrev
                    rw [if_pos ((prev_frozen hFrozen).trans hFirst.2.1)] at hPrev
                    obtain rfl := Except.ok.inj hPrev
                    have hNull : ({} : BlockState).IsNull := rfl
                    exact isDescendant_null hNull hWalk
                | inr hNext =>
                    obtain ⟨hNot, prev, hReadPrev, -⟩ := hNext
                    obtain ⟨prev'', hRead'', hPrevFrozen⟩ := hExtends _ _ hReadPrev
                    rw [prev_frozen hFrozen, hRead''] at hPrevRead
                    obtain rfl := Option.some.inj hPrevRead
                    obtain ⟨a, stateA, hDescends, hReadA, hCheck⟩ :=
                      ih hReadPrev hPrevFrozen hWalk
                    exact ⟨a, stateA, .step hRead hNot hDescends, hReadA, hCheck⟩

/-- What `Accept` has checked before it opens a transaction. -/
theorem checkAccept_ok {art : AcceptRuntime σ τ} (hSync : art.Synchronizing = false)
    (hCheck : block.checkAccept art db = .ok ()) :
    ∃ statePrev, db.ReadBlock block.hashPrevBlock = some statePrev ∧
      statePrev.nHeight + 1 = block.nHeight ∧ art.IsDescendant db statePrev = .ok true := by
  simp only [TritiumBlock.checkAccept, hSync, if_true, bind_eq_ok, demand_eq_ok, reject_eq_ok,
    not_not] at hCheck
  obtain ⟨statePrev, hRead, u, hHeight, nTarget, -, u', -, u'', -, hCheck⟩ := hCheck
  simp only [Bool.not_eq_false] at hCheck
  obtain ⟨fDescendant, hDescendant, u₃, hTrue, -⟩ := hCheck
  rw [hTrue] at hDescendant
  exact ⟨statePrev, hRead, hHeight, hDescendant⟩

theorem writeTxs_base (art : AcceptRuntime σ τ) (vtx : List (UInt8 × Uint512))
    (session : Session σ τ) (fConflicted : Bool) :
    (TritiumBlock.writeTxs art vtx session fConflicted).1.node.db.blocks =
        session.node.db.blocks ∧
      (TritiumBlock.writeTxs art vtx session fConflicted).1.node.chain = session.node.chain := by
  induction vtx generalizing session fConflicted with
  | nil => exact ⟨rfl, rfl⟩
  | cons proof vtx ih =>
      unfold TritiumBlock.writeTxs
      cases hWrite : TritiumBlock.writeTx art session fConflicted proof with
      | none => exact ⟨rfl, rfl⟩
      | some next =>
          obtain ⟨next, fConflict⟩ := next
          have hNext : next.node.db.blocks = session.node.db.blocks ∧
              next.node.chain = session.node.chain := by
            unfold TritiumBlock.writeTx at hWrite
            split at hWrite
            · obtain ⟨x, -, hSame⟩ := Option.map_eq_some_iff.mp hWrite
              obtain ⟨rfl, -⟩ := Prod.mk.inj hSame
              exact ⟨rfl, rfl⟩
            · split at hWrite
              · obtain ⟨x, -, hSame⟩ := Option.map_eq_some_iff.mp hWrite
                obtain ⟨rfl, -⟩ := Prod.mk.inj hSame
                exact ⟨rfl, rfl⟩
              · cases hWrite
          obtain ⟨hBlocks, hChain⟩ := ih next fConflict
          exact ⟨hBlocks.trans hNext.1, hChain.trans hNext.2⟩

theorem writeProducers_base (art : AcceptRuntime σ τ) (block : TritiumBlock)
    (session : Session σ τ) :
    (TritiumBlock.writeProducers art block session).node.db.blocks = session.node.db.blocks ∧
      (TritiumBlock.writeProducers art block session).node.chain = session.node.chain := by
  unfold TritiumBlock.writeProducers
  dsimp only
  generalize session.node = node
  induction block.producers generalizing node with
  | nil => exact ⟨rfl, rfl⟩
  | cons tx producers ih =>
      obtain ⟨hBlocks, hChain⟩ := ih
        { node with db := node.db.WriteTx (tx.GetHash art.toRuntime) tx }
      exact ⟨hBlocks, hChain⟩

/-- A call to `Accept`: it ends before `Index`, or as `Index` ends. -/
structure Accepts (nrt : NodeRuntime σ τ) (session after : Session σ τ)
    (node node' : Node σ) (result : Result Unit) : Prop where
  blocks : node.db.blocks = (committed session).blocks
  before : node.chain = session.node.chain
  chain : after.node.chain = node'.chain
  ok : result = .ok () → committed after = node'.db ∧ after.node.db = node'.db
  error : ∀ e, result = .error e → committed after = committed session ∧
    (after.node.db = committed session ∨ after.node.db = node'.db)

theorem acceptState_spec {state : BlockState} {session₀ : Session σ τ}
    (hSaved : session.saved = some session₀.TxnBegin.disk)
    (hBlocks : session.node.db.blocks = (committed session₀).blocks)
    (hChain : session.node.chain = session₀.node.chain) :
    let node := { session.node with side := nrt.mount session.node.side session.legacy }
    Accepts nrt session₀
      (TritiumBlock.acceptState (nrt.accept session₀.node.chain) state session).1 node
      (BlockState.index nrt.toBestRuntime nrt.readLegacy node state).1
      (BlockState.index nrt.toBestRuntime nrt.readLegacy node state).2 := by
  have hDisk : session₀.TxnBegin.disk.1 = committed session₀ := rfl
  intro node
  cases hIndex : BlockState.index nrt.toBestRuntime nrt.readLegacy node state with
  | mk node' result =>
      have hRun : (nrt.accept session₀.node.chain).Index state session.node session.legacy =
          ((node', nrt.unmount node'.side), BlockState.outcome result) := by
        have hParts : (nrt.accept session₀.node.chain).Index state session.node session.legacy =
            (((BlockState.index nrt.toBestRuntime nrt.readLegacy node state).1, nrt.unmount
                (BlockState.index nrt.toBestRuntime nrt.readLegacy node state).1.side),
              BlockState.outcome
                (BlockState.index nrt.toBestRuntime nrt.readLegacy node state).2) := rfl
        rw [hParts, hIndex]
      unfold TritiumBlock.acceptState
      rw [hRun]
      cases result with
      | ok u =>
          have hCheck := @Node.check_base _ nrt.toRuntime nrt.side node'
          simp only [BlockState.outcome]
          split
          · exact ⟨hBlocks, hChain, hCheck.2, fun _ => ⟨hCheck.1, hCheck.1⟩, fun _ h => (by cases h)⟩
          · exact ⟨hBlocks, hChain, rfl, fun _ => ⟨rfl, rfl⟩, fun _ h => (by cases h)⟩
      | error e =>
          cases e with
          | error strError =>
              refine ⟨hBlocks, hChain, rfl, fun h => (by cases h), fun _ _ => ⟨?_, .inl ?_⟩⟩
              · simp only [BlockState.outcome, committed, Session.TxnAbort, Session.withDisk,
                  Session.disk, hSaved, Option.getD_some, Option.getD_none]
                exact hDisk
              · simp only [BlockState.outcome, Session.TxnAbort, Session.withDisk, hSaved,
                  Option.getD_some]
                exact hDisk
          | exception strError =>
              refine ⟨hBlocks, hChain, rfl, fun h => (by cases h), fun _ _ => ⟨?_, .inr rfl⟩⟩
              simp only [BlockState.outcome, committed, hSaved, Option.getD_some]
              exact hDisk

theorem accept_cases (nrt : NodeRuntime σ τ) (session : Session σ τ) (block : TritiumBlock) :
    (indexes nrt session block = none ∧ committed (nrt.Accept session block).1 = committed session ∧
        (nrt.Accept session block).1.node.chain = session.node.chain ∧
        ((nrt.Accept session block).1.node.db = session.node.db ∨
          (nrt.Accept session block).1.node.db.blocks = (committed session).blocks)) ∨
      ∃ node state, indexes nrt session block = some (node, state) ∧
        block.checkAccept (nrt.accept session.node.chain) session.node.db = .ok () ∧
        (∃ fConflicted, state = { block.state nrt.toRuntime with fConflicted }) ∧
        Accepts nrt session (nrt.Accept session block).1 node
          (BlockState.index nrt.toBestRuntime nrt.readLegacy node state).1
          (BlockState.index nrt.toBestRuntime nrt.readLegacy node state).2 := by
  cases hCheck : block.checkAccept (nrt.accept session.node.chain) session.node.db with
  | error e =>
      have hNone : indexes nrt session block = none := by simp only [indexes, hCheck]
      have hAccept : (nrt.Accept session block).1 = session := by
        cases e <;> simp only [NodeRuntime.Accept, TritiumBlock.Accept, hCheck]
      rw [hAccept]
      exact .inl ⟨hNone, rfl, rfl, .inl rfl⟩
  | ok u =>
      obtain ⟨-, hSaved, -⟩ := writeTxs_spec (nrt.accept session.node.chain) block.vtx
        session.TxnBegin (block.state nrt.toRuntime).fConflicted
      obtain ⟨hBlocks, hChain⟩ := writeTxs_base (nrt.accept session.node.chain) block.vtx
        session.TxnBegin (block.state nrt.toRuntime).fConflicted
      have hState : block.state (nrt.accept session.node.chain).toRuntime =
          block.state nrt.toRuntime := rfl
      cases hWrite : TritiumBlock.writeTxs (nrt.accept session.node.chain) block.vtx
          session.TxnBegin (block.state nrt.toRuntime).fConflicted with
      | mk written fConflict =>
          rw [hWrite] at hSaved hBlocks hChain
          have hWritten : written.saved = some session.TxnBegin.disk := hSaved
          simp only [indexes, NodeRuntime.Accept, TritiumBlock.Accept, TritiumBlock.acceptBlock,
            hCheck, hState, hWrite]
          cases fConflict with
          | none =>
              left
              refine ⟨rfl, ?_, hChain, .inr hBlocks⟩
              simp only [committed, hWritten, Option.getD_some]
              rfl
          | some fConflicted =>
              right
              obtain ⟨hBlocks', hChain'⟩ := writeProducers_base
                (nrt.accept session.node.chain) block written
              refine ⟨_, _, rfl, trivial, ⟨fConflicted, rfl⟩, ?_⟩
              exact acceptState_spec hWritten (hBlocks'.trans hBlocks) (hChain'.trans hChain)

/-- What `Accept` has checked of the block that it indexes. -/
theorem arrives (hSound : SoundSession nrt.toLedgerRuntime hashFirst session)
    (hAdmitted : Admitted nrt session block) {node : Node σ} {fConflicted : Bool}
    (hCheck : block.checkAccept (nrt.accept session.node.chain) session.node.db = .ok ())
    (hBlocks : node.db.blocks = (committed session).blocks)
    (hChain : node.chain = session.node.chain) :
    Arrives nrt.toLedgerRuntime hashFirst node
      { block.state nrt.toRuntime with fConflicted } := by
  have hSame : SameView (committed session) node.db := by
    unfold SameView
    rw [hBlocks]
  have hReads : node.db.ReadBlock = (committed session).ReadBlock := hBlocks
  have hSettled : Settled nrt.toLedgerRuntime hashFirst node.db node.chain := by
    rw [hChain]
    exact hSound.settled.same hSame
  refine ⟨hSettled, ?_, hAdmitted.hash, hAdmitted.bits, fun prev hRead => ?_⟩
  · rw [hReads]
    exact hAdmitted.new
  · obtain ⟨statePrev, hPrevRead, hHeight, hDescendant⟩ := checkAccept_ok rfl hCheck
    have hCommitted : (committed session).ReadBlock block.hashPrevBlock = some prev := by
      rw [← hReads]
      exact hRead
    obtain ⟨prev', hRead', hFrozen⟩ := hSound.extends' _ _ hCommitted
    rw [hPrevRead] at hRead'
    obtain rfl := Option.some.inj hRead'
    refine ⟨?_, ?_⟩
    · have hNot := hAdmitted.height
      rw [← hHeight, height_frozen hFrozen] at hNot
      have hBlockHeight : block.nHeight = prev.nHeight + 1 := by
        rw [← hHeight, height_frozen hFrozen]
      show block.nHeight.toNat = _
      rw [hBlockHeight]
      have hSum := UInt32.toNat_add prev.nHeight 1
      have hNonzero : (prev.nHeight + 1).toNat ≠ 0 := fun hZero => hNot (UInt32.toNat_inj.mp hZero)
      have hBound := prev.nHeight.toNat_lt
      have hOne : (1 : UInt32).toNat = 1 := rfl
      omega
    · have hNotNull := hSound.settled.notNull
      have hWalk : isDescendant session.node.db session.node.chain statePrev nrt.nFuel statePrev =
          .ok true := by
        have hWalk : IsDescendant nrt.nFuel session.node.chain session.node.db statePrev =
          .ok true := hDescendant
        unfold IsDescendant at hWalk
        rwa [if_neg hNotNull] at hWalk
      obtain ⟨a, stateA, hDescends, hReadA, hPending⟩ :=
        isDescendant_ok hSound.extends' hSound.settled.tree hCommitted hFrozen hWalk
      refine ⟨a, stateA, hDescends.mono (extends_of_same hSame), ?_, ?_⟩
      · rw [hReads]
        exact hReadA
      · rw [hChain]
        exact hPending

/-- A call keeps what is sound, and its checkpoint descends from the one before. -/
theorem accept_sound (hSound : SoundSession nrt.toLedgerRuntime hashFirst session)
    (hAdmitted : Admitted nrt session block) :
    SoundSession nrt.toLedgerRuntime hashFirst (nrt.Accept session block).1 ∧
      ExtendsBlocks (committed session) (committed (nrt.Accept session block).1) ∧
      Descends (committed (nrt.Accept session block).1)
        (nrt.Accept session block).1.node.chain.hashCheckpoint
        session.node.chain.hashCheckpoint := by
  have hSelf := hSound.settled.descends_self
  cases accept_cases nrt session block with
  | inl hNone =>
      obtain ⟨-, hCommitted, hChain, hDb⟩ := hNone
      refine ⟨⟨?_, ?_⟩, ?_, ?_⟩
      · rw [hCommitted, hChain]
        exact hSound.settled
      · rw [hCommitted]
        cases hDb with
        | inl hSame =>
            rw [hSame]
            exact hSound.extends'
        | inr hBlocks =>
            apply extends_of_same
            unfold SameView
            rw [hBlocks]
      · rw [hCommitted]
        exact ExtendsBlocks.refl _
      · rw [hCommitted, hChain]
        exact hSelf
  | inr hIndex =>
      obtain ⟨node, state, hIndexes, hCheck, ⟨fConflicted, rfl⟩, hAccepts⟩ := hIndex
      have hArrives : Arrives nrt.toLedgerRuntime hashFirst node
          { block.state nrt.toRuntime with fConflicted } :=
        arrives hSound hAdmitted hCheck hAccepts.blocks hAccepts.before
      have hSpec := index_spec hArrives fun node' state' hSets =>
        hAdmitted.sets _ _ node' state' hIndexes hSets
      have hBefore : ExtendsBlocks (committed session) node.db := by
        apply extends_of_same
        unfold SameView
        rw [hAccepts.blocks]
      generalize BlockState.index nrt.toBestRuntime nrt.readLegacy node _ = r at hSpec hAccepts
      cases hResult : r.2 with
      | ok u =>
          obtain ⟨hCommitted, hDb⟩ := hAccepts.ok hResult
          refine ⟨⟨?_, ?_⟩, ?_, ?_⟩
          · rw [hCommitted, hAccepts.chain]
            exact hSpec.ok hResult
          · rw [hCommitted, hDb]
            exact ExtendsBlocks.refl _
          · rw [hCommitted]
            exact hBefore.trans hSpec.extends'
          · rw [hCommitted, hAccepts.chain, ← hAccepts.before]
            exact hSpec.descends
      | error e =>
          obtain ⟨hCommitted, hDb⟩ := hAccepts.error e hResult
          have hChain := hSpec.error e hResult
          rw [hAccepts.before, ← hAccepts.chain] at hChain
          refine ⟨⟨?_, ?_⟩, ?_, ?_⟩
          · rw [hCommitted]
            exact hSound.settled.congr hChain
          · rw [hCommitted]
            cases hDb with
            | inl hSame =>
                rw [hSame]
                exact ExtendsBlocks.refl _
            | inr hSame =>
                rw [hSame]
                exact hBefore.trans hSpec.extends'
          · rw [hCommitted]
            exact ExtendsBlocks.refl _
          · have hCheckpoint : (nrt.Accept session block).1.node.chain.hashCheckpoint =
                session.node.chain.hashCheckpoint := congrArg Prod.fst hChain.checkpoint
            rw [hCommitted, hCheckpoint]
            exact hSelf

/-- A call disconnects no block that the checkpoint descends from. -/
theorem disconnects_apart (hSound : SoundSession nrt.toLedgerRuntime hashFirst session)
    (hAdmitted : Admitted nrt session block)
    (hDescends : Descends (committed session) session.node.chain.hashCheckpoint h) :
    ∀ x ∈ disconnects nrt session block, x.GetHash nrt.toLedgerRuntime ≠ h := by
  intro x hMem
  unfold disconnects at hMem
  cases accept_cases nrt session block with
  | inl hNone =>
      rw [hNone.1, Option.bind_none] at hMem
      cases hMem
  | inr hIndex =>
      obtain ⟨node, state, hIndexes, hCheck, ⟨fConflicted, rfl⟩, hAccepts⟩ := hIndex
      have hArrives : Arrives nrt.toLedgerRuntime hashFirst node
          { block.state nrt.toRuntime with fConflicted } :=
        arrives hSound hAdmitted hCheck hAccepts.blocks hAccepts.before
      rw [hIndexes, Option.bind_some] at hMem
      cases hSets : setsBest nrt.toBestRuntime nrt.readLegacy node
          { block.state nrt.toRuntime with fConflicted } with
      | none =>
          rw [hSets] at hMem
          cases hMem
      | some r =>
          obtain ⟨node', state'⟩ := r
          rw [hSets] at hMem
          obtain ⟨hApart, -⟩ := hAdmitted.sets _ _ node' state' hIndexes hSets
          unfold setsBest at hSets
          split at hSets
          · cases hSets
          · rename_i stateIndexed hIndexed
            obtain ⟨-, hExtends, hReady⟩ := hArrives.written hIndexed
            dsimp only at hSets hReady
            split at hSets
            · obtain ⟨rfl, rfl⟩ := Prod.mk.inj (Option.some.inj hSets)
              obtain ⟨prev, hReady⟩ := hReady hApart
              dsimp only at hMem
              split at hMem
              · cases hMem
              · rename_i vDisconnect vConnect hFind
                have hBefore : ExtendsBlocks (committed session) node.db := by
                  apply extends_of_same
                  unfold SameView
                  rw [hAccepts.blocks]
                have hHere := hDescends.mono (hBefore.trans hExtends)
                rw [← hAccepts.before] at hHere
                exact (hReady.found hFind).1 x hMem h
                  ((hReady.descends_self hReady.descends).trans hHere)
            · cases hSets

/-- A call to `Accept` with a block that is admitted. -/
def Admits (nrt : NodeRuntime σ τ) (session : Session σ τ) (block : TritiumBlock)
    (after : Session σ τ) : Prop :=
  Admitted nrt session block ∧ (nrt.Accept session block).1 = after

/-- **In a run of calls with blocks that are admitted, the checkpoint stays on the best chain, each
descends from the ones before it, and no block that was hardened is disconnected.** -/
theorem checkpoints_final {start : Session σ τ} {blocks : List TritiumBlock}
    (hSound : SoundSession nrt.toLedgerRuntime hashFirst start)
    (hRun : Run (Admits nrt) start blocks session) :
    SoundSession nrt.toLedgerRuntime hashFirst session ∧
      Final (committed session) session.node.chain ∧
      Descends (committed session) session.node.chain.hashCheckpoint
        start.node.chain.hashCheckpoint ∧
      ∀ hash, Descends (committed start) start.node.chain.hashCheckpoint hash →
        ∀ block, Admitted nrt session block → ∀ state ∈ disconnects nrt session block,
          state.GetHash nrt.toLedgerRuntime ≠ hash := by
  have hInvariant : SoundSession nrt.toLedgerRuntime hashFirst session ∧
      ExtendsBlocks (committed start) (committed session) ∧
      Descends (committed session) session.node.chain.hashCheckpoint
        start.node.chain.hashCheckpoint := by
    refine hRun.invariant (I := fun session => SoundSession nrt.toLedgerRuntime hashFirst session ∧
      ExtendsBlocks (committed start) (committed session) ∧
      Descends (committed session) session.node.chain.hashCheckpoint
        start.node.chain.hashCheckpoint) ?_ ⟨hSound, ExtendsBlocks.refl _, hSound.settled.descends_self⟩
    rintro session block _ ⟨hSession, hExtends, hDescends⟩ ⟨hAdmitted, rfl⟩
    obtain ⟨hNext, hMore, hNew⟩ := accept_sound hSession hAdmitted
    exact ⟨hNext, hExtends.trans hMore, hNew.trans (hDescends.mono hMore)⟩
  obtain ⟨hSession, hExtends, hDescends⟩ := hInvariant
  refine ⟨hSession, hSession.settled.final, hDescends, ?_⟩
  intro hash hHardened block hAdmitted
  exact disconnects_apart hSession hAdmitted (hDescends.trans (hHardened.mono hExtends))

/-! ## A reorganisation that fails -/

/-- A node on which nothing is in floating point, and every legacy transaction is connected. -/
def exampleNode : NodeRuntime (Uint512 → Bool) (Uint512 → Bool) where
  toLedgerRuntime := exampleLedger
  GetCoinbaseReward _ _ _ _ := 0
  GetReleasedReserve _ _ _ _ := 0
  Weight _ _ := .ok 1
  CheckConsistency _ _ := none
  side := exampleSide
  leaves node _ := node
  nFuel := 9
  GetNextTargetRequired _ _ _ := .ok 1
  CheckStake _ _ := .ok true
  poolLegacy _ _ := none
  readLegacy _ _ := none
  hasLegacy legacy := legacy
  writeLegacy legacy hash := Function.update legacy hash true
  hasLegacy_write := exampleAccept.hasLegacy_write
  mount _ legacy := legacy
  unmount legacy := legacy

theorem neZero_channels : NeZero 3 := ⟨by decide⟩

/-- A block on another one, with one legacy transaction. -/
def legacyBlock (prev : BlockState) (nNonce nTime : UInt64) (nWeight : BitVec 128)
    (hashTx : Uint512) : BlockState :=
  haveI : NeZero 3 := neZero_channels
  { nVersion := 9, hashPrevBlock := prev.GetHash exampleLedger, nChannel := CHANNEL.STAKE,
    nHeight := prev.nHeight + 1, nBits := 1, nNonce, nTime,
    vtx := [(TRANSACTION.LEGACY, hashTx)],
    nChannelWeight := Function.update (fun _ => 0) 0 nWeight }

/-- A block that names another one as the pending checkpoint. -/
def names (check state : BlockState) : BlockState :=
  { state with hashCheckpoint := check.GetHash exampleLedger }

def mainBlock : BlockState := legacyBlock firstBlock 1 100 2 10
def sideBlock : BlockState := legacyBlock firstBlock 2 100 1 11

/-- A block half an hour behind `sideBlock`, with a transaction that is in that block too. -/
def sideTip : BlockState := legacyBlock sideBlock 3 1900 2 11

def forkBlocks : List BlockState :=
  [names firstBlock firstBlock, names mainBlock mainBlock, names sideBlock sideBlock,
    names sideBlock sideTip]

def forkRecords : Records := blockRecords exampleLedger forkBlocks

/-- The best block is `mainBlock`, and the first block is the checkpoint. -/
def forkSession : Session (Uint512 → Bool) (Uint512 → Bool) where
  node :=
    { db := forkRecords
      chain :=
        { stateBest := names mainBlock mainBlock
          stateGenesis := some (names firstBlock firstBlock)
          hashBestChain := mainBlock.GetHash exampleLedger
          hashCheckpoint := firstBlock.GetHash exampleLedger
          nBestHeight := 1 }
      side := fun _ => false }
  legacy hash := hash = 12

/-- The block that makes the side branch the heavier one. -/
def sideLast : TritiumBlock :=
  { nVersion := 9, hashPrevBlock := sideTip.GetHash exampleLedger, nChannel := CHANNEL.STAKE,
    nHeight := 3, nBits := 1, nTime := 2000, vProducer := [{ nTimestamp := 1950 }] }

/-- A block on the best one. -/
def mainLast : TritiumBlock :=
  { nVersion := 9, hashPrevBlock := mainBlock.GetHash exampleLedger, nChannel := CHANNEL.STAKE,
    nHeight := 2, nBits := 1, nTime := 200, vtx := [(TRANSACTION.LEGACY, 12)] }

/-- Records of blocks that name themselves, or what the block before them names. -/
theorem blockRecords_labelled {vStates : List BlockState}
    (hLabel : ∀ state ∈ vStates, state.hashCheckpoint = state.GetHash rt ∨
      state.hashPrevBlock ≠ 0 ∧ ((blockRecords rt vStates).ReadBlock state.hashPrevBlock).map
        (·.hashCheckpoint) = some state.hashCheckpoint) : Labelled (blockRecords rt vStates) := by
  intro hash state hRead
  obtain ⟨hMem, hHash⟩ := of_blockRecords hRead
  cases hLabel state hMem with
  | inl hSelf => exact .inl (hSelf.trans hHash)
  | inr hBefore =>
      right
      obtain ⟨prev, hPrevRead, hSame⟩ := Option.map_eq_some_iff.mp hBefore.2
      exact ⟨hBefore.1, prev, hPrevRead, hSame.symm⟩

theorem forkSession_sound :
    SoundSession exampleNode.toLedgerRuntime (firstBlock.GetHash exampleLedger) forkSession where
  settled :=
    { tree := blockRecords_tree (by decide +kernel) (by decide +kernel)
      labels := blockRecords_labelled (by decide +kernel)
      zero := by decide +kernel
      best := ⟨names mainBlock mainBlock, by decide +kernel, (@equal_tells forkRecords).refl _⟩
      hashBest := by decide +kernel
      genesis := rfl
      final :=
        { descends := by
            have hMain : forkRecords.ReadBlock (mainBlock.GetHash exampleLedger) =
                some (names mainBlock mainBlock) := by decide +kernel
            have hFirst : forkRecords.ReadBlock (firstBlock.GetHash exampleLedger) =
                some (names firstBlock firstBlock) := by decide +kernel
            exact .step hMain (by decide +kernel) (.refl hFirst)
          height := by decide +kernel } }
  extends' := ExtendsBlocks.refl _

/-- `Accept` returns false with the checkpoint on the side branch. -/
theorem checkpoint_leaves_chain :
    SoundSession exampleNode.toLedgerRuntime (firstBlock.GetHash exampleLedger) forkSession ∧
      (exampleNode.Accept forkSession sideLast).2 = .returned false ∧
      ¬ Final (committed (exampleNode.Accept forkSession sideLast).1)
        (exampleNode.Accept forkSession sideLast).1.node.chain := by
  refine ⟨forkSession_sound, by decide +kernel, ?_⟩
  intro hFinal
  have hChain : (exampleNode.Accept forkSession sideLast).1.node.chain.hashBestChain =
      mainBlock.GetHash exampleLedger ∧
      (exampleNode.Accept forkSession sideLast).1.node.chain.hashCheckpoint =
        sideBlock.GetHash exampleLedger := by decide +kernel
  have hDescends := hFinal.descends
  rw [hChain.1, hChain.2] at hDescends
  cases hDescends.parent (b := firstBlock.GetHash exampleLedger) (by decide +kernel) with
  | inl hSame => exact absurd hSame (by decide +kernel)
  | inr hFirst =>
      cases hFirst.2.parent (b := 0) (by decide +kernel) with
      | inl hSame => exact absurd hSame (by decide +kernel)
      | inr hNull => exact hNull.1 rfl

theorem mainLast_admitted : Admitted exampleNode forkSession mainLast where
  new := by decide +kernel
  hash := by decide +kernel
  bits := by decide
  height := by decide
  sets := by
    intro node state node' state' hIndexes hSets
    have hAll : ((indexes exampleNode forkSession mainLast).bind fun x =>
        setsBest exampleNode.toBestRuntime exampleNode.readLegacy x.1 x.2).all (fun r =>
          decide (∀ x ∈ (blockForest r.1.db).lineage r.1.chain.stateBest, ¬ r.2.Equal x) &&
            (r.1.db.ReadBlock r.2.hashPrevBlock).all fun prev =>
              !IsNewTimespan r.1.db r.1.chain.hashCheckpoint prev) = true := by
      decide +kernel
    rw [hIndexes, Option.bind_some, hSets, Option.all_some, Bool.and_eq_true,
      decide_eq_true_eq] at hAll
    refine ⟨hAll.1, fun prev hRead hNew => ?_⟩
    have hNot := hAll.2
    rw [Option.mem_def.mp hRead, Option.all_some, hNew] at hNot
    cases hNot

/-- `Accept` sets `mainLast` to be the best, on the chain of the checkpoint. -/
theorem checkpoints_final_on_tip :
    (exampleNode.Accept forkSession mainLast).1.node.chain.nBestHeight = 2 ∧
      Final (committed (exampleNode.Accept forkSession mainLast).1)
        (exampleNode.Accept forkSession mainLast).1.node.chain :=
  ⟨by decide +kernel,
    (checkpoints_final forkSession_sound (Run.single ⟨mainLast_admitted, rfl⟩)).2.1⟩

end Nexus.Safety
