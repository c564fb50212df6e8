import Nexus.Lib.Run
import Nexus.Safety.Hardening
import Nexus.Safety.Reconnects

/-!
# The best block after a restart

`SetBest` keeps the block that it is called on in memory.  What `Connect` calculates
goes to the copy that is connected, and to disk.  A node that restarts reads the
best block from disk, so it has the same best block as one that did not restart
when connecting the block calculated nothing that the block did not have.  A call may
also go back to a block of the best chain, as `-forkblocks` does: the one above it is
disconnected, and its record names no next block from then on.

## Main results

* `best_mirrored`: in a run of calls on blocks that keep what they have, the best block
  in memory is the stored one after each call.
* `setBest_mirrored_iff`: a call leaves the stored block in memory exactly then.
* `best_not_mirrored`: a block that mints a coin.
-/

namespace Nexus.Safety

open Nexus.Lib
open Nexus.Lib.Checked
open Nexus.Util
open Nexus.Operation
open Nexus.LLD
open Nexus.Ledger
open Nexus.Ledger.BlockState

variable {σ : Type} {rt : LedgerRuntime} {brt : BestRuntime σ}
  {node node' node₁ node₂ : Node σ} {state prev : BlockState}
  {vDisconnect vConnect : List BlockState} {t : Tally}

/-- The best block in memory is the stored one, field by field. -/
def Mirrored (node : Node σ) : Prop :=
  node.db.ReadBlock node.chain.hashBestChain = some node.chain.stateBest

/-- The block has the sums of its transactions `t` on the block before. -/
structure HasSums (t : Tally) (prev state : BlockState) : Prop where
  conflicted : state.fConflicted = false
  fees : state.nFees = 0
  noFees : t.nFees = 0
  mint : t.mint.apply state.nMint = state.nMint
  supply : state.nMoneySupply =
    (if prev.IsNull then 0 else prev.nMoneySupply) + state.nMint.toInt64.toUInt64

/-- The block has the sums of its transactions on a node that it is connected to. -/
def Summed (side : Periphery σ) (node : Node σ) (state : BlockState) : Prop :=
  ∃ prev t, state.Prev node.db = .ok prev ∧ tally side node.db.ledger.txs state.vtx = .ok t ∧
    HasSums t prev state

/-- The steps of `SetBest` before the block itself is connected. -/
def stepsBefore (vDisconnect vConnect : List BlockState) : List Step :=
  vDisconnect.map .disconnect ++ vConnect.reverse.flatMap connectSteps

/-- The block has its sums when `SetBest` comes to connect it. -/
def SummedOnConnect (brt : BestRuntime σ) (node : Node σ) (state : BlockState) : Prop :=
  ∀ vDisconnect vConnect node₁,
    findFork node.db brt.nFuel node.chain.stateBest state [] [] = .ok (vDisconnect, state :: vConnect) →
      runSteps brt state false (stepsBefore vDisconnect vConnect) node = (node₁, .ok ()) →
        Summed brt.side node₁ state

/-- The block is stored as it is, and no block that is disconnected is directly on it, unless it
names none.  What is asked of a block that `SetBest` goes back to. -/
def Uncovered (brt : BestRuntime σ) (node : Node σ) (state : BlockState) : Prop :=
  ∀ vDisconnect, findFork node.db brt.nFuel node.chain.stateBest state [] [] = .ok (vDisconnect, []) →
    state.fConflicted = false ∧
      ((∃ x ∈ vDisconnect, x.hashPrevBlock = state.GetHash brt.toLedgerRuntime) →
        state.hashNextBlock = 0)

/-- A block that is written, on a node whose blocks are stored under their hashes. -/
structure Written (rt : LedgerRuntime) (node : Node σ) (state : BlockState) : Prop where
  genesis : node.chain.stateGenesis.isSome
  keyed : KeyedBlocks rt node.db
  read : node.db.ReadBlock (state.GetHash rt) = some state.record
  /-- No block names itself as the one before it. -/
  apart : state.hashPrevBlock ≠ state.GetHash rt

/-- A call of `SetBest` that succeeds.  Since the call before, blocks were indexed, and the best block
and its record are what they were. -/
structure BestCall (brt : BestRuntime σ) (node : Node σ) (call : Node σ × BlockState)
    (node' : Node σ) : Prop where
  chain : call.1.chain = node.chain
  record : call.1.db.ReadBlock node.chain.hashBestChain = node.db.ReadBlock node.chain.hashBestChain
  written : Written brt.toLedgerRuntime call.1 call.2
  ok : (setBest brt call.1 call.2).2 = .ok ()
  after : node' = (setBest brt call.1 call.2).1

/-! ## The walk -/

section Walk

variable {db : Records} {fork longer longer' : BlockState} {nFuel : Nat}
  {vDisconnect' vConnect' : List BlockState} {P : BlockState → Prop}

/-- The walk back adds the block that it begins with, and blocks that are read. -/
theorem walkLonger_adds (hP : ∀ hash x, db.ReadBlock hash = some x → P x)
    (h : walkLonger db fork nFuel longer vConnect = .ok (longer', vConnect')) :
    (vConnect' = vConnect ∧ longer' = longer) ∨
      (P longer' ∧ ∃ prev rest, longer.Prev db = .ok prev ∧ ¬ prev.IsNull ∧
        vConnect' = vConnect ++ longer :: rest ∧ ∀ x ∈ rest, P x) := by
  induction nFuel generalizing longer vConnect with
  | zero => cases h
  | succ nFuel ih =>
      rw [walkLonger] at h
      split at h
      · right
        simp only [bind_eq_ok, reject_eq_ok] at h
        obtain ⟨prev, hPrev, u, hNull, h⟩ := h
        have hRead := hP _ _ ((prev_read hPrev).resolve_left hNull)
        cases ih h with
        | inl hStays =>
            obtain ⟨rfl, rfl⟩ := hStays
            exact ⟨hRead, longer', [], hPrev, hNull, rfl, List.forall_mem_nil _⟩
        | inr hGoes =>
            obtain ⟨hLonger, prev', rest, -, -, rfl, hRest⟩ := hGoes
            refine ⟨hLonger, prev, prev :: rest, hPrev, hNull, List.append_assoc _ _ _, ?_⟩
            rw [List.forall_mem_cons]
            exact ⟨hRead, hRest⟩
      · obtain ⟨rfl, rfl⟩ := Prod.mk.inj (Except.ok.inj h)
        exact .inl ⟨rfl, rfl⟩

/-- The search only adds blocks to connect. -/
theorem findFork_adds (hP : ∀ hash x, db.ReadBlock hash = some x → P x) (hLonger : P longer)
    (h : findFork db nFuel fork longer vDisconnect vConnect = .ok (vDisconnect', vConnect')) :
    ∃ rest, vConnect' = vConnect ++ rest ∧ ∀ x ∈ rest, P x := by
  induction nFuel generalizing fork longer vDisconnect vConnect with
  | zero => cases h
  | succ nFuel ih =>
      rw [findFork] at h
      split at h
      · obtain ⟨-, rfl⟩ := Prod.mk.inj (Except.ok.inj h)
        exact ⟨[], (List.append_nil _).symm, List.forall_mem_nil _⟩
      · simp only [bind_eq_ok, Prod.exists] at h
        obtain ⟨longer₁, vConnect₁, hWalk, h⟩ := h
        have hAdds : P longer₁ ∧ ∃ rest, vConnect₁ = vConnect ++ rest ∧ ∀ x ∈ rest, P x := by
          cases walkLonger_adds hP hWalk with
          | inl hStays =>
              obtain ⟨rfl, rfl⟩ := hStays
              exact ⟨hLonger, [], (List.append_nil _).symm, List.forall_mem_nil _⟩
          | inr hGoes =>
              obtain ⟨hRead, prev, rest, -, -, rfl, hRest⟩ := hGoes
              refine ⟨hRead, longer :: rest, rfl, ?_⟩
              rw [List.forall_mem_cons]
              exact ⟨hLonger, hRest⟩
        obtain ⟨hLonger₁, rest, rfl, hRest⟩ := hAdds
        split at h
        · obtain ⟨-, rfl⟩ := Prod.mk.inj (Except.ok.inj h)
          exact ⟨rest, rfl, hRest⟩
        · simp only [bind_eq_ok, reject_eq_ok] at h
          obtain ⟨prev, -, u, -, h⟩ := h
          obtain ⟨rest', rfl, hRest'⟩ := ih hLonger₁ h
          refine ⟨rest ++ rest', List.append_assoc _ _ _, fun x hMem => ?_⟩
          exact (List.mem_append.mp hMem).elim (hRest x) (hRest' x)

/-- Nothing is connected, and no block that is disconnected is the new one; or the new one is
connected last. -/
theorem findFork_spec (hP : ∀ hash x, db.ReadBlock hash = some x → P x) (hFork : P fork)
    (hLonger : P longer)
    (h : findFork db nFuel fork longer vDisconnect [] = .ok (vDisconnect', vConnect')) :
    (vConnect' = [] ∧ ∀ x ∈ vDisconnect', x ∈ vDisconnect ∨
        P x ∧ ¬ x.Equal longer ∧ ∃ prev, x.Prev db = .ok prev ∧ ¬ prev.IsNull) ∨
      ∃ prev rest, vConnect' = longer :: rest ∧ longer.Prev db = .ok prev ∧ ¬ prev.IsNull ∧
        ∀ x ∈ rest, P x := by
  induction nFuel generalizing fork vDisconnect with
  | zero => cases h
  | succ nFuel ih =>
      rw [findFork] at h
      split at h
      · obtain ⟨rfl, rfl⟩ := Prod.mk.inj (Except.ok.inj h)
        exact .inl ⟨rfl, fun x hMem => .inl hMem⟩
      · rename_i hApart
        simp only [bind_eq_ok, Prod.exists] at h
        obtain ⟨longer₁, vConnect₁, hWalk, h⟩ := h
        cases walkLonger_adds hP hWalk with
        | inl hStays =>
            obtain ⟨rfl, rfl⟩ := hStays
            rw [if_neg hApart] at h
            simp only [bind_eq_ok, reject_eq_ok] at h
            obtain ⟨prev, hPrev, u, hNull, h⟩ := h
            cases ih (hP _ _ ((prev_read hPrev).resolve_left hNull)) h with
            | inl hBack =>
                refine .inl ⟨hBack.1, fun x hMem => ?_⟩
                cases hBack.2 x hMem with
                | inl hOld =>
                    rw [List.mem_append, List.mem_singleton] at hOld
                    cases hOld with
                    | inl hMem => exact .inl hMem
                    | inr hSame =>
                        rw [hSame]
                        exact .inr ⟨hFork, hApart, prev, hPrev, hNull⟩
                | inr hNew => exact .inr hNew
            | inr hConnects => exact .inr hConnects
        | inr hGoes =>
            right
            obtain ⟨hRead, prev, rest, hPrev, hNull, rfl, hRest⟩ := hGoes
            refine ⟨prev, ?_⟩
            split at h
            · obtain ⟨-, rfl⟩ := Prod.mk.inj (Except.ok.inj h)
              exact ⟨rest, rfl, hPrev, hNull, hRest⟩
            · simp only [bind_eq_ok, reject_eq_ok] at h
              obtain ⟨prev', -, u, -, h⟩ := h
              obtain ⟨rest', rfl, hRest'⟩ := findFork_adds hP hRead h
              refine ⟨rest ++ rest', rfl, hPrev, hNull, fun x hMem => ?_⟩
              exact (List.mem_append.mp hMem).elim (hRest x) (hRest' x)

end Walk

/-- A block that is stored as it was indexed. -/
def HeldBlock (rt : LedgerRuntime) (db : Records) (state : BlockState) : Prop :=
  viewOf db.blocks (state.GetHash rt) = some state.frozen

theorem Written.held (hWritten : Written rt node state) : HeldBlock rt node.db state :=
  congrArg (Option.map frozen) hWritten.read

theorem Written.stored (hWritten : Written rt node state) : Stored rt node.db state :=
  ⟨state.record, hWritten.read, equal_frozen rfl⟩

theorem Mirrored.held (h : Mirrored node) (hKeyed : KeyedBlocks rt node.db) :
    HeldBlock rt node.db node.chain.stateBest := hKeyed.view h

/-- Stored blocks of one hash are equal. -/
theorem HeldBlock.equal {x : BlockState} (hHeld : HeldBlock rt node.db x) (hState : HeldBlock rt node.db state)
    (hHash : x.GetHash rt = state.GetHash rt) : x.Equal state := by
  unfold HeldBlock at hHeld hState
  rw [hHash, hState] at hHeld
  exact equal_frozen (Option.some.inj hHeld).symm

/-! ## A block that is gone back to -/

/-- The record of a block behind `vDisconnect`. -/
def uncovered (rt : LedgerRuntime) (vDisconnect : List BlockState) (state : BlockState) : BlockState :=
  if ∃ x ∈ vDisconnect, x.hashPrevBlock = state.GetHash rt then { state with hashNextBlock := 0 }
  else state

theorem uncovered_cons (rt : LedgerRuntime) (fork : BlockState) (vDisconnect : List BlockState)
    (state : BlockState) :
    uncovered rt vDisconnect (uncovered rt [fork] state) = uncovered rt (fork :: vDisconnect) state := by
  have hHash : (uncovered rt [fork] state).GetHash rt = state.GetHash rt := by
    unfold uncovered
    split <;> rfl
  rw [uncovered, hHash]
  unfold uncovered
  simp only [List.exists_mem_cons_iff, List.not_mem_nil, false_and, exists_false, or_false]
  by_cases hFork : fork.hashPrevBlock = state.GetHash rt
  · simp only [hFork, true_or, if_true]
    split <;> rfl
  · simp only [hFork, false_or, if_false]

theorem getHash_uncovered (rt : LedgerRuntime) (vDisconnect : List BlockState) (state : BlockState) :
    (uncovered rt vDisconnect state).GetHash rt = state.GetHash rt := by
  unfold uncovered
  split <;> rfl

/-- A block is disconnected and erased: the one before it names no next block. -/
theorem disconnect_erases {fork : BlockState} (hKeyed : KeyedBlocks brt.toLedgerRuntime node.db)
    (hRead : node.db.ReadBlock (state.GetHash brt.toLedgerRuntime) = some state.record)
    (hApart : fork.GetHash brt.toLedgerRuntime ≠ state.GetHash brt.toLedgerRuntime)
    (hNull : fork.hashPrevBlock = state.GetHash brt.toLedgerRuntime →
      fork.hashPrevBlock ≠ 0 ∧ ¬ state.IsNull)
    (h : disconnectBlock brt.toChainRuntime brt.side true node fork = .ok node') :
    KeyedBlocks brt.toLedgerRuntime node'.db ∧
      node'.db.ReadBlock (state.GetHash brt.toLedgerRuntime) =
        some (uncovered brt.toLedgerRuntime [fork] state).record := by
  simp only [disconnectBlock, bind_eq_ok, if_true, pure_eq_ok] at h
  obtain ⟨node₁, hDisconnect, rfl⟩ := h
  obtain ⟨prev, hPrev, hBlocks, -, -, -, -⟩ := Disconnect_ok hDisconnect
  have hKeyed₁ : KeyedBlocks brt.toLedgerRuntime node₁.db := by
    refine hKeyed.same ?_
    unfold SameView
    rw [hBlocks]
    exact viewOf_pointed ((prev_read hPrev).imp_right fun hParent => hKeyed.view hParent) 0
  constructor
  · intro hash x hErased
    unfold Records.ReadBlock Records.EraseBlock at hErased
    dsimp only at hErased
    rw [Function.update_apply] at hErased
    split at hErased
    · cases hErased
    · exact hKeyed₁ hash x hErased
  · unfold Records.ReadBlock Records.EraseBlock uncovered
    dsimp only
    rw [Function.update_of_ne hApart.symm, hBlocks]
    simp only [List.mem_singleton, exists_eq_left]
    by_cases hDirect : fork.hashPrevBlock = state.GetHash brt.toLedgerRuntime
    · obtain ⟨hNot, hBits⟩ := hNull hDirect
      rw [BlockState.Prev, if_neg hNot, hDirect, hRead, demand_some] at hPrev
      obtain rfl := Except.ok.inj hPrev
      have hRecord : ¬ state.record.IsNull := hBits
      rw [if_pos hDirect, pointed, if_neg hRecord, getHash_record, Function.update_self]
      rfl
    · rw [if_neg hDirect, pointed]
      split
      · exact hRead
      · rename_i hSome
        have hParent := (prev_read hPrev).resolve_left hSome
        rw [hKeyed _ _ hParent, Function.update_of_ne (Ne.symm hDirect)]
        exact hRead

/-- The blocks above are disconnected and erased one after another. -/
theorem disconnects_erase {best : BlockState} (hKeyed : KeyedBlocks brt.toLedgerRuntime node.db)
    (hRead : node.db.ReadBlock (state.GetHash brt.toLedgerRuntime) = some state.record)
    (hAbove : ∀ x ∈ vDisconnect, x.GetHash brt.toLedgerRuntime ≠ state.GetHash brt.toLedgerRuntime ∧
      (x.hashPrevBlock = state.GetHash brt.toLedgerRuntime → x.hashPrevBlock ≠ 0 ∧ ¬ state.IsNull))
    (h : runSteps brt best true (vDisconnect.map .disconnect) node = (node', .ok ())) :
    node'.db.ReadBlock (state.GetHash brt.toLedgerRuntime) =
      some (uncovered brt.toLedgerRuntime vDisconnect state).record := by
  induction vDisconnect generalizing node state with
  | nil =>
      rw [← (Prod.mk.inj h).1]
      exact hRead
  | cons fork vDisconnect ih =>
      rw [List.forall_mem_cons] at hAbove
      rw [List.map_cons, runSteps] at h
      cases hRun : (Step.disconnect fork).run brt best true node with
      | error e =>
          rw [hRun] at h
          cases (Prod.mk.inj h).2
      | ok node₁ =>
          rw [hRun] at h
          obtain ⟨hKeyed₁, hRead₁⟩ := disconnect_erases hKeyed hRead hAbove.1.1 hAbove.1.2 hRun
          rw [← getHash_uncovered brt.toLedgerRuntime [fork] state] at hRead₁
          have hNull : (uncovered brt.toLedgerRuntime [fork] state).IsNull ↔ state.IsNull := by
            unfold uncovered
            split <;> exact Iff.rfl
          have hRest := ih hKeyed₁ hRead₁ (fun x hMem => by
            rw [getHash_uncovered, hNull]
            exact hAbove.2 x hMem) h
          rwa [getHash_uncovered, uncovered_cons] at hRest

/-- Transactions that are erased leave the blocks. -/
theorem resurrect_erases {crt : ChainRuntime} {side : Periphery σ} {nFuel : Nat}
    {proof : UInt8 × Uint512} (h : resurrect crt side nFuel true node proof = .ok node') :
    node'.db.blocks = node.db.blocks := by
  simp only [resurrect, if_true] at h
  split at h
  · rw [← pure_eq_ok.mp h]
    rfl
  · split at h
    · simp only [bind_eq_ok, pure_eq_ok] at h
      obtain ⟨s, -, rfl⟩ := h
      rfl
    · rw [← pure_eq_ok.mp h]

theorem resurrects_erase {best : BlockState} {vResurrect : List (UInt8 × Uint512)}
    (h : runSteps brt best true (vResurrect.map .resurrect) node = (node', .ok ())) :
    node'.db.blocks = node.db.blocks := by
  induction vResurrect generalizing node with
  | nil => rw [← (Prod.mk.inj h).1]
  | cons proof vResurrect ih =>
      rw [List.map_cons, runSteps] at h
      cases hRun : (Step.resurrect proof).run brt best true node with
      | error e =>
          rw [hRun] at h
          cases (Prod.mk.inj h).2
      | ok node₁ =>
          rw [hRun] at h
          exact (ih h).trans (resurrect_erases hRun)

/-- What is stored of a block that `SetBest` goes back to. -/
theorem steps_erase {best : BlockState} (hKeyed : KeyedBlocks brt.toLedgerRuntime node.db)
    (hRead : node.db.ReadBlock (state.GetHash brt.toLedgerRuntime) = some state.record)
    (hAbove : ∀ x ∈ vDisconnect, x.GetHash brt.toLedgerRuntime ≠ state.GetHash brt.toLedgerRuntime ∧
      (x.hashPrevBlock = state.GetHash brt.toLedgerRuntime → x.hashPrevBlock ≠ 0 ∧ ¬ state.IsNull))
    (h : runSteps brt best true (steps vDisconnect []) node = (node', .ok ())) :
    node'.db.ReadBlock (state.GetHash brt.toLedgerRuntime) =
      some (uncovered brt.toLedgerRuntime vDisconnect state).record := by
  rw [steps, List.reverse_nil, List.flatMap_nil, List.append_nil, runSteps_append] at h
  cases hDisconnects : runSteps brt best true (vDisconnect.map .disconnect) node with
  | mk node₁ result =>
      rw [hDisconnects] at h
      cases result with
      | error e => cases (Prod.mk.inj h).2
      | ok u =>
          have hBlocks := resurrects_erase h
          unfold Records.ReadBlock
          rw [hBlocks]
          exact disconnects_erase hKeyed hRead hAbove hDisconnects

/-- The record is the block itself exactly when the block is uncovered. -/
theorem uncovered_eq_iff :
    (uncovered rt vDisconnect state).record = state ↔ state.fConflicted = false ∧
      ((∃ x ∈ vDisconnect, x.hashPrevBlock = state.GetHash rt) → state.hashNextBlock = 0) := by
  unfold uncovered
  split
  · rename_i hDirect
    constructor
    · intro hSame
      have hConflicted : false = state.fConflicted :=
        congrArg (fun state : BlockState => state.fConflicted) hSame
      have hNext : 0 = state.hashNextBlock :=
        congrArg (fun state : BlockState => state.hashNextBlock) hSame
      exact ⟨hConflicted.symm, fun _ => hNext.symm⟩
    · rintro ⟨hConflicted, hNext⟩
      rw [BlockState.record, ← hNext hDirect, ← hConflicted]
  · rename_i hDirect
    constructor
    · intro hSame
      have hConflicted : false = state.fConflicted :=
        congrArg (fun state : BlockState => state.fConflicted) hSame
      exact ⟨hConflicted.symm, fun hOther => absurd hOther hDirect⟩
    · rintro ⟨hConflicted, -⟩
      rw [BlockState.record, ← hConflicted]

/-! ## The block that is connected last -/

/-- What `Connect` writes is the block itself exactly when the block has its sums. -/
theorem connected_eq_iff : (state.connected t prev).record = state ↔ HasSums t prev state := by
  constructor
  · intro hSame
    have hFees : t.nFees = state.nFees := congrArg BlockState.nFees hSame
    have hReserve : state.nFeeReserve + t.nFees = state.nFeeReserve :=
      congrArg BlockState.nFeeReserve hSame
    have hMint : t.mint.apply state.nMint = state.nMint := congrArg BlockState.nMint hSame
    have hSupply : (if prev.IsNull then 0 else prev.nMoneySupply) +
        (t.mint.apply state.nMint).toInt64.toUInt64 = state.nMoneySupply :=
      congrArg BlockState.nMoneySupply hSame
    have hZero : t.nFees = 0 := UInt64.add_eq_left.mp hReserve
    have hConflicted : false = state.fConflicted :=
      congrArg (fun state : BlockState => state.fConflicted) hSame
    rw [hMint] at hSupply
    exact ⟨hConflicted.symm, hFees.symm.trans hZero, hZero, hMint, hSupply.symm⟩
  · intro hSums
    obtain ⟨hConflicted, hFees, hZero, hMint, hSupply⟩ := hSums
    simp only [BlockState.connected, Tally.onto, BlockState.record, hMint, hZero, UInt64.add_zero,
      ← hSupply]
    rw [← hFees, ← hConflicted]

/-- Transactions that are offered to the pool leave the records. -/
theorem resurrects_base {vResurrect : List (UInt8 × Uint512)}
    (h : runSteps brt state false (vResurrect.map .resurrect) node = (node', .ok ())) :
    SameBase node node' := by
  induction vResurrect generalizing node with
  | nil =>
      rw [← (Prod.mk.inj h).1]
      exact SameBase.refl node
  | cons proof vResurrect ih =>
      rw [List.map_cons, runSteps] at h
      cases hRun : (Step.resurrect proof).run brt state false node with
      | error e =>
          rw [hRun] at h
          cases (Prod.mk.inj h).2
      | ok node₁ =>
          rw [hRun] at h
          exact (resurrect_base hRun).trans (ih h)

theorem harden_base (h : Step.harden.run brt state false node = .ok node') : node'.db = node.db := by
  rw [Step.run, map_eq_ok] at h
  obtain ⟨prev, -, rfl⟩ := h
  unfold HardenCheckpoint
  split
  · split <;> rfl
  · rfl

/-- The steps leave the blocks as they were indexed. -/
theorem steps_view {best : BlockState} {steps : List Step}
    (hKeyed : KeyedBlocks brt.toLedgerRuntime node.db)
    (hHeld : ∀ s, .connect s ∈ steps → HeldBlock brt.toLedgerRuntime node.db s)
    (h : runSteps brt best false steps node = (node', .ok ())) : SameView node.db node'.db := by
  induction steps generalizing node with
  | nil => rw [← (Prod.mk.inj h).1, SameView]
  | cons step steps ih =>
      rw [runSteps] at h
      cases hRun : step.run brt best false node with
      | error e =>
          rw [hRun] at h
          cases (Prod.mk.inj h).2
      | ok node₁ =>
          rw [hRun] at h
          have hView : SameView node.db node₁.db := by
            cases step with
            | disconnect fork => exact (disconnectBlock_view hKeyed hRun).1
            | connect longer => exact (connectBlock_view hKeyed (hHeld _ List.mem_cons_self) hRun).1
            | harden => rw [harden_base hRun, SameView]
            | resurrect proof =>
                exact congrArg (fun db : Records => viewOf db.blocks) (resurrect_base hRun).1
          refine hView.trans (ih (hKeyed.same hView) (fun s hMem => ?_) h)
          unfold HeldBlock
          rw [hView]
          exact hHeld s (List.mem_cons_of_mem _ hMem)

/-- The block is connected last, and its record stays. -/
theorem steps_last
    (h : runSteps brt state false (steps vDisconnect (state :: vConnect)) node = (node', .ok ())) :
    ∃ node₁ node₂, runSteps brt state false (stepsBefore vDisconnect vConnect) node = (node₁, .ok ()) ∧
      connectBlock brt.toChainRuntime brt.side node₁ state = .ok node₂ ∧ node'.db = node₂.db := by
  have hSteps : steps vDisconnect (state :: vConnect) = stepsBefore vDisconnect vConnect ++
      (.connect state :: .harden ::
        (vDisconnect.flatMap fun state => state.vtx.reverse).reverse.map .resurrect) := by
    simp only [steps, stepsBefore, connectSteps, List.reverse_cons, List.flatMap_append,
      List.flatMap_cons, List.flatMap_nil, List.append_nil, List.append_assoc, List.cons_append,
      List.nil_append]
  rw [hSteps, runSteps_append] at h
  cases hBefore : runSteps brt state false (stepsBefore vDisconnect vConnect) node with
  | mk node₁ result =>
      rw [hBefore] at h
      cases result with
      | error e => cases (Prod.mk.inj h).2
      | ok u =>
          dsimp only at h
          rw [runSteps] at h
          cases hConnect : (Step.connect state).run brt state false node₁ with
          | error e =>
              rw [hConnect] at h
              cases (Prod.mk.inj h).2
          | ok node₂ =>
              rw [hConnect] at h
              dsimp only at h
              rw [runSteps] at h
              cases hHarden : Step.harden.run brt state false node₂ with
              | error e =>
                  rw [hHarden] at h
                  cases (Prod.mk.inj h).2
              | ok node₃ =>
                  rw [hHarden] at h
                  have hRest := (resurrects_base h).1
                  exact ⟨node₁, node₂, rfl, hConnect, hRest.trans (harden_base hHarden)⟩

/-- The end of `SetBest` leaves the blocks. -/
theorem finishBest_blocks (brt : BestRuntime σ) (state : BlockState) (vConnect : List BlockState)
    (node : Node σ) : (finishBest brt state vConnect node).db.blocks = node.db.blocks := by
  have hBase := Ready.removes_base brt (vConnect.reverse.flatMap fun state => state.vtx) node
  have hBlocks := congrArg Records.blocks hBase.1
  exact hBlocks

/-! ## One call, and a run of calls -/

/-- How a call that succeeds has run. -/
theorem setBest_runs (hGenesis : node.chain.stateGenesis.isSome)
    (hSet : (setBest brt node state).2 = .ok ()) :
    ∃ vDisconnect vConnect node₁,
      findFork node.db brt.nFuel node.chain.stateBest state [] [] = .ok (vDisconnect, vConnect) ∧
      runSteps brt state vConnect.isEmpty (steps vDisconnect vConnect) node = (node₁, .ok ()) ∧
      (setBest brt node state).1 = finishBest brt state vConnect node₁ := by
  cases Ready.setBest_cases brt node state hGenesis with
  | inl hError =>
      obtain ⟨e, hResult⟩ := hError
      rw [hResult] at hSet
      cases hSet
  | inr hFound =>
      obtain ⟨vDisconnect, vConnect, hFind, node₁, result, hSteps, hEnd⟩ := hFound
      cases hEnd with
      | inl hError =>
          obtain ⟨e, -, hResult⟩ := hError
          rw [hResult] at hSet
          cases hSet
      | inr hOk =>
          obtain ⟨rfl, hResult⟩ := hOk
          exact ⟨vDisconnect, vConnect, node₁, hFind, hSteps, congrArg Prod.fst hResult⟩

/-- A call on a block that is connected last. -/
theorem setBest_connects {rest : List BlockState} {node₁ : Node σ}
    (hWritten : Written brt.toLedgerRuntime node state) (hRead : state.Prev node.db = .ok prev)
    (hNull : ¬ prev.IsNull) (hRest : ∀ x ∈ rest, HeldBlock brt.toLedgerRuntime node.db x)
    (hSteps : runSteps brt state false (steps vDisconnect (state :: rest)) node = (node₁, .ok ())) :
    ∃ node₂ prev₂ t, runSteps brt state false (stepsBefore vDisconnect rest) node = (node₂, .ok ()) ∧
      state.Prev node₂.db = .ok prev₂ ∧ tally brt.side node₂.db.ledger.txs state.vtx = .ok t ∧
      node₁.db.ReadBlock (state.GetHash brt.toLedgerRuntime) = some (state.connected t prev₂).record := by
  obtain ⟨node₂, node₃, hBefore, hConnect, hDb⟩ := steps_last hSteps
  have hView : SameView node.db node₂.db := by
    refine steps_view hWritten.keyed (fun s hMem => ?_) hBefore
    have hSteps' : Step.connect s ∈ steps vDisconnect rest := List.mem_append_left _ hMem
    exact hRest s (Ready.connect_mem_steps hSteps')
  have hNotFirst : state.hashPrevBlock ≠ 0 := by
    intro hFirst
    rw [BlockState.Prev, if_pos hFirst] at hRead
    obtain rfl := Except.ok.inj hRead
    exact hNull rfl
  -- the parent is read under its own hash, so its pointer is no part of the record
  obtain ⟨prev₂, hRead₂, hFrozen⟩ := hView.read ((prev_read hRead).resolve_left hNull)
  have hNull₂ : ¬ prev₂.IsNull := by
    have hBits : prev₂.nBits = prev.nBits := congrArg (·.nBits) hFrozen
    unfold Block.IsNull
    rw [hBits]
    exact hNull
  rw [connectBlock, map_eq_ok] at hConnect
  obtain ⟨⟨state', node₄⟩, hConnect, rfl⟩ := hConnect
  have hKey := (hWritten.keyed.same hView) _ _ hRead₂
  obtain ⟨t, hTally, rfl, hRecord, -, -⟩ :=
    connect_records hRead₂ hKey hNull₂ hNotFirst hWritten.apart hConnect
  refine ⟨node₂, prev₂, t, hBefore, ?_, hTally, ?_⟩
  · rw [BlockState.Prev, if_neg hNotFirst, hRead₂, demand_some]
  · unfold Records.ReadBlock
    rw [hDb]
    exact hRecord

/-- A call leaves the stored block in memory exactly when the block has its sums, or is uncovered if
the call goes back to it. -/
theorem setBest_mirrored_iff (hWritten : Written brt.toLedgerRuntime node state)
    (hMirrored : Mirrored node) (hSet : (setBest brt node state).2 = .ok ()) :
    Mirrored (setBest brt node state).1 ↔
      Uncovered brt node state ∧ SummedOnConnect brt node state := by
  obtain ⟨vDisconnect, vConnect, node₁, hFind, hSteps, hResult⟩ :=
    setBest_runs hWritten.genesis hSet
  have hChain := (Ready.finishBest_view brt state vConnect node₁).2
  have hStored (hash : Uint1024) (x : BlockState) (hRead : node.db.ReadBlock hash = some x) :
      HeldBlock brt.toLedgerRuntime node.db x := hWritten.keyed.view hRead
  unfold Mirrored Records.ReadBlock
  rw [hResult, hChain, finishBest_blocks]
  cases findFork_spec hStored (hMirrored.held hWritten.keyed) hWritten.held hFind with
  | inl hBack =>
      obtain ⟨rfl, hAbove⟩ := hBack
      have hRecord := steps_erase hWritten.keyed hWritten.read (fun x hMem => by
        obtain ⟨hHeld, hApart, prev, hPrev, hNull⟩ := (hAbove x hMem).resolve_left List.not_mem_nil
        refine ⟨fun hSame => hApart (hHeld.equal hWritten.held hSame), fun hDirect => ?_⟩
        have hRead := (prev_read hPrev).resolve_left hNull
        rw [hDirect, hWritten.read] at hRead
        obtain rfl := Option.some.inj hRead
        refine ⟨fun hZero => ?_, hNull⟩
        rw [BlockState.Prev, if_pos hZero] at hPrev
        rw [← Except.ok.inj hPrev] at hNull
        exact hNull rfl) hSteps
      unfold Records.ReadBlock at hRecord
      rw [hRecord, Option.some.injEq, uncovered_eq_iff]
      constructor
      · intro hSame
        refine ⟨fun vDisconnect' hFind' => ?_, fun _ _ _ hFind' => ?_⟩
        · rw [hFind] at hFind'
          rw [← (Prod.mk.inj (Except.ok.inj hFind')).1]
          exact hSame
        · rw [hFind] at hFind'
          cases (Prod.mk.inj (Except.ok.inj hFind')).2
      · intro hBoth
        exact hBoth.1 vDisconnect hFind
  | inr hConnects =>
      obtain ⟨prev, rest, rfl, hPrev, hNull, hRest⟩ := hConnects
      obtain ⟨node₂, prev₂, t, hBefore, hPrev₂, hTally, hRecord⟩ :=
        setBest_connects hWritten hPrev hNull hRest hSteps
      unfold Records.ReadBlock at hRecord
      rw [hRecord, Option.some.injEq, connected_eq_iff]
      constructor
      · intro hSums
        refine ⟨fun _ hFind' => ?_, fun vDisconnect' vConnect' node₂' hFind' hBefore' => ?_⟩
        · rw [hFind] at hFind'
          cases (Prod.mk.inj (Except.ok.inj hFind')).2
        · rw [hFind] at hFind'
          obtain ⟨rfl, hLists⟩ := Prod.mk.inj (Except.ok.inj hFind')
          obtain rfl := (List.cons.inj hLists).2
          rw [hBefore] at hBefore'
          rw [← (Prod.mk.inj hBefore').1]
          exact ⟨prev₂, t, hPrev₂, hTally, hSums⟩
      · rintro ⟨-, hSummed⟩
        obtain ⟨prev₃, t₃, hPrev₃, hTally₃, hSums⟩ := hSummed vDisconnect rest node₂ hFind hBefore
        rw [hPrev₂] at hPrev₃
        rw [hTally] at hTally₃
        rw [Except.ok.inj hPrev₃, Except.ok.inj hTally₃]
        exact hSums

/-- The chain state of a node that reads its best block from disk. -/
def restarted (node : Node σ) : Option ChainState :=
  (node.db.ReadBlock node.chain.hashBestChain).map fun state => { node.chain with stateBest := state }

theorem Mirrored.restarted (h : Mirrored node) : restarted node = some node.chain := by
  rw [Safety.restarted, h, Option.map_some]

/-- Between two calls blocks are indexed. -/
theorem BestCall.before {call : Node σ × BlockState} (hCall : BestCall brt node call node')
    (h : Mirrored node) : Mirrored call.1 := by
  unfold Mirrored
  rw [hCall.chain, hCall.record]
  exact h

/-- A call behind which nothing is indexed. -/
theorem BestCall.of_isOk (hWritten : Written brt.toLedgerRuntime node state)
    (hOk : (setBest brt node state).2.isOk = true) :
    BestCall brt node (node, state) (setBest brt node state).1 where
  chain := rfl
  record := rfl
  written := hWritten
  ok := by
    cases hResult : (setBest brt node state).2 with
    | error e =>
        rw [hResult] at hOk
        cases hOk
    | ok u => rfl
  after := rfl

/-- A call on the best block itself. -/
theorem uncovered_best
    (hFind : findFork node.db brt.nFuel node.chain.stateBest state [] [] = .ok ([], []))
    (hConflicted : state.fConflicted = false) :
    Uncovered brt node state ∧ SummedOnConnect brt node state := by
  refine ⟨fun vDisconnect hFind' => ?_, fun vDisconnect vConnect node₁ hFind' _ => ?_⟩
  · rw [hFind] at hFind'
    obtain rfl := (Prod.mk.inj (Except.ok.inj hFind')).1
    refine ⟨hConflicted, fun hDirect => ?_⟩
    obtain ⟨x, hMem, -⟩ := hDirect
    cases hMem
  · rw [hFind] at hFind'
    cases (Prod.mk.inj (Except.ok.inj hFind')).2

/-- After each call of a run on blocks that have their sums, or that are uncovered, the best block in
memory is the stored one, and a node that restarts there evaluates contracts as one that does not. -/
theorem best_mirrored {start : Node σ} {calls : List (Node σ × BlockState)}
    (hRun : Run (BestCall brt) start calls node) (hStart : Mirrored start)
    (hSums : ∀ call ∈ calls, Uncovered brt call.1 call.2 ∧ SummedOnConnect brt call.1 call.2) :
    Mirrored node ∧ (restarted node).map (fun chain => chain.runtime brt.toLedgerRuntime) =
      some (node.chain.runtime brt.toLedgerRuntime) := by
  have hMirrored : Mirrored node := by
    induction hRun with
    | nil => exact hStart
    | cons hCall hRest ih =>
        rw [List.forall_mem_cons] at hSums
        have hNext := (setBest_mirrored_iff hCall.written (hCall.before hStart) hCall.ok).mpr hSums.1
        rw [← hCall.after] at hNext
        exact ih hNext hSums.2
  rw [hMirrored.restarted, Option.map_some]
  exact ⟨hMirrored, rfl⟩

/-! ## A block on the best one -/

/-- A node whose legacy transactions mint. -/
def exampleBest (nMint : Int32) : BestRuntime (Uint512 → Bool) :=
  { exampleNode.toBestRuntime with side := { exampleSide with legacyMint := fun _ => .add nMint } }

def nextBlock : BlockState := names mainBlock (legacyBlock mainBlock 4 200 3 12)

def nextStates : List BlockState := [names firstBlock firstBlock, names mainBlock mainBlock, nextBlock]

/-- The best block is `mainBlock`, and `nextBlock` is indexed. -/
def nextNode : Node (Uint512 → Bool) :=
  { forkSession.node with db := blockRecords exampleLedger nextStates }

theorem nextNode_reads :
    ((∀ state ∈ nextStates, ¬ state.IsNull) ∧
    (∀ state ∈ nextStates,
      (state.GetHash exampleLedger = firstBlock.GetHash exampleLedger ∧ state.hashPrevBlock = 0 ∧
        state.nHeight = 0) ∨
      (state.hashPrevBlock ≠ 0 ∧
        ∃ prev ∈ (blockRecords exampleLedger nextStates).ReadBlock state.hashPrevBlock,
          state.nHeight.toNat = prev.nHeight.toNat + 1)) ∧
    ∀ state ∈ nextStates, state.hashCheckpoint = state.GetHash exampleLedger ∨
      state.hashPrevBlock ≠ 0 ∧
        ((blockRecords exampleLedger nextStates).ReadBlock state.hashPrevBlock).map
          (·.hashCheckpoint) = some state.hashCheckpoint) ∧
    nextNode.db.ReadBlock 0 = none ∧
    nextNode.db.ReadBlock (firstBlock.GetHash exampleLedger) = some (names firstBlock firstBlock) ∧
    nextNode.db.ReadBlock (mainBlock.GetHash exampleLedger) = some (names mainBlock mainBlock) ∧
    nextNode.db.ReadBlock (nextBlock.GetHash exampleLedger) = some nextBlock.record ∧
    mainBlock.hashPrevBlock ≠ 0 ∧ nextBlock.hashPrevBlock ≠ 0 ∧
    nextNode.chain.stateBest.GetHash exampleLedger = nextNode.chain.hashBestChain ∧
    (nextNode.db.ReadBlock nextNode.chain.hashCheckpoint).map (·.nHeight) =
      some nextNode.chain.nCheckpointHeight ∧
    (∀ x ∈ (blockForest nextNode.db).lineage nextNode.chain.stateBest, ¬ nextBlock.Equal x) ∧
    nextBlock.hashPrevBlock ≠ nextBlock.GetHash exampleLedger := by
  decide +kernel

theorem nextNode_mirrored : Mirrored nextNode := nextNode_reads.2.2.2.1

theorem nextBlock_ready :
    Ready exampleLedger (firstBlock.GetHash exampleLedger) nextNode nextBlock
      (names mainBlock mainBlock) := by
  obtain ⟨⟨hNull, hParent, hLabel⟩, hZero, hFirst, hMain, hNext, hMainPrev, hNextPrev, hBest, hHeight,
    hApart, -⟩ := nextNode_reads
  -- `mainBlock` descends from the checkpoint
  have hDescends : Descends nextNode.db (mainBlock.GetHash exampleLedger)
      (firstBlock.GetHash exampleLedger) := .step hMain hMainPrev (.refl hFirst)
  have hStored : Stored exampleLedger nextNode.db nextNode.chain.stateBest := by
    refine ⟨names mainBlock mainBlock, ?_, (@equal_tells nextNode.db).refl _⟩
    rw [hBest]
    exact hMain
  have hSettled : Settled exampleLedger (firstBlock.GetHash exampleLedger) nextNode.db
      nextNode.chain :=
    ⟨blockRecords_tree hNull hParent, blockRecords_labelled hLabel, hZero, hStored, hBest, rfl,
      ⟨hDescends, hHeight⟩⟩
  exact ⟨hSettled, hNext, hNextPrev, hMain, hDescends, hDescends, hApart⟩

theorem nextBlock_written : Written exampleLedger nextNode nextBlock where
  genesis := nextBlock_ready.settled.genesis
  keyed _ _ := nextBlock_ready.settled.tree.key
  read := nextBlock_ready.read
  apart := nextNode_reads.2.2.2.2.2.2.2.2.2.2

/-- The node once `nextBlock` is the best block. -/
def nextedNode : Node (Uint512 → Bool) := (setBest (exampleBest 0) nextNode nextBlock).1

/-- The walk to `nextBlock`, its transaction and its call, without a mint, and the call on it again,
which changes nothing. -/
theorem nextBlock_sums :
    ((findFork nextNode.db (exampleBest 0).nFuel nextNode.chain.stateBest nextBlock []
        []).toOption = some ([], [nextBlock]) ∧
    (tally (exampleBest 0).side nextNode.db.ledger.txs nextBlock.vtx).toOption =
        some ⟨0, .add 0⟩ ∧
    nextBlock.nMoneySupply = (if (names mainBlock mainBlock).IsNull then 0
        else (names mainBlock mainBlock).nMoneySupply) + nextBlock.nMint.toInt64.toUInt64 ∧
    (setBest (exampleBest 0) nextNode nextBlock).2.isOk = true) ∧
    nextedNode.db.ReadBlock (nextBlock.GetHash exampleLedger) = some nextBlock.record ∧
    nextedNode.chain.stateGenesis.isSome ∧
    (findFork nextedNode.db (exampleBest 0).nFuel nextedNode.chain.stateBest nextBlock []
        []).toOption = some ([], []) ∧
    (setBest (exampleBest 0) nextedNode nextBlock).2.isOk = true := by
  decide +kernel

/-- Without a mint the block has its sums. -/
theorem nextBlock_summed : SummedOnConnect (exampleBest 0) nextNode nextBlock := by
  intro vDisconnect vConnect node₁ hFind hBefore
  obtain ⟨hWalk, hTally, hSupply, -⟩ := nextBlock_sums.1
  rw [toOption_eq_some.mp hWalk] at hFind
  obtain ⟨rfl, hLists⟩ := Prod.mk.inj (Except.ok.inj hFind)
  obtain rfl := (List.cons.inj hLists).2
  rw [← (Prod.mk.inj hBefore).1]
  have hPrev : nextBlock.Prev nextNode.db = .ok (names mainBlock mainBlock) := by
    rw [BlockState.Prev, if_neg nextBlock_ready.notFirst, nextBlock_ready.readPrev, demand_some]
  exact ⟨_, _, hPrev, toOption_eq_some.mp hTally, rfl, rfl, rfl, rfl, hSupply⟩

/-- The call on `nextBlock` connects it. -/
theorem nextBlock_uncovered : Uncovered (exampleBest 0) nextNode nextBlock := by
  intro vDisconnect hFind
  rw [toOption_eq_some.mp nextBlock_sums.1.1] at hFind
  cases (Prod.mk.inj (Except.ok.inj hFind)).2

/-- A block that mints nothing is the best one, and is set to be it once more: it is the same after a
restart. -/
theorem best_mirrored_next : Mirrored (setBest (exampleBest 0) nextedNode nextBlock).1 := by
  have hFirst : BestCall (exampleBest 0) nextNode (nextNode, nextBlock) nextedNode :=
    .of_isOk nextBlock_written nextBlock_sums.1.2.2.2
  obtain ⟨hRead, hGenesis, hFind, hOk⟩ := nextBlock_sums.2
  have hReady : Ready (exampleBest 0).toLedgerRuntime (firstBlock.GetHash exampleLedger) nextNode
      nextBlock (names mainBlock mainBlock) := nextBlock_ready
  have hSet : (setBest (exampleBest 0) nextNode nextBlock).2 = .ok () := hFirst.ok
  have hView := (hReady.setBest_ok hSet).1
  rw [← nextedNode] at hView
  have hWritten : Written exampleLedger nextedNode nextBlock :=
    ⟨hGenesis, nextBlock_written.keyed.same hView, hRead, nextBlock_written.apart⟩
  have hConflicted : nextBlock.fConflicted = false := rfl
  have hAgain : Uncovered (exampleBest 0) nextedNode nextBlock ∧
      SummedOnConnect (exampleBest 0) nextedNode nextBlock :=
    uncovered_best (toOption_eq_some.mp hFind) hConflicted
  refine (best_mirrored (.cons hFirst (.cons (.of_isOk hWritten hOk) (.nil _))) nextNode_mirrored ?_).1
  rw [List.forall_mem_cons, List.forall_mem_singleton]
  refine ⟨⟨nextBlock_uncovered, nextBlock_summed⟩, ?_⟩
  dsimp only
  exact hAgain

/-- What is stored and what is in memory behind a call that mints. -/
theorem nextBlock_minted :
    (setBest (exampleBest 50) nextNode nextBlock).2.isOk = true ∧
    (restarted (setBest (exampleBest 50) nextNode nextBlock).1).map
        (fun chain => (chain.runtime exampleLedger).nBestMoneySupply) = some 50 ∧
    ((setBest (exampleBest 50) nextNode nextBlock).1.chain.runtime
        exampleLedger).nBestMoneySupply = 0 := by
  decide +kernel

/-- A block that mints 50 units: they are in the supply on disk, and not in memory. -/
theorem best_not_mirrored :
    Mirrored nextNode ∧
      BestCall (exampleBest 50) nextNode (nextNode, nextBlock)
        (setBest (exampleBest 50) nextNode nextBlock).1 ∧
      (restarted (setBest (exampleBest 50) nextNode nextBlock).1).map
          (fun chain => (chain.runtime exampleLedger).nBestMoneySupply) = some 50 ∧
      ((setBest (exampleBest 50) nextNode nextBlock).1.chain.runtime exampleLedger).nBestMoneySupply = 0 ∧
      ¬ Mirrored (setBest (exampleBest 50) nextNode nextBlock).1 := by
  obtain ⟨hOk, hStored, hMemory⟩ := nextBlock_minted
  refine ⟨nextNode_mirrored, BestCall.of_isOk nextBlock_written hOk, hStored, hMemory, fun hMirrored => ?_⟩
  rw [hMirrored.restarted, Option.map_some, hMemory] at hStored
  exact absurd hStored (by decide)

end Nexus.Safety
