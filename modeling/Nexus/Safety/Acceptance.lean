import Nexus.Ledger.Tritium
import Nexus.Safety.Claims

/-!
# The transaction of an accepted block

`Accept` opens a transaction over the databases.  It is aborted where `Index` returns
false and committed where it returns true.  The returns for a transaction that is not
found, and every exception, leave it open.
-/

namespace Nexus.Safety

open Nexus.Lib.Bytes
open Nexus.Lib.Checked
open Nexus.Util
open Nexus.LLD
open Nexus.Ledger

variable {σ τ : Type} (rt : AcceptRuntime σ τ) (block : TritiumBlock)

/-- A call that has opened a transaction has closed it once, with a commit if it returns true; in
any other end the databases are read as they were, or as they were when the transaction was
opened. -/
def Closes (session : Session σ τ) : Session σ τ × Outcome → Prop
  | (after, outcome) =>
      (outcome ≠ .returned true ∧ after.txns = session.txns ∧ after.disk = session.disk) ∨
        (outcome ≠ .returned true ∧ after.txns = session.txns ++ [.TxnBegin, .TxnAbort] ∧
          after.disk = session.TxnBegin.disk) ∨
        (outcome = .returned true ∧ after.txns = session.txns ++ [.TxnBegin, .TxnCommit])

/-- A transaction of a block is in the pool, among its conflicts or on disk. -/
def Found (session : Session σ τ) (proof : UInt8 × Uint512) : Prop :=
  (proof.1 = TRANSACTION.TRITIUM ∧ (TritiumBlock.readTx session.node proof.2).isSome) ∨
    (proof.1 = TRANSACTION.LEGACY ∧ (TritiumBlock.readLegacy rt session proof.2).isSome)

/-- The transactions of a block are found, and `Index` returns once they are written. -/
def Completes (session : Session σ τ) : Prop :=
  (∀ proof ∈ block.vtx, Found rt session proof) ∧
    ∀ written fConflicted,
      TritiumBlock.writeTxs rt block.vtx session block.fConflicted = (written, some fConflicted) →
        let state := { block.state rt.toRuntime with fConflicted }
        let session := TritiumBlock.writeProducers rt block written
        (rt.Index state session.node session.legacy).2 ≠ .threw

variable {rt block} {session after : Session σ τ}

/-! ## Writing the transactions -/

theorem found_tritium {hash : Uint512} :
    Found rt session (TRANSACTION.TRITIUM, hash) ↔
      (TritiumBlock.readTx session.node hash).isSome := by
  have hNe : TRANSACTION.TRITIUM ≠ TRANSACTION.LEGACY := by decide
  simp only [Found, hNe, true_and, false_and, or_false]

theorem found_legacy {hash : Uint512} :
    Found rt session (TRANSACTION.LEGACY, hash) ↔
      (TritiumBlock.readLegacy rt session hash).isSome := by
  have hNe : TRANSACTION.LEGACY ≠ TRANSACTION.TRITIUM := by decide
  simp only [Found, hNe, true_and, false_and, false_or]

/-- A write that goes through keeps the transaction open, finds its transaction, and hides none. -/
theorem writeTx_eq_some {fConflicted fConflict : Bool} {proof : UInt8 × Uint512}
    (h : TritiumBlock.writeTx rt session fConflicted proof = some (after, fConflict)) :
    after.txns = session.txns ∧ after.saved = session.saved ∧ Found rt session proof ∧
      ∀ proof', Found rt after proof' ↔ Found rt session proof' := by
  obtain ⟨nType, hash⟩ := proof
  unfold TritiumBlock.writeTx at h
  by_cases hTritium : nType = TRANSACTION.TRITIUM
  · subst hTritium
    rw [if_pos rfl, Option.map_eq_some_iff] at h
    obtain ⟨⟨tx, fConflict⟩, hRead, hAfter⟩ := h
    obtain ⟨rfl, -⟩ := Prod.mk.inj hAfter
    have hFound : (TritiumBlock.readTx session.node hash).isSome :=
      Option.isSome_of_eq_some hRead
    refine ⟨rfl, rfl, found_tritium.mpr hFound, ?_⟩
    intro proof'
    refine or_congr (and_congr_right fun _ => ?_) Iff.rfl
    simp only [TritiumBlock.readTx, Records.WriteTx, LedgerDB.ReadTx, Function.update_apply]
      at hFound ⊢
    by_cases hSame : proof'.2 = hash
    · rw [hSame, if_pos rfl]
      cases hConflict : session.node.pool.mapConflicts hash with
      | some tx' => simp
      | none =>
          rw [hConflict] at hFound
          cases hPool : session.node.pool.find hash with
          | some tx' => simp [hPool]
          | none => simpa [hPool] using hFound
    · rw [if_neg hSame]
  · rw [if_neg hTritium] at h
    by_cases hLegacy : nType = TRANSACTION.LEGACY
    · subst hLegacy
      rw [if_pos rfl, Option.map_eq_some_iff] at h
      obtain ⟨fConflict, hRead, hAfter⟩ := h
      obtain ⟨rfl, -⟩ := Prod.mk.inj hAfter
      have hFound : (TritiumBlock.readLegacy rt session hash).isSome :=
        Option.isSome_of_eq_some hRead
      refine ⟨rfl, rfl, found_legacy.mpr hFound, ?_⟩
      intro proof'
      refine or_congr Iff.rfl (and_congr_right fun _ => ?_)
      simp only [TritiumBlock.readLegacy, rt.hasLegacy_write] at hFound ⊢
      by_cases hSame : hash = proof'.2
      · rw [← hSame]
        cases hPool : rt.poolLegacy session.node.side hash with
        | some fConflict' => simp
        | none =>
            rw [hPool] at hFound
            simpa using hFound
      · simp [hSame]
    · rw [if_neg hLegacy] at h
      cases h

theorem writeTx_eq_none {fConflicted : Bool} {proof : UInt8 × Uint512}
    (h : TritiumBlock.writeTx rt session fConflicted proof = none) : ¬ Found rt session proof := by
  obtain ⟨nType, hash⟩ := proof
  unfold TritiumBlock.writeTx at h
  by_cases hTritium : nType = TRANSACTION.TRITIUM
  · subst hTritium
    rw [if_pos rfl, Option.map_eq_none_iff] at h
    rw [found_tritium, h]
    decide
  · rw [if_neg hTritium] at h
    by_cases hLegacy : nType = TRANSACTION.LEGACY
    · subst hLegacy
      rw [if_pos rfl, Option.map_eq_none_iff] at h
      rw [found_legacy, h]
      decide
    · rintro (⟨hType, -⟩ | ⟨hType, -⟩)
      · exact hTritium hType
      · exact hLegacy hType

/-- Writing the transactions keeps the transaction open, and gets through where each is found. -/
theorem writeTxs_spec (rt : AcceptRuntime σ τ) (vtx : List (UInt8 × Uint512)) (session : Session σ τ) (fConflicted : Bool) :
    (TritiumBlock.writeTxs rt vtx session fConflicted).1.txns = session.txns ∧
      (TritiumBlock.writeTxs rt vtx session fConflicted).1.saved = session.saved ∧
      ((TritiumBlock.writeTxs rt vtx session fConflicted).2.isSome ↔
        ∀ proof ∈ vtx, Found rt session proof) := by
  induction vtx generalizing session fConflicted with
  | nil => simp [TritiumBlock.writeTxs]
  | cons proof vtx ih =>
      unfold TritiumBlock.writeTxs
      cases hWrite : TritiumBlock.writeTx rt session fConflicted proof with
      | none =>
          have hNot := writeTx_eq_none hWrite
          refine ⟨rfl, rfl, ?_⟩
          simp [hNot]
      | some next =>
          obtain ⟨after, fConflict⟩ := next
          obtain ⟨hTxns, hSaved, hFound, hKeep⟩ := writeTx_eq_some hWrite
          obtain ⟨hTxns', hSaved', hSome⟩ := ih after fConflict
          refine ⟨hTxns'.trans hTxns, hSaved'.trans hSaved, ?_⟩
          simp only [hSome, hKeep, List.forall_mem_cons, hFound, true_and]

/-! ## Accepting -/

/-- Behind the writes, the transaction is closed where `Index` returns. -/
theorem acceptState_closes_iff {state : BlockState} (hTxns : after.txns = session.TxnBegin.txns)
    (hSaved : after.saved = session.TxnBegin.saved) :
    Closes session (TritiumBlock.acceptState rt state after) ↔
      (rt.Index state after.node after.legacy).2 ≠ .threw := by
  have hBegin : after.txns = session.txns ++ [.TxnBegin] := hTxns
  have hDisk : after.saved = some session.TxnBegin.disk := hSaved
  unfold TritiumBlock.acceptState
  cases hIndex : rt.Index state after.node after.legacy with
  | mk next outcome =>
      obtain ⟨node, legacy⟩ := next
      cases outcome with
      | threw => simp [Closes, hBegin]
      | returned fResult =>
          cases fResult with
          | false =>
              have hAbort : ({ after with node, legacy } : Session σ τ).TxnAbort.disk =
                  session.TxnBegin.disk := by
                simp [Session.TxnAbort, Session.disk, Session.withDisk, hDisk]
              refine iff_of_true (Or.inr (Or.inl ⟨by simp, ?_, hAbort⟩)) (by simp)
              simp [Session.TxnAbort, hBegin]
          | true =>
              by_cases hBest : state.GetHash rt.toLedgerRuntime = node.chain.hashBestChain
              · simp [Closes, Session.TxnCommit, hBegin, hBest]
              · simp [Closes, Session.TxnCommit, hBegin, hBest]

/-- **`Accept` closes the transaction that it opens exactly where a check fails before it is
opened, or every transaction of the block is found and `Index` returns.** -/
theorem accept_closes_iff (rt : AcceptRuntime σ τ) (block : TritiumBlock) (session : Session σ τ) :
    Closes session (block.Accept rt session) ↔
      (block.checkAccept rt session.node.db = .ok () → Completes rt block session.TxnBegin) := by
  unfold TritiumBlock.Accept
  cases hCheck : block.checkAccept rt session.node.db with
  | error e =>
      cases e <;> simp [Closes]
  | ok u =>
      obtain ⟨hTxns, hSaved, hSome⟩ :=
        writeTxs_spec rt block.vtx session.TxnBegin block.fConflicted
      have hFlag : (block.state rt.toRuntime).fConflicted = block.fConflicted := rfl
      simp only [TritiumBlock.acceptBlock, hFlag, Completes, ← hSome, true_imp_iff]
      cases hWrite : TritiumBlock.writeTxs rt block.vtx session.TxnBegin block.fConflicted with
      | mk after fConflict =>
          rw [hWrite] at hTxns hSaved
          cases fConflict with
          | none =>
              have hBegin : after.txns = session.txns ++ [.TxnBegin] := hTxns
              simp [Closes, hBegin]
          | some fConflicted =>
              have hCloses : ∀ state, Closes session (TritiumBlock.acceptState rt state
                  (TritiumBlock.writeProducers rt block after)) ↔ _ :=
                fun state => acceptState_closes_iff hTxns hSaved
              simp only [hCloses]
              simp

/-- A node without a legacy side, whose pool connects every transaction. -/
def exampleSide {σ : Type} : Periphery σ where
  legacyMint _ := .add 0
  connectLegacy s _ _ _ := .ok s
  disconnectLegacy s _ _ _ := .ok s
  eraseLegacy s _ := .ok s
  resurrectLegacy s _ _ := .ok s
  hasLegacy _ _ := false
  removeLegacyConflict s _ := s
  removeLegacy s _ := s
  sort vtx := vtx.insertionSort fun tx tx' => tx.nSequence ≤ tx'.nSequence
  sort_perm vtx := List.perm_insertionSort _ vtx
  sort_sorted vtx := by
    have : Std.Total fun tx tx' : Transaction => tx.nSequence ≤ tx'.nSequence :=
      ⟨fun tx tx' => UInt32.le_total tx.nSequence tx'.nSequence⟩
    have : IsTrans Transaction fun tx tx' => tx.nSequence ≤ tx'.nSequence :=
      ⟨fun tx tx' tx'' => UInt32.le_trans⟩
    exact List.pairwise_insertionSort _ vtx
  Check _ := .ok true
  connectMemory s _ _ _ := (s, .returned true)
  hasLegacy_connect _ _ _ _ := rfl
  disconnectMemory _ s _ _ := (s, true)
  TxnBegin s := s
  TxnAbort s := s
  TxnCommit s := s

/-- A node on which nothing is in floating point, and every block is indexed. -/
def exampleAccept : AcceptRuntime Unit (Uint512 → Bool) where
  toRuntime := exampleRuntime
  SK1024 bytes := BitVec.ofNat 1024 (leNat bytes % (2 ^ 1024 - 105))
  hashGenesis := 1
  fPrivate := false
  CurrentBlockVersion := 8
  StartBlockTimelock _ := 0
  Ambassador _ := []
  Developer _ := []
  DEVELOPER := []
  GetCoinstakeReward _ _ _ _ := 0
  GetNextTargetRequired _ _ _ := .ok 1
  Synchronizing := false
  IsDescendant _ _ := .ok true
  CheckStake _ _ := .ok true
  poolLegacy _ _ := none
  hasLegacy legacy := legacy
  writeLegacy legacy hash := Function.update legacy hash true
  hasLegacy_write legacy hash hash' := by
    by_cases hSame : hash = hash'
    · simp [hSame]
    · simp [hSame, Ne.symm hSame]
  Index _ node legacy := ((node, legacy), .returned true)
  side := exampleSide

/-- A node with a block at height 1. -/
def openSession : Session Unit (Uint512 → Bool) where
  node :=
    { db :=
        { blocks hash := if hash = 5 then some { nHeight := 1, nBits := 1, nTime := 10 } else none }
      side := () }
  legacy _ := false

/-- The block after it, with a transaction that no one has. -/
def missingBlock : TritiumBlock :=
  { nVersion := 8, hashPrevBlock := 5, nChannel := CHANNEL.HASH, nHeight := 2, nBits := 1
    nTime := 20, producer := { nTimestamp := 15 }, vtx := [(TRANSACTION.TRITIUM, 9)] }

theorem exampleAccept_hasLegacy (legacy : Uint512 → Bool) (hash hash' : Uint512) :
    exampleAccept.hasLegacy (exampleAccept.writeLegacy legacy hash) hash' =
      (decide (hash = hash') || exampleAccept.hasLegacy legacy hash') :=
  exampleAccept.hasLegacy_write legacy hash hash'

/-- The node, with an exception out of `Index`. -/
def throwingAccept : AcceptRuntime Unit (Uint512 → Bool) :=
  { exampleAccept with
    hasLegacy_write := exampleAccept_hasLegacy
    Index := fun _ node legacy => ((node, legacy), .threw) }

/-- The block without transactions. -/
def emptyBlock : TritiumBlock := { missingBlock with vtx := [] }

/-- A session in which a transaction was opened, and nothing behind it, is not closed. -/
theorem not_closes_of_open {r : Session σ τ × Outcome} (hBefore : session.txns = [])
    (hTxns : r.1.txns = [.TxnBegin]) : ¬ Closes session r := by
  obtain ⟨after, outcome⟩ := r
  have hAfter : after.txns = [.TxnBegin] := hTxns
  simp [Closes, hAfter, hBefore]

/-- The transaction stays open where `Index` throws, and where `Accept` returns false for a
transaction that is not found. -/
theorem accept_leaves_open :
    ¬ Closes openSession (emptyBlock.Accept throwingAccept openSession) ∧
      ¬ Closes openSession (missingBlock.Accept exampleAccept openSession) :=
  ⟨not_closes_of_open rfl (by decide +kernel), not_closes_of_open rfl (by decide +kernel)⟩

end Nexus.Safety
