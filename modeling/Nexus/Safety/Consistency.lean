import Nexus.Safety.Acceptance

/-!
# The consistency check of the memory pool

`Check` goes through the signature chains of the pool.  A chain that follows the last
hash on disk keeps its beginning, as far as its transactions follow each other; what is
behind it is disconnected in one transaction of the overlays.  A chain that does not
follow the last hash is reset to the disk, and the loop is left with it.
-/

namespace Nexus.Safety

open Nexus.Util
open Nexus.LLD
open Nexus.Ledger

/-- The side of a node whose pool is executed in the memory overlays: a transaction is
disconnected by calls to them. -/
structure OverlaySide (rt : Runtime) (σ : Type) extends Periphery σ where
  memory : σ → Memory
  /-- The calls of `Disconnect`, and what it returns. -/
  calls : FLAGS → Memory → Records → Transaction → List Memory.Call × Bool
  memory_disconnect : ∀ nFlags s db tx,
    memory (disconnectMemory nFlags s db tx).1 =
      (calls nFlags (memory s) db tx).1.foldl (Memory.call rt nFlags) (memory s)
  disconnect_result : ∀ nFlags s db tx,
    (disconnectMemory nFlags s db tx).2 = (calls nFlags (memory s) db tx).2
  memory_begin : ∀ s, memory (TxnBegin s) = (memory s).TxnBegin .MEMPOOL
  memory_commit : ∀ s, memory (TxnCommit s) = (memory s).TxnCommit .MEMPOOL
  memory_removeConflict : ∀ s hashTx, memory (removeLegacyConflict s hashTx) = memory s
  memory_remove : ∀ s hashTx, memory (removeLegacy s hashTx) = memory s

variable {rt : Runtime} {σ : Type} (side : OverlaySide rt σ) (db : Records)

/-- The overlays once all of some transactions are disconnected, one after another. -/
def disconnected (nFlags : FLAGS) : Memory → List Transaction → Option Memory
  | memory, [] => some memory
  | memory, tx :: vtx =>
      if (side.calls nFlags memory db tx).2 then
        disconnected nFlags ((side.calls nFlags memory db tx).1.foldl (Memory.call rt nFlags) memory) vtx
      else none

/-- No transaction is open over the overlays, and what they hold is committed. -/
def Closed (memory : Memory) : Prop :=
  memory.states.pending = none ∧ memory.claims.pending = none ∧ memory.proofs.pending = none ∧
    memory.contracts.pending = none

/-- What is left of the overlays when all of some transactions have been rolled back: reset to the
disk while nothing is open, or disconnected in transactions of the overlays that are committed. -/
inductive RolledBack : Memory → List Transaction → Memory → Prop
  | refl (memory : Memory) : RolledBack memory [] memory
  | erase {memory memory₁ memory' : Memory} {vtx vtx' : List Transaction}
      (hClosed : Closed memory)
      (hErase : disconnected side db .ERASE memory vtx = some memory₁)
      (h : RolledBack memory₁ vtx' memory') : RolledBack memory (vtx ++ vtx') memory'
  | txn {memory memory₁ memory' : Memory} {vtx vtx' : List Transaction}
      (hTxn : disconnected side db .MEMPOOL (memory.TxnBegin .MEMPOOL) vtx = some memory₁)
      (h : RolledBack (memory₁.TxnCommit .MEMPOOL) vtx' memory') :
      RolledBack memory (vtx ++ vtx') memory'

/-- A transaction follows another. -/
def Follows (rt : Runtime) (tx txNext : Transaction) : Prop := txNext.hashPrevTx = tx.GetHash rt

/-- A chain starts with a first transaction, or at the last hash on disk. -/
def Rooted (hashGenesis : Uint256) (vtx : List Transaction) : Prop :=
  ∀ tx ∈ vtx.head?, tx.IsFirst ∨ db.ReadLast hashGenesis = some tx.hashPrevTx

/-- A chain that starts at the ledger, and whose transactions follow each other. -/
def Connected (rt : Runtime) (hashGenesis : Uint256) (vtx : List Transaction) : Prop :=
  Rooted db hashGenesis vtx ∧ vtx.IsChain (Follows rt)

instance (rt : Runtime) : DecidableRel (Follows rt) := fun tx txNext => by
  unfold Follows
  infer_instance

/-- What `Check` disconnects is disconnected, and it meets no chain that it leaves as it is. -/
def Clears : Memory → List (Uint256 × List Transaction) → Prop
  | _, [] => True
  | memory, (hashGenesis, vtx) :: chains =>
      (Rooted db hashGenesis vtx ∧ vtx.IsChain (Follows rt) ∧ Clears memory chains) ∨
        (Rooted db hashGenesis vtx ∧ ¬ vtx.IsChain (Follows rt) ∧
          ∃ memory₁,
            disconnected side db .MEMPOOL (memory.TxnBegin .MEMPOOL)
              (vtx.drop (Mempool.sequenced rt vtx).length).reverse = some memory₁ ∧
            Clears (memory₁.TxnCommit .MEMPOOL) chains) ∨
        (¬ Rooted db hashGenesis vtx ∧ (db.ReadLast hashGenesis).isSome ∧
          (disconnected side db .ERASE memory vtx.reverse).isSome ∧
          ∀ chain ∈ chains, Connected db rt chain.1 chain.2)

variable {side db}

theorem closed_commit (memory : Memory) : Closed (memory.TxnCommit .MEMPOOL) := by
  have hPending : ∀ {κ ν : Type} [DecidableEq κ] (layers : Lib.Overlay.Layers κ ν),
      layers.memoryCommit.pending = none := by
    intro κ ν _ layers
    unfold Lib.Overlay.Layers.memoryCommit
    cases hPending : layers.pending with
    | none => exact hPending
    | some p => rfl
  exact ⟨hPending _, hPending _, hPending _, hPending _⟩

/-! ## Sequences -/

theorem sequenced_cons_cons {tx txNext : Transaction} {vtx : List Transaction} :
    Mempool.sequenced rt (tx :: txNext :: vtx) =
      if Follows rt tx txNext then tx :: Mempool.sequenced rt (txNext :: vtx) else [tx] := rfl

theorem sequenced_begins (rt : Runtime) (vtx : List Transaction) : Mempool.sequenced rt vtx <+: vtx := by
  induction vtx with
  | nil => exact List.prefix_refl []
  | cons tx vtx ih =>
      cases vtx with
      | nil => exact List.prefix_refl [tx]
      | cons txNext vtx =>
          rw [sequenced_cons_cons]
          by_cases hFollows : Follows rt tx txNext
          · rw [if_pos hFollows]
            exact (List.prefix_cons_inj tx).mpr ih
          · rw [if_neg hFollows]
            exact ⟨txNext :: vtx, rfl⟩

theorem sequenced_head (rt : Runtime) (tx : Transaction) (vtx : List Transaction) :
    ∃ vtx', Mempool.sequenced rt (tx :: vtx) = tx :: vtx' := by
  cases vtx with
  | nil => exact ⟨[], rfl⟩
  | cons txNext vtx =>
      rw [sequenced_cons_cons]
      by_cases hFollows : Follows rt tx txNext
      · exact ⟨_, if_pos hFollows⟩
      · exact ⟨[], if_neg hFollows⟩

theorem sequenced_chain (vtx : List Transaction) :
    (Mempool.sequenced rt vtx).IsChain (Follows rt) := by
  induction vtx with
  | nil => exact .nil
  | cons tx vtx ih =>
      cases vtx with
      | nil => exact .singleton tx
      | cons txNext vtx =>
          rw [sequenced_cons_cons]
          by_cases hFollows : Follows rt tx txNext
          · rw [if_pos hFollows]
            obtain ⟨vtx', hHead⟩ := sequenced_head rt txNext vtx
            rw [hHead] at ih ⊢
            exact .cons_cons hFollows ih
          · rw [if_neg hFollows]
            exact .singleton tx

/-- The sequence is the longest beginning whose transactions follow each other. -/
theorem length_le_sequenced {vtx vtx' : List Transaction} (hPrefix : vtx' <+: vtx)
    (hChain : vtx'.IsChain (Follows rt)) : vtx'.length ≤ (Mempool.sequenced rt vtx).length := by
  induction vtx generalizing vtx' with
  | nil => exact hPrefix.length_le
  | cons tx vtx ih =>
      cases vtx' with
      | nil => exact Nat.zero_le _
      | cons tx' vtx' =>
          obtain ⟨rfl, hRest⟩ := List.cons_prefix_cons.mp hPrefix
          cases vtx' with
          | nil =>
              obtain ⟨vtx₁, hHead⟩ := sequenced_head rt tx' vtx
              rw [hHead]
              simp
          | cons txNext vtx' =>
              cases vtx with
              | nil => simp at hRest
              | cons txNext' vtx =>
                  obtain ⟨rfl, -⟩ := List.cons_prefix_cons.mp hRest
                  cases hChain with
                  | cons_cons hFollows hTail =>
                      rw [sequenced_cons_cons, if_pos hFollows]
                      exact Nat.succ_le_succ (ih hRest hTail)

theorem sequenced_eq {vtx : List Transaction} (h : vtx.IsChain (Follows rt)) :
    Mempool.sequenced rt vtx = vtx :=
  (sequenced_begins rt vtx).eq_of_length_le (length_le_sequenced (List.prefix_refl vtx) h)

/-! ## Removing -/

/-- Of the transactions of a pool, those of a list are removed; the disk stays. -/
structure Removes (rt : Runtime) (node node' : Node σ) (vtx : List Transaction) : Prop where
  db : node'.db = node.db
  ledger : node'.pool.mapLedger =
    node.pool.mapLedger.filter fun entry => entry.1 ∉ vtx.map (·.GetHash rt)

theorem Removes.refl (node : Node σ) : Removes rt node node [] := by
  constructor
  · rfl
  · simp

theorem Removes.trans {node node₁ node' : Node σ} {vtx vtx' : List Transaction}
    (h : Removes rt node node₁ vtx) (h' : Removes rt node₁ node' vtx') :
    Removes rt node node' (vtx ++ vtx') := by
  constructor
  · exact h'.db.trans h.db
  · rw [h'.ledger, h.ledger, List.filter_filter]
    refine List.filter_congr ?_
    intro entry _
    simp only [List.map_append, List.mem_append, not_or, Bool.decide_and, Bool.and_comm]

theorem filter_eq_self_of_find {pool : Mempool} {hashTx : Uint512} (h : pool.find hashTx = none) :
    (pool.mapLedger.filter fun entry => entry.1 ≠ hashTx) = pool.mapLedger := by
  refine List.filter_eq_self.mpr ?_
  intro entry hMem
  have hNe : hashTx ≠ entry.1 := by
    simpa using List.lookup_eq_none_iff.mp h entry hMem
  exact decide_eq_true hNe.symm

theorem filter_singleton (ledger : List (Uint512 × Transaction)) (tx : Transaction) :
    (ledger.filter fun entry => entry.1 ∉ [tx].map (·.GetHash rt)) =
      ledger.filter fun entry => entry.1 ≠ tx.GetHash rt := by
  refine List.filter_congr ?_
  intro entry _
  simp only [List.map_cons, List.map_nil, List.mem_singleton, ne_eq]

theorem removes_remove (side : OverlaySide rt σ) (node : Node σ) (tx : Transaction) :
    Removes rt node (node.Remove side.toPeriphery (tx.GetHash rt)) [tx] ∧
      side.memory (node.Remove side.toPeriphery (tx.GetHash rt)).side = side.memory node.side := by
  unfold Node.Remove
  dsimp only
  split
  · refine ⟨⟨rfl, ?_⟩, side.memory_removeConflict _ _⟩
    rw [filter_singleton]
  · rename_i hFind
    refine ⟨⟨rfl, ?_⟩, (side.memory_remove _ _).trans (side.memory_removeConflict _ _)⟩
    rw [filter_singleton]
    exact (filter_eq_self_of_find hFind).symm

/-- The transactions behind the last hash are removed: all of them, or up to one that is not
disconnected. -/
theorem removeBehind_spec (node : Node σ) (hashLast : Uint512) (vtx vtxKept : List Transaction)
    (hKept : ∀ tx ∈ vtxKept.head?, tx.GetHash rt = hashLast)
    (hBehind : ∀ tx ∈ vtx, tx.GetHash rt ≠ hashLast) :
    (∃ memory, disconnected side node.db .MEMPOOL (side.memory node.side) vtx = some memory ∧
        side.memory (node.removeBehind rt side.toPeriphery hashLast (vtx ++ vtxKept)).side = memory ∧
        Removes rt node (node.removeBehind rt side.toPeriphery hashLast (vtx ++ vtxKept)) vtx) ∨
      disconnected side node.db .MEMPOOL (side.memory node.side) vtx = none ∧
        ∃ vtxDone tx vtxLeft, vtx = vtxDone ++ tx :: vtxLeft ∧
          Removes rt node (node.removeBehind rt side.toPeriphery hashLast (vtx ++ vtxKept))
            vtxDone := by
  induction vtx generalizing node with
  | nil =>
      refine Or.inl ⟨_, rfl, ?_⟩
      cases vtxKept with
      | nil => exact ⟨rfl, .refl node⟩
      | cons tx vtxKept =>
          have hEq := hKept tx rfl
          rw [List.nil_append, Node.removeBehind, if_pos hEq]
          exact ⟨rfl, .refl node⟩
  | cons tx vtx ih =>
      have hNe := hBehind tx List.mem_cons_self
      have hMemory := side.memory_disconnect .MEMPOOL node.side node.db tx
      have hResult := side.disconnect_result .MEMPOOL node.side node.db tx
      rw [List.cons_append, Node.removeBehind, if_neg hNe, disconnected, ← hResult, ← hMemory]
      cases hDisconnect : side.disconnectMemory .MEMPOOL node.side node.db tx with
      | mk s fResult =>
          cases fResult with
          | false =>
              refine Or.inr ⟨rfl, [], tx, vtx, rfl, ?_⟩
              exact ⟨rfl, by simp⟩
          | true =>
              obtain ⟨hRemove, hSame⟩ := removes_remove side { node with side := s } tx
              have hStep : Removes rt node
                  ({ node with side := s }.Remove side.toPeriphery (tx.GetHash rt)) [tx] :=
                ⟨hRemove.db, hRemove.ledger⟩
              have hDb : ({ node with side := s }.Remove side.toPeriphery (tx.GetHash rt)).db =
                  node.db := hRemove.db
              rcases ih ({ node with side := s }.Remove side.toPeriphery (tx.GetHash rt))
                (fun tx' hMem => hBehind tx' (List.mem_cons_of_mem tx hMem)) with
                ⟨memory, hDone, hEnd, hRest⟩ | ⟨hFail, vtxDone, txStuck, vtxLeft, rfl, hRest⟩
              · rw [hSame, hDb] at hDone
                exact Or.inl ⟨memory, hDone, hEnd, hStep.trans hRest⟩
              · rw [hSame, hDb] at hFail
                exact Or.inr ⟨hFail, tx :: vtxDone, txStuck, vtxLeft, rfl, hStep.trans hRest⟩

theorem removes_erase (rt : Runtime) (node : Node σ) (tx : Transaction) :
    Removes rt node
      (if (node.pool.find (tx.GetHash rt)).isSome then node.erase rt tx else node) [tx] := by
  by_cases hFind : (node.pool.find (tx.GetHash rt)).isSome
  · rw [if_pos hFind]
    refine ⟨rfl, ?_⟩
    rw [filter_singleton]
    rfl
  · rw [if_neg hFind]
    refine ⟨rfl, ?_⟩
    rw [filter_singleton]
    exact (filter_eq_self_of_find (by simpa using hFind)).symm

theorem side_erase (rt : Runtime) (node : Node σ) (tx : Transaction) :
    (if (node.pool.find (tx.GetHash rt)).isSome then node.erase rt tx else node).side =
      node.side := by
  by_cases hFind : (node.pool.find (tx.GetHash rt)).isSome
  · rw [if_pos hFind]
    rfl
  · rw [if_neg hFind]

/-- A chain is erased: all of it, or up to a transaction that is not disconnected. -/
theorem eraseChain_spec (side : OverlaySide rt σ) (node : Node σ) (vtx : List Transaction) :
    (∃ memory, disconnected side node.db .ERASE (side.memory node.side) vtx = some memory ∧
        side.memory (node.eraseChain rt side.toPeriphery vtx).side = memory ∧
        Removes rt node (node.eraseChain rt side.toPeriphery vtx) vtx) ∨
      disconnected side node.db .ERASE (side.memory node.side) vtx = none ∧
        ∃ vtxDone tx vtxLeft, vtx = vtxDone ++ tx :: vtxLeft ∧
          Removes rt node (node.eraseChain rt side.toPeriphery vtx) vtxDone := by
  induction vtx generalizing node with
  | nil => exact Or.inl ⟨_, rfl, rfl, .refl node⟩
  | cons tx vtx ih =>
      have hMemory := side.memory_disconnect .ERASE node.side node.db tx
      have hResult := side.disconnect_result .ERASE node.side node.db tx
      rw [Node.eraseChain, disconnected, ← hResult, ← hMemory]
      cases hDisconnect : side.disconnectMemory .ERASE node.side node.db tx with
      | mk s fResult =>
          cases fResult with
          | false =>
              refine Or.inr ⟨rfl, [], tx, vtx, rfl, ?_⟩
              exact ⟨rfl, by simp⟩
          | true =>
              have hErase := removes_erase rt { node with side := s } tx
              have hSide := side_erase rt { node with side := s } tx
              dsimp only at hErase hSide ⊢
              generalize hNext : (if (node.pool.find (tx.GetHash rt)).isSome then
                Node.erase rt { node with side := s } tx else { node with side := s }) = next
                at hErase hSide ⊢
              have hStep : Removes rt node next [tx] := ⟨hErase.db, hErase.ledger⟩
              have hDb : next.db = node.db := hErase.db
              rcases ih next with
                ⟨memory, hDone, hEnd, hRest⟩ | ⟨hFail, vtxDone, txStuck, vtxLeft, rfl, hRest⟩
              · rw [hSide, hDb] at hDone
                exact Or.inl ⟨memory, hDone, hEnd, hStep.trans hRest⟩
              · rw [hSide, hDb] at hFail
                exact Or.inr ⟨hFail, tx :: vtxDone, txStuck, vtxLeft, rfl, hStep.trans hRest⟩

/-- The hashes of some transactions are different. -/
def Distinct (rt : Runtime) (vtx : List Transaction) : Prop := (vtx.map (·.GetHash rt)).Nodup

/-- A chain that follows the disk keeps its sequence, and loses what is behind it, or less if that
is not disconnected. -/
theorem checkSequence_spec (side : OverlaySide rt σ) (node : Node σ) {vtx : List Transaction} (hDistinct : Distinct rt vtx) :
    (vtx.IsChain (Follows rt) ∧ node.checkSequence rt side.toPeriphery vtx = node) ∨
      ¬ vtx.IsChain (Follows rt) ∧
        ((∃ memory,
            disconnected side node.db .MEMPOOL ((side.memory node.side).TxnBegin .MEMPOOL)
              (vtx.drop (Mempool.sequenced rt vtx).length).reverse = some memory ∧
            side.memory (node.checkSequence rt side.toPeriphery vtx).side =
              memory.TxnCommit .MEMPOOL ∧
            Removes rt node (node.checkSequence rt side.toPeriphery vtx)
              (vtx.drop (Mempool.sequenced rt vtx).length).reverse) ∨
          disconnected side node.db .MEMPOOL ((side.memory node.side).TxnBegin .MEMPOOL)
              (vtx.drop (Mempool.sequenced rt vtx).length).reverse = none ∧
            ∃ vtxDone tx vtxLeft,
              (vtx.drop (Mempool.sequenced rt vtx).length).reverse = vtxDone ++ tx :: vtxLeft ∧
                Removes rt node (node.checkSequence rt side.toPeriphery vtx) vtxDone) := by
  by_cases hChain : vtx.IsChain (Follows rt)
  · refine Or.inl ⟨hChain, ?_⟩
    simp only [Node.checkSequence, sequenced_eq hChain]
    cases vtx.getLast? with
    | none => rfl
    | some tx => simp only [if_true]
  · refine Or.inr ⟨hChain, ?_⟩
    have hSplit := List.prefix_iff_eq_append.mp (sequenced_begins rt vtx)
    have hLength : (Mempool.sequenced rt vtx).length ≠ vtx.length := by
      intro hLength
      have hEq := (sequenced_begins rt vtx).eq_of_length hLength
      exact hChain (hEq ▸ sequenced_chain vtx)
    have hNe : Mempool.sequenced rt vtx ≠ [] := by
      cases vtx with
      | nil => exact absurd .nil hChain
      | cons tx vtx =>
          obtain ⟨vtx', hHead⟩ := sequenced_head rt tx vtx
          rw [hHead]
          exact List.cons_ne_nil _ _
    have hReverse : vtx.reverse = (vtx.drop (Mempool.sequenced rt vtx).length).reverse ++
        (Mempool.sequenced rt vtx).reverse := by
      rw [← List.reverse_append, hSplit]
    have hLast := List.getLast?_eq_some_getLast hNe
    generalize (Mempool.sequenced rt vtx).getLast hNe = txLast at hLast
    have hKept : ∀ tx ∈ (Mempool.sequenced rt vtx).reverse.head?,
        tx.GetHash rt = txLast.GetHash rt := by
      intro tx hMem
      rw [List.head?_reverse, hLast] at hMem
      obtain rfl := Option.some.inj hMem
      rfl
    have hBehind : ∀ tx ∈ (vtx.drop (Mempool.sequenced rt vtx).length).reverse,
        tx.GetHash rt ≠ txLast.GetHash rt := by
      intro tx hMem hEq
      rw [Distinct, ← hSplit, List.map_append] at hDistinct
      have hApart := (List.nodup_append.mp hDistinct).2.2
      refine hApart (txLast.GetHash rt) ?_ (tx.GetHash rt) ?_ hEq.symm
      · exact List.mem_map_of_mem (List.mem_of_getLast? hLast)
      · exact List.mem_map_of_mem (List.mem_reverse.mp hMem)
    have hCheck : node.checkSequence rt side.toPeriphery vtx =
        { Node.removeBehind rt side.toPeriphery (txLast.GetHash rt)
            { node with side := side.TxnBegin node.side } vtx.reverse with
          side := side.TxnCommit (Node.removeBehind rt side.toPeriphery (txLast.GetHash rt)
            { node with side := side.TxnBegin node.side } vtx.reverse).side } := by
      simp only [Node.checkSequence, hLast, if_neg hLength]
    rw [hCheck, hReverse]
    rcases removeBehind_spec { node with side := side.TxnBegin node.side } (txLast.GetHash rt) _ _
      hKept hBehind with ⟨memory, hDone, hEnd, hRemoves⟩ | ⟨hFail, vtxDone, tx, vtxLeft, hEq, hRemoves⟩
    · rw [side.memory_begin] at hDone
      refine Or.inl ⟨memory, hDone, ?_, hRemoves.db, hRemoves.ledger⟩
      rw [side.memory_commit, hEnd]
    · rw [side.memory_begin] at hFail
      exact Or.inr ⟨hFail, vtxDone, tx, vtxLeft, hEq, hRemoves.db, hRemoves.ledger⟩

/-! ## What is left of a chain -/

/-- The transactions of a chain that are not among those that are removed. -/
def left (rt : Runtime) (vtxRemoved vtx : List Transaction) : List Transaction :=
  vtx.filter fun tx => tx.GetHash rt ∉ vtxRemoved.map (·.GetHash rt)

/-- No transaction of a list has the hash of one of another. -/
def Apart (rt : Runtime) (vtx vtx' : List Transaction) : Prop :=
  ∀ tx ∈ vtx, ∀ tx' ∈ vtx', tx.GetHash rt ≠ tx'.GetHash rt

theorem distinct_append {vtx vtx' : List Transaction} :
    Distinct rt (vtx ++ vtx') ↔ Distinct rt vtx ∧ Distinct rt vtx' ∧ Apart rt vtx vtx' := by
  simp only [Distinct, Apart, List.map_append, List.nodup_append, List.mem_map,
    forall_exists_index, and_imp, forall_apply_eq_imp_iff₂]

theorem Apart.mono {vtx vtx' vtxRemoved : List Transaction} (h : Apart rt vtx vtx')
    (hSubset : vtxRemoved ⊆ vtx') : Apart rt vtx vtxRemoved :=
  fun tx hMem tx' hMem' => h tx hMem tx' (hSubset hMem')

theorem left_nil (vtx : List Transaction) : left rt [] vtx = vtx := by
  simp [left]

theorem left_append (vtxRemoved vtxRemoved' vtx : List Transaction) :
    left rt (vtxRemoved ++ vtxRemoved') vtx = left rt vtxRemoved' (left rt vtxRemoved vtx) := by
  rw [left, left, left, List.filter_filter]
  refine List.filter_congr ?_
  intro tx _
  simp only [List.map_append, List.mem_append, not_or, Bool.decide_and, Bool.and_comm]

theorem left_of_apart {vtxRemoved vtx : List Transaction} (h : Apart rt vtx vtxRemoved) :
    left rt vtxRemoved vtx = vtx := by
  refine List.filter_eq_self.mpr ?_
  intro tx hMem
  refine decide_eq_true ?_
  intro hRemoved
  obtain ⟨tx', hMem', hEq⟩ := List.mem_map.mp hRemoved
  exact h tx hMem tx' hMem' hEq.symm

/-- When the end of a chain is removed, its beginning is left. -/
theorem left_reverse (vtxKept vtxRemoved : List Transaction)
    (h : Distinct rt (vtxKept ++ vtxRemoved.reverse)) :
    left rt vtxRemoved (vtxKept ++ vtxRemoved.reverse) = vtxKept := by
  have hApart : Apart rt vtxKept vtxRemoved :=
    (distinct_append.mp h).2.2.mono fun tx hMem => List.mem_reverse.mpr hMem
  have hKept := left_of_apart hApart
  have hRemoved : left rt vtxRemoved vtxRemoved.reverse = [] := by
    refine List.filter_eq_nil_iff.mpr ?_
    intro tx hMem
    simp only [decide_eq_true_eq, not_not]
    exact List.mem_map_of_mem (List.mem_reverse.mp hMem)
  rw [left] at hKept hRemoved ⊢
  rw [List.filter_append, hKept, hRemoved, List.append_nil]

/-! ## One chain -/

theorem checkChain_rooted {hashGenesis : Uint256} {vtx : List Transaction} (node : Node σ)
    (side : OverlaySide rt σ) (h : Rooted node.db hashGenesis vtx) :
    node.checkChain rt side.toPeriphery hashGenesis vtx =
      (node.checkSequence rt side.toPeriphery vtx, true) := by
  unfold Node.checkChain
  cases vtx with
  | nil => rfl
  | cons tx vtx =>
      simp only [List.head?_cons]
      by_cases hFirst : tx.IsFirst
      · rw [if_pos hFirst]
      · have hLast := (h tx rfl).resolve_left hFirst
        rw [if_neg hFirst, hLast]
        simp

theorem checkChain_unread {hashGenesis : Uint256} {vtx : List Transaction} (node : Node σ)
    (side : OverlaySide rt σ) (h : ¬ Rooted node.db hashGenesis vtx)
    (hRead : node.db.ReadLast hashGenesis = none) :
    node.checkChain rt side.toPeriphery hashGenesis vtx = (node, false) := by
  unfold Node.checkChain
  cases vtx with
  | nil => exact absurd (fun tx hMem => nomatch hMem) h
  | cons tx vtx =>
      have hFirst : ¬ tx.IsFirst := by
        intro hFirst
        refine h fun tx' hMem => Or.inl ?_
        obtain rfl := Option.some.inj hMem
        exact hFirst
      simp only [List.head?_cons, if_neg hFirst, hRead]

theorem checkChain_mismatch {hashGenesis : Uint256} {vtx : List Transaction} (node : Node σ)
    (side : OverlaySide rt σ) (h : ¬ Rooted node.db hashGenesis vtx)
    (hRead : (node.db.ReadLast hashGenesis).isSome) :
    node.checkChain rt side.toPeriphery hashGenesis vtx =
      (node.eraseChain rt side.toPeriphery vtx.reverse, false) := by
  unfold Node.checkChain
  cases vtx with
  | nil => exact absurd (fun tx hMem => nomatch hMem) h
  | cons tx vtx =>
      obtain ⟨hashLast, hLast⟩ := Option.isSome_iff_exists.mp hRead
      have hNot : ¬ (tx.IsFirst ∨ node.db.ReadLast hashGenesis = some tx.hashPrevTx) := by
        intro hOr
        refine h fun tx' hMem => ?_
        obtain rfl := Option.some.inj hMem
        exact hOr
      rw [not_or, hLast, Option.some.injEq] at hNot
      simp only [List.head?_cons, if_neg hNot.1, hLast]
      rw [if_pos (Ne.symm hNot.2)]

/-! ## All chains -/

/-- The transactions of some chains. -/
def all (chains : List (Uint256 × List Transaction)) : List Transaction :=
  chains.flatMap Prod.snd

theorem all_cons (chain : Uint256 × List Transaction) (chains : List (Uint256 × List Transaction)) :
    all (chain :: chains) = chain.2 ++ all chains := by
  rw [all, List.flatMap_cons, all]

theorem subset_all {chain : Uint256 × List Transaction} {chains : List (Uint256 × List Transaction)}
    (h : chain ∈ chains) : chain.2 ⊆ all chains :=
  fun _ hMem => List.mem_flatMap.mpr ⟨chain, h, hMem⟩

theorem Apart.symm {vtx vtx' : List Transaction} (h : Apart rt vtx vtx') : Apart rt vtx' vtx :=
  fun tx hMem tx' hMem' => (h tx' hMem' tx hMem).symm

theorem drop_reverse_subset {vtx : List Transaction} {n : Nat} : (vtx.drop n).reverse ⊆ vtx :=
  fun _ hMem => List.mem_of_mem_drop (List.mem_reverse.mp hMem)

theorem append_subset_append {vtx₁ vtx₂ vtx vtx' : List Transaction} (h : vtx₁ ⊆ vtx)
    (h' : vtx₂ ⊆ vtx') : vtx₁ ++ vtx₂ ⊆ vtx ++ vtx' :=
  List.append_subset.mpr
    ⟨List.subset_append_of_subset_left _ h, List.subset_append_of_subset_right _ h'⟩

theorem checkChains_cons_rooted {hashGenesis : Uint256} {vtx : List Transaction}
    {chains : List (Uint256 × List Transaction)} (node : Node σ) (side : OverlaySide rt σ)
    (h : Rooted node.db hashGenesis vtx) :
    node.checkChains rt side.toPeriphery ((hashGenesis, vtx) :: chains) =
      (node.checkSequence rt side.toPeriphery vtx).checkChains rt side.toPeriphery chains := by
  rw [Node.checkChains, checkChain_rooted node side h]

/-- What is removed is of the chains that are checked. -/
theorem checkChains_removes (side : OverlaySide rt σ) (node : Node σ)
    {chains : List (Uint256 × List Transaction)}
    (hDistinct : Distinct rt (all chains)) :
    ∃ vtxRemoved, vtxRemoved ⊆ all chains ∧
      Removes rt node (node.checkChains rt side.toPeriphery chains) vtxRemoved := by
  induction chains generalizing node with
  | nil => exact ⟨[], List.nil_subset _, .refl node⟩
  | cons chain chains ih =>
      obtain ⟨hashGenesis, vtx⟩ := chain
      rw [all_cons] at hDistinct ⊢
      obtain ⟨hVtx, hRest, -⟩ := distinct_append.mp hDistinct
      by_cases hRooted : Rooted node.db hashGenesis vtx
      · rw [checkChains_cons_rooted node side hRooted]
        obtain ⟨vtxLater, hLater, hRemoves⟩ := ih (node.checkSequence rt side.toPeriphery vtx) hRest
        rcases checkSequence_spec side node hVtx with
          ⟨-, hSame⟩ | ⟨-, ⟨memory, -, -, hFirst⟩ | ⟨-, vtxDone, tx, vtxLeft, hEq, hFirst⟩⟩
        · rw [hSame] at hRemoves ⊢
          exact ⟨vtxLater, List.subset_append_of_subset_right _ hLater, hRemoves⟩
        · refine ⟨_, ?_, hFirst.trans hRemoves⟩
          exact append_subset_append drop_reverse_subset hLater
        · refine ⟨_, ?_, hFirst.trans hRemoves⟩
          refine append_subset_append ?_ hLater
          intro tx' hMem
          exact drop_reverse_subset (hEq ▸ List.mem_append_left _ hMem)
      · rw [Node.checkChains]
        cases hRead : node.db.ReadLast hashGenesis with
        | none =>
            rw [checkChain_unread node side hRooted hRead]
            exact ⟨[], List.nil_subset _, .refl node⟩
        | some hashLast =>
            rw [checkChain_mismatch node side hRooted (by rw [hRead]; rfl)]
            rcases eraseChain_spec side node vtx.reverse with
              ⟨memory, -, -, hFirst⟩ | ⟨-, vtxDone, tx, vtxLeft, hEq, hFirst⟩
            · refine ⟨_, ?_, hFirst⟩
              intro tx hMem
              exact List.mem_append_left _ (List.mem_reverse.mp hMem)
            · refine ⟨_, ?_, hFirst⟩
              intro tx' hMem
              have hIn : tx' ∈ vtx.reverse := hEq ▸ List.mem_append_left _ hMem
              exact List.mem_append_left _ (List.mem_reverse.mp hIn)

/-- Where everything is disconnected, the chains that are left are connected, and the removed
transactions are those that have been rolled back. -/
theorem checkChains_of_clears (node : Node σ) {chains : List (Uint256 × List Transaction)}
    (hDistinct : Distinct rt (all chains)) (hClosed : Closed (side.memory node.side))
    (h : Clears side node.db (side.memory node.side) chains) :
    ∃ vtxRemoved, vtxRemoved ⊆ all chains ∧
      Removes rt node (node.checkChains rt side.toPeriphery chains) vtxRemoved ∧
      RolledBack side node.db (side.memory node.side) vtxRemoved
        (side.memory (node.checkChains rt side.toPeriphery chains).side) ∧
      ∀ chain ∈ chains, Connected node.db rt chain.1 (left rt vtxRemoved chain.2) := by
  induction chains generalizing node with
  | nil =>
      refine ⟨[], List.nil_subset _, .refl node, .refl _, ?_⟩
      intro chain hMem
      cases hMem
  | cons chain chains ih =>
      obtain ⟨hashGenesis, vtx⟩ := chain
      rw [all_cons] at hDistinct ⊢
      obtain ⟨hVtx, hRest, hApart⟩ := distinct_append.mp hDistinct
      rcases h with ⟨hRooted, hChain, hClears⟩ | ⟨hRooted, hChain, memory, hTxn, hClears⟩ |
        ⟨hRooted, hRead, hErase, hOthers⟩
      · rw [checkChains_cons_rooted node side hRooted]
        rcases checkSequence_spec side node hVtx with ⟨-, hSame⟩ | ⟨hNot, -⟩
        · rw [hSame]
          obtain ⟨vtxLater, hLater, hRemoves, hBack, hConnected⟩ := ih node hRest hClosed hClears
          refine ⟨vtxLater, List.subset_append_of_subset_right _ hLater, hRemoves, hBack, ?_⟩
          refine List.forall_mem_cons.mpr ⟨?_, hConnected⟩
          rw [left_of_apart (hApart.mono hLater)]
          exact ⟨hRooted, hChain⟩
        · exact absurd hChain hNot
      · rw [checkChains_cons_rooted node side hRooted]
        rcases checkSequence_spec side node hVtx with
          ⟨hNot, -⟩ | ⟨-, ⟨memory', hTxn', hEnd, hFirst⟩ | ⟨hFail, -⟩⟩
        · exact absurd hNot hChain
        · obtain rfl : memory = memory' := Option.some.inj (hTxn.symm.trans hTxn')
          rw [← hEnd, ← hFirst.db] at hClears
          obtain ⟨vtxLater, hLater, hRemoves, hBack, hConnected⟩ :=
            ih _ hRest (hEnd.symm ▸ closed_commit memory) hClears
          rw [hEnd, hFirst.db] at hBack
          rw [hFirst.db] at hConnected
          have hSplit := List.prefix_iff_eq_append.mp (sequenced_begins rt vtx)
          have hKept : left rt (vtx.drop (Mempool.sequenced rt vtx).length).reverse vtx =
              Mempool.sequenced rt vtx := by
            have hLeft := left_reverse (Mempool.sequenced rt vtx)
              (vtx.drop (Mempool.sequenced rt vtx).length).reverse (by
                rw [List.reverse_reverse, hSplit]
                exact hVtx)
            rwa [List.reverse_reverse, hSplit] at hLeft
          refine ⟨_, append_subset_append drop_reverse_subset hLater, hFirst.trans hRemoves,
            .txn hTxn hBack, List.forall_mem_cons.mpr ⟨?_, ?_⟩⟩
          · have hSubset : Mempool.sequenced rt vtx ⊆ vtx := (sequenced_begins rt vtx).subset
            rw [left_append, hKept, left_of_apart (fun tx hMem tx' hMem' =>
              hApart tx (hSubset hMem) tx' (hLater hMem'))]
            refine ⟨?_, sequenced_chain vtx⟩
            intro tx hMem
            refine hRooted tx ?_
            rw [← hSplit]
            exact List.mem_head?_append_of_mem_head? hMem
          · intro chain hMem
            have hSame : left rt (vtx.drop (Mempool.sequenced rt vtx).length).reverse chain.2 =
                chain.2 :=
              left_of_apart fun tx hTx tx' hTx' =>
                hApart.symm tx (subset_all hMem hTx) tx' (drop_reverse_subset hTx')
            rw [left_append, hSame]
            exact hConnected chain hMem
        · rw [hTxn] at hFail
          cases hFail
      · rw [Node.checkChains, checkChain_mismatch node side hRooted hRead]
        rcases eraseChain_spec side node vtx.reverse with
          ⟨memory, hDone, hEnd, hFirst⟩ | ⟨hFail, -⟩
        · have hBack : RolledBack side node.db (side.memory node.side) (vtx.reverse ++ []) memory :=
            .erase hClosed hDone (.refl memory)
          rw [List.append_nil] at hBack
          refine ⟨vtx.reverse, ?_, hFirst, hEnd.symm ▸ hBack, List.forall_mem_cons.mpr ⟨?_, ?_⟩⟩
          · intro tx hMem
            exact List.mem_append_left _ (List.mem_reverse.mp hMem)
          · have hLeft := left_reverse [] vtx.reverse (by
              rw [List.reverse_reverse]
              exact hVtx)
            rw [List.reverse_reverse, List.nil_append] at hLeft
            rw [hLeft]
            exact ⟨fun tx hMem => (nomatch hMem), .nil⟩
          · intro chain hMem
            rw [left_of_apart]
            · exact hOthers chain hMem
            · exact fun tx hTx tx' hTx' =>
                hApart.symm tx (subset_all hMem hTx) tx' (List.mem_reverse.mp hTx')
        · rw [hFail] at hErase
          cases hErase

/-- A beginning of a chain that is longer than its sequence is not connected. -/
theorem not_chain_of_stuck {vtx vtxDone vtxLeft : List Transaction} {tx : Transaction}
    (hVtx : Distinct rt vtx)
    (hEq : (vtx.drop (Mempool.sequenced rt vtx).length).reverse = vtxDone ++ tx :: vtxLeft) :
    ¬ (left rt vtxDone vtx).IsChain (Follows rt) := by
  have hSplit := List.prefix_iff_eq_append.mp (sequenced_begins rt vtx)
  have hDrop : vtx.drop (Mempool.sequenced rt vtx).length =
      (vtxLeft.reverse ++ [tx]) ++ vtxDone.reverse := by
    rw [← List.reverse_inj, hEq]
    simp
  rw [hDrop, ← List.append_assoc] at hSplit
  have hLeft := left_reverse (Mempool.sequenced rt vtx ++ (vtxLeft.reverse ++ [tx])) vtxDone (by
    rw [hSplit]
    exact hVtx)
  rw [hSplit] at hLeft
  rw [hLeft]
  intro hChain
  have hLength := length_le_sequenced ⟨_, hSplit⟩ hChain
  simp at hLength

/-- A beginning of a chain that is not rooted is not rooted. -/
theorem not_rooted_of_stuck {hashGenesis : Uint256} {vtx vtxDone vtxLeft : List Transaction}
    {tx : Transaction} (hVtx : Distinct rt vtx) (hRooted : ¬ Rooted db hashGenesis vtx)
    (hEq : vtx.reverse = vtxDone ++ tx :: vtxLeft) :
    ¬ Rooted db hashGenesis (left rt vtxDone vtx) := by
  have hSplit : (vtxLeft.reverse ++ [tx]) ++ vtxDone.reverse = vtx := by
    rw [← List.reverse_inj, hEq]
    simp
  have hLeft := left_reverse (vtxLeft.reverse ++ [tx]) vtxDone (by
    rw [hSplit]
    exact hVtx)
  rw [hSplit] at hLeft
  rw [hLeft]
  intro hHead
  refine hRooted fun tx' hMem => hHead tx' ?_
  rw [← hSplit, List.head?_append_of_ne_nil _ (by simp)] at hMem
  exact hMem

/-- Where something is not disconnected, a chain that is left is not connected. -/
theorem exists_not_connected (node : Node σ) {chains : List (Uint256 × List Transaction)}
    (hDistinct : Distinct rt (all chains))
    (h : ¬ Clears side node.db (side.memory node.side) chains) :
    ∃ vtxRemoved, vtxRemoved ⊆ all chains ∧
      Removes rt node (node.checkChains rt side.toPeriphery chains) vtxRemoved ∧
      ∃ chain ∈ chains, ¬ Connected node.db rt chain.1 (left rt vtxRemoved chain.2) := by
  induction chains generalizing node with
  | nil => exact absurd trivial h
  | cons chain chains ih =>
      obtain ⟨hashGenesis, vtx⟩ := chain
      rw [all_cons] at hDistinct ⊢
      obtain ⟨hVtx, hRest, hApart⟩ := distinct_append.mp hDistinct
      rw [Clears, not_or, not_or] at h
      obtain ⟨hKeeps, hCuts, hResets⟩ := h
      have hOther : ∀ {vtxRemoved : List Transaction} {chain : Uint256 × List Transaction},
          vtxRemoved ⊆ vtx → chain ∈ chains → left rt vtxRemoved chain.2 = chain.2 := by
        intro vtxRemoved chain hSubset hMem
        exact left_of_apart fun tx hTx tx' hTx' =>
          hApart.symm tx (subset_all hMem hTx) tx' (hSubset hTx')
      by_cases hRooted : Rooted node.db hashGenesis vtx
      · rw [checkChains_cons_rooted node side hRooted]
        rcases checkSequence_spec side node hVtx with
          ⟨hChain, hSame⟩ |
            ⟨hChain, ⟨memory, hTxn, hEnd, hFirst⟩ | ⟨hFail, vtxDone, tx, vtxLeft, hEq, hFirst⟩⟩
        · -- the chain is connected, and one behind it is not
          have hClears : ¬ Clears side node.db (side.memory node.side) chains := fun hClears =>
            hKeeps ⟨hRooted, hChain, hClears⟩
          obtain ⟨vtxLater, hLater, hRemoves, chain, hMem, hNot⟩ := ih node hRest hClears
          rw [hSame]
          exact ⟨vtxLater, List.subset_append_of_subset_right _ hLater, hRemoves, chain,
            List.mem_cons_of_mem _ hMem, hNot⟩
        · -- the chain has been cut, and one behind it is not connected
          have hClears : ¬ Clears side (node.checkSequence rt side.toPeriphery vtx).db
              (side.memory (node.checkSequence rt side.toPeriphery vtx).side) chains := by
            rw [hEnd, hFirst.db]
            exact fun hClears => hCuts ⟨hRooted, hChain, memory, hTxn, hClears⟩
          obtain ⟨vtxLater, hLater, hRemoves, chain, hMem, hNot⟩ := ih _ hRest hClears
          refine ⟨_, append_subset_append drop_reverse_subset hLater, hFirst.trans hRemoves, chain,
            List.mem_cons_of_mem _ hMem, ?_⟩
          rw [left_append, hOther drop_reverse_subset hMem, ← hFirst.db]
          exact hNot
        · -- the chain is still broken
          obtain ⟨vtxLater, hLater, hRemoves⟩ :=
            checkChains_removes side (node.checkSequence rt side.toPeriphery vtx) hRest
          have hDone : vtxDone ⊆ vtx := fun tx' hMem =>
            drop_reverse_subset (hEq ▸ List.mem_append_left _ hMem)
          refine ⟨_, append_subset_append hDone hLater, hFirst.trans hRemoves, _,
            List.mem_cons_self, ?_⟩
          have hApartLater : Apart rt (left rt vtxDone vtx) vtxLater := fun tx' hMem tx'' hMem' =>
            hApart tx' (List.mem_of_mem_filter hMem) tx'' (hLater hMem')
          rw [left_append, left_of_apart hApartLater]
          exact fun hConnected => not_chain_of_stuck hVtx hEq hConnected.2
      · rw [Node.checkChains]
        cases hRead : node.db.ReadLast hashGenesis with
        | none =>
            rw [checkChain_unread node side hRooted hRead]
            refine ⟨[], List.nil_subset _, .refl node, _, List.mem_cons_self, ?_⟩
            rw [left_nil]
            exact fun hConnected => hRooted hConnected.1
        | some hashLast =>
            have hSome : (node.db.ReadLast hashGenesis).isSome := by
              rw [hRead]
              rfl
            rw [checkChain_mismatch node side hRooted hSome]
            rcases eraseChain_spec side node vtx.reverse with
              ⟨memory, hDone, -, hFirst⟩ | ⟨-, vtxDone, tx, vtxLeft, hEq, hFirst⟩
            · -- the loop is left, and a chain behind is not connected
              have hOthers : ¬ ∀ chain ∈ chains, Connected node.db rt chain.1 chain.2 :=
                fun hOthers => hResets ⟨hRooted, hSome, by rw [hDone]; rfl, hOthers⟩
              rw [not_forall] at hOthers
              obtain ⟨chain, hOthers⟩ := hOthers
              obtain ⟨hMem, hNot⟩ := Classical.not_imp.mp hOthers
              have hSubset : vtx.reverse ⊆ vtx := fun tx hMem => List.mem_reverse.mp hMem
              refine ⟨vtx.reverse, List.subset_append_of_subset_left _ hSubset, hFirst, chain,
                List.mem_cons_of_mem _ hMem, ?_⟩
              rw [hOther hSubset hMem]
              exact hNot
            · have hDone : vtxDone ⊆ vtx := fun tx' hMem => by
                have hIn : tx' ∈ vtx.reverse := hEq ▸ List.mem_append_left _ hMem
                exact List.mem_reverse.mp hIn
              refine ⟨vtxDone, List.subset_append_of_subset_left _ hDone, hFirst, _,
                List.mem_cons_self, ?_⟩
              exact fun hConnected => not_rooted_of_stuck hVtx hRooted hEq hConnected.1

/-! ## The pool -/

/-- The transactions of a pool are under their hashes, each once. -/
structure Keyed (rt : Runtime) (pool : Mempool) : Prop where
  key : ∀ entry ∈ pool.mapLedger, entry.1 = entry.2.GetHash rt
  nodup : (pool.mapLedger.map Prod.fst).Nodup

namespace Keyed

variable {pool : Mempool}

theorem mem_values (h : Keyed rt pool) {tx : Transaction} :
    tx ∈ pool.mapLedger.map Prod.snd ↔ (tx.GetHash rt, tx) ∈ pool.mapLedger := by
  rw [List.mem_map]
  constructor
  · rintro ⟨entry, hMem, rfl⟩
    have hKey := h.key entry hMem
    rw [← hKey]
    exact hMem
  · intro hMem
    exact ⟨_, hMem, rfl⟩

theorem find_eq_some (h : Keyed rt pool) {tx : Transaction} :
    pool.find (tx.GetHash rt) = some tx ↔ tx ∈ pool.mapLedger.map Prod.snd := by
  rw [h.mem_values, Mempool.find]
  constructor
  · intro hFind
    obtain ⟨before, behind, hSplit, -⟩ := List.lookup_eq_some_iff.mp hFind
    rw [hSplit]
    exact List.mem_append_right _ List.mem_cons_self
  · intro hMem
    obtain ⟨before, behind, hSplit⟩ := List.append_of_mem hMem
    refine List.lookup_eq_some_iff.mpr ⟨before, behind, hSplit, ?_⟩
    intro entry hBefore
    have hNodup := h.nodup
    rw [hSplit, List.map_append, List.nodup_append] at hNodup
    have hApart := hNodup.2.2 entry.1 (List.mem_map_of_mem hBefore) (tx.GetHash rt) (by simp)
    simpa using hApart.symm

theorem distinct (h : Keyed rt pool) : Distinct rt (pool.mapLedger.map Prod.snd) := by
  have hKeys : (pool.mapLedger.map Prod.snd).map (·.GetHash rt) = pool.mapLedger.map Prod.fst := by
    rw [List.map_map]
    refine List.map_congr_left ?_
    intro entry hMem
    exact (h.key entry hMem).symm
  rw [Distinct, hKeys]
  exact h.nodup

end Keyed

theorem mem_sorted {side : Periphery σ} {pool : Mempool} {hashGenesis : Uint256} {tx : Transaction} :
    tx ∈ pool.sorted side hashGenesis ↔
      tx ∈ pool.mapLedger.map Prod.snd ∧ tx.hashGenesis = hashGenesis := by
  rw [Mempool.sorted, (side.sort_perm _).mem_iff, List.mem_filter, decide_eq_true_eq]

/-- The chains of a pool hold its transactions. -/
theorem mem_all_chains {side : Periphery σ} {node : Node σ} {tx : Transaction} :
    tx ∈ all (node.chains side) ↔ tx ∈ node.pool.mapLedger.map Prod.snd := by
  simp only [all, Node.chains, List.mem_flatMap, List.mem_map, (List.perm_insertionSort _ _).mem_iff,
    List.mem_dedup]
  constructor
  · rintro ⟨chain, ⟨hashGenesis, -, rfl⟩, hMem⟩
    exact List.mem_map.mp (mem_sorted.mp hMem).1
  · rintro ⟨entry, hMem, rfl⟩
    exact ⟨_, ⟨entry.2.hashGenesis, ⟨entry, hMem, rfl⟩, rfl⟩,
      mem_sorted.mpr ⟨List.mem_map_of_mem hMem, rfl⟩⟩

theorem distinct_chains (side : Periphery σ) {node : Node σ} (h : Keyed rt node.pool) :
    Distinct rt (all (node.chains side)) := by
  have hValues : (node.pool.mapLedger.map Prod.snd).Nodup := List.Nodup.of_map _ h.distinct
  have hNodup : (all (node.chains side)).Nodup := by
    rw [all, Node.chains, List.flatMap_map, List.nodup_flatMap]
    constructor
    · intro hashGenesis _
      exact (side.sort_perm _).nodup_iff.mpr (hValues.filter _)
    · have hGenesis := (List.perm_insertionSort
        (fun hashGenesis hashGenesis' : Uint256 => hashGenesis.toNat ≤ hashGenesis'.toNat)
        (node.pool.mapLedger.map fun entry => entry.2.hashGenesis).dedup).nodup_iff.mpr
          (List.nodup_dedup _)
      refine hGenesis.imp ?_
      intro hashGenesis hashGenesis' hNe tx hMem hMem'
      exact hNe ((mem_sorted.mp hMem).2.symm.trans (mem_sorted.mp hMem').2)
  refine List.Nodup.map_on ?_ hNodup
  intro tx hMem tx' hMem' hEq
  exact List.inj_on_of_nodup_map h.distinct (mem_all_chains.mp hMem) (mem_all_chains.mp hMem') hEq

/-- What is removed from a pool is not found in it any more. -/
theorem Removes.find_isSome {node node' : Node σ} {vtxRemoved : List Transaction} {tx : Transaction}
    (hKeyed : Keyed rt node.pool) (h : Removes rt node node' vtxRemoved)
    (hMem : tx ∈ node.pool.mapLedger.map Prod.snd) :
    (node'.pool.find (tx.GetHash rt)).isSome ↔
      tx.GetHash rt ∉ vtxRemoved.map (·.GetHash rt) := by
  rw [Mempool.find, h.ledger, ← Option.ne_none_iff_isSome, Ne, List.lookup_eq_none_iff]
  constructor
  · intro hSome hRemoved
    refine hSome ?_
    intro entry hEntry
    have hStays := of_decide_eq_true (List.mem_filter.mp hEntry).2
    have hNe : tx.GetHash rt ≠ entry.1 := by
      intro hEq
      exact hStays (hEq ▸ hRemoved)
    simpa using hNe
  · intro hStays hNone
    have hEntry := hNone (tx.GetHash rt, tx)
      (List.mem_filter.mpr ⟨hKeyed.mem_values.mp hMem, decide_eq_true hStays⟩)
    simp at hEntry

/-- What `Check` should leave: in each chain, the transactions that are left follow each other
from the ledger on, and exactly those that have been rolled back are removed. -/
structure Consistent (side : OverlaySide rt σ) (node node' : Node σ) : Prop where
  connected : ∀ hashGenesis, Connected node.db rt hashGenesis
    ((node.pool.sorted side.toPeriphery hashGenesis).filter fun tx =>
      (node'.pool.find (tx.GetHash rt)).isSome)
  rolledBack : ∃ vtx,
    (∀ tx, node.pool.find (tx.GetHash rt) = some tx ∧ node'.pool.find (tx.GetHash rt) = none ↔
      tx ∈ vtx) ∧
    RolledBack side node.db (side.memory node.side) vtx (side.memory node'.side)

theorem sorted_filter {node node' : Node σ} {vtxRemoved : List Transaction}
    (hKeyed : Keyed rt node.pool) (h : Removes rt node node' vtxRemoved) (hashGenesis : Uint256) :
    ((node.pool.sorted side.toPeriphery hashGenesis).filter fun tx =>
      (node'.pool.find (tx.GetHash rt)).isSome) =
        left rt vtxRemoved (node.pool.sorted side.toPeriphery hashGenesis) := by
  refine List.filter_congr ?_
  intro tx hMem
  have hIff := h.find_isSome hKeyed (mem_sorted.mp hMem).1
  exact Bool.eq_iff_iff.mpr (hIff.trans decide_eq_true_iff.symm)

theorem mem_chains {side : Periphery σ} {node : Node σ} {hashGenesis : Uint256}
    (h : node.pool.sorted side hashGenesis ≠ []) :
    (hashGenesis, node.pool.sorted side hashGenesis) ∈ node.chains side := by
  obtain ⟨tx, hMem⟩ := List.exists_mem_of_ne_nil _ h
  obtain ⟨hValue, hGenesis⟩ := mem_sorted.mp hMem
  obtain ⟨entry, hEntry, rfl⟩ := List.mem_map.mp hValue
  refine List.mem_map.mpr ⟨hashGenesis, ?_, rfl⟩
  rw [(List.perm_insertionSort _ _).mem_iff, List.mem_dedup, List.mem_map]
  exact ⟨entry, hEntry, hGenesis⟩

theorem chain_eq_sorted {side : Periphery σ} {node : Node σ} {chain : Uint256 × List Transaction}
    (h : chain ∈ node.chains side) : chain.2 = node.pool.sorted side chain.1 := by
  obtain ⟨hashGenesis, -, rfl⟩ := List.mem_map.mp h
  rfl

/-- **`Check` leaves connected chains, and removes exactly what it rolls back, if and only if it
disconnects what it tries to, and meets no chain whose last hash it cannot read and no broken one
behind the first that it erases.** -/
theorem check_consistent_iff (side : OverlaySide rt σ) (node : Node σ) (hKeyed : Keyed rt node.pool)
    (hClosed : Closed (side.memory node.side)) :
    Consistent side node (node.Check rt side.toPeriphery) ↔
      Clears side node.db (side.memory node.side) (node.chains side.toPeriphery) := by
  have hDistinct := distinct_chains side.toPeriphery hKeyed
  constructor
  · intro hConsistent
    by_contra hNot
    obtain ⟨vtxRemoved, -, hRemoves, chain, hMem, hBroken⟩ := exists_not_connected node hDistinct hNot
    have hCheck : Removes rt node (node.Check rt side.toPeriphery) vtxRemoved := hRemoves
    have hConnected := hConsistent.connected chain.1
    rw [sorted_filter hKeyed hCheck, ← chain_eq_sorted hMem] at hConnected
    exact hBroken hConnected
  · intro hClears
    obtain ⟨vtxRemoved, hSubset, hRemoves, hBack, hConnected⟩ :=
      checkChains_of_clears node hDistinct hClosed hClears
    have hCheck : Removes rt node (node.Check rt side.toPeriphery) vtxRemoved := hRemoves
    constructor
    · intro hashGenesis
      rw [sorted_filter hKeyed hCheck]
      by_cases hEmpty : node.pool.sorted side.toPeriphery hashGenesis = []
      · rw [hEmpty]
        exact ⟨fun tx hMem => (nomatch hMem), .nil⟩
      · exact hConnected _ (mem_chains hEmpty)
    · refine ⟨vtxRemoved, ?_, hBack⟩
      intro tx
      rw [hKeyed.find_eq_some]
      constructor
      · rintro ⟨hMem, hNone⟩
        have hIff := hCheck.find_isSome hKeyed hMem
        rw [hNone] at hIff
        have hIn : tx.GetHash rt ∈ vtxRemoved.map (·.GetHash rt) := by
          by_contra hStays
          exact absurd (hIff.mpr hStays) (by simp)
        obtain ⟨tx', hMem', hEq⟩ := List.mem_map.mp hIn
        rw [← List.inj_on_of_nodup_map hKeyed.distinct (mem_all_chains.mp (hSubset hMem')) hMem hEq]
        exact hMem'
      · intro hMem
        have hValue := mem_all_chains.mp (hSubset hMem)
        refine ⟨hValue, ?_⟩
        have hIff := hCheck.find_isSome hKeyed hValue
        by_contra hSome
        exact hIff.mp (Option.ne_none_iff_isSome.mp hSome) (List.mem_map_of_mem hMem)

/-- Transactions that write nothing to the overlays. -/
def exampleOverlays : OverlaySide exampleRuntime Memory where
  toPeriphery :=
    { exampleSide with
      TxnBegin := fun memory => memory.TxnBegin .MEMPOOL
      TxnCommit := fun memory => memory.TxnCommit .MEMPOOL }
  memory s := s
  calls _ _ _ _ := ([], true)
  memory_disconnect _ _ _ _ := rfl
  disconnect_result _ _ _ _ := rfl
  memory_begin _ := rfl
  memory_commit _ := rfl
  memory_removeConflict _ _ := rfl
  memory_remove _ _ := rfl

/-- A transaction behind another than the last one on disk. -/
def strayTx (hashGenesis : Uint256) : Transaction :=
  { nSequence := 1, hashGenesis, hashPrevTx := 8 }

/-- Two chains of one transaction each, that both no longer follow the disk. -/
def strayNode : Node Memory where
  db := { last _ := some 7 }
  pool :=
    { mapLedger :=
        [((strayTx alice).GetHash exampleRuntime, strayTx alice),
          ((strayTx bob).GetHash exampleRuntime, strayTx bob)] }
  side := {}

theorem strayNode_keyed : Keyed exampleRuntime strayNode.pool := by
  constructor
  · decide +kernel
  · decide +kernel

/-- A transaction that follows the disk. -/
def nextTx (hashGenesis : Uint256) : Transaction := { nSequence := 1, hashGenesis, hashPrevTx := 7 }

/-- Two chains of one transaction each, of which the first no longer follows the disk. -/
def clearedNode : Node Memory where
  db := { last _ := some 7 }
  pool :=
    { mapLedger :=
        [((strayTx alice).GetHash exampleRuntime, strayTx alice),
          ((nextTx bob).GetHash exampleRuntime, nextTx bob)] }
  side := {}

theorem clearedNode_keyed : Keyed exampleRuntime clearedNode.pool := by
  constructor
  · decide +kernel
  · decide +kernel

theorem clearedNode_clears :
    Clears exampleOverlays clearedNode.db (exampleOverlays.memory clearedNode.side)
      (clearedNode.chains exampleOverlays.toPeriphery) := by
  have hChains : clearedNode.chains exampleOverlays.toPeriphery =
      [(alice, [strayTx alice]), (bob, [nextTx bob])] := by decide +kernel
  rw [hChains]
  have hStray : ¬ Rooted clearedNode.db alice [strayTx alice] := by
    unfold Rooted
    decide +kernel
  have hNext : Connected clearedNode.db exampleRuntime bob [nextTx bob] := by
    refine ⟨?_, .singleton _⟩
    unfold Rooted
    decide +kernel
  refine .inr (.inr ⟨hStray, by decide +kernel, by decide +kernel, ?_⟩)
  rw [List.forall_mem_singleton]
  exact hNext

/-- `Check` erases the first chain, and the other one follows the disk. -/
theorem check_consistent_cleared :
    Consistent exampleOverlays clearedNode
      (clearedNode.Check exampleRuntime exampleOverlays.toPeriphery) :=
  (check_consistent_iff exampleOverlays clearedNode clearedNode_keyed ⟨rfl, rfl, rfl, rfl⟩).mpr
    clearedNode_clears

/-- `Check` erases the first of the two chains, and leaves the other one. -/
theorem check_leaves_stray :
    ¬ Consistent exampleOverlays strayNode
      (strayNode.Check exampleRuntime exampleOverlays.toPeriphery) := by
  have hHead : ((strayNode.pool.sorted exampleOverlays.toPeriphery bob).filter fun tx =>
      ((strayNode.Check exampleRuntime exampleOverlays.toPeriphery).pool.find
        (tx.GetHash exampleRuntime)).isSome).head?.map (fun tx => (tx.nSequence, tx.hashPrevTx)) =
          some (1, 8) := by
    decide +kernel
  intro h
  obtain ⟨tx, hTx, hEq⟩ := Option.map_eq_some_iff.mp hHead
  obtain ⟨hSequence, hPrev⟩ := Prod.mk.inj hEq
  rcases (h.connected bob).1 tx hTx with hFirst | hLast
  · rw [Transaction.IsFirst, hSequence] at hFirst
    exact absurd hFirst (by decide)
  · rw [hPrev] at hLast
    exact absurd (Option.some.inj hLast) (by decide +kernel)

end Nexus.Safety
