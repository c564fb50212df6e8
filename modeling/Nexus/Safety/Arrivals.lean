import Nexus.Ledger.Mempool
import Nexus.Lib.Reorder
import Nexus.Safety.Acceptance

/-!
# Orphans of the memory pool

A signature chain is passed to the pool in any order.  The pool holds the beginning of
the chain that has arrived, as if it had been passed in order, and every other
transaction waits for the one before it.
-/

namespace Nexus.Safety

open Nexus.Lib.Reorder
open Nexus.Util
open Nexus.LLD
open Nexus.Ledger

variable {σ : Type} {rt : Runtime} {side : Periphery σ} {node node' : Node σ} {tx : Transaction}

/-- The transactions are accepted one after another, each into the pool that the ones before it
have left. -/
def AcceptedInOrder (rt : Runtime) (side : Periphery σ) : Node σ → List Transaction → Prop
  | _, [] => True
  | node, tx :: vtx =>
      ∃ nFuel node', node.Accept rt side nFuel tx = some (node', .returned true) ∧
        AcceptedInOrder rt side node' vtx

/-- The transactions are passed to the pool one after another. -/
def arrivals (rt : Runtime) (side : Periphery σ) (nFuel : Nat) (node : Node σ)
    (vtx : List Transaction) : Option (Node σ) :=
  vtx.foldlM (fun node tx => (node.Accept rt side nFuel tx).map Prod.fst) node

/-- A part of a signature chain: each transaction names the one before it. -/
structure SigChain (rt : Runtime) (vtx : List Transaction) : Prop where
  notFirst : ∀ tx ∈ vtx, ¬ tx.IsFirst
  linked : vtx.IsChain fun tx txNext => txNext.hashPrevTx = tx.GetHash rt

/-- A pool without transactions of signature chains. -/
def EmptyPool (pool : Mempool) : Prop := pool = {}

/-! ## Accepting one transaction -/

/-- A node with other orphans. -/
def waiting (node : Node σ) (mapOrphans : Uint512 → Option Transaction)
    (setOrphansByIndex : Uint512 → Bool) : Node σ :=
  { node with
    pool.mapOrphans := mapOrphans
    pool.setOrphansByIndex := setOrphansByIndex }

theorem mapOrphans_waiting (node : Node σ) (mapOrphans : Uint512 → Option Transaction)
    (setOrphansByIndex : Uint512 → Bool) :
    (waiting node mapOrphans setOrphansByIndex).pool.mapOrphans = mapOrphans := rfl

theorem release_waiting (node : Node σ) (mapOrphans : Uint512 → Option Transaction)
    (setOrphansByIndex : Uint512 → Bool) (hashTx hashThis : Uint512) :
    (waiting node mapOrphans setOrphansByIndex).release hashTx hashThis =
      waiting node (Function.update mapOrphans hashTx none)
        (Function.update setOrphansByIndex hashThis false) := rfl

theorem hasTx_waiting (node : Node σ) (mapOrphans : Uint512 → Option Transaction)
    (setOrphansByIndex : Uint512 → Bool) (hashTx : Uint512) :
    (waiting node mapOrphans setOrphansByIndex).HasTx side hashTx = node.HasTx side hashTx := rfl

/-- What `Accept` has checked of a transaction that is in the pool after it. -/
theorem acceptNew_eq_true (hFirst : ¬ tx.IsFirst) :
    node.acceptNew rt side tx = (node', .returned true) ↔
      Node.admits side tx = .ok true ∧ node.HasTx side tx.hashPrevTx = true ∧
        ¬ ((node.pool.mapClaimed tx.hashPrevTx).isSome ∨
          (node.pool.mapConflicts tx.hashPrevTx).isSome) ∧
        node.pool.ReadLast rt side node.db tx.hashGenesis = some tx.hashPrevTx ∧
        ∃ s, side.connectMemory node.side node.db node.pool.Get tx = (s, .returned true) ∧
          node' = node.accepted rt tx s := by
  unfold Node.acceptNew
  cases hAdmits : Node.admits side tx with
  | error e => simp
  | ok fAdmits =>
      cases fAdmits with
      | false => simp
      | true =>
          simp only [if_neg hFirst, true_and]
          by_cases hHas : node.HasTx side tx.hashPrevTx = false
          · simp [hHas]
          · rw [if_neg hHas]
            have hTrue : node.HasTx side tx.hashPrevTx = true := by
              simpa using hHas
            by_cases hTaken : (node.pool.mapClaimed tx.hashPrevTx).isSome ∨
                (node.pool.mapConflicts tx.hashPrevTx).isSome
            · rw [if_pos hTaken]
              refine iff_of_false ?_ fun h => h.2.1 hTaken
              intro h
              cases (Prod.mk.inj h).2
            · rw [if_neg hTaken]
              cases hLast : node.pool.ReadLast rt side node.db tx.hashGenesis with
              | none => simp
              | some hashLast =>
                  by_cases hSame : tx.hashPrevTx = hashLast
                  · subst hSame
                    cases hConnect : side.connectMemory node.side node.db node.pool.Get tx with
                    | mk s outcome =>
                        rcases outcome with (_ | _) | _
                        · simp [Node.connect, hConnect]
                        · simp [Node.connect, hConnect, hTrue, hTaken]
                          exact eq_comm
                        · simp [Node.connect, hConnect]
                  · simp [hSame, Ne.symm hSame]

/-- A transaction that is accepted among some orphans is accepted among any others. -/
theorem acceptNew_waiting (hFirst : ¬ tx.IsFirst) (mapOrphans : Uint512 → Option Transaction)
    (setOrphansByIndex : Uint512 → Bool)
    (h : node.acceptNew rt side tx = (node', .returned true)) :
    (waiting node mapOrphans setOrphansByIndex).acceptNew rt side tx =
      (waiting node' mapOrphans setOrphansByIndex, .returned true) := by
  rw [acceptNew_eq_true hFirst] at h ⊢
  obtain ⟨hAdmits, hHas, hFree, hLast, s, hConnect, rfl⟩ := h
  exact ⟨hAdmits, hHas, hFree, hLast, s, hConnect, rfl⟩

/-- A transaction that is admitted, and whose predecessor is missing, waits. -/
theorem acceptNew_orphan (rt : Runtime) (hFirst : ¬ tx.IsFirst) (hAdmits : Node.admits side tx = .ok true)
    (hHas : node.HasTx side tx.hashPrevTx = false) :
    node.acceptNew rt side tx = (node.orphan rt tx, .returned false) := by
  unfold Node.acceptNew
  rw [hAdmits]
  simp only [if_neg hFirst, if_pos hHas]

/-- A transaction that is accepted releases the orphans behind it. -/
theorem accept_of_acceptNew {nFuel : Nat} {node₁ : Node σ} {fResult : Bool}
    (hHas : node.HasTx side (tx.GetHash rt) = false)
    (hNew : node.acceptNew rt side tx = (node₁, .returned true))
    (hOrphans : Node.Accept.processOrphans rt side nFuel node₁ (tx.GetHash rt) =
      some (node', .returned fResult)) :
    node.Accept rt side (nFuel + 1) tx = some (node', .returned true) := by
  unfold Node.Accept
  rw [hHas, hNew]
  simp only [Bool.false_eq_true, if_false, hOrphans, Option.bind_eq_bind, Option.bind_some]

theorem accept_of_orphan {nFuel : Nat} (hHas : node.HasTx side (tx.GetHash rt) = false)
    (hNew : node.acceptNew rt side tx = (node', .returned false)) :
    node.Accept rt side (nFuel + 1) tx = some (node', .returned false) := by
  unfold Node.Accept
  rw [hHas, hNew]
  simp only [Bool.false_eq_true, if_false]

theorem processOrphans_none {nFuel : Nat} {hashTx : Uint512}
    (h : node.pool.mapOrphans hashTx = none) :
    Node.Accept.processOrphans rt side (nFuel + 1) node hashTx = some (node, .returned true) := by
  unfold Node.Accept.processOrphans
  rw [h]

theorem processOrphans_some {nFuel : Nat} {hashTx : Uint512}
    (h : node.pool.mapOrphans hashTx = some tx)
    (hAccept : node.Accept rt side nFuel tx = some (node', .returned true)) :
    Node.Accept.processOrphans rt side (nFuel + 1) node hashTx =
      Node.Accept.processOrphans rt side nFuel (node'.release hashTx (tx.GetHash rt))
        (tx.GetHash rt) := by
  conv_lhs => unfold Node.Accept.processOrphans
  rw [h]
  simp only [hAccept, Option.bind_eq_bind, Option.bind_some]

/-- A transaction that is accepted where none waits releases none. -/
theorem accept_eq_acceptNew {nFuel : Nat} (hFirst : ¬ tx.IsFirst)
    (hNone : node.pool.mapOrphans = fun _ => none)
    (h : node.Accept rt side nFuel tx = some (node', .returned true)) :
    node.HasTx side (tx.GetHash rt) = false ∧
      node.acceptNew rt side tx = (node', .returned true) := by
  cases nFuel with
  | zero => cases h
  | succ nFuel =>
      unfold Node.Accept at h
      by_cases hHas : node.HasTx side (tx.GetHash rt) = true
      · rw [if_pos hHas] at h
        cases h
      · rw [if_neg hHas] at h
        refine ⟨by simpa using hHas, ?_⟩
        cases hNew : node.acceptNew rt side tx with
        | mk next outcome =>
            rw [hNew] at h
            rcases outcome with (_ | _) | _
            · cases h
            · obtain ⟨-, -, -, -, s, -, hNext⟩ := (acceptNew_eq_true hFirst).mp hNew
              have hOrphans : next.pool.mapOrphans = fun _ => none := by
                rw [hNext]
                exact hNone
              cases nFuel with
              | zero => cases h
              | succ nFuel =>
                  simp only [Node.Accept.processOrphans, hOrphans] at h
                  cases h
                  rfl
            · cases h

/-! ## Accepting in order -/

/-- The nodes that accepting a chain in order goes through. -/
structure Nodes (rt : Runtime) (side : Periphery σ) (n : Nat) (t : Nat → Transaction)
    (nodes : Nat → Node σ) : Prop where
  notFirst : ∀ i < n, ¬ (t i).IsFirst
  linked : ∀ i, i + 1 < n → (t (i + 1)).hashPrevTx = (t i).GetHash rt
  disk : ((nodes 0).db.ledger.ReadTx (t 0).hashPrevTx).isSome
  fresh : ∀ i < n, (nodes i).HasTx side ((t i).GetHash rt) = false
  accept : ∀ i < n, (nodes i).acceptNew rt side (t i) = (nodes (i + 1), .returned true)

/-- The hash that an item of a chain waits for, and the last hash of the chain behind them. -/
def key (rt : Runtime) (t : Nat → Transaction) : Nat → Uint512
  | 0 => (t 0).hashPrevTx
  | i + 1 => (t i).GetHash rt

theorem key_succ (rt : Runtime) (t : Nat → Transaction) (i : Nat) :
    key rt t (i + 1) = (t i).GetHash rt := rfl

namespace Nodes

variable {n i j k : Nat} {t : Nat → Transaction} {nodes : Nat → Node σ}

theorem hashPrevTx_eq (h : Nodes rt side n t nodes) (hi : i < n) : (t i).hashPrevTx = key rt t i := by
  cases i with
  | zero => rfl
  | succ i => exact h.linked i hi

theorem accepted (h : Nodes rt side n t nodes) (hi : i < n) :
    ∃ s, side.hasLegacy s = side.hasLegacy (nodes i).side ∧
      nodes (i + 1) = (nodes i).accepted rt (t i) s := by
  obtain ⟨-, -, -, -, s, hConnect, hNext⟩ := (acceptNew_eq_true (h.notFirst i hi)).mp (h.accept i hi)
  refine ⟨s, ?_, hNext⟩
  have hLegacy := side.hasLegacy_connect (nodes i).side (nodes i).db (nodes i).pool.Get (t i)
  rw [hConnect] at hLegacy
  exact hLegacy

theorem find_accepted (rt : Runtime) (node : Node σ) (tx : Transaction) (s : σ) (hashTx : Uint512) :
    (node.accepted rt tx s).pool.find hashTx =
      if hashTx = tx.GetHash rt then some tx else node.pool.find hashTx := by
  by_cases hSame : hashTx = tx.GetHash rt
  · simp [Node.accepted, Mempool.find, hSame]
  · have hBeq : (hashTx == tx.GetHash rt) = false := by
      simpa using hSame
    simp [Node.accepted, Mempool.find, hSame, List.lookup_cons, hBeq]

/-- The transactions that a node has stay, and the accepted one joins them. -/
theorem hasTx_succ (h : Nodes rt side n t nodes) (hi : i < n) {hashTx : Uint512} :
    (nodes (i + 1)).HasTx side hashTx =
      (decide (hashTx = (t i).GetHash rt) || (nodes i).HasTx side hashTx) := by
  obtain ⟨s, hLegacy, hNext⟩ := h.accepted hi
  have hFind := find_accepted rt (nodes i) (t i) s hashTx
  rw [hNext]
  unfold Node.HasTx
  rw [hFind]
  by_cases hSame : hashTx = (t i).GetHash rt
  · simp [hSame]
  · simp [hSame, Node.accepted, hLegacy]

theorem hasTx_mono (h : Nodes rt side n t nodes) {hashTx : Uint512} (hk : k ≤ j) (hj : j ≤ n)
    (hHas : (nodes k).HasTx side hashTx = true) : (nodes j).HasTx side hashTx = true := by
  induction j, hk using Nat.le_induction with
  | base => exact hHas
  | succ j hLe ih =>
      rw [h.hasTx_succ (Nat.lt_of_succ_le hj), ih (Nat.le_of_succ_le hj), Bool.or_true]

/-- A node of the run has the keys up to its own. -/
theorem hasTx_key (h : Nodes rt side n t nodes) (hi : i ≤ n) (hk : k ≤ n) :
    (nodes k).HasTx side (key rt t i) = decide (i ≤ k) := by
  by_cases hLe : i ≤ k
  · rw [decide_eq_true hLe]
    cases i with
    | zero =>
        refine h.hasTx_mono hLe hk ?_
        simp only [Node.HasTx, key, h.disk, Bool.or_true]
    | succ i =>
        refine h.hasTx_mono hLe hk ?_
        rw [h.hasTx_succ hi, key, decide_eq_true rfl, Bool.true_or]
  · rw [decide_eq_false hLe]
    cases i with
    | zero => exact absurd (Nat.zero_le k) hLe
    | succ i =>
        have hFresh := h.fresh i hi
        by_contra hHas
        have hTrue : (nodes k).HasTx side (key rt t (i + 1)) = true := by
          simpa using hHas
        have hLater := h.hasTx_mono (show k ≤ i by omega) (Nat.le_of_succ_le hi) hTrue
        rw [key, hFresh] at hLater
        cases hLater

theorem key_inj (h : Nodes rt side n t nodes) (hi : i ≤ n) (hj : j ≤ n)
    (hKey : key rt t i = key rt t j) : i = j := by
  have hLe : j ≤ i := by
    have hHas := h.hasTx_key hj hi
    rw [← hKey, h.hasTx_key hi hi, decide_eq_true (Nat.le_refl i)] at hHas
    exact of_decide_eq_true hHas.symm
  have hGe : i ≤ j := by
    have hHas := h.hasTx_key hi hj
    rw [hKey, h.hasTx_key hj hj, decide_eq_true (Nat.le_refl j)] at hHas
    exact of_decide_eq_true hHas.symm
  exact Nat.le_antisymm hGe hLe

/-- Processing the orphans behind a hash flushes what waits there. -/
theorem processOrphans_eq (h : Nodes rt side n t nodes) (b : Buffer) (hb : b.next ≤ n)
    (hIn : ∀ i ∈ b.waiting, i < n) (mapOrphans : Uint512 → Option Transaction)
    (setOrphansByIndex : Uint512 → Bool)
    (hOrphans : ∀ i, b.next ≤ i → i ≤ n →
      mapOrphans (key rt t i) = if i ∈ b.waiting then some (t i) else none)
    (nFuel : Nat) (hFuel : 2 * b.waiting.card < nFuel) :
    ∃ mapOrphans' setOrphansByIndex',
      Node.Accept.processOrphans rt side nFuel (waiting (nodes b.next) mapOrphans setOrphansByIndex)
          (key rt t b.next) =
        some (waiting (nodes b.flush.next) mapOrphans' setOrphansByIndex', .returned true) ∧
      (∀ hashTx tx, mapOrphans' hashTx = some tx ↔ mapOrphans hashTx = some tx ∧
        ∀ i, b.next ≤ i → i < b.flush.next → hashTx ≠ key rt t i) ∧
      ∀ hashTx, setOrphansByIndex' hashTx = true ↔ setOrphansByIndex hashTx = true ∧
        ∀ i, b.next ≤ i → i < b.flush.next → hashTx ≠ key rt t (i + 1) := by
  induction b using Buffer.flush.induct generalizing nFuel with
  | case1 b hMem ih =>
      have hNext : b.next < n := hIn b.next hMem
      have hOrphan : mapOrphans (key rt t b.next) = some (t b.next) := by
        rw [hOrphans b.next (Nat.le_refl _) hb, if_pos hMem]
      have hCard := Finset.card_erase_of_mem hMem
      have hPos := Finset.card_pos.mpr ⟨b.next, hMem⟩
      rw [Buffer.flush_of_mem hMem]
      obtain ⟨nFuel, rfl⟩ : ∃ nFuel', nFuel = nFuel' + 3 := ⟨nFuel - 3, by omega⟩
      have hFlush := Buffer.flush_spec ⟨b.next + 1, b.waiting.erase b.next⟩
      have hSplit : ∀ P : Nat → Prop,
          (∀ i, b.next ≤ i → i < (Buffer.flush ⟨b.next + 1, b.waiting.erase b.next⟩).next → P i) ↔
            P b.next ∧ ∀ i, b.next + 1 ≤ i →
              i < (Buffer.flush ⟨b.next + 1, b.waiting.erase b.next⟩).next → P i := by
        intro P
        have hLe : b.next + 1 ≤ _ := hFlush.1
        constructor
        · intro hAll
          exact ⟨hAll _ (Nat.le_refl _) hLe, fun i hFrom hTo => hAll i (Nat.le_of_succ_le hFrom) hTo⟩
        · rintro ⟨hFirst, hRest⟩ i hFrom hTo
          rcases Nat.eq_or_lt_of_le hFrom with rfl | hLt
          · exact hFirst
          · exact hRest i hLt hTo
      -- the orphan is accepted, and what waits behind it is flushed
      obtain ⟨mapOrphans', setOrphansByIndex', hInner, hMap, hSet⟩ := ih hNext
        (fun i hErased => hIn i (Finset.mem_of_mem_erase hErased))
        (fun i hFrom hTo => by
          rw [hOrphans i (Nat.le_of_succ_le hFrom) hTo]
          simp only [Finset.mem_erase, ne_eq, show i ≠ b.next by simp only at hFrom; omega,
            not_false_iff, true_and])
        (nFuel + 1) (by simp only; omega)
      rw [key_succ] at hInner
      have hHas : (waiting (nodes b.next) mapOrphans setOrphansByIndex).HasTx side
          ((t b.next).GetHash rt) = false := by
        rw [hasTx_waiting]
        exact h.fresh b.next hNext
      have hAccept := accept_of_acceptNew hHas
        (acceptNew_waiting (h.notFirst _ hNext) mapOrphans setOrphansByIndex (h.accept _ hNext))
        hInner
      -- nothing waits behind the orphan any more
      have hBehind : Function.update mapOrphans' (key rt t b.next) none (key rt t (b.next + 1)) =
          none := by
        rw [Function.update_of_ne (by
          intro hKey
          have hEq := h.key_inj hNext hb hKey
          omega)]
        by_contra hSome
        obtain ⟨tx, hTx⟩ := Option.ne_none_iff_exists'.mp hSome
        obtain ⟨hOld, hOut⟩ := (hMap _ _).mp hTx
        rw [hOrphans (b.next + 1) (Nat.le_succ _) hNext] at hOld
        have hWaiting : b.next + 1 ∈ b.waiting.erase b.next := by
          refine Finset.mem_erase.mpr ⟨by omega, ?_⟩
          by_contra hNot
          rw [if_neg hNot] at hOld
          cases hOld
        obtain ⟨hLe, hEnd, -, hIff⟩ := hFlush
        by_cases hStuck : (Buffer.flush ⟨b.next + 1, b.waiting.erase b.next⟩).next = b.next + 1
        · refine hEnd ((hIff _).mpr ⟨hStuck.symm ▸ hWaiting, ?_⟩)
          simp only [hStuck]
          omega
        · exact hOut (b.next + 1) (Nat.le_refl _) (by simp only at hLe; omega) rfl
      refine ⟨Function.update mapOrphans' (key rt t b.next) none,
        Function.update setOrphansByIndex' (key rt t (b.next + 1)) false, ?_, ?_, ?_⟩
      · rw [key_succ] at hBehind ⊢
        rw [processOrphans_some hOrphan hAccept, release_waiting]
        refine processOrphans_none ?_
        rw [mapOrphans_waiting]
        exact hBehind
      · intro hashTx tx
        rw [hSplit, Function.update_apply]
        by_cases hSame : hashTx = key rt t b.next
        · simp [hSame]
        · rw [if_neg hSame, hMap]
          simp only [ne_eq, hSame, not_false_iff, true_and]
      · intro hashTx
        rw [hSplit, Function.update_apply]
        by_cases hSame : hashTx = key rt t (b.next + 1)
        · simp [hSame]
        · rw [if_neg hSame, hSet]
          simp only [ne_eq, hSame, not_false_iff, true_and]
  | case2 b hNot =>
      rw [Buffer.flush_of_not_mem hNot]
      have hNone : mapOrphans (key rt t b.next) = none := by
        rw [hOrphans b.next (Nat.le_refl _) hb, if_neg hNot]
      obtain ⟨nFuel, rfl⟩ : ∃ nFuel', nFuel = nFuel' + 1 := ⟨nFuel - 1, by omega⟩
      refine ⟨mapOrphans, setOrphansByIndex, ?_, ?_, ?_⟩
      · exact processOrphans_none hNone
      · intro hashTx tx
        simp only [iff_self_and]
        intro _ i hFrom hTo
        omega
      · intro hashTx
        simp only [iff_self_and]
        intro _ i hFrom hTo
        omega

/-- A node holds what a buffer has delivered, and the rest of it waits. -/
structure Represents (rt : Runtime) (n : Nat) (t : Nat → Transaction) (nodes : Nat → Node σ)
    (node : Node σ) (b : Buffer) : Prop where
  holds : node = waiting (nodes b.next) node.pool.mapOrphans node.pool.setOrphansByIndex
  next : b.next ≤ n
  ordered : b.Ordered
  below : ∀ i ∈ b.waiting, i < n
  orphans : ∀ hashTx tx, node.pool.mapOrphans hashTx = some tx ↔
    ∃ i ∈ b.waiting, hashTx = key rt t i ∧ tx = t i
  index : ∀ hashTx, node.pool.setOrphansByIndex hashTx = true ↔
    ∃ i ∈ b.waiting, hashTx = key rt t (i + 1)

theorem orphan_key {b : Buffer} (h : Nodes rt side n t nodes)
    (hRep : Represents rt n t nodes node b) (hi : i ≤ n) :
    node.pool.mapOrphans (key rt t i) = if i ∈ b.waiting then some (t i) else none := by
  by_cases hMem : i ∈ b.waiting
  · rw [if_pos hMem]
    exact (hRep.orphans _ _).mpr ⟨i, hMem, rfl, rfl⟩
  · rw [if_neg hMem]
    by_contra hSome
    obtain ⟨tx, hTx⟩ := Option.ne_none_iff_exists'.mp hSome
    obtain ⟨j, hWaiting, hKey, -⟩ := (hRep.orphans _ _).mp hTx
    have hEq := h.key_inj hi (Nat.le_of_lt (hRep.below j hWaiting)) hKey
    exact hMem (hEq ▸ hWaiting)

/-- Accepting a transaction is its arrival in the buffer. -/
theorem accept_arrive (h : Nodes rt side n t nodes) {b : Buffer} (hRep : Represents rt n t nodes node b)
    (hi : i < n) (hNew : i ∉ b.received) (nFuel : Nat) (hFuel : 2 * n + 1 < nFuel) :
    ∃ node' outcome, node.Accept rt side nFuel (t i) = some (node', outcome) ∧
      Represents rt n t nodes node' (b.arrive i) := by
  rw [Buffer.mem_received, not_or] at hNew
  obtain ⟨hNext, hWaiting⟩ := hNew
  obtain ⟨nFuel, rfl⟩ : ∃ nFuel', nFuel = nFuel' + 1 := ⟨nFuel - 1, by omega⟩
  have hHasTx : ∀ j ≤ n, node.HasTx side (key rt t j) = decide (j ≤ b.next) := by
    intro j hj
    rw [hRep.holds, hasTx_waiting]
    exact h.hasTx_key hj hRep.next
  have hHas : node.HasTx side ((t i).GetHash rt) = false := by
    have hKey := hHasTx (i + 1) hi
    rwa [decide_eq_false (by omega)] at hKey
  have hOrdered := hRep.ordered
  have hArrived := Buffer.ordered_arrive hRep.ordered (i := i) (by
    rw [Buffer.mem_received, not_or]
    exact ⟨hNext, hWaiting⟩)
  by_cases hEq : i = b.next
  · -- the next transaction of the chain
    subst hEq
    have hAccept : node.acceptNew rt side (t b.next) =
        (waiting (nodes (b.next + 1)) node.pool.mapOrphans node.pool.setOrphansByIndex,
          .returned true) := by
      conv_lhs => rw [hRep.holds]
      exact acceptNew_waiting (h.notFirst _ hi) _ _ (h.accept _ hi)
    have hCard : b.waiting.card ≤ n := by
      have hSubset : b.waiting ⊆ Finset.range n := fun j hMem =>
        Finset.mem_range.mpr (hRep.below j hMem)
      simpa using Finset.card_le_card hSubset
    have hKeys : ∀ j, b.next + 1 ≤ j → j ≤ n → node.pool.mapOrphans (key rt t j) =
        if j ∈ b.waiting then some (t j) else none := by
      intro j _ hTo
      exact h.orphan_key hRep hTo
    obtain ⟨mapOrphans, setOrphansByIndex, hProcess, hMap, hSet⟩ :=
      h.processOrphans_eq ⟨b.next + 1, b.waiting⟩ hi hRep.below node.pool.mapOrphans
        node.pool.setOrphansByIndex hKeys nFuel
        (by simp only; omega)
    have hFlush := Buffer.flush_spec ⟨b.next + 1, b.waiting⟩
    have hArrive : b.arrive b.next = Buffer.flush ⟨b.next + 1, b.waiting⟩ := by
      rw [Buffer.arrive, if_pos rfl]
    rw [key_succ] at hProcess
    refine ⟨_, _, accept_of_acceptNew hHas hAccept hProcess, ?_⟩
    rw [hArrive] at hArrived ⊢
    obtain ⟨hLe, -, hFlushed, hIff⟩ := hFlush
    constructor
    · rfl
    · by_contra hGt
      have hMem := hFlushed n (by simp only; omega) (by omega)
      exact Nat.lt_irrefl n (hRep.below n hMem)
    · exact hArrived
    · intro j hMem
      exact hRep.below j ((hIff j).mp hMem).1
    · intro hashTx tx
      change mapOrphans hashTx = some tx ↔ _
      rw [hMap, hRep.orphans]
      constructor
      · rintro ⟨⟨j, hMem, hKey, hTx⟩, hOut⟩
        refine ⟨j, (hIff j).mpr ⟨hMem, ?_⟩, hKey, hTx⟩
        rintro ⟨hFrom, hTo⟩
        exact hOut j hFrom hTo hKey
      · rintro ⟨j, hMem, rfl, rfl⟩
        obtain ⟨hOld, hStay⟩ := (hIff j).mp hMem
        refine ⟨⟨j, hOld, rfl, rfl⟩, ?_⟩
        intro l hFrom hTo hKey
        have hLt := hFlushed l hFrom hTo
        have hSame := h.key_inj (Nat.le_of_lt (hRep.below j hOld))
          (Nat.le_of_lt (hRep.below l hLt)) hKey
        exact hStay ⟨hSame ▸ hFrom, hSame ▸ hTo⟩
    · intro hashTx
      change setOrphansByIndex hashTx = true ↔ _
      rw [hSet, hRep.index]
      constructor
      · rintro ⟨⟨j, hMem, hKey⟩, hOut⟩
        refine ⟨j, (hIff j).mpr ⟨hMem, ?_⟩, hKey⟩
        rintro ⟨hFrom, hTo⟩
        exact hOut j hFrom hTo hKey
      · rintro ⟨j, hMem, rfl⟩
        obtain ⟨hOld, hStay⟩ := (hIff j).mp hMem
        refine ⟨⟨j, hOld, rfl⟩, ?_⟩
        intro l hFrom hTo hKey
        have hLt := hFlushed l hFrom hTo
        have hSame := h.key_inj (hRep.below j hOld) (hRep.below l hLt) hKey
        obtain rfl : j = l := by omega
        exact hStay ⟨hFrom, hTo⟩
  · -- a later one, that waits
    have hAdmits := ((acceptNew_eq_true (h.notFirst i hi)).mp (h.accept i hi)).1
    have hPrev : node.HasTx side (t i).hashPrevTx = false := by
      rw [h.hashPrevTx_eq hi, hHasTx i (Nat.le_of_lt hi), decide_eq_false (by omega)]
    have hOrphan := acceptNew_orphan rt (h.notFirst i hi) hAdmits hPrev
    refine ⟨_, _, accept_of_orphan hHas hOrphan, ?_⟩
    have hArrive : b.arrive i = ⟨b.next, insert i b.waiting⟩ := by
      rw [Buffer.arrive, if_neg hEq]
    rw [hArrive] at hArrived ⊢
    constructor
    · change waiting node _ _ = waiting (nodes b.next) _ _
      conv_lhs => rw [hRep.holds]
      rfl
    · exact hRep.next
    · exact hArrived
    · intro j hMem
      rcases Finset.mem_insert.mp hMem with rfl | hOld
      · exact hi
      · exact hRep.below j hOld
    · intro hashTx tx
      change Function.update node.pool.mapOrphans (t i).hashPrevTx (some (t i)) hashTx = some tx ↔ _
      rw [h.hashPrevTx_eq hi, Function.update_apply]
      by_cases hSame : hashTx = key rt t i
      · rw [if_pos hSame]
        constructor
        · intro hTx
          exact ⟨i, Finset.mem_insert_self _ _, hSame, (Option.some.inj hTx).symm⟩
        · rintro ⟨j, hMem, hKey, rfl⟩
          have hLe : j ≤ n := by
            rcases Finset.mem_insert.mp hMem with rfl | hOld
            · exact Nat.le_of_lt hi
            · exact Nat.le_of_lt (hRep.below j hOld)
          rw [h.key_inj (Nat.le_of_lt hi) hLe (hSame.symm.trans hKey)]
      · rw [if_neg hSame, hRep.orphans]
        constructor
        · rintro ⟨j, hMem, hKey, hTx⟩
          exact ⟨j, Finset.mem_insert_of_mem hMem, hKey, hTx⟩
        · rintro ⟨j, hMem, hKey, hTx⟩
          refine ⟨j, Finset.mem_of_mem_insert_of_ne hMem ?_, hKey, hTx⟩
          rintro rfl
          exact hSame hKey
    · intro hashTx
      change Function.update node.pool.setOrphansByIndex ((t i).GetHash rt) true hashTx = true ↔ _
      rw [← key_succ, Function.update_apply]
      by_cases hSame : hashTx = key rt t (i + 1)
      · rw [if_pos hSame]
        exact iff_of_true rfl ⟨i, Finset.mem_insert_self _ _, hSame⟩
      · rw [if_neg hSame, hRep.index]
        constructor
        · rintro ⟨j, hMem, hKey⟩
          exact ⟨j, Finset.mem_insert_of_mem hMem, hKey⟩
        · rintro ⟨j, hMem, hKey⟩
          refine ⟨j, Finset.mem_of_mem_insert_of_ne hMem ?_, hKey⟩
          rintro rfl
          exact hSame hKey

/-- Arrivals one after another. -/
theorem arrivals_represent (h : Nodes rt side n t nodes) {b : Buffer}
    (hRep : Represents rt n t nodes node b) (nFuel : Nat) (hFuel : 2 * n + 1 < nFuel)
    {vi : List Nat} (hNodup : vi.Nodup) (hIn : ∀ i ∈ vi, i < n ∧ i ∉ b.received) :
    ∃ node', arrivals rt side nFuel node (vi.map t) = some node' ∧
      Represents rt n t nodes node' (vi.foldl Buffer.arrive b) := by
  induction vi generalizing node b with
  | nil => exact ⟨node, rfl, hRep⟩
  | cons i vi ih =>
      obtain ⟨hFresh, hRest⟩ := List.nodup_cons.mp hNodup
      obtain ⟨hi, hNew⟩ := hIn i List.mem_cons_self
      obtain ⟨node₁, outcome, hAccept, hRep₁⟩ := h.accept_arrive hRep hi hNew nFuel hFuel
      obtain ⟨node', hArrivals, hRep'⟩ := ih hRep₁ hRest (by
        intro j hMem
        obtain ⟨hj, hOld⟩ := hIn j (List.mem_cons_of_mem i hMem)
        refine ⟨hj, ?_⟩
        rw [Buffer.received_arrive, Finset.mem_insert, not_or]
        refine ⟨?_, hOld⟩
        rintro rfl
        exact hFresh hMem)
      refine ⟨node', ?_, hRep'⟩
      simp only [arrivals, List.map_cons, List.foldlM_cons, hAccept, Option.map_some,
        Option.bind_eq_bind, Option.bind_some] at hArrivals ⊢
      exact hArrivals

theorem find_key (h : Nodes rt side n t nodes) (hi : i < k) (hk : k ≤ n) :
    (nodes k).pool.find (key rt t (i + 1)) = some (t i) := by
  induction k, hi using Nat.le_induction with
  | base =>
      obtain ⟨s, -, hNext⟩ := h.accepted hk
      rw [hNext, find_accepted, key, if_pos rfl]
  | succ k hLe ih =>
      obtain ⟨s, -, hNext⟩ := h.accepted hk
      have hNe : key rt t (i + 1) ≠ (t k).GetHash rt := by
        intro hKey
        have hEq := h.key_inj (i := i + 1) (j := k + 1) (by omega) hk hKey
        omega
      rw [hNext, find_accepted, if_neg hNe]
      exact ih (Nat.le_of_succ_le hk)

end Nodes

/-- The nodes that a chain goes through which is accepted in order. -/
theorem AcceptedInOrder.nodes {vtx : List Transaction} (h : AcceptedInOrder rt side node vtx)
    (hFirst : ∀ tx ∈ vtx, ¬ tx.IsFirst) (hNone : node.pool.mapOrphans = fun _ => none) :
    ∃ nodes : Nat → Node σ, nodes 0 = node ∧ ∀ i < vtx.length,
      (nodes i).HasTx side ((vtx.getD i {}).GetHash rt) = false ∧
        (nodes i).acceptNew rt side (vtx.getD i {}) = (nodes (i + 1), .returned true) := by
  induction vtx generalizing node with
  | nil =>
      refine ⟨fun _ => node, rfl, ?_⟩
      intro i hi
      cases hi
  | cons tx vtx ih =>
      obtain ⟨nFuel, node₁, hAccept, hRest⟩ := h
      have hTx := hFirst tx List.mem_cons_self
      obtain ⟨hFresh, hNew⟩ := accept_eq_acceptNew hTx hNone hAccept
      have hNone₁ : node₁.pool.mapOrphans = fun _ => none := by
        obtain ⟨-, -, -, -, s, -, rfl⟩ := (acceptNew_eq_true hTx).mp hNew
        exact hNone
      obtain ⟨nodes, hZero, hNodes⟩ := ih hRest
        (fun tx' hMem => hFirst tx' (List.mem_cons_of_mem tx hMem)) hNone₁
      refine ⟨fun i => i.casesOn node nodes, rfl, ?_⟩
      intro i hi
      cases i with
      | zero =>
          rw [List.getD_cons_zero, zero_add]
          change node.HasTx side (tx.GetHash rt) = false ∧
            node.acceptNew rt side tx = (nodes 0, .returned true)
          rw [hNew, hZero]
          exact ⟨hFresh, rfl⟩
      | succ i => exact hNodes i (Nat.lt_of_succ_lt_succ hi)

theorem getD_eq_getElem {vtx : List Transaction} {i : Nat} (hi : i < vtx.length) :
    vtx.getD i {} = vtx[i] := by
  rw [List.getD_eq_getElem?_getD, List.getElem?_eq_getElem hi, Option.getD_some]

/-- A rearrangement of the items of a list is one of their numbers. -/
theorem exists_perm_range {order vtx : List Transaction} (h : order.Perm vtx) :
    ∃ vi : List Nat, vi.Perm (List.range vtx.length) ∧ order = vi.map (vtx.getD · {}) := by
  have hMap : vtx = (List.range vtx.length).map (vtx.getD · {}) := by
    refine List.ext_getElem (by simp) ?_
    intro i hLeft hRight
    simp [hLeft]
  have hPairs : List.Forall₂ (fun tx i => tx = vtx.getD i {}) vtx (List.range vtx.length) := by
    rw [← List.forall₂_map_right_iff, ← hMap]
    exact List.forall₂_refl vtx
  obtain ⟨vi, hOrder, hPerm⟩ := List.perm_comp_forall₂ h hPairs
  refine ⟨vi, hPerm, ?_⟩
  rw [← List.forall₂_map_right_iff, List.forall₂_eq_eq_eq] at hOrder
  exact hOrder

/-- **In whatever order a signature chain is passed to the pool that would accept it in its own,
all of it is in the pool in the end, and no orphan is left.** -/
theorem arrivals_connect {txFirst : Transaction} {vtx order : List Transaction}
    (hEmpty : node.pool = {}) (hChain : SigChain rt (txFirst :: vtx))
    (hDisk : (node.db.ledger.ReadTx txFirst.hashPrevTx).isSome)
    (hAccepted : AcceptedInOrder rt side node (txFirst :: vtx))
    (hOrder : order.Perm (txFirst :: vtx)) :
    ∃ nMin, ∀ nFuel ≥ nMin, ∃ node', arrivals rt side nFuel node order = some node' ∧
      (∀ tx ∈ txFirst :: vtx, node'.pool.find (tx.GetHash rt) = some tx) ∧
        node'.pool.mapOrphans = (fun _ => none) ∧
          node'.pool.setOrphansByIndex = fun _ => false := by
  have hNone : node.pool.mapOrphans = fun _ => none := by
    rw [hEmpty]
  have hIndex : node.pool.setOrphansByIndex = fun _ => false := by
    rw [hEmpty]
  obtain ⟨nodes, hZero, hNodes⟩ := hAccepted.nodes hChain.notFirst hNone
  obtain ⟨vi, hPerm, rfl⟩ := exists_perm_range hOrder
  have h : Nodes rt side (txFirst :: vtx).length ((txFirst :: vtx).getD · {}) nodes := by
    constructor
    · intro i hi
      refine hChain.notFirst _ ?_
      rw [getD_eq_getElem hi]
      exact List.getElem_mem hi
    · intro i hi
      have hLink := List.isChain_iff_getElem.mp hChain.linked i hi
      have hi' := Nat.lt_of_succ_lt hi
      rw [getD_eq_getElem hi, getD_eq_getElem hi']
      exact hLink
    · rw [hZero]
      exact hDisk
    · exact fun i hi => (hNodes i hi).1
    · exact fun i hi => (hNodes i hi).2
  have hRep : Nodes.Represents rt (txFirst :: vtx).length ((txFirst :: vtx).getD · {}) nodes node
      ⟨0, ∅⟩ := by
    constructor
    · rw [hZero]
      rfl
    · exact Nat.zero_le _
    · intro i hMem
      simp at hMem
    · intro i hMem
      simp at hMem
    · simp [hNone]
    · simp [hIndex]
  refine ⟨2 * (txFirst :: vtx).length + 2, ?_⟩
  intro nFuel hFuel
  obtain ⟨node', hArrivals, hEnd⟩ := h.arrivals_represent hRep nFuel (by omega)
    (hPerm.nodup_iff.mpr List.nodup_range) (by
      intro i hMem
      have hi := List.mem_range.mp (hPerm.mem_iff.mp hMem)
      exact ⟨hi, by simp [Buffer.mem_received]⟩)
  rw [Buffer.arrivals_deliver hPerm] at hEnd
  refine ⟨node', hArrivals, ?_, ?_, ?_⟩
  · intro tx hMem
    obtain ⟨i, hi, rfl⟩ := List.getElem_of_mem hMem
    have hFind := h.find_key hi (Nat.le_refl _)
    rw [key, getD_eq_getElem hi] at hFind
    rw [hEnd.holds]
    exact hFind
  · funext hashTx
    by_contra hSome
    obtain ⟨tx, hTx⟩ := Option.ne_none_iff_exists'.mp hSome
    obtain ⟨i, hMem, -⟩ := (hEnd.orphans _ _).mp hTx
    simp at hMem
  · funext hashTx
    by_contra hSome
    obtain ⟨i, hMem, -⟩ := (hEnd.index hashTx).mp (by simpa using hSome)
    simp at hMem

/-- A node with the transaction that a chain goes on from. -/
def chainNode : Node Unit where
  db :=
    { ledger := { txs hashTx := if hashTx = 7 then some {} else none }
      last hashGenesis := if hashGenesis = alice then some 7 else none }
  side := ()

def chainSecond : Transaction := { nSequence := 1, hashGenesis := alice, hashPrevTx := 7 }

def chainThird : Transaction :=
  { nSequence := 2, hashGenesis := alice, hashPrevTx := chainSecond.GetHash exampleRuntime }

theorem accept_of_outcome {nFuel : Nat} {outcome : Outcome}
    (h : (node.Accept rt side nFuel tx).map Prod.snd = some outcome) :
    node.Accept rt side nFuel tx =
      some (((node.Accept rt side nFuel tx).map Prod.fst).getD node, outcome) := by
  cases hAccept : node.Accept rt side nFuel tx with
  | none =>
      rw [hAccept] at h
      cases h
  | some r =>
      rw [hAccept] at h
      obtain ⟨next, outcome'⟩ := r
      simpa using h

/-- Two transactions that are passed the wrong way round. -/
theorem arrivals_connect_swapped :
    ∃ nMin, ∀ nFuel ≥ nMin, ∃ node',
      arrivals exampleRuntime exampleSide nFuel chainNode [chainThird, chainSecond] = some node' ∧
        (∀ tx ∈ [chainSecond, chainThird],
            node'.pool.find (tx.GetHash exampleRuntime) = some tx) ∧
          node'.pool.mapOrphans = (fun _ => none) ∧
            node'.pool.setOrphansByIndex = fun _ => false := by
  have hSecond : (chainNode.Accept exampleRuntime exampleSide 2 chainSecond).map Prod.snd =
      some (.returned true) := by
    decide +kernel
  have hThird : ((((chainNode.Accept exampleRuntime exampleSide 2 chainSecond).map
      Prod.fst).getD chainNode).Accept exampleRuntime exampleSide 2 chainThird).map Prod.snd =
        some (.returned true) := by
    decide +kernel
  have hChain : SigChain exampleRuntime [chainSecond, chainThird] := by
    constructor
    · decide
    · refine .cons_cons ?_ (.singleton _)
      rw [chainThird]
  have hDisk : (chainNode.db.ledger.ReadTx chainSecond.hashPrevTx).isSome := by
    decide +kernel
  exact arrivals_connect rfl hChain hDisk
    ⟨2, _, accept_of_outcome hSecond, 2, _, accept_of_outcome hThird, trivial⟩
    (List.Perm.swap chainSecond chainThird [])

end Nexus.Safety
