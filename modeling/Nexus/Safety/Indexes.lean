import Nexus.Lib.Run
import Nexus.Safety.Arrivals
import Nexus.Safety.Consistency

/-!
# The indexes of the memory pool

`mapClaimed` leads from a transaction to the one in the pool that follows it, and
`setOrphansByIndex` holds the hashes of the orphans.  The pool changes in few ways: a
transaction is put aside, in conflict, in the pool, released or erased.  What each of
them keeps is kept by every sequence of calls.
-/

namespace Nexus.Safety

open Nexus.Lib
open Nexus.Util
open Nexus.LLD
open Nexus.Ledger

variable {σ : Type} {rt : Runtime} {side : Periphery σ} {node node' : Node σ} {tx : Transaction}

/-! ## Runs -/

/-- What happens to a pool. -/
inductive PoolEvent where
  | Accept (tx : Transaction)
  | ProcessOrphans (hashTx : Uint512)
  | Remove (hashTx : Uint512)
  | Check
  /-- A block changes the databases and the state of the chain. -/
  | block

inductive PoolStep (rt : Runtime) (side : Periphery σ) : Node σ → PoolEvent → Node σ → Prop
  | Accept {node node' : Node σ} {tx : Transaction} {nFuel : Nat} {outcome : Outcome}
      (h : node.Accept rt side nFuel tx = some (node', outcome)) :
      PoolStep rt side node (.Accept tx) node'
  | ProcessOrphans {node node' : Node σ} {hashTx : Uint512} {nFuel : Nat} {outcome : Outcome}
      (h : Node.Accept.processOrphans rt side nFuel node hashTx = some (node', outcome)) :
      PoolStep rt side node (.ProcessOrphans hashTx) node'
  | Remove (node : Node σ) (hashTx : Uint512) :
      PoolStep rt side node (.Remove hashTx) (node.Remove side hashTx)
  | Check (node : Node σ) : PoolStep rt side node .Check (node.Check rt side)
  | block (node : Node σ) (db : Records) (chain : ChainState) (s : σ) :
      PoolStep rt side node .block { node with db, chain, side := s }

/-- The transactions that are passed to `Accept`. -/
def Passed (events : List PoolEvent) (tx : Transaction) : Prop := .Accept tx ∈ events

/-- No first transaction names a predecessor that a later transaction of a chain names. -/
def FirstApart (events : List PoolEvent) : Prop :=
  ∀ tx tx', Passed events tx → Passed events tx' → tx.IsFirst → ¬ tx'.IsFirst →
    tx.hashPrevTx ≠ tx'.hashPrevTx

/-- The transaction of the pool that follows another is the one that is recorded for it, and
it is the only one. -/
structure ClaimsDescribe (rt : Runtime) (pool : Mempool) : Prop where
  claimed : ∀ hashPrevTx hashTx, pool.mapClaimed hashPrevTx = some hashTx ↔
    ∃ tx, pool.find hashTx = some tx ∧ tx.GetHash rt = hashTx ∧ ¬ tx.IsFirst ∧
      tx.hashPrevTx = hashPrevTx
  unique : ∀ hashTx hashTx' tx tx', pool.find hashTx = some tx → pool.find hashTx' = some tx' →
    ¬ tx.IsFirst → ¬ tx'.IsFirst → tx.hashPrevTx = tx'.hashPrevTx → hashTx = hashTx'

/-- The hashes of the orphans are those of the index. -/
def IndexDescribes (rt : Runtime) (pool : Mempool) : Prop :=
  ∀ hashTx, pool.setOrphansByIndex hashTx = true ↔
    ∃ hashPrevTx tx, pool.mapOrphans hashPrevTx = some tx ∧ tx.GetHash rt = hashTx

/-- No other transaction waits for the predecessor of a transaction, or has its hash. -/
def WaitsAlone (rt : Runtime) (pool : Mempool) (tx : Transaction) : Prop :=
  ∀ hashPrevTx tx', pool.mapOrphans hashPrevTx = some tx' →
    hashPrevTx = tx.hashPrevTx ∨ tx'.GetHash rt = tx.GetHash rt → tx' = tx

/-- `Accept` puts the transaction aside, to wait for the one before it. -/
def PutsAside (rt : Runtime) (side : Periphery σ) (node : Node σ) (tx : Transaction) : Prop :=
  node.HasTx side (tx.GetHash rt) = false ∧ Node.admits side tx = .ok true ∧ ¬ tx.IsFirst ∧
    node.HasTx side tx.hashPrevTx = false

/-- The transaction is behind a gap of a chain that follows the disk. -/
def BehindGap (rt : Runtime) (db : Records) (chains : List (Uint256 × List Transaction))
    (tx : Transaction) : Prop :=
  ∃ chain ∈ chains, Rooted db chain.1 chain.2 ∧
    tx ∈ chain.2.drop (Mempool.sequenced rt chain.2).length

/-- A call that overwrites no orphan, and takes none away but the one it removes.  `Check`
removes what is behind a gap, as far as that is disconnected; what it erases leaves the orphans
as they are. -/
def KeepsOrphans (rt : Runtime) (side : Periphery σ) (node : Node σ) : PoolEvent → Prop
  | .Accept tx => PutsAside rt side node tx → WaitsAlone rt node.pool tx
  | .Remove hashTx =>
      (∀ tx, node.pool.find hashTx = some tx → WaitsAlone rt node.pool tx) ∧
        (node.pool.find hashTx = none → ∀ hashPrevTx tx,
          node.pool.mapOrphans hashPrevTx = some tx → tx.GetHash rt ≠ hashTx)
  | .Check => ∀ tx, BehindGap rt node.db (node.chains side) tx →
      (node.Check rt side).pool.find (tx.GetHash rt) = none → WaitsAlone rt node.pool tx
  | _ => True

/-! ## Changes of the pool -/

theorem lookup_filter (ledger : List (Uint512 × Transaction)) (hashTx hashTx' : Uint512) :
    (ledger.filter fun entry => entry.1 ≠ hashTx).lookup hashTx' =
      if hashTx' = hashTx then none else ledger.lookup hashTx' := by
  induction ledger with
  | nil => simp
  | cons entry ledger ih =>
      obtain ⟨key, tx⟩ := entry
      by_cases hKey : key = hashTx
      · rw [List.filter_cons_of_neg (by simp [hKey]), ih]
        by_cases hSame : hashTx' = hashTx
        · rw [if_pos hSame, if_pos hSame]
        · have hBeq : (hashTx' == key) = false := by
            simpa [hKey] using hSame
          rw [if_neg hSame, if_neg hSame, List.lookup_cons, hBeq]
      · rw [List.filter_cons_of_pos (by simp [hKey]), List.lookup_cons, ih, List.lookup_cons]
        by_cases hSame : hashTx' = hashTx
        · have hBeq : (hashTx' == key) = false := by
            simpa [hSame] using Ne.symm hKey
          rw [if_pos hSame, hBeq, if_pos hSame]
        · rw [if_neg hSame, if_neg hSame]

theorem find_remove (node : Node σ) (side : Periphery σ) (hashTx hashTx' : Uint512) :
    (node.Remove side hashTx).pool.find hashTx' =
      if hashTx' = hashTx then none else node.pool.find hashTx' := by
  unfold Node.Remove
  dsimp only
  split
  · exact lookup_filter node.pool.mapLedger hashTx hashTx'
  · rename_i hFind
    by_cases hSame : hashTx' = hashTx
    · rw [if_pos hSame, hSame]
      exact hFind
    · rw [if_neg hSame]
      rfl

/-- What `Accept` does to a node before it looks at the orphans. -/
theorem acceptNew_cases {outcome : Outcome} (h : node.acceptNew rt side tx = (node', outcome)) :
    (outcome = .returned true ∧
      (tx.IsFirst ∨ node.pool.mapClaimed tx.hashPrevTx = none) ∧
        ∃ s, node' = node.accepted rt tx s) ∨
      (outcome ≠ .returned true ∧
        ((∃ s, node' = { node with side := s }) ∨
          (Node.admits side tx = .ok true ∧ ¬ tx.IsFirst ∧
            node.HasTx side tx.hashPrevTx = false ∧ node' = node.orphan rt tx) ∨
          node' = node.conflict rt tx)) := by
  have hStay : ∀ {outcome'}, outcome' ≠ .returned true → (node, outcome') = (node', outcome) →
      outcome ≠ .returned true ∧ ((∃ s, node' = { node with side := s }) ∨
        (Node.admits side tx = .ok true ∧ ¬ tx.IsFirst ∧
          node.HasTx side tx.hashPrevTx = false ∧ node' = node.orphan rt tx) ∨
        node' = node.conflict rt tx) := by
    intro outcome' hNe hEq
    obtain ⟨rfl, rfl⟩ := Prod.mk.inj hEq
    exact ⟨hNe, Or.inl ⟨node.side, rfl⟩⟩
  have hConnect : tx.IsFirst ∨ node.pool.mapClaimed tx.hashPrevTx = none →
      node.connect rt side tx = (node', outcome) →
      (outcome = .returned true ∧
        (tx.IsFirst ∨ node.pool.mapClaimed tx.hashPrevTx = none) ∧
          ∃ s, node' = node.accepted rt tx s) ∨
        (outcome ≠ .returned true ∧
          ((∃ s, node' = { node with side := s }) ∨
            (Node.admits side tx = .ok true ∧ ¬ tx.IsFirst ∧
              node.HasTx side tx.hashPrevTx = false ∧ node' = node.orphan rt tx) ∨
            node' = node.conflict rt tx)) := by
    intro hFree hEq
    unfold Node.connect at hEq
    cases hMemory : side.connectMemory node.side node.db node.pool.Get tx with
    | mk s outcome' =>
        rw [hMemory] at hEq
        rcases outcome' with (_ | _) | _
        · obtain ⟨rfl, rfl⟩ := Prod.mk.inj hEq
          exact Or.inr ⟨by simp, Or.inl ⟨s, rfl⟩⟩
        · obtain ⟨rfl, rfl⟩ := Prod.mk.inj hEq
          exact Or.inl ⟨rfl, hFree, s, rfl⟩
        · obtain ⟨rfl, rfl⟩ := Prod.mk.inj hEq
          exact Or.inr ⟨by simp, Or.inl ⟨s, rfl⟩⟩
  unfold Node.acceptNew at h
  obtain ⟨fResult, hAdmits⟩ : ∃ fResult, Node.admits side tx = fResult := ⟨_, rfl⟩
  rw [hAdmits] at h
  cases fResult with
  | error e =>
      exact Or.inr (hStay (by simp) h)
  | ok fAdmits =>
      cases fAdmits with
      | false => exact Or.inr (hStay (by simp) h)
      | true =>
          dsimp only at h
          by_cases hFirst : tx.IsFirst
          · rw [if_pos hFirst] at h
            exact hConnect (Or.inl hFirst) h
          · rw [if_neg hFirst] at h
            by_cases hHas : node.HasTx side tx.hashPrevTx = false
            · rw [if_pos hHas] at h
              obtain ⟨rfl, rfl⟩ := Prod.mk.inj h
              exact Or.inr ⟨by simp, Or.inr (Or.inl ⟨hAdmits, hFirst, hHas, rfl⟩)⟩
            · rw [if_neg hHas] at h
              by_cases hTaken : (node.pool.mapClaimed tx.hashPrevTx).isSome ∨
                  (node.pool.mapConflicts tx.hashPrevTx).isSome
              · rw [if_pos hTaken] at h
                obtain ⟨rfl, rfl⟩ := Prod.mk.inj h
                exact Or.inr ⟨by simp, Or.inr (Or.inr rfl)⟩
              · rw [if_neg hTaken] at h
                rw [not_or, Option.not_isSome_iff_eq_none] at hTaken
                cases hLast : node.pool.ReadLast rt side node.db tx.hashGenesis with
                | none =>
                    rw [hLast] at h
                    exact Or.inr (hStay (by simp) h)
                | some hashLast =>
                    rw [hLast] at h
                    dsimp only at h
                    by_cases hSame : tx.hashPrevTx ≠ hashLast
                    · rw [if_pos hSame] at h
                      obtain ⟨rfl, rfl⟩ := Prod.mk.inj h
                      exact Or.inr ⟨by simp, Or.inr (Or.inr rfl)⟩
                    · rw [if_neg hSame] at h
                      exact hConnect (Or.inr hTaken.1) h

/-- The orphans of a pool are under their predecessors. -/
def OrphansKeyed (pool : Mempool) : Prop :=
  ∀ hashPrevTx tx, pool.mapOrphans hashPrevTx = some tx → tx.hashPrevTx = hashPrevTx

/-- The orphans of a pool have different hashes. -/
def OrphansApart (rt : Runtime) (pool : Mempool) : Prop :=
  ∀ hashPrevTx hashPrevTx' tx tx', pool.mapOrphans hashPrevTx = some tx →
    pool.mapOrphans hashPrevTx' = some tx' → tx.GetHash rt = tx'.GetHash rt → tx = tx'

/-- Orphans only go. -/
def Shrinks (pool pool' : Mempool) : Prop :=
  ∀ hashPrevTx, pool'.mapOrphans hashPrevTx = none ∨
    pool'.mapOrphans hashPrevTx = pool.mapOrphans hashPrevTx

theorem Shrinks.some {pool pool' : Mempool} (h : Shrinks pool pool') {hashPrevTx : Uint512}
    (hSome : pool'.mapOrphans hashPrevTx = some tx) : pool.mapOrphans hashPrevTx = some tx := by
  rcases h hashPrevTx with hNone | hSame
  · rw [hNone] at hSome
    cases hSome
  · rw [← hSame]
    exact hSome

theorem Shrinks.trans {pool pool₁ pool' : Mempool} (h : Shrinks pool pool₁)
    (h' : Shrinks pool₁ pool') : Shrinks pool pool' := by
  intro hashPrevTx
  rcases h' hashPrevTx with hNone | hSame
  · exact Or.inl hNone
  · rw [hSame]
    exact h hashPrevTx

theorem OrphansKeyed.shrinks {pool pool' : Mempool} (h : OrphansKeyed pool)
    (hShrinks : Shrinks pool pool') : OrphansKeyed pool' :=
  fun hashPrevTx tx hSome => h hashPrevTx tx (hShrinks.some hSome)

theorem OrphansApart.shrinks {pool pool' : Mempool} (h : OrphansApart rt pool)
    (hShrinks : Shrinks pool pool') : OrphansApart rt pool' :=
  fun _ _ tx tx' hSome hSome' => h _ _ tx tx' (hShrinks.some hSome) (hShrinks.some hSome')

/-- The changes of a node while its orphans are processed.  If the orphans have different hashes,
a released one leaves none with its own. -/
inductive Move (rt : Runtime) (fApart : Prop) : Node σ → Node σ → Prop
  | side (node : Node σ) (s : σ) : Move rt fApart node { node with side := s }
  | conflict (node : Node σ) (tx : Transaction) : Move rt fApart node (node.conflict rt tx)
  | orphan (node : Node σ) (tx : Transaction)
      (hWaits : node.pool.mapOrphans tx.hashPrevTx = some tx) :
      Move rt fApart node (node.orphan rt tx)
  | accepted (node : Node σ) (tx : Transaction) (s : σ)
      (hWaits : node.pool.mapOrphans tx.hashPrevTx = some tx)
      (hNew : node.pool.find (tx.GetHash rt) = none)
      (hFree : tx.IsFirst ∨ node.pool.mapClaimed tx.hashPrevTx = none) :
      Move rt fApart node (node.accepted rt tx s)
  | release (node : Node σ) (hashTx : Uint512) (tx : Transaction)
      (hOrphan : node.pool.mapOrphans hashTx = none ∨ node.pool.mapOrphans hashTx = some tx)
      (hApart : fApart → ∀ hashPrevTx tx', hashPrevTx ≠ hashTx →
        node.pool.mapOrphans hashPrevTx = some tx' → tx'.GetHash rt ≠ tx.GetHash rt) :
      Move rt fApart node (node.release hashTx (tx.GetHash rt))

theorem Move.shrinks {fApart : Prop} (h : Move rt fApart node node') :
    Shrinks node.pool node'.pool := by
  intro hashPrevTx
  cases h with
  | side s => exact Or.inr rfl
  | conflict tx => exact Or.inr rfl
  | orphan tx hWaits =>
      refine Or.inr ?_
      change Function.update node.pool.mapOrphans tx.hashPrevTx (some tx) hashPrevTx = _
      rw [← hWaits, Function.update_eq_self]
  | accepted tx s hWaits hNew hFree => exact Or.inr rfl
  | release hashTx tx hOrphan hApart =>
      change Function.update node.pool.mapOrphans hashTx none hashPrevTx = none ∨
        Function.update node.pool.mapOrphans hashTx none hashPrevTx = _
      rw [Function.update_apply]
      by_cases hSame : hashPrevTx = hashTx
      · exact Or.inl (if_pos hSame)
      · exact Or.inr (if_neg hSame)

/-- A node goes through changes. -/
abbrev Moves (rt : Runtime) (fApart : Prop) : Node σ → Node σ → Prop :=
  Relation.ReflTransGen (Move rt fApart)

theorem Moves.shrinks {fApart : Prop} (h : Moves rt fApart node node') :
    Shrinks node.pool node'.pool := by
  induction h with
  | refl => exact fun hashPrevTx => Or.inr rfl
  | tail _ hMove ih => exact ih.trans hMove.shrinks

theorem find_of_hasTx {hashTx : Uint512} (h : ¬ node.HasTx side hashTx = true) :
    node.pool.find hashTx = none := by
  rw [Node.HasTx, Bool.or_eq_true, Bool.or_eq_true, Bool.or_eq_true, not_or, not_or, not_or] at h
  simpa using h.1.1.1

/-- Processing the orphans, and accepting one of them, are changes of the node. -/
theorem moves_of_fuel (rt : Runtime) (side : Periphery σ) (fApart : Prop) (nFuel : Nat) :
    (∀ (node : Node σ) tx r, OrphansKeyed node.pool → (fApart → OrphansApart rt node.pool) →
      node.pool.mapOrphans tx.hashPrevTx = some tx → node.Accept rt side nFuel tx = some r →
        Moves rt fApart node r.1) ∧
    ∀ (node : Node σ) hashTx r, OrphansKeyed node.pool → (fApart → OrphansApart rt node.pool) →
      Node.Accept.processOrphans rt side nFuel node hashTx = some r → Moves rt fApart node r.1 := by
  induction nFuel with
  | zero =>
      constructor
      · intro node tx r _ _ _ h
        cases h
      · intro node hashTx r _ _ h
        cases h
  | succ nFuel ih =>
      obtain ⟨ihAccept, ihProcess⟩ := ih
      constructor
      · intro node tx r hKeyed hApart hWaits h
        unfold Node.Accept at h
        by_cases hHas : node.HasTx side (tx.GetHash rt) = true
        · rw [if_pos hHas] at h
          obtain rfl := Option.some.inj h
          exact .refl
        · rw [if_neg hHas] at h
          cases hNew : node.acceptNew rt side tx with
          | mk node₁ outcome =>
              rw [hNew] at h
              rcases acceptNew_cases hNew with ⟨rfl, hFree, s, rfl⟩ | ⟨hNe, hCases⟩
              · have hMove : Move rt fApart node (node.accepted rt tx s) :=
                  .accepted node tx s hWaits (find_of_hasTx hHas) hFree
                simp only [Option.bind_eq_bind, Option.bind_eq_some_iff] at h
                obtain ⟨⟨node₂, outcome⟩, hProcess, hEnd⟩ := h
                have hLater := ihProcess _ _ _ (hKeyed.shrinks hMove.shrinks)
                  (fun hA => (hApart hA).shrinks hMove.shrinks) hProcess
                rcases outcome with fResult | _
                · obtain rfl := Option.some.inj hEnd
                  exact hLater.head hMove
                · obtain rfl := Option.some.inj hEnd
                  exact hLater.head hMove
              · have hEnd : (node₁, outcome) = r := by
                  rcases outcome with (_ | _) | _
                  · exact Option.some.inj h
                  · exact absurd rfl hNe
                  · exact Option.some.inj h
                obtain rfl := hEnd
                rcases hCases with ⟨s, rfl⟩ | ⟨-, -, -, rfl⟩ | rfl
                · exact .single (.side node s)
                · exact .single (.orphan node tx hWaits)
                · exact .single (.conflict node tx)
      · intro node hashTx r hKeyed hApart h
        unfold Node.Accept.processOrphans at h
        cases hOrphan : node.pool.mapOrphans hashTx with
        | none =>
            rw [hOrphan] at h
            obtain rfl := Option.some.inj h
            exact .refl
        | some tx =>
            rw [hOrphan] at h
            have hPrev := hKeyed hashTx tx hOrphan
            simp only [Option.bind_eq_bind, Option.bind_eq_some_iff] at h
            obtain ⟨⟨node₁, outcome⟩, hAccept, hEnd⟩ := h
            have hMoves := ihAccept node tx _ hKeyed hApart (by rw [hPrev, hOrphan]) hAccept
            have hShrinks := hMoves.shrinks
            rcases outcome with (_ | _) | _
            · obtain rfl := Option.some.inj hEnd
              exact hMoves
            · have hRelease : Move rt fApart node₁ (node₁.release hashTx (tx.GetHash rt)) := by
                refine .release node₁ hashTx tx ?_ ?_
                · rcases hShrinks hashTx with hNone | hSame
                  · exact Or.inl hNone
                  · exact Or.inr (hSame.trans hOrphan)
                · intro hA hashPrevTx tx' hNe hSome hHash
                  have hOld := hShrinks.some hSome
                  have hSame := hApart hA _ _ tx' tx hOld hOrphan hHash
                  rw [hSame] at hOld
                  exact hNe ((hKeyed _ _ hOld).symm.trans hPrev)
              have hBoth := hMoves.tail hRelease
              exact hBoth.trans (ihProcess _ _ _ (hKeyed.shrinks (Moves.shrinks hBoth))
                (fun hA => (hApart hA).shrinks (Moves.shrinks hBoth)) hEnd)
            · obtain rfl := Option.some.inj hEnd
              exact hMoves

/-- A call of `Accept` puts the transaction somewhere, and then processes orphans. -/
theorem accept_moves {nFuel : Nat} {outcome : Outcome} (fApart : Prop)
    (h : node.Accept rt side nFuel tx = some (node', outcome))
    (hKeyed : OrphansKeyed node.pool) (hApart : fApart → OrphansApart rt node.pool) :
    (∃ s, node.pool.find (tx.GetHash rt) = none ∧
        (tx.IsFirst ∨ node.pool.mapClaimed tx.hashPrevTx = none) ∧
        Moves rt fApart (node.accepted rt tx s) node') ∨
      (PutsAside rt side node tx ∧ node' = node.orphan rt tx) ∨ Moves rt fApart node node' := by
  cases nFuel with
  | zero => cases h
  | succ nFuel =>
      unfold Node.Accept at h
      by_cases hHas : node.HasTx side (tx.GetHash rt) = true
      · rw [if_pos hHas] at h
        obtain ⟨rfl, -⟩ := Prod.mk.inj (Option.some.inj h)
        exact Or.inr (Or.inr .refl)
      · rw [if_neg hHas] at h
        cases hNew : node.acceptNew rt side tx with
        | mk node₁ outcome₁ =>
            rw [hNew] at h
            rcases acceptNew_cases hNew with ⟨rfl, hFree, s, rfl⟩ | ⟨hNe, hCases⟩
            · simp only [Option.bind_eq_bind, Option.bind_eq_some_iff] at h
              obtain ⟨⟨node₂, outcome₂⟩, hProcess, hEnd⟩ := h
              have hMoves := (moves_of_fuel rt side fApart nFuel).2 (node.accepted rt tx s) _ _
                hKeyed hApart hProcess
              refine Or.inl ⟨s, find_of_hasTx hHas, hFree, ?_⟩
              rcases outcome₂ with fResult | _
              · obtain ⟨rfl, -⟩ := Prod.mk.inj (Option.some.inj hEnd)
                exact hMoves
              · obtain ⟨rfl, -⟩ := Prod.mk.inj (Option.some.inj hEnd)
                exact hMoves
            · have hEnd : node₁ = node' := by
                rcases outcome₁ with (_ | _) | _
                · exact (Prod.mk.inj (Option.some.inj h)).1
                · exact absurd rfl hNe
                · exact (Prod.mk.inj (Option.some.inj h)).1
              obtain rfl := hEnd
              rcases hCases with ⟨s, rfl⟩ | ⟨hAdmits, hLater, hMissing, rfl⟩ | rfl
              · exact Or.inr (Or.inr (.single (.side node s)))
              · have hNot := Bool.not_eq_true _ |>.mp hHas
                exact Or.inr (Or.inl ⟨⟨hNot, hAdmits, hLater, hMissing⟩, rfl⟩)
              · exact Or.inr (Or.inr (.single (.conflict node tx)))

/-! ## What `Check` keeps -/

/-- The transactions of a list are in the pool. -/
def Present (rt : Runtime) (pool : Mempool) (vtx : List Transaction) : Prop :=
  ∀ tx ∈ vtx, pool.find (tx.GetHash rt) = some tx

/-- A pool is changed at the hashes of a list only. -/
def ChangedAt (rt : Runtime) (vtx : List Transaction) (pool pool' : Mempool) : Prop :=
  ∀ hashTx ∉ vtx.map (·.GetHash rt), pool'.find hashTx = pool.find hashTx

theorem Present.changed {pool pool' : Mempool} {vtx vtx' : List Transaction}
    (h : Present rt pool vtx') (hChanged : ChangedAt rt vtx pool pool') (hApart : Apart rt vtx' vtx) :
    Present rt pool' vtx' := by
  intro tx hMem
  rw [hChanged _ ?_]
  · exact h tx hMem
  · intro hIn
    obtain ⟨tx', hMem', hHash⟩ := List.mem_map.mp hIn
    exact hApart tx hMem tx' hMem' hHash.symm

theorem ChangedAt.mono {pool pool' : Mempool} {vtx vtx' : List Transaction}
    (h : ChangedAt rt vtx pool pool') (hSubset : vtx ⊆ vtx') : ChangedAt rt vtx' pool pool' :=
  fun hashTx hNot => h hashTx fun hIn => hNot (List.map_subset _ hSubset hIn)

theorem ChangedAt.trans {pool pool₁ pool' : Mempool} {vtx : List Transaction}
    (h : ChangedAt rt vtx pool pool₁) (h' : ChangedAt rt vtx pool₁ pool') :
    ChangedAt rt vtx pool pool' :=
  fun hashTx hNot => (h' hashTx hNot).trans (h hashTx hNot)

theorem changedAt_refl (rt : Runtime) (pool : Mempool) (vtx : List Transaction) :
    ChangedAt rt vtx pool pool := fun _ _ => rfl

theorem db_remove (node : Node σ) (side : Periphery σ) (hashTx : Uint512) :
    (node.Remove side hashTx).db = node.db := by
  unfold Node.Remove
  dsimp only
  split <;> rfl

theorem find_erase (node : Node σ) (tx : Transaction) (hashTx : Uint512) :
    (node.erase rt tx).pool.find hashTx =
      if hashTx = tx.GetHash rt then none else node.pool.find hashTx :=
  lookup_filter node.pool.mapLedger (tx.GetHash rt) hashTx

section Invariant

variable {I : Node σ → Prop} {B : Transaction → Prop}
  (hSide : ∀ node s, I node → I { node with side := s })
  (hRemove : ∀ node tx, I node → B tx → node.pool.find (tx.GetHash rt) = some tx →
    I (node.Remove side (tx.GetHash rt)))
  (hErase : ∀ node tx, I node → node.pool.find (tx.GetHash rt) = some tx → I (node.erase rt tx))

include hSide hRemove in
/-- The transactions before the last one of the sequence are removed, as far as they are
disconnected. -/
theorem removeBehind_keeps (txLast : Transaction) (vtxKept vtx : List Transaction) (node : Node σ)
    (hDistinct : Distinct rt vtx) (hPresent : Present rt node.pool vtx) (hBehind : ∀ tx ∈ vtx, B tx)
    (h : I node) :
    I (Node.removeBehind rt side (txLast.GetHash rt) node (vtx ++ txLast :: vtxKept)) ∧
      ChangedAt rt vtx node.pool
        (Node.removeBehind rt side (txLast.GetHash rt) node (vtx ++ txLast :: vtxKept)).pool ∧
      (Node.removeBehind rt side (txLast.GetHash rt) node (vtx ++ txLast :: vtxKept)).db =
        node.db := by
  induction vtx generalizing node with
  | nil =>
      rw [List.nil_append, Node.removeBehind, if_pos rfl]
      exact ⟨h, changedAt_refl rt _ _, rfl⟩
  | cons tx vtx ih =>
      rw [List.cons_append, Node.removeBehind]
      by_cases hReached : tx.GetHash rt = txLast.GetHash rt
      · rw [if_pos hReached]
        exact ⟨h, changedAt_refl rt _ _, rfl⟩
      · rw [if_neg hReached]
        cases hDisconnect : side.disconnectMemory .MEMPOOL node.side node.db tx with
        | mk s fResult =>
            cases fResult with
            | false => exact ⟨hSide _ _ h, changedAt_refl rt _ _, rfl⟩
            | true =>
                obtain ⟨hHead, hTail⟩ := List.nodup_cons.mp hDistinct
                have hFind := hPresent tx List.mem_cons_self
                have hNext := hRemove { node with side := s } tx (hSide node s h)
                  (hBehind tx List.mem_cons_self) hFind
                have hChanged : ChangedAt rt (tx :: vtx) node.pool
                    ({ node with side := s }.Remove side (tx.GetHash rt)).pool := by
                  intro hashTx hNot
                  rw [find_remove, if_neg]
                  rintro rfl
                  exact hNot List.mem_cons_self
                have hPresent' : Present rt
                    ({ node with side := s }.Remove side (tx.GetHash rt)).pool vtx := by
                  intro tx' hMem
                  rw [find_remove, if_neg]
                  · exact hPresent tx' (List.mem_cons_of_mem tx hMem)
                  · intro hHash
                    exact hHead (List.mem_map.mpr ⟨tx', hMem, hHash⟩)
                obtain ⟨hEnd, hLater, hDb⟩ := ih _ hTail hPresent'
                  (fun tx' hMem => hBehind tx' (List.mem_cons_of_mem tx hMem)) hNext
                exact ⟨hEnd, hChanged.trans (hLater.mono (List.subset_cons_self tx vtx)),
                  hDb.trans (db_remove _ side _)⟩

include hSide hErase in
theorem eraseChain_keeps (vtx : List Transaction) (node : Node σ) (hDistinct : Distinct rt vtx)
    (hPresent : Present rt node.pool vtx) (h : I node) : I (node.eraseChain rt side vtx) := by
  induction vtx generalizing node with
  | nil => exact h
  | cons tx vtx ih =>
      rw [Node.eraseChain]
      cases hDisconnect : side.disconnectMemory .ERASE node.side node.db tx with
      | mk s fResult =>
          cases fResult with
          | false => exact hSide _ _ h
          | true =>
              obtain ⟨hHead, hTail⟩ := List.nodup_cons.mp hDistinct
              have hFind : ({ node with side := s } : Node σ).pool.find (tx.GetHash rt) = some tx :=
                hPresent tx List.mem_cons_self
              have hIf : (({ node with side := s } : Node σ).pool.find (tx.GetHash rt)).isSome := by
                rw [hFind]
                rfl
              dsimp only
              rw [if_pos hIf]
              refine ih _ hTail ?_ (hErase _ tx (hSide node s h) hFind)
              intro tx' hMem
              rw [find_erase, if_neg]
              · exact hPresent tx' (List.mem_cons_of_mem tx hMem)
              · intro hHash
                exact hHead (List.mem_map.mpr ⟨tx', hMem, hHash⟩)

include hSide hRemove in
theorem checkSequence_keeps (vtx : List Transaction) (node : Node σ) (hDistinct : Distinct rt vtx)
    (hPresent : Present rt node.pool vtx)
    (hBehind : ∀ tx ∈ vtx.drop (Mempool.sequenced rt vtx).length, B tx) (h : I node) :
    I (node.checkSequence rt side vtx) ∧
      ChangedAt rt vtx node.pool (node.checkSequence rt side vtx).pool ∧
      (node.checkSequence rt side vtx).db = node.db := by
  unfold Node.checkSequence
  dsimp only
  split
  · exact ⟨h, changedAt_refl rt _ _, rfl⟩
  · rename_i txLast hLast
    split
    · exact ⟨h, changedAt_refl rt _ _, rfl⟩
    · -- the last one of the sequence comes first behind what is removed
      obtain ⟨vtxKept, hKept⟩ : ∃ vtxKept, Mempool.sequenced rt vtx = vtxKept ++ [txLast] :=
        List.getLast?_eq_some_iff.mp hLast
      have hSplit := List.prefix_iff_eq_append.mp (sequenced_begins rt vtx)
      have hReverse : vtx.reverse = (vtx.drop (Mempool.sequenced rt vtx).length).reverse ++
          txLast :: vtxKept.reverse := by
        conv_lhs => rw [← hSplit]
        rw [List.reverse_append, hKept, List.reverse_append, List.reverse_singleton,
          List.singleton_append]
      have hSubset : ∀ tx ∈ (vtx.drop (Mempool.sequenced rt vtx).length).reverse, tx ∈ vtx :=
        fun tx hMem => List.mem_of_mem_drop (List.mem_reverse.mp hMem)
      have hDistinct' : Distinct rt (vtx.drop (Mempool.sequenced rt vtx).length).reverse := by
        rw [Distinct, List.map_reverse, List.nodup_reverse]
        exact hDistinct.sublist ((List.drop_sublist _ vtx).map _)
      obtain ⟨hEnd, hChanged, hDb⟩ := removeBehind_keeps hSide hRemove txLast vtxKept.reverse
        (vtx.drop (Mempool.sequenced rt vtx).length).reverse
        { node with side := side.TxnBegin node.side } hDistinct'
        (fun tx hMem => hPresent tx (hSubset tx hMem))
        (fun tx hMem => hBehind tx (List.mem_reverse.mp hMem)) (hSide _ _ h)
      rw [hReverse]
      exact ⟨hSide _ _ hEnd, hChanged.mono hSubset, hDb⟩

include hSide hRemove hErase in
theorem checkChains_keeps (chains : List (Uint256 × List Transaction)) (node : Node σ)
    (hDistinct : Distinct rt (all chains)) (hPresent : Present rt node.pool (all chains))
    (hBehind : ∀ tx, BehindGap rt node.db chains tx → B tx) (h : I node) :
    I (node.checkChains rt side chains) := by
  induction chains generalizing node with
  | nil => exact h
  | cons chain chains ih =>
      obtain ⟨hashGenesis, vtx⟩ := chain
      rw [all_cons] at hDistinct hPresent
      obtain ⟨hVtx, hRest, hApart⟩ := distinct_append.mp hDistinct
      have hHere : Present rt node.pool vtx := fun tx hMem =>
        hPresent tx (List.mem_append_left _ hMem)
      have hLater : Present rt node.pool (all chains) := fun tx hMem =>
        hPresent tx (List.mem_append_right _ hMem)
      have hBehindLater : ∀ tx, BehindGap rt node.db chains tx → B tx := by
        rintro tx ⟨chain, hChain, hGap⟩
        exact hBehind tx ⟨chain, List.mem_cons_of_mem _ hChain, hGap⟩
      have hSequence (hRooted : Rooted node.db hashGenesis vtx) :
          I ((node.checkSequence rt side vtx).checkChains rt side chains) := by
        obtain ⟨hKept, hChanged, hDb⟩ := checkSequence_keeps hSide hRemove vtx node hVtx hHere
          (fun tx hMem => hBehind tx ⟨_, List.mem_cons_self, hRooted, hMem⟩) h
        refine ih _ hRest (hLater.changed hChanged hApart.symm) ?_ hKept
        rw [hDb]
        exact hBehindLater
      have hReverse : Distinct rt vtx.reverse := by
        rw [Distinct, List.map_reverse, List.nodup_reverse]
        exact hVtx
      have hReset : I (node.eraseChain rt side vtx.reverse) :=
        eraseChain_keeps hSide hErase vtx.reverse node hReverse
          (fun tx hMem => hHere tx (List.mem_reverse.mp hMem)) h
      rw [Node.checkChains]
      unfold Node.checkChain
      cases hHead : vtx.head? with
      | none => exact ih node hRest hLater hBehindLater h
      | some tx =>
          have hRooted (hOr : tx.IsFirst ∨ node.db.ReadLast hashGenesis = some tx.hashPrevTx) :
              Rooted node.db hashGenesis vtx := by
            intro tx' hMem
            rw [hHead] at hMem
            obtain rfl := Option.some.inj hMem
            exact hOr
          dsimp only
          by_cases hFirst : tx.IsFirst
          · rw [if_pos hFirst]
            exact hSequence (hRooted (.inl hFirst))
          · rw [if_neg hFirst]
            cases hRead : node.db.ReadLast hashGenesis with
            | none => exact h
            | some hashLast =>
                dsimp only
                by_cases hMismatch : tx.hashPrevTx ≠ hashLast
                · rw [if_pos hMismatch]
                  exact hReset
                · rw [if_neg hMismatch]
                  exact hSequence (hRooted (.inr (by rw [hRead, not_not.mp hMismatch])))

include hSide hRemove hErase in
/-- What removing one transaction behind a gap and erasing one keep is kept by `Check`. -/
theorem check_keeps (node : Node σ) (hKeyed : Keyed rt node.pool)
    (hBehind : ∀ tx, BehindGap rt node.db (node.chains side) tx → B tx) (h : I node) :
    I (node.Check rt side) := by
  refine checkChains_keeps hSide hRemove hErase _ node (distinct_chains side hKeyed) ?_ hBehind h
  intro tx hMem
  exact hKeyed.find_eq_some.mpr (mem_all_chains.mp hMem)

end Invariant

/-! ## The claims -/

/-- What holds of the transactions of a pool after some have been passed to it. -/
structure Claims (rt : Runtime) (passed : Transaction → Prop) (pool : Mempool) : Prop where
  keyed : Keyed rt pool
  orphansKeyed : OrphansKeyed pool
  ledger : ∀ hashTx tx, pool.find hashTx = some tx → passed tx
  orphans : ∀ hashPrevTx tx, pool.mapOrphans hashPrevTx = some tx → passed tx
  claimed : ∀ hashPrevTx hashTx, pool.mapClaimed hashPrevTx = some hashTx ↔
    ∃ tx, pool.find hashTx = some tx ∧ ¬ tx.IsFirst ∧ tx.hashPrevTx = hashPrevTx

/-- A first transaction and one that is not name different predecessors. -/
def Separated (passed : Transaction → Prop) : Prop :=
  ∀ tx tx', passed tx → passed tx' → tx.IsFirst → ¬ tx'.IsFirst → tx.hashPrevTx ≠ tx'.hashPrevTx

variable {passed : Transaction → Prop} {pool pool' : Mempool}

theorem Keyed.hash_of_find (h : Keyed rt pool) {hashTx : Uint512}
    (hFind : pool.find hashTx = some tx) : tx.GetHash rt = hashTx := by
  obtain ⟨before, behind, hSplit, -⟩ := List.lookup_eq_some_iff.mp hFind
  exact (h.key (hashTx, tx) (hSplit ▸ List.mem_append_right _ List.mem_cons_self)).symm

theorem Keyed.filter (h : Keyed rt pool) (hashTx : Uint512)
    (hLedger : pool'.mapLedger = pool.mapLedger.filter fun entry => entry.1 ≠ hashTx) :
    Keyed rt pool' := by
  constructor
  · intro entry hMem
    rw [hLedger] at hMem
    exact h.key entry (List.mem_of_mem_filter hMem)
  · rw [hLedger]
    exact h.nodup.sublist (List.filter_sublist.map _)

theorem Keyed.accepted {s : σ} (h : Keyed rt node.pool)
    (hNew : node.pool.find (tx.GetHash rt) = none) : Keyed rt (node.accepted rt tx s).pool := by
  constructor
  · intro entry hMem
    rcases List.mem_cons.mp hMem with rfl | hOld
    · rfl
    · exact h.key entry hOld
  · refine List.nodup_cons.mpr ⟨?_, h.nodup⟩
    intro hMem
    obtain ⟨entry, hEntry, hKey⟩ := List.mem_map.mp hMem
    have hNe := List.lookup_eq_none_iff.mp hNew entry hEntry
    simp [hKey] at hNe

/-- A change that leaves the transactions, and lets orphans go. -/
theorem Claims.same (h : Claims rt passed pool) (hLedger : pool'.mapLedger = pool.mapLedger)
    (hClaimed : pool'.mapClaimed = pool.mapClaimed) (hShrinks : Shrinks pool pool') :
    Claims rt passed pool' := by
  have hFind : ∀ hashTx, pool'.find hashTx = pool.find hashTx := by
    intro hashTx
    rw [Mempool.find, Mempool.find, hLedger]
  constructor
  · exact ⟨hLedger ▸ h.keyed.key, hLedger ▸ h.keyed.nodup⟩
  · exact h.orphansKeyed.shrinks hShrinks
  · intro hashTx tx hSome
    exact h.ledger hashTx tx (hFind hashTx ▸ hSome)
  · intro hashPrevTx tx hSome
    exact h.orphans hashPrevTx tx (hShrinks.some hSome)
  · intro hashPrevTx hashTx
    rw [hClaimed, h.claimed, hFind]

/-- A transaction that is new to the pool joins it. -/
theorem Claims.accepted {s : σ} (h : Claims rt passed node.pool) (hPassed : passed tx)
    (hNew : node.pool.find (tx.GetHash rt) = none)
    (hFree : tx.IsFirst ∨ node.pool.mapClaimed tx.hashPrevTx = none) :
    Claims rt passed (node.accepted rt tx s).pool := by
  have hFind := Nodes.find_accepted rt node tx s
  constructor
  · exact h.keyed.accepted hNew
  · exact h.orphansKeyed
  · intro hashTx tx' hSome
    rw [hFind] at hSome
    by_cases hSame : hashTx = tx.GetHash rt
    · rw [if_pos hSame] at hSome
      obtain rfl := Option.some.inj hSome
      exact hPassed
    · rw [if_neg hSame] at hSome
      exact h.ledger hashTx tx' hSome
  · exact h.orphans
  · intro hashPrevTx hashTx
    rw [hFind]
    have hOld := h.claimed hashPrevTx hashTx
    by_cases hSame : hashTx = tx.GetHash rt
    · -- the new transaction
      rw [if_pos hSame]
      rw [hSame, hNew] at hOld
      have hNone : node.pool.mapClaimed hashPrevTx ≠ some (tx.GetHash rt) := by
        intro hSome
        obtain ⟨tx', hTx', -⟩ := hOld.mp hSome
        cases hTx'
      simp only [Node.accepted, Option.some.injEq, exists_eq_left']
      by_cases hFirst : tx.IsFirst
      · simp only [hSame, hFirst, not_true_eq_false, false_and, iff_false]
        exact hNone
      · rw [if_neg hFirst, hSame, Function.update_apply]
        by_cases hPrev : hashPrevTx = tx.hashPrevTx
        · rw [if_pos hPrev]
          exact iff_of_true rfl ⟨hFirst, hPrev.symm⟩
        · rw [if_neg hPrev]
          exact iff_of_false hNone fun hBoth => hPrev hBoth.2.symm
    · -- the others
      rw [if_neg hSame, ← hOld]
      simp only [Node.accepted]
      by_cases hFirst : tx.IsFirst
      · rw [if_pos hFirst]
      · rw [if_neg hFirst, Function.update_apply]
        by_cases hPrev : hashPrevTx = tx.hashPrevTx
        · rw [if_pos hPrev, hPrev, hFree.resolve_left hFirst]
          simp [Ne.symm hSame]
        · rw [if_neg hPrev]

/-- A transaction of the pool leaves it. -/
theorem Claims.removed (h : Claims rt passed pool) (hSeparated : Separated passed)
    {hashTx : Uint512} (hFind : pool.find hashTx = some tx)
    (hLedger : pool'.mapLedger = pool.mapLedger.filter fun entry => entry.1 ≠ hashTx)
    (hClaimed : pool'.mapClaimed = Function.update pool.mapClaimed tx.hashPrevTx none)
    (hShrinks : Shrinks pool pool') : Claims rt passed pool' := by
  have hFind' : ∀ hashTx', pool'.find hashTx' =
      if hashTx' = hashTx then none else pool.find hashTx' := by
    intro hashTx'
    rw [Mempool.find, hLedger]
    exact lookup_filter pool.mapLedger hashTx hashTx'
  constructor
  · exact h.keyed.filter hashTx hLedger
  · exact h.orphansKeyed.shrinks hShrinks
  · intro hashTx' tx' hSome
    rw [hFind'] at hSome
    by_cases hSame : hashTx' = hashTx
    · rw [if_pos hSame] at hSome
      cases hSome
    · rw [if_neg hSame] at hSome
      exact h.ledger hashTx' tx' hSome
  · intro hashPrevTx tx' hSome
    exact h.orphans hashPrevTx tx' (hShrinks.some hSome)
  · intro hashPrevTx hashTx'
    rw [hClaimed, Function.update_apply, hFind']
    by_cases hPrev : hashPrevTx = tx.hashPrevTx
    · -- no other transaction of the pool follows the same one
      rw [if_pos hPrev]
      refine iff_of_false (by simp) ?_
      rintro ⟨tx', hSome, hLater, hSame⟩
      by_cases hHash : hashTx' = hashTx
      · rw [if_pos hHash] at hSome
        cases hSome
      · rw [if_neg hHash] at hSome
        by_cases hFirst : tx.IsFirst
        · exact hSeparated tx tx' (h.ledger _ _ hFind) (h.ledger _ _ hSome) hFirst hLater
            (hPrev.symm.trans hSame.symm)
        · have hThis := (h.claimed hashPrevTx hashTx).mpr ⟨tx, hFind, hFirst, hPrev.symm⟩
          have hThat := (h.claimed hashPrevTx hashTx').mpr ⟨tx', hSome, hLater, hSame⟩
          exact hHash (Option.some.inj (hThat.symm.trans hThis))
    · rw [if_neg hPrev, h.claimed]
      by_cases hHash : hashTx' = hashTx
      · rw [if_pos hHash, hHash, hFind]
        simp [Ne.symm hPrev]
      · rw [if_neg hHash]

/-- An orphan is put aside. -/
theorem Claims.orphan (h : Claims rt passed node.pool) (hPassed : passed tx) :
    Claims rt passed (node.orphan rt tx).pool := by
  have hOrphans : ∀ hashPrevTx tx', (node.orphan rt tx).pool.mapOrphans hashPrevTx = some tx' →
      (hashPrevTx = tx.hashPrevTx ∧ tx' = tx) ∨ node.pool.mapOrphans hashPrevTx = some tx' := by
    intro hashPrevTx tx' hSome
    simp only [Node.orphan, Function.update_apply] at hSome
    by_cases hPrev : hashPrevTx = tx.hashPrevTx
    · rw [if_pos hPrev] at hSome
      exact Or.inl ⟨hPrev, (Option.some.inj hSome).symm⟩
    · rw [if_neg hPrev] at hSome
      exact Or.inr hSome
  constructor
  · exact ⟨h.keyed.key, h.keyed.nodup⟩
  · intro hashPrevTx tx' hSome
    rcases hOrphans hashPrevTx tx' hSome with ⟨hPrev, rfl⟩ | hOld
    · exact hPrev.symm
    · exact h.orphansKeyed _ _ hOld
  · exact h.ledger
  · intro hashPrevTx tx' hSome
    rcases hOrphans hashPrevTx tx' hSome with ⟨-, rfl⟩ | hOld
    · exact hPassed
    · exact h.orphans _ _ hOld
  · exact h.claimed

theorem Claims.move {fApart : Prop} (h : Claims rt passed node.pool)
    (hMove : Move rt fApart node node') : Claims rt passed node'.pool := by
  have hShrinks := hMove.shrinks
  cases hMove with
  | side s => exact h
  | conflict tx => exact h.same rfl rfl hShrinks
  | orphan tx hWaits => exact h.same rfl rfl hShrinks
  | accepted tx s hWaits hNew hFree =>
      exact h.accepted (h.orphans _ tx hWaits) hNew hFree
  | release hashTx tx hOrphan hApart => exact h.same rfl rfl hShrinks

theorem Claims.moves {fApart : Prop} (h : Claims rt passed node.pool)
    (hMoves : Moves rt fApart node node') : Claims rt passed node'.pool := by
  induction hMoves with
  | refl => exact h
  | tail _ hMove ih => exact ih.move hMove

theorem shrinks_update (mapOrphans : Uint512 → Option Transaction) (hashPrevTx : Uint512)
    (hPool : pool.mapOrphans = mapOrphans)
    (hPool' : pool'.mapOrphans = Function.update mapOrphans hashPrevTx none) :
    Shrinks pool pool' := by
  intro hashPrevTx'
  rw [hPool, hPool', Function.update_apply]
  by_cases hSame : hashPrevTx' = hashPrevTx
  · exact Or.inl (if_pos hSame)
  · exact Or.inr (if_neg hSame)

theorem Claims.remove (h : Claims rt passed node.pool) (hSeparated : Separated passed)
    (hashTx : Uint512) : Claims rt passed (node.Remove side hashTx).pool := by
  unfold Node.Remove
  dsimp only
  split
  · rename_i tx hFind
    exact h.removed hSeparated hFind rfl rfl (shrinks_update _ _ rfl rfl)
  · exact h.same rfl rfl fun hashPrevTx => Or.inr rfl

theorem Claims.erase (h : Claims rt passed node.pool) (hSeparated : Separated passed)
    (hFind : node.pool.find (tx.GetHash rt) = some tx) :
    Claims rt passed (node.erase rt tx).pool :=
  h.removed hSeparated hFind rfl rfl fun _ => Or.inr rfl

/-- Every call keeps the claims. -/
theorem Claims.step {event : PoolEvent} (h : Claims rt passed node.pool)
    (hSeparated : Separated passed) (hPassed : ∀ tx, event = .Accept tx → passed tx)
    (hStep : PoolStep rt side node event node') : Claims rt passed node'.pool := by
  cases hStep with
  | Accept hAccept =>
      rename_i tx nFuel outcome
      have hTx := hPassed tx rfl
      rcases accept_moves False hAccept h.orphansKeyed False.elim with
        ⟨s, hNew, hFree, hMoves⟩ | ⟨-, rfl⟩ | hMoves
      · exact (h.accepted hTx hNew hFree).moves hMoves
      · exact h.orphan hTx
      · exact h.moves hMoves
  | ProcessOrphans hProcess =>
      exact h.moves ((moves_of_fuel rt side False _).2 node _ _ h.orphansKeyed False.elim hProcess)
  | Remove hashTx => exact h.remove hSeparated _
  | Check =>
      exact check_keeps (I := fun node => Claims rt passed node.pool) (B := fun _ => True)
        (fun _ _ h => h) (fun node tx h _ _ => h.remove hSeparated _)
        (fun node tx h hFind => h.erase hSeparated hFind) node h.keyed (fun _ _ => trivial) h
  | block db chain s => exact h

/-! ## The index of the orphans -/

/-- The orphans of a pool have different hashes, and the index holds those. -/
structure Orphans (rt : Runtime) (pool : Mempool) : Prop where
  keyed : Keyed rt pool
  orphansKeyed : OrphansKeyed pool
  apart : OrphansApart rt pool
  index : IndexDescribes rt pool

theorem WaitsAlone.shrinks (h : WaitsAlone rt pool tx) (hShrinks : Shrinks pool pool') :
    WaitsAlone rt pool' tx :=
  fun hashPrevTx tx' hSome => h hashPrevTx tx' (hShrinks.some hSome)

/-- One orphan is taken away with its hash, and no other has that hash. -/
theorem IndexDescribes.release (hashPrevTx hashTx : Uint512) (h : IndexDescribes rt pool)
    (hOrphan : ∀ tx', pool.mapOrphans hashPrevTx = some tx' → tx'.GetHash rt = hashTx)
    (hOthers : ∀ hashPrevTx' tx', hashPrevTx' ≠ hashPrevTx →
      pool.mapOrphans hashPrevTx' = some tx' → tx'.GetHash rt ≠ hashTx)
    (hMap : pool'.mapOrphans = Function.update pool.mapOrphans hashPrevTx none)
    (hSet : pool'.setOrphansByIndex = Function.update pool.setOrphansByIndex hashTx false) :
    IndexDescribes rt pool' := by
  intro hashTx'
  rw [hMap, hSet, Function.update_apply]
  by_cases hHash : hashTx' = hashTx
  · rw [if_pos hHash]
    refine iff_of_false (by simp) ?_
    rintro ⟨hashPrevTx', tx', hSome, hEq⟩
    rw [Function.update_apply] at hSome
    by_cases hPrev : hashPrevTx' = hashPrevTx
    · rw [if_pos hPrev] at hSome
      cases hSome
    · rw [if_neg hPrev] at hSome
      exact hOthers hashPrevTx' tx' hPrev hSome (hEq.trans hHash)
  · rw [if_neg hHash, h]
    constructor
    · rintro ⟨hashPrevTx', tx', hSome, hEq⟩
      refine ⟨hashPrevTx', tx', ?_, hEq⟩
      rw [Function.update_of_ne, hSome]
      rintro rfl
      exact hHash (hEq.symm.trans (hOrphan tx' hSome))
    · rintro ⟨hashPrevTx', tx', hSome, hEq⟩
      rw [Function.update_apply] at hSome
      by_cases hPrev : hashPrevTx' = hashPrevTx
      · rw [if_pos hPrev] at hSome
        cases hSome
      · rw [if_neg hPrev] at hSome
        exact ⟨hashPrevTx', tx', hSome, hEq⟩

/-- A transaction waits alone, or waits already. -/
theorem Orphans.orphan (h : Orphans rt node.pool) (hAlone : WaitsAlone rt node.pool tx) :
    Orphans rt (node.orphan rt tx).pool := by
  have hOrphans : ∀ hashPrevTx tx', (node.orphan rt tx).pool.mapOrphans hashPrevTx = some tx' ↔
      (hashPrevTx = tx.hashPrevTx ∧ tx' = tx) ∨ node.pool.mapOrphans hashPrevTx = some tx' := by
    intro hashPrevTx tx'
    simp only [Node.orphan, Function.update_apply]
    by_cases hPrev : hashPrevTx = tx.hashPrevTx
    · rw [if_pos hPrev]
      constructor
      · intro hSome
        exact Or.inl ⟨hPrev, (Option.some.inj hSome).symm⟩
      · rintro (⟨-, rfl⟩ | hOld)
        · rfl
        · rw [hAlone _ tx' hOld (Or.inl hPrev)]
    · rw [if_neg hPrev]
      simp [hPrev]
  constructor
  · exact ⟨h.keyed.key, h.keyed.nodup⟩
  · intro hashPrevTx tx' hSome
    rcases (hOrphans hashPrevTx tx').mp hSome with ⟨hPrev, rfl⟩ | hOld
    · exact hPrev.symm
    · exact h.orphansKeyed _ _ hOld
  · intro hashPrevTx hashPrevTx' tx₁ tx₂ hSome hSome' hHash
    rcases (hOrphans _ _).mp hSome with ⟨-, rfl⟩ | hOld
    · rcases (hOrphans _ _).mp hSome' with ⟨-, rfl⟩ | hOld'
      · rfl
      · exact (hAlone _ tx₂ hOld' (Or.inr hHash.symm)).symm
    · rcases (hOrphans _ _).mp hSome' with ⟨-, rfl⟩ | hOld'
      · exact hAlone _ tx₁ hOld (Or.inr hHash)
      · exact h.apart _ _ _ _ hOld hOld' hHash
  · intro hashTx
    change Function.update node.pool.setOrphansByIndex (tx.GetHash rt) true hashTx = true ↔ _
    rw [Function.update_apply]
    simp only [hOrphans]
    by_cases hHash : hashTx = tx.GetHash rt
    · rw [if_pos hHash]
      exact iff_of_true rfl ⟨_, tx, Or.inl ⟨rfl, rfl⟩, hHash.symm⟩
    · rw [if_neg hHash, h.index]
      constructor
      · rintro ⟨hashPrevTx, tx', hOld, hEq⟩
        exact ⟨hashPrevTx, tx', Or.inr hOld, hEq⟩
      · rintro ⟨hashPrevTx, tx', ⟨-, rfl⟩ | hOld, hEq⟩
        · exact absurd hEq.symm hHash
        · exact ⟨hashPrevTx, tx', hOld, hEq⟩

theorem Orphans.waitsAlone (h : Orphans rt pool) {hashPrevTx : Uint512}
    (hWaits : pool.mapOrphans hashPrevTx = some tx) : WaitsAlone rt pool tx := by
  intro hashPrevTx' tx' hSome hOr
  rcases hOr with hPrev | hHash
  · rw [hPrev, h.orphansKeyed _ _ hWaits, hWaits] at hSome
    exact (Option.some.inj hSome).symm
  · exact h.apart _ _ _ _ hSome hWaits hHash

/-- What leaves the orphans as they are keeps them described. -/
theorem Orphans.same (h : Orphans rt pool) (hKeyed : Keyed rt pool')
    (hMap : pool'.mapOrphans = pool.mapOrphans)
    (hSet : pool'.setOrphansByIndex = pool.setOrphansByIndex) : Orphans rt pool' := by
  constructor
  · exact hKeyed
  · intro hashPrevTx tx hSome
    exact h.orphansKeyed _ _ (hMap ▸ hSome)
  · intro hashPrevTx hashPrevTx' tx tx' hSome hSome'
    exact h.apart _ _ _ _ (hMap ▸ hSome) (hMap ▸ hSome')
  · intro hashTx
    rw [hMap, hSet]
    exact h.index hashTx

theorem Orphans.move {fApart : Prop} (hApart : fApart) (h : Orphans rt node.pool)
    (hMove : Move rt fApart node node') : Orphans rt node'.pool := by
  have hShrinks := hMove.shrinks
  cases hMove with
  | side s => exact h
  | conflict tx => exact h.same ⟨h.keyed.key, h.keyed.nodup⟩ rfl rfl
  | orphan tx hWaits => exact h.orphan (h.waitsAlone hWaits)
  | accepted tx s hWaits hNew hFree => exact h.same (h.keyed.accepted hNew) rfl rfl
  | release hashTx tx hOrphan hOthers =>
      refine ⟨⟨h.keyed.key, h.keyed.nodup⟩, h.orphansKeyed.shrinks hShrinks,
        h.apart.shrinks hShrinks, ?_⟩
      refine h.index.release hashTx (tx.GetHash rt) ?_ (hOthers hApart) rfl rfl
      intro tx' hSome
      rcases hOrphan with hNone | hThis
      · rw [hNone] at hSome
        cases hSome
      · rw [hThis] at hSome
        rw [Option.some.inj hSome]

theorem Orphans.moves {fApart : Prop} (hApart : fApart) (h : Orphans rt node.pool)
    (hMoves : Moves rt fApart node node') : Orphans rt node'.pool := by
  induction hMoves with
  | refl => exact h
  | tail _ hMove ih => exact ih.move hApart hMove

theorem Orphans.remove (h : Orphans rt node.pool) (hashTx : Uint512)
    (hKeeps : KeepsOrphans rt side node (.Remove hashTx)) :
    Orphans rt (node.Remove side hashTx).pool := by
  obtain ⟨hFound, hMissing⟩ := hKeeps
  unfold Node.Remove
  dsimp only
  split
  · rename_i tx hFind
    have hAlone := hFound tx hFind
    have hHash := h.keyed.hash_of_find hFind
    refine ⟨h.keyed.filter hashTx rfl, h.orphansKeyed.shrinks (shrinks_update _ _ rfl rfl),
      h.apart.shrinks (shrinks_update _ _ rfl rfl),
      h.index.release tx.hashPrevTx hashTx ?_ ?_ rfl rfl⟩
    · intro tx' hSome
      rw [hAlone _ tx' hSome (Or.inl rfl), hHash]
    · intro hashPrevTx' tx' hNe hSome hEq
      have hSame := hAlone _ tx' hSome (Or.inr (hEq.trans hHash.symm))
      rw [hSame] at hSome
      exact hNe (h.orphansKeyed _ _ hSome).symm
  · rename_i hFind
    refine ⟨⟨h.keyed.key, h.keyed.nodup⟩, h.orphansKeyed, h.apart, ?_⟩
    intro hashTx'
    change Function.update node.pool.setOrphansByIndex hashTx false hashTx' = true ↔ _
    rw [Function.update_apply]
    by_cases hHash : hashTx' = hashTx
    · rw [if_pos hHash]
      refine iff_of_false (by simp) ?_
      rintro ⟨hashPrevTx, tx, hSome, hEq⟩
      exact hMissing hFind hashPrevTx tx hSome (hEq.trans hHash)
    · rw [if_neg hHash]
      exact h.index hashTx'

theorem shrinks_remove (node : Node σ) (side : Periphery σ) (hashTx : Uint512) :
    Shrinks node.pool (node.Remove side hashTx).pool := by
  unfold Node.Remove
  dsimp only
  split
  · exact shrinks_update _ _ rfl rfl
  · exact fun hashPrevTx => Or.inr rfl

/-- The changes of a node while its pool is checked: what is removed is one of some transactions. -/
inductive CheckMove (rt : Runtime) (side : Periphery σ) (B : Transaction → Prop) :
    Node σ → Node σ → Prop
  | side (node : Node σ) (s : σ) : CheckMove rt side B node { node with side := s }
  | remove (node : Node σ) (tx : Transaction) (hBehind : B tx)
      (hFind : node.pool.find (tx.GetHash rt) = some tx) :
      CheckMove rt side B node (node.Remove side (tx.GetHash rt))
  | erase (node : Node σ) (tx : Transaction)
      (hFind : node.pool.find (tx.GetHash rt) = some tx) :
      CheckMove rt side B node (node.erase rt tx)

/-- A node goes through changes while its pool is checked. -/
abbrev CheckMoves (rt : Runtime) (side : Periphery σ) (B : Transaction → Prop) :
    Node σ → Node σ → Prop :=
  Relation.ReflTransGen (CheckMove rt side B)

/-- `Check` removes what is behind a gap, and erases. -/
theorem check_moves (node : Node σ) (hKeyed : Keyed rt node.pool) :
    CheckMoves rt side (BehindGap rt node.db (node.chains side)) node (node.Check rt side) :=
  check_keeps (I := CheckMoves rt side (BehindGap rt node.db (node.chains side)) node)
    (fun node s h => h.tail (.side node s)) (fun node tx h hBehind hFind =>
      h.tail (.remove node tx hBehind hFind)) (fun node tx h hFind => h.tail (.erase node tx hFind))
    node hKeyed (fun _ hGap => hGap) .refl

/-- What has left the pool does not come back. -/
theorem CheckMoves.missing {B : Transaction → Prop} (h : CheckMoves rt side B node node')
    {hashTx : Uint512} (hMissing : node.pool.find hashTx = none) :
    node'.pool.find hashTx = none := by
  induction h with
  | refl => exact hMissing
  | tail _ hMove ih =>
      cases hMove with
      | side s => exact ih
      | remove tx hBehind hFind =>
          rw [find_remove, ih, ite_self]
      | erase tx hFind =>
          rw [find_erase, ih, ite_self]

/-- What leaves the pool while it is checked waits alone, so the orphans stay described. -/
theorem Orphans.check {B : Transaction → Prop} (h : Orphans rt node.pool)
    (hAlone : ∀ tx, B tx → node'.pool.find (tx.GetHash rt) = none → WaitsAlone rt node.pool tx)
    (hMoves : CheckMoves rt side B node node') : Orphans rt node'.pool := by
  induction hMoves using Relation.ReflTransGen.head_induction_on with
  | refl => exact h
  | head hMove hLater ih =>
      cases hMove with
      | side s => exact ih h hAlone
      | remove tx hBehind hFind =>
          have hGone : node'.pool.find (tx.GetHash rt) = none := by
            refine CheckMoves.missing hLater ?_
            rw [find_remove, if_pos rfl]
          refine ih (h.remove _ ⟨?_, ?_⟩) ?_
          · intro tx' hFind'
            rw [hFind] at hFind'
            obtain rfl := Option.some.inj hFind'
            exact hAlone _ hBehind hGone
          · intro hNone
            rw [hFind] at hNone
            cases hNone
          · intro tx' hBehind' hGone'
            exact (hAlone tx' hBehind' hGone').shrinks (shrinks_remove _ side _)
      | erase tx hFind =>
          exact ih (h.same (h.keyed.filter (tx.GetHash rt) rfl) rfl rfl) hAlone

/-- A call that keeps the orphans keeps them described. -/
theorem Orphans.step {event : PoolEvent} (h : Orphans rt node.pool)
    (hKeeps : KeepsOrphans rt side node event) (hStep : PoolStep rt side node event node') :
    Orphans rt node'.pool := by
  cases hStep with
  | Accept hAccept =>
      rename_i tx nFuel outcome
      rcases accept_moves True hAccept h.orphansKeyed (fun _ => h.apart) with
        ⟨s, hNew, hFree, hMoves⟩ | ⟨hAside, rfl⟩ | hMoves
      · have hFirst : Orphans rt (node.accepted rt tx s).pool :=
          h.same (h.keyed.accepted hNew) rfl rfl
        exact hFirst.moves trivial hMoves
      · exact h.orphan (hKeeps hAside)
      · exact h.moves trivial hMoves
  | ProcessOrphans hProcess =>
      exact h.moves trivial ((moves_of_fuel rt side True _).2 node _ _ h.orphansKeyed
        (fun _ => h.apart) hProcess)
  | Remove hashTx => exact h.remove _ hKeeps
  | Check =>
      exact h.check hKeeps (check_moves node h.keyed)
  | block db chain s => exact h

/-! ## Runs from the empty pool -/

theorem claims_empty (rt : Runtime) (passed : Transaction → Prop) : Claims rt passed {} := by
  constructor
  · exact ⟨fun entry hMem => (nomatch hMem), .nil⟩
  · intro hashPrevTx tx hSome
    cases hSome
  · intro hashTx tx hSome
    cases hSome
  · intro hashPrevTx tx hSome
    cases hSome
  · intro hashPrevTx hashTx
    refine iff_of_false (by simp) ?_
    rintro ⟨tx, hSome, -⟩
    cases hSome

theorem orphans_empty (rt : Runtime) : Orphans rt {} := by
  constructor
  · exact ⟨fun entry hMem => (nomatch hMem), .nil⟩
  · intro hashPrevTx tx hSome
    cases hSome
  · intro hashPrevTx hashPrevTx' tx tx' hSome
    cases hSome
  · intro hashTx
    refine iff_of_false (by simp) ?_
    rintro ⟨hashPrevTx, tx, hSome, -⟩
    cases hSome

theorem Claims.run {events : List PoolEvent} (h : Claims rt passed node.pool)
    (hSeparated : Separated passed) (hPassed : ∀ tx, Passed events tx → passed tx)
    (hRun : Run (PoolStep rt side) node events node') : Claims rt passed node'.pool := by
  induction hRun with
  | nil => exact h
  | cons hStep _ ih =>
      refine ih (h.step hSeparated ?_ hStep) fun tx hMem => hPassed tx (List.mem_cons_of_mem _ hMem)
      rintro tx rfl
      exact hPassed tx List.mem_cons_self

/-- **After every sequence of calls from the empty pool, in which no first transaction names the
predecessor of a later one, the claims describe the transactions of the pool that are not first;
and after every sequence of calls that overwrite no orphan, and take none away but the one they
remove, the index describes the orphans.** -/
theorem indexes_describe (rt : Runtime) (side : Periphery σ) (node node' : Node σ)
    (events : List PoolEvent) (hEmpty : node.pool = {}) :
    (FirstApart events → Run (PoolStep rt side) node events node' →
        ClaimsDescribe rt node'.pool) ∧
      (Run (fun node event node' => KeepsOrphans rt side node event ∧ PoolStep rt side node event node')
          node events node' →
        IndexDescribes rt node'.pool) := by
  constructor
  · intro hFirst hRun
    have hStart : Claims rt (Passed events) node.pool := by
      rw [hEmpty]
      exact claims_empty rt _
    have hEnd := hStart.run hFirst (fun _ hPassed => hPassed) hRun
    constructor
    · intro hashPrevTx hashTx
      rw [hEnd.claimed]
      constructor
      · rintro ⟨tx, hFind, hLater, hPrev⟩
        exact ⟨tx, hFind, hEnd.keyed.hash_of_find hFind, hLater, hPrev⟩
      · rintro ⟨tx, hFind, -, hLater, hPrev⟩
        exact ⟨tx, hFind, hLater, hPrev⟩
    · intro hashTx hashTx' tx tx' hFind hFind' hLater hLater' hPrev
      have hThis := (hEnd.claimed _ _).mpr ⟨tx, hFind, hLater, rfl⟩
      have hThat := (hEnd.claimed _ _).mpr ⟨tx', hFind', hLater', hPrev.symm⟩
      exact Option.some.inj (hThis.symm.trans hThat)
  · intro hRun
    have hStart : Orphans rt node.pool := by
      rw [hEmpty]
      exact orphans_empty rt
    have hEnd := hRun.invariant (I := fun node => Orphans rt node.pool)
      (fun node event node' h hStep => h.step hStep.1 hStep.2) hStart
    exact hEnd.index

/-- A node whose pool is empty. -/
def emptyNode : Node Unit where
  side := ()

/-- The first transaction of a signature chain. -/
def firstTx (hashGenesis : Uint256) : Transaction := { hashGenesis }

/-- The node after a transaction is accepted. -/
def acceptedNode (node : Node Unit) (tx : Transaction) : Node Unit :=
  ((node.Accept exampleRuntime exampleSide 2 tx).map Prod.fst).getD node

theorem accept_firstTx :
    (emptyNode.Accept exampleRuntime exampleSide 2 (firstTx alice)).map Prod.snd =
      some (.returned true) := by
  decide +kernel

/-- A transaction that is put aside is all that changes. -/
theorem accept_aside (h : PutsAside rt side node tx) :
    node.Accept rt side 1 tx = some (node.orphan rt tx, .returned false) := by
  obtain ⟨hNew, hAdmits, hLater, hMissing⟩ := h
  simp [Node.Accept, Node.acceptNew, hNew, hAdmits, hLater, hMissing]

/-- A transaction that no orphan waits for is all that changes. -/
theorem accept_alone (rt : Runtime) (side : Periphery σ) (node : Node σ) (tx : Transaction)
    (hHas : node.HasTx side (tx.GetHash rt) = false)
    (hNew : (node.acceptNew rt side tx).2 = .returned true)
    (hNone : node.pool.mapOrphans (tx.GetHash rt) = none) :
    ∃ s, node.Accept rt side 2 tx = some (node.accepted rt tx s, .returned true) := by
  rcases hResult : node.acceptNew rt side tx with ⟨node₁, outcome⟩
  rw [hResult] at hNew
  obtain rfl := hNew
  obtain ⟨-, -, s, rfl⟩ | ⟨hNot, -⟩ := acceptNew_cases hResult
  · refine ⟨s, ?_⟩
    have hNone' : (node.accepted rt tx s).pool.mapOrphans (tx.GetHash rt) = none := hNone
    simp [Node.Accept, Node.Accept.processOrphans, hHas, hResult, hNone']
  · exact absurd rfl hNot

/-- The second transaction of a signature chain. -/
def linkedTx : Transaction :=
  { nSequence := 1, hashGenesis := alice, hashPrevTx := (firstTx alice).GetHash exampleRuntime }

/-- A transaction behind one that no node has. -/
def lateTx : Transaction := { nSequence := 3, hashGenesis := alice, hashPrevTx := 5 }

def waitingNode : Node Unit := emptyNode.orphan exampleRuntime lateTx

/-- One transaction waits, and three are in the pool. -/
def filledNode : Node Unit :=
  ((waitingNode.accepted exampleRuntime (firstTx alice) ()).accepted exampleRuntime linkedTx
    ()).accepted exampleRuntime (firstTx bob) ()

def removedNode : Node Unit :=
  filledNode.Remove exampleSide ((firstTx bob).GetHash exampleRuntime)

def checkedNode : Node Unit := removedNode.Check exampleRuntime exampleSide

def poolEvents : List PoolEvent :=
  [.Accept lateTx, .Accept (firstTx alice), .Accept linkedTx, .Accept (firstTx bob),
    .Remove ((firstTx bob).GetHash exampleRuntime), .Check]

theorem firstApart_poolEvents : FirstApart poolEvents := by
  have hAll : ∀ tx ∈ [lateTx, firstTx alice, linkedTx, firstTx bob],
      (tx.IsFirst ↔ tx.hashPrevTx = 0) := by decide +kernel
  have hMem {tx : Transaction} (hPassed : Passed poolEvents tx) :
      tx ∈ [lateTx, firstTx alice, linkedTx, firstTx bob] := by
    simpa [Passed, poolEvents] using hPassed
  intro tx tx' hPassed hPassed' hFirst hLater hSame
  have hZero := (hAll tx (hMem hPassed)).mp hFirst
  exact hLater ((hAll tx' (hMem hPassed')).mpr (hSame.symm.trans hZero))

/-- Only `lateTx` waits. -/
theorem orphan_filledNode {hashPrevTx : Uint512}
    (h : filledNode.pool.mapOrphans hashPrevTx = some tx) :
    hashPrevTx = lateTx.hashPrevTx ∧ tx = lateTx := by
  have hMap : filledNode.pool.mapOrphans =
      Function.update (fun _ => none) lateTx.hashPrevTx (some lateTx) := rfl
  rw [hMap, Function.update_apply] at h
  by_cases hSame : hashPrevTx = lateTx.hashPrevTx
  · rw [if_pos hSame] at h
    exact ⟨hSame, (Option.some.inj h).symm⟩
  · rw [if_neg hSame] at h
    cases h

theorem keepsOrphans_first (node : Node Unit) (tx : Transaction) (hFirst : tx.IsFirst) :
    KeepsOrphans exampleRuntime exampleSide node (.Accept tx) :=
  fun hAside => absurd hFirst hAside.2.2.1

/-- The calls one after another, each of which keeps the orphans. -/
theorem run_poolEvents :
    Run (fun node event node' => KeepsOrphans exampleRuntime exampleSide node event ∧
      PoolStep exampleRuntime exampleSide node event node') emptyNode poolEvents checkedNode := by
  have hLate : PutsAside exampleRuntime exampleSide emptyNode lateTx :=
    ⟨by decide +kernel, rfl, by decide +kernel, by decide +kernel⟩
  have hFirst : waitingNode.Accept exampleRuntime exampleSide 2 (firstTx alice) =
      some (waitingNode.accepted exampleRuntime (firstTx alice) (), .returned true) := by
    obtain ⟨⟨⟩, hAccept⟩ := accept_alone exampleRuntime exampleSide waitingNode (firstTx alice)
      (by decide +kernel) (by decide +kernel) (by decide +kernel)
    exact hAccept
  have hSecond : (waitingNode.accepted exampleRuntime (firstTx alice) ()).Accept exampleRuntime
      exampleSide 2 linkedTx = some ((waitingNode.accepted exampleRuntime (firstTx alice)
        ()).accepted exampleRuntime linkedTx (), .returned true) := by
    obtain ⟨⟨⟩, hAccept⟩ := accept_alone exampleRuntime exampleSide
      (waitingNode.accepted exampleRuntime (firstTx alice) ()) linkedTx (by decide +kernel)
      (by decide +kernel) (by decide +kernel)
    exact hAccept
  have hBob : ((waitingNode.accepted exampleRuntime (firstTx alice) ()).accepted exampleRuntime
      linkedTx ()).Accept exampleRuntime exampleSide 2 (firstTx bob) =
        some (((waitingNode.accepted exampleRuntime (firstTx alice) ()).accepted exampleRuntime
          linkedTx ()).accepted exampleRuntime (firstTx bob) (), .returned true) := by
    obtain ⟨⟨⟩, hAccept⟩ := accept_alone exampleRuntime exampleSide
      ((waitingNode.accepted exampleRuntime (firstTx alice) ()).accepted exampleRuntime linkedTx ())
      (firstTx bob) (by decide +kernel) (by decide +kernel) (by decide +kernel)
    exact hAccept
  refine .cons ⟨?_, .Accept (accept_aside hLate)⟩
    (.cons ⟨keepsOrphans_first _ _ rfl, .Accept hFirst⟩ (.cons ⟨?_, .Accept hSecond⟩
      (.cons ⟨keepsOrphans_first _ _ rfl, .Accept hBob⟩ (.cons ⟨⟨?_, ?_⟩, .Remove _ _⟩
        (.cons ⟨?_, .Check _⟩ (.nil _))))))
  · intro _ hashPrevTx tx hSome
    cases hSome
  · intro hAside
    have hHas : (waitingNode.accepted exampleRuntime (firstTx alice) ()).HasTx exampleSide
        linkedTx.hashPrevTx = true := by decide +kernel
    exact absurd (hHas.symm.trans hAside.2.2.2) (by decide)
  · intro tx hFind hashPrevTx tx' hSome hOr
    obtain ⟨rfl, rfl⟩ := orphan_filledNode hSome
    have hBobFound : filledNode.pool.find ((firstTx bob).GetHash exampleRuntime) =
        some (firstTx bob) := by decide +kernel
    obtain rfl := Option.some.inj (hBobFound.symm.trans hFind)
    exact absurd hOr (by decide +kernel)
  · intro hNone
    exact absurd hNone (by decide +kernel)
  · rintro tx ⟨chain, hChain, -, hMem⟩ hGone
    have hAll : tx ∈ removedNode.pool.mapLedger.map Prod.snd :=
      mem_all_chains.mp (subset_all hChain (List.mem_of_mem_drop hMem))
    have hLedger : removedNode.pool.mapLedger.map Prod.snd = [linkedTx, firstTx alice] := by
      decide +kernel
    rw [hLedger] at hAll
    rcases List.mem_pair.mp hAll with rfl | rfl
    · exact absurd hGone (by decide +kernel)
    · exact absurd hGone (by decide +kernel)

/-- One transaction of the pool follows another, and one waits. -/
theorem indexes_describe_chain :
    ClaimsDescribe exampleRuntime checkedNode.pool ∧
      IndexDescribes exampleRuntime checkedNode.pool ∧
      checkedNode.pool.mapClaimed ((firstTx alice).GetHash exampleRuntime) =
        some (linkedTx.GetHash exampleRuntime) ∧
      checkedNode.pool.setOrphansByIndex (lateTx.GetHash exampleRuntime) = true := by
  have hBoth := indexes_describe exampleRuntime exampleSide emptyNode checkedNode poolEvents rfl
  exact ⟨hBoth.1 firstApart_poolEvents (run_poolEvents.mono fun _ _ _ hStep => hStep.2),
    hBoth.2 run_poolEvents, by decide +kernel, by decide +kernel⟩

/-- Two first transactions are in the pool, and both name the zero hash. -/
theorem pool_has_two_firsts :
    ∃ node', Run (PoolStep exampleRuntime exampleSide) emptyNode
        [.Accept (firstTx alice), .Accept (firstTx bob)] node' ∧
      ∃ hashTx hashTx' tx tx', node'.pool.find hashTx = some tx ∧
        node'.pool.find hashTx' = some tx' ∧ hashTx ≠ hashTx' ∧ tx.hashPrevTx = tx'.hashPrevTx := by
  have hSecond : ((acceptedNode emptyNode (firstTx alice)).Accept exampleRuntime exampleSide 2
      (firstTx bob)).map Prod.snd = some (.returned true) := by
    decide +kernel
  have hAlice : ((acceptedNode (acceptedNode emptyNode (firstTx alice)) (firstTx bob)).pool.find
      ((firstTx alice).GetHash exampleRuntime)).map (·.hashPrevTx) = some 0 := by
    decide +kernel
  have hBob : ((acceptedNode (acceptedNode emptyNode (firstTx alice)) (firstTx bob)).pool.find
      ((firstTx bob).GetHash exampleRuntime)).map (·.hashPrevTx) = some 0 := by
    decide +kernel
  have hNe : (firstTx alice).GetHash exampleRuntime ≠ (firstTx bob).GetHash exampleRuntime := by
    decide +kernel
  have hRun : Run (PoolStep exampleRuntime exampleSide) emptyNode
      [.Accept (firstTx alice), .Accept (firstTx bob)]
      (acceptedNode (acceptedNode emptyNode (firstTx alice)) (firstTx bob)) :=
    .cons (.Accept (accept_of_outcome accept_firstTx))
      (.cons (.Accept (accept_of_outcome hSecond)) (.nil _))
  obtain ⟨tx, hTx, hPrev⟩ := Option.map_eq_some_iff.mp hAlice
  obtain ⟨tx', hTx', hPrev'⟩ := Option.map_eq_some_iff.mp hBob
  exact ⟨_, hRun, _, _, tx, tx', hTx, hTx', hNe, hPrev.trans hPrev'.symm⟩

end Nexus.Safety
