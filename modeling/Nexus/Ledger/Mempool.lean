import Mathlib.Data.List.Sort
import Nexus.Ledger.Trust

/-!
# The memory pool

A node, and the pool of transactions that wait for a block.  What the pool has
executed is held in memory overlays of the databases; they, and the legacy side
of a node, are an arbitrary state with arbitrary operations here.
-/

namespace Nexus.Ledger

open Nexus.Lib.Checked
open Nexus.Util
open Nexus.Operation
open Nexus.LLD

/-- The maps of the pool for transactions of signature chains. -/
structure Mempool where
  mapLedger : List (Uint512 × Transaction) := []
  mapConflicts : Uint512 → Option Transaction := fun _ => none
  /-- Orphans, by the transaction that they wait for. -/
  mapOrphans : Uint512 → Option Transaction := fun _ => none
  setOrphansByIndex : Uint512 → Bool := fun _ => false
  /-- The transaction that follows a transaction. -/
  mapClaimed : Uint512 → Option Uint512 := fun _ => none

/-- What a legacy transaction does to the mint of its block. -/
inductive Mint where
  /-- A coinbase sets it to the value of its outputs. -/
  | set (nMint : Int32)
  /-- Any other transaction adds the value of its outputs less that of its inputs. -/
  | add (nMint : Int32)

/-- How a call ends. -/
inductive Outcome where
  | returned (fResult : Bool)
  | threw
  deriving DecidableEq

/-- The legacy side of a node, and what the memory pool has executed. -/
structure Periphery (σ : Type) where
  /-- What a legacy transaction mints: its inputs are named by their hashes. -/
  legacyMint : Uint512 → Mint
  /-- `ReadTx`, `FetchInputs` and `Connect` of a legacy transaction. -/
  connectLegacy : σ → Records → BlockState → Uint512 → Result σ
  disconnectLegacy : σ → Records → BlockState → Uint512 → Result σ
  eraseLegacy : σ → Uint512 → Result σ
  /-- A disconnected legacy transaction is offered to the pool. -/
  resurrectLegacy : σ → Records → Uint512 → Result σ
  hasLegacy : σ → Uint512 → Bool
  removeLegacyConflict : σ → Uint512 → σ
  removeLegacy : σ → Uint512 → σ
  /-- `std::sort` of transactions, by their sequence. -/
  sort : List Transaction → List Transaction
  sort_perm : ∀ vtx, (sort vtx).Perm vtx
  sort_sorted : ∀ vtx, (sort vtx).Pairwise fun tx tx' => tx.nSequence ≤ tx'.nSequence
  /-- `Transaction::Check`. -/
  Check : Transaction → Result Bool
  /-- `Verify` and `Connect` with `FLAGS::MEMPOOL`, with what `Get` finds in the pool: committed,
  or aborted. -/
  connectMemory : σ → Records → (Uint512 → Option Transaction) → Transaction → σ × Outcome
  hasLegacy_connect : ∀ s db get tx, hasLegacy (connectMemory s db get tx).1 = hasLegacy s
  /-- `Disconnect` of a transaction of the pool. -/
  disconnectMemory : FLAGS → σ → Records → Transaction → σ × Bool
  /-- `TxnBegin`, `TxnAbort` and `TxnCommit` with `FLAGS::MEMPOOL`. -/
  TxnBegin : σ → σ
  TxnAbort : σ → σ
  TxnCommit : σ → σ

structure Node (σ : Type) where
  db : Records := {}
  chain : ChainState := {}
  pool : Mempool := {}
  side : σ

namespace Mempool

variable (pool : Mempool)

def find (hashTx : Uint512) : Option Transaction := pool.mapLedger.lookup hashTx

/-- The transaction is in the pool. -/
def Contains (hashTx : Uint512) : Prop := pool.find hashTx ≠ none

/-- The longest beginning of a list in which every transaction follows the one before. -/
def sequenced (rt : Runtime) : List Transaction → List Transaction
  | [] => []
  | [tx] => [tx]
  | tx :: txNext :: vtx =>
      if txNext.hashPrevTx = tx.GetHash rt then tx :: sequenced rt (txNext :: vtx) else [tx]

/-- `Get`: among the conflicts, or in the pool. -/
def Get (hashTx : Uint512) : Option Transaction := pool.mapConflicts hashTx <|> pool.find hashTx

variable {σ : Type} (rt : Runtime) (side : Periphery σ)

/-- The transactions of one signature chain, by their sequence. -/
def sorted (hashGenesis : Uint256) : List Transaction :=
  side.sort ((pool.mapLedger.map Prod.snd).filter fun tx => tx.hashGenesis = hashGenesis)

/-- `Get` by genesis: the newest of the transactions that follow each other. -/
def newest (hashGenesis : Uint256) : Option Transaction :=
  (sequenced rt (pool.sorted side hashGenesis)).getLast?

/-- `ReadLast` with `FLAGS::MEMPOOL`. -/
def ReadLast (db : Records) (hashGenesis : Uint256) : Option Uint512 :=
  (pool.newest rt side hashGenesis).map (·.GetHash rt) <|> db.ReadLast hashGenesis

end Mempool

namespace Node

variable {σ : Type} (rt : Runtime) (side : Periphery σ) (node : Node σ)

/-- `LedgerDB::HasTx` with `FLAGS::MEMPOOL`: in the pool or on disk. -/
def HasTx (hashTx : Uint512) : Bool :=
  (node.pool.find hashTx).isSome || side.hasLegacy node.side hashTx ||
    (node.pool.mapConflicts hashTx).isSome || (node.db.ledger.ReadTx hashTx).isSome

/-- The transaction is kept among the conflicts. -/
def conflict (tx : Transaction) : Node σ :=
  { node with
    pool.mapConflicts := Function.update node.pool.mapConflicts (tx.GetHash rt) (some tx) }

/-- The transaction waits for the one before it. -/
def orphan (tx : Transaction) : Node σ :=
  { node with
    pool.mapOrphans := Function.update node.pool.mapOrphans tx.hashPrevTx (some tx)
    pool.setOrphansByIndex := Function.update node.pool.setOrphansByIndex (tx.GetHash rt) true }

/-- The transaction is in the pool. -/
def accepted (tx : Transaction) (s : σ) : Node σ :=
  { node with
    side := s
    pool.mapLedger := (tx.GetHash rt, tx) :: node.pool.mapLedger
    pool.mapClaimed :=
      if tx.IsFirst then node.pool.mapClaimed
      else Function.update node.pool.mapClaimed tx.hashPrevTx (some (tx.GetHash rt)) }

/-- A transaction of a node that waits no longer. -/
def release (hashTx hashThis : Uint512) : Node σ :=
  { node with
    pool.mapOrphans := Function.update node.pool.mapOrphans hashTx none
    pool.setOrphansByIndex := Function.update node.pool.setOrphansByIndex hashThis false }

/-- What `Accept` checks before it looks at the chain. -/
def admits (tx : Transaction) : Result Bool := do
  if ← tx.IsCoinBase then return false
  else if ← tx.IsCoinStake then return false
  else side.Check tx

/-- The transaction is executed in memory, and in the pool if that succeeds. -/
def connect (tx : Transaction) : Node σ × Outcome :=
  match side.connectMemory node.side node.db node.pool.Get tx with
  | (s, .returned true) => (node.accepted rt tx s, .returned true)
  | (s, outcome) => ({ node with side := s }, outcome)

/-- Where a transaction goes that is neither on disk nor in the pool; `true` is the pool. -/
def acceptNew (tx : Transaction) : Node σ × Outcome :=
  match admits side tx with
  | .error _ => (node, .threw)
  | .ok false => (node, .returned false)
  | .ok true =>
      if tx.IsFirst then node.connect rt side tx
      else if node.HasTx side tx.hashPrevTx = false then (node.orphan rt tx, .returned false)
      else if (node.pool.mapClaimed tx.hashPrevTx).isSome ∨
          (node.pool.mapConflicts tx.hashPrevTx).isSome then
        (node.conflict rt tx, .returned false)
      else
        match node.pool.ReadLast rt side node.db tx.hashGenesis with
        | none => (node, .returned false)
        | some hashLast =>
            if tx.hashPrevTx ≠ hashLast then (node.conflict rt tx, .returned false)
            else node.connect rt side tx

/-- `Mempool::Accept`, with the orphans that wait for the transaction. -/
def Accept : Nat → Node σ → Transaction → Option (Node σ × Outcome)
  | 0, _, _ => none
  | nFuel + 1, node, tx =>
      if node.HasTx side (tx.GetHash rt) then some (node, .returned false)
      else
        match node.acceptNew rt side tx with
        | (node, .returned true) => do
            match ← processOrphans nFuel node (tx.GetHash rt) with
            | (node, .threw) => some (node, .threw)
            | (node, .returned _) => some (node, .returned true)
        | r => some r
where
  /-- `ProcessOrphans`: true if no orphan is rejected. -/
  processOrphans : Nat → Node σ → Uint512 → Option (Node σ × Outcome)
  | 0, _, _ => none
  | nFuel + 1, node, hashTx =>
      match node.pool.mapOrphans hashTx with
      | none => some (node, .returned true)
      | some tx => do
          match ← Accept nFuel node tx with
          | (node, .returned true) =>
              processOrphans nFuel (node.release hashTx (tx.GetHash rt)) (tx.GetHash rt)
          | r => some r

/-- `Mempool::Remove`. -/
def Remove (hashTx : Uint512) : Node σ :=
  let pool :=
    { node.pool with
      mapConflicts := Function.update node.pool.mapConflicts hashTx none
      setOrphansByIndex := Function.update node.pool.setOrphansByIndex hashTx false }
  let s := side.removeLegacyConflict node.side hashTx
  match pool.find hashTx with
  | some tx =>
      { node with
        side := s
        pool :=
          { pool with
            mapClaimed := Function.update pool.mapClaimed tx.hashPrevTx none
            mapOrphans := Function.update pool.mapOrphans tx.hashPrevTx none
            mapLedger := pool.mapLedger.filter fun entry => entry.1 ≠ hashTx } }
  | none => { node with pool, side := side.removeLegacy s hashTx }

/-! ## Check -/

/-- The signature chains of the pool by their genesis, with their transactions in sequence. -/
def chains : List (Uint256 × List Transaction) :=
  ((node.pool.mapLedger.map fun entry => entry.2.hashGenesis).dedup.insertionSort
    fun hashGenesis hashGenesis' => hashGenesis.toNat ≤ hashGenesis'.toNat).map
      fun hashGenesis => (hashGenesis, node.pool.sorted side hashGenesis)

/-- The transaction is erased from the pool. -/
def erase (tx : Transaction) : Node σ :=
  { node with
    pool.mapClaimed := Function.update node.pool.mapClaimed tx.hashPrevTx none
    pool.mapLedger := node.pool.mapLedger.filter fun entry => entry.1 ≠ tx.GetHash rt }

/-- The transactions of a chain are reset to the disk, the last one first. -/
def eraseChain (node : Node σ) : List Transaction → Node σ
  | [] => node
  | tx :: vtx =>
      match side.disconnectMemory .ERASE node.side node.db tx with
      | (s, true) =>
          let node := { node with side := s }
          eraseChain (if (node.pool.find (tx.GetHash rt)).isSome then node.erase rt tx else node) vtx
      | (s, false) => { node with side := s }

/-- The transactions behind a hash are disconnected and removed, the last one first. -/
def removeBehind (hashLast : Uint512) (node : Node σ) : List Transaction → Node σ
  | [] => node
  | tx :: vtx =>
      if tx.GetHash rt = hashLast then node
      else
        match side.disconnectMemory .MEMPOOL node.side node.db tx with
        | (s, true) =>
            removeBehind hashLast ({ node with side := s }.Remove side (tx.GetHash rt)) vtx
        | (s, false) => { node with side := side.TxnAbort s }

/-- The transactions of a chain stay as far as they follow the first one. -/
def checkSequence (vtx : List Transaction) : Node σ :=
  let vtxKept := Mempool.sequenced rt vtx
  match vtxKept.getLast? with
  | none => node
  | some tx =>
      if vtxKept.length = vtx.length then node
      else
        let node := removeBehind rt side (tx.GetHash rt)
          { node with side := side.TxnBegin node.side } vtx.reverse
        { node with side := side.TxnCommit node.side }

/-- One chain of the pool: `false` is the `break` that leaves the loop. -/
def checkChain (hashGenesis : Uint256) (vtx : List Transaction) : Node σ × Bool :=
  match vtx.head? with
  | none => (node, true)
  | some tx =>
      if tx.IsFirst then (node.checkSequence rt side vtx, true)
      else
        match node.db.ReadLast hashGenesis with
        | none => (node, false)
        | some hashLast =>
            if tx.hashPrevTx ≠ hashLast then (node.eraseChain rt side vtx.reverse, false)
            else (node.checkSequence rt side vtx, true)

/-- The chains one after another. -/
def checkChains (node : Node σ) : List (Uint256 × List Transaction) → Node σ
  | [] => node
  | (hashGenesis, vtx) :: chains =>
      match node.checkChain rt side hashGenesis vtx with
      | (node, true) => checkChains node chains
      | (node, false) => node

/-- `Mempool::Check`. -/
def Check : Node σ := node.checkChains rt side (node.chains side)

end Node

end Nexus.Ledger
