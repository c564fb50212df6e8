import Nexus.Ledger.Mempool

/-!
# The list of the memory pool

`Mempool::List` for the transactions of signature chains, from which block bodies are
built.  The count of what is still asked for is at least one.
-/

namespace Nexus.Ledger

open Nexus.Lib.Checked
open Nexus.Util
open Nexus.Operation
open Nexus.LLD

namespace Node

variable {σ : Type} (rt : Runtime) (side : Periphery σ) (node : Node σ)

/-- The lowest transaction of a chain is a first one, or follows the last hash on disk. -/
def listed (db : Records) (chain : Uint256 × List Transaction) : Bool :=
  match chain.2.head? with
  | none => false
  | some tx => decide (tx.IsFirst ∨ db.ReadLast chain.1 = some tx.hashPrevTx)

/-- The loop over the transactions of a chain, with what is left of `nCount`, or nothing where
`List` returns.  The last transaction of a chain leaves the loop before it is counted. -/
def listSequence : List Transaction → Nat → List Uint512 × Option Nat
  | [], nCount => ([], some nCount)
  | [tx], nCount => ([tx.GetHash rt], some nCount)
  | tx :: txNext :: vtx, nCount =>
    if nCount - 1 = 0 then ([tx.GetHash rt], none)
    else if txNext.hashPrevTx = tx.GetHash rt then
      let (vHashes, nCount) := listSequence (txNext :: vtx) (nCount - 1)
      (tx.GetHash rt :: vHashes, nCount)
    -- skip any orphans found
    else ([tx.GetHash rt], some (nCount - 1))

/-- The loop over the chains, which a chain that is not listed leaves. -/
def listChains (db : Records) : List (Uint256 × List Transaction) → Nat → List Uint512
  | [], _ => []
  | chain :: chains, nCount =>
    if listed db chain then
      match listSequence rt chain.2 nCount with
      | (vHashes, none) => vHashes
      | (vHashes, some nCount) => vHashes ++ listChains db chains nCount
    else []

/-- `List`, without the legacy flag. -/
def list (nCount : Nat) : List Uint512 := listChains rt node.db (node.chains side) nCount

end Node

end Nexus.Ledger
