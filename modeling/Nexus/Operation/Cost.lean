import Nexus.Operation.Contract

/-!
# The cost of a transaction

What a contract adds to the cost of a transaction that follows the previous one
of its signature chain too soon.
-/

namespace Nexus.Operation

open Nexus.Lib.Checked
open Nexus.Util
open Nexus.Register

/-- `0.01 * NXS_COIN`. -/
def TX_FEE : UInt64 := 10000

/-- Operations that pay no fee of their own. -/
def freeOfCharge : List UInt8 :=
  [OP.CLAIM, OP.FEE, OP.COINBASE, OP.TRUST, OP.GENESIS, OP.TRUSTPOOL, OP.GENESISPOOL]

/-- `TxCost`. -/
def TxCost (contract : Contract) (nCost : UInt64) : Result UInt64 := do
  let (nOP, contract) ← contract.reset.extract UInt8
  let nOP ← if nOP = OP.CONDITION then (contract.extract UInt8).map Prod.fst else .ok nOP
  if nOP ∈ freeOfCharge then return nCost else return nCost + TX_FEE

end Nexus.Operation
