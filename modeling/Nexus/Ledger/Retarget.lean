import Nexus.Ledger.Chain

/-!
# Block times for the next target

The time between the blocks of a channel, as the difficulty of its next block is calculated from it:
a weighted average over the last blocks.
-/

namespace Nexus.Ledger

open Nexus.Lib.Checked
open Nexus.Util
open Nexus.LLD

namespace BlockState

variable (db : Records) (nFuel : Nat)

/-- `Prev` and `GetLastState`: the block of a channel before a block, or where the search ended. -/
def LastBefore (first : BlockState) (nChannel : UInt32) : Result (BlockState × Bool) := do
  let last ← first.Prev db
  GetLastState db nChannel nFuel last

/-- The loop of `GetWeightedTimes`, from an index down to one: the weights and the weighed times. -/
def weighTimes (nChannel : UInt32) :
    Nat → BlockState → UInt64 × UInt64 → Result (UInt64 × UInt64)
  | 0, _, sums => .ok sums
  | nIndex + 1, first, (nIterator, nWeightedAverage) => do
      let (last, fFound) ← first.LastBefore db nFuel nChannel
      if !fFound then return (nIterator, nWeightedAverage)
      -- the weight is a product of 32 bits with a sign
      reject (2 ^ 31 ≤ (nIndex + 1) * 3) (.exception "signed overflow")
      let nTime := max (first.nTime - last.nTime) 1 * UInt64.ofNat (nIndex + 1) * 3
      weighTimes nChannel nIndex last
        (nIterator + UInt64.ofNat ((nIndex + 1) * 3), nWeightedAverage + nTime)

/-- `GetWeightedTimes`.  The depth is turned into an index with a sign, and the loop runs while the
index is above zero. -/
def GetWeightedTimes (state : BlockState) (nDepth : UInt32) : Result UInt64 := do
  let nIndex := nDepth.toInt32
  let (nIterator, nWeightedAverage) ←
    weighTimes db nFuel state.nChannel nIndex.toNatClampNeg state (0, 0)
  reject (nIterator = 0) (.exception "division by zero")
  return nWeightedAverage / nIterator

/-- How `RetargetTrust`, `RetargetPrime` and `RetargetHash` begin: the time between the last two
blocks of a channel, if there are two.  Blocks of the trust channel, and those of the others from
version 4 on, take the weighted average. -/
def RetargetTime (state : BlockState) (nChannel : UInt32) : Result (Option UInt64) := do
  let (first, fFirst) ← GetLastState db nChannel nFuel state
  if !fFirst then return none
  let (last, fLast) ← first.LastBefore db nFuel nChannel
  if !fLast then return none
  if nChannel = 0 ∨ 4 ≤ state.nVersion then
    let nBlockTime ← first.GetWeightedTimes db nFuel (if 7 ≤ state.nVersion then 2 else 5)
    return some nBlockTime
  else return some (max (first.nTime - last.nTime) 1)

end BlockState

end Nexus.Ledger
