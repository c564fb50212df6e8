import Nexus.Ledger.Index

/-!
# Supply

What is released into the reserve of a channel: the subsidies of the minutes
from the last block of the channel to the block.  The curve of the subsidy and
the age of the chain are calculated in floating point, and are parameters here.
-/

namespace Nexus.Ledger

open Nexus.Lib.Checked
open Nexus.Util
open Nexus.LLD

/-- What the supply calculates in floating point. -/
structure SupplyRuntime where
  /-- `GetSubsidy` of a minute, by type of reserve. -/
  GetSubsidy : UInt32 → Fin 3 → UInt64
  /-- `GetChainAge` at a time, in minutes. -/
  GetChainAge : UInt64 → UInt32

namespace SupplyRuntime

variable (supply : SupplyRuntime)

/-- The minutes that a loop from `nStart` goes over, below `nStart + nTimespan` in 32 bits. -/
def minutes (nTimespan nStart : UInt32) : List Nat :=
  List.range' nStart.toNat ((nStart + nTimespan).toNat - nStart.toNat)

def ReleaseRewards (nTimespan nStart : UInt32) (nType : Fin 3) : UInt64 :=
  (minutes nTimespan nStart).foldl
    (fun nSubsidy nMinutes => nSubsidy + supply.GetSubsidy (UInt32.ofNat nMinutes) nType) 0

def GetReleasedReserve (db : Records) (nFuel : Nat) (state : BlockState) (nChannel : UInt32)
    (nType : Fin 3) : Result UInt64 := do
  let (first, fFirst) ← BlockState.GetLastState db nChannel nFuel state
  if fFirst = false then return Legacy.COIN
  else
    let nMinutes := supply.GetChainAge first.nTime
    let prev ← first.Prev db
    let (last, fLast) ← BlockState.GetLastState db nChannel nFuel prev
    if fLast = false then return supply.ReleaseRewards (nMinutes + 5) 1 nType
    else
      let nLastMinutes := supply.GetChainAge last.nTime
      if nMinutes = nLastMinutes then return 0
      else return supply.ReleaseRewards (nMinutes - nLastMinutes) nLastMinutes nType

/-- The chain with this supply.  A search that throws has thrown before, where a block is indexed. -/
def chainRuntime (nFuel : Nat) (rt : ChainRuntime) : ChainRuntime :=
  { rt with
    GetReleasedReserve := fun db state nChannel nType =>
      ((supply.GetReleasedReserve db nFuel state nChannel nType).toOption).getD 0 }

/-! ## Subsidies of minutes -/

/-- The sum of the subsidies of the minutes from `m` on, below `n`. -/
def subsidies (nType : Fin 3) (m n : Nat) : Nat :=
  ((List.range' m (n - m)).map fun nMinutes =>
    (supply.GetSubsidy (UInt32.ofNat nMinutes) nType).toNat).sum

variable {supply} {nType : Fin 3} {m n k : Nat} {x y : UInt32}

theorem subsidies_append (hmn : m ≤ n) (hnk : n ≤ k) :
    supply.subsidies nType m k = supply.subsidies nType m n + supply.subsidies nType n k := by
  have hSplit : List.range' m (k - m) = List.range' m (n - m) ++ List.range' n (k - n) := by
    have hAppend := List.range'_append_1 (s := m) (m := n - m) (n := k - n)
    rw [show m + (n - m) = n by omega, show n - m + (k - n) = k - m by omega] at hAppend
    exact hAppend.symm
  rw [subsidies, hSplit, List.map_append, List.sum_append]
  rfl

@[simp] theorem subsidies_self (m : Nat) : supply.subsidies nType m m = 0 := by
  simp [subsidies]

/-- A loop adds the subsidies up, in 64 bits. -/
theorem foldl_subsidies (l : List Nat) (nSubsidy : UInt64) :
    l.foldl (fun nSubsidy nMinutes => nSubsidy + supply.GetSubsidy (UInt32.ofNat nMinutes) nType)
        nSubsidy =
      nSubsidy + UInt64.ofNat
        (l.map fun nMinutes => (supply.GetSubsidy (UInt32.ofNat nMinutes) nType).toNat).sum := by
  induction l generalizing nSubsidy with
  | nil => simp
  | cons nMinutes l ih =>
      rw [List.foldl_cons, ih, List.map_cons, List.sum_cons, UInt64.ofNat_add, UInt64.ofNat_toNat,
        UInt64.add_assoc]

/-- What is released from one age to another. -/
theorem releaseRewards_eq (x y : UInt32) :
    supply.ReleaseRewards (y - x) x nType = UInt64.ofNat (supply.subsidies nType x.toNat y.toNat) := by
  have hEnd : x + (y - x) = y := by
    rw [UInt32.add_comm]
    exact UInt32.sub_add_cancel y x
  rw [ReleaseRewards, foldl_subsidies, minutes, hEnd, UInt64.zero_add]
  rfl

/-- Nothing is released within a minute, so the test for the same minute changes nothing. -/
theorem releaseRewards_self (x : UInt32) : supply.ReleaseRewards (x - x) x nType = 0 := by
  rw [releaseRewards_eq, subsidies_self]
  rfl

end SupplyRuntime

end Nexus.Ledger
