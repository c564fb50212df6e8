import Nexus.Ledger.Trust

/-!
# Consistency of trust scores

`CheckConsistency` walks a signature chain back from its last coinstake and
calculates each score in 64 and in 128 bits.  Where the two differ the score is
added up again from the changes.
-/

namespace Nexus.Ledger

open Nexus.Lib.Checked
open Nexus.Util
open Nexus.Register
open Nexus.Operation
open Nexus.LLD

/-- What the walk has found: the score before the first coinstake so far, the changes of the score
from the last one back, and whether all were consistent. -/
structure Consistency where
  nTrustPrev : UInt64 := 0
  vChanges : List Int64 := []
  fConsistent : Bool := true

/-- The last coinstake that a coinstake names, and its stake change. -/
def consistencyOperands (contract : Contract) : Result (Uint512 × Int64) := do
  let contract ← contract.seek 1
  let (hashLastTrust, contract) ← contract.extract Uint512
  let (_, contract) ← contract.extract UInt64
  let (nStakeChange, _) ← contract.extract Int64
  return (hashLastTrust, nStakeChange)

/-- One coinstake: the one before it, and what has been found.  The change that is kept is that of
the score in 128 bits, which is also the other where they agree. -/
def consistencyTrust (rt : LedgerRuntime) (db : Records) (contract : Contract) (account : Object)
    (block : BlockState) (found : Consistency) : Result (Uint512 × Consistency) := do
  let (hashLastTrust, nStakeChange) ← consistencyOperands contract
  let statePrev ← demand (db.ReadBlock block.hashPrevBlock) (.error "prev block not in database")
  let stateLast ← demand (db.ReadBlockOf hashLastTrust) (.error "last block not in database")
  let nBlockAge := statePrev.nTime - stateLast.nTime
  let nTrustPrev ← account.get UInt64 (bytesOf "trust")
  let nStake ← account.get UInt64 (bytesOf "stake")
  let nTrust ← GetTrustScore rt nTrustPrev nBlockAge nStake nStakeChange 7
  let nCheck ← GetTrustScore rt nTrustPrev nBlockAge nStake nStakeChange 8
  return (hashLastTrust,
    { nTrustPrev
      vChanges := found.vChanges ++ [(nCheck - nTrustPrev).toInt64]
      fConsistent := found.fConsistent && nTrust == nCheck })

/-- The walk.  At a transaction that is no coinstake it does not go on, and does not end. -/
def consistencyLoop (rt : LedgerRuntime) (db : Records) : Nat → Uint512 → Consistency → Result Consistency
  | 0, _, _ => .error (.exception "out of fuel")
  | nFuel + 1, hashLast, found =>
      match db.ledger.ReadTx hashLast with
      | none => .ok found
      | some tx => do
          if ← tx.IsCoinStake then
            match db.ReadBlockOf hashLast with
            | none => return found
            | some block =>
                let contract ← demand tx.vContracts.head? (.exception "contract read out of bounds")
                let account ← Transaction.trustAccount contract.reset
                if ← tx.IsTrust then
                  let (hashLast, found) ← consistencyTrust rt db contract.reset account block found
                  consistencyLoop rt db nFuel hashLast found
                else return found
          else consistencyLoop rt db nFuel hashLast found

/-- `CheckConsistency`: nothing when all scores are consistent, and else the score again. -/
def CheckConsistency (rt : LedgerRuntime) (db : Records) (nFuel : Nat) (hashLastTrust : Uint512) :
    Result (Option UInt64) := do
  let found ← consistencyLoop rt db nFuel hashLastTrust {}
  if found.fConsistent then return none
  else return some (found.vChanges.reverse.foldl (fun nTrustRet nChange => nTrustRet + nChange.toUInt64)
    found.nTrustPrev)

end Nexus.Ledger
