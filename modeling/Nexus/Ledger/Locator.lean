import Nexus.Ledger.Chain

/-!
# Locators

The hashes that are sent to another node to find the last common block: one block
after the other at first, then in doubling steps, and the genesis block at the end.
-/

namespace Nexus.Ledger

open Nexus.Lib.Checked
open Nexus.Util
open Nexus.LLD

namespace Locator

/-- `BlockState()`: the null state, with the version and the time at which it is made. -/
def nullState (rt : LedgerRuntime) (nTime : UInt64) : BlockState :=
  { nVersion := rt.CurrentBlockVersion, nTime }

/-- `Prev`, with the null state that it returns for a block without a previous one. -/
def prev (rt : LedgerRuntime) (nTime : UInt64) (db : Records) (state : BlockState) :
    Result BlockState :=
  if state.hashPrevBlock = 0 then .ok (nullState rt nTime) else state.Prev db

variable (rt : LedgerRuntime) (nTime : UInt64) (db : Records)

/-- The inner loop of `Set`: so many blocks back, while there are any. -/
def stepBack : Nat → BlockState → Result BlockState
  | 0, statePrev => .ok statePrev
  | n + 1, statePrev =>
    if statePrev.IsNull then .ok statePrev
    else do
      let statePrev ← prev rt nTime db statePrev
      stepBack n statePrev

/-- The outer loop of `Set`.  It breaks off when `vHave` has more than 22 entries, which is
after as many turns as are missing to 23. -/
def setLoop : Nat → List Uint1024 → Nat → BlockState → Result (List Uint1024)
  | 0, vHave, _, _ => .ok vHave
  | left + 1, vHave, nStep, statePrev =>
    if statePrev.IsNull then .ok vHave
    else do
      let statePrev ← stepBack rt nTime db nStep statePrev
      let nStep := if 10 < vHave.length then nStep * 2 else nStep
      setLoop left (vHave ++ [statePrev.GetHash rt]) nStep statePrev

/-- `Locator::Set`, which pushes behind what the locator has. -/
def Set (vHave : List Uint1024) (state : BlockState) : Result (List Uint1024) := do
  let vHave ← setLoop rt nTime db (23 - vHave.length) vHave 1 state
  return vHave ++ [rt.hashGenesis]

/-- `Locator::Locator(hashBlock)`: `vHave`. -/
def ofHash (hashBlock : Uint1024) : Result (List Uint1024) :=
  if hashBlock = rt.hashGenesis then .ok [hashBlock]
  else
    match db.ReadBlock hashBlock with
    | none => .ok [hashBlock]
    | some state => Set rt nTime db [hashBlock] state

end Locator

end Nexus.Ledger
