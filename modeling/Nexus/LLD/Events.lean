import Mathlib.Logic.Function.Basic
import Nexus.Util.Stream

/-!
# Event logs

`LedgerDB` and `LegacyDB` keep the events of a register as a counter under
`("sequence", hashAddress)` and one index key per event, which makes the record of
the transaction readable under the address and the number of the event.  A node in
client mode keeps the index keys in the client database.

A key that is indexed is an alias of the record of the transaction, so it is given
here by the hash of the transaction.  The reads and writes are those outside of a
database transaction.
-/

namespace Nexus.LLD

open Nexus.Util

/-- The events of one database, with the transactions that are stored there and in the client
database. -/
structure EventStore (τ : Type) where
  /-- `config::fClient` -/
  fClient : Bool
  /-- The transactions by hash. -/
  transactions : Uint512 → Option τ
  clientTransactions : Uint512 → Option τ
  /-- `("sequence", hashAddress)` -/
  sequence : Uint256 → Option UInt32 := fun _ => none
  /-- `(hashAddress, nSequence)` -/
  index : Uint256 × UInt32 → Option Uint512 := fun _ => none
  /-- `(hashAddress, nSequence)` of the client database, with the type for legacy events. -/
  clientIndex : Uint256 × UInt32 → Option Uint512 := fun _ => none

namespace EventStore

variable {τ : Type} (db : EventStore τ)

/-- `WriteSequence` -/
def WriteSequence (hashAddress : Uint256) (nSequence : UInt32) : EventStore τ :=
  { db with sequence := Function.update db.sequence hashAddress (some nSequence) }

/-- `ReadSequence`, which leaves the 0 of its callers where there is no record. -/
def ReadSequence (hashAddress : Uint256) : UInt32 := (db.sequence hashAddress).getD 0

/-- `Index` of a key to the record of a transaction, which has to exist. -/
def Index (key : Uint256 × UInt32) (hashTx : Uint512) : Bool × EventStore τ :=
  match db.transactions hashTx with
  | none => (false, db)
  | some _ => (true, { db with index := Function.update db.index key (some hashTx) })

/-- `Client->Index` -/
def ClientIndex (key : Uint256 × UInt32) (hashTx : Uint512) : Bool × EventStore τ :=
  match db.clientTransactions hashTx with
  | none => (false, db)
  | some _ => (true, { db with clientIndex := Function.update db.clientIndex key (some hashTx) })

/-- `Erase` of an index key. -/
def Erase (key : Uint256 × UInt32) : EventStore τ :=
  { db with index := Function.update db.index key none }

/-- `Client->Erase` -/
def ClientErase (key : Uint256 × UInt32) : EventStore τ :=
  { db with clientIndex := Function.update db.clientIndex key none }

/-- `WriteEvent`, the same in both databases. -/
def WriteEvent (hashAddress : Uint256) (hashTx : Uint512) : Bool × EventStore τ :=
  let nSequence := db.ReadSequence hashAddress
  let db := db.WriteSequence hashAddress (nSequence + 1)
  if db.fClient then db.ClientIndex (hashAddress, nSequence) hashTx
  else db.Index (hashAddress, nSequence) hashTx

/-- `ReadEvent`, the same in both databases. -/
def ReadEvent (hashAddress : Uint256) (nSequence : UInt32) : Option τ :=
  if db.fClient then db.clientIndex (hashAddress, nSequence) >>= db.clientTransactions
  else db.index (hashAddress, nSequence) >>= db.transactions

end EventStore

namespace EventStore.LedgerDB

variable {τ : Type} (db : EventStore τ)

/-- `LedgerDB::EraseEvent` -/
def EraseEvent (hashAddress : Uint256) : EventStore τ :=
  match db.sequence hashAddress with
  | none => db
  | some nSequence =>
    (db.WriteSequence hashAddress (nSequence - 1)).Erase (hashAddress, nSequence - 1)

/-- `LedgerDB::ReadLastEvent`: `none` where it fails, and the hash where it is set. -/
def ReadLastEvent (GetHash : τ → Uint512) (hashAddress : Uint256) : Option (Option Uint512) :=
  let nSequence := db.ReadSequence hashAddress
  if 0 < nSequence then
    match db.ReadEvent hashAddress (nSequence - 1) with
    | some tx => some (some (GetHash tx))
    | none => none
  else some none

end EventStore.LedgerDB

namespace EventStore.LegacyDB

variable {τ : Type} (db : EventStore τ)

/-- `LegacyDB::EraseEvent` -/
def EraseEvent (hashAddress : Uint256) : EventStore τ :=
  match db.sequence hashAddress with
  | none => db
  | some nSequence =>
    let db := db.WriteSequence hashAddress (nSequence - 1)
    if db.fClient then db.ClientErase (hashAddress, nSequence - 1)
    else db.Erase (hashAddress, nSequence - 1)

/-- `LegacyDB::ReadLastEvent`, which reads at the counter itself. -/
def ReadLastEvent (GetHash : τ → Uint512) (hashAddress : Uint256) : Option (Option Uint512) :=
  let nSequence := db.ReadSequence hashAddress
  if 0 < nSequence then
    match db.ReadEvent hashAddress nSequence with
    | some tx => some (some (GetHash tx))
    | none => none
  else some none

end EventStore.LegacyDB

end Nexus.LLD
