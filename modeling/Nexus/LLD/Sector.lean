import Nexus.Util.Stream
import Std.Data.ExtTreeMap
import Std.Data.ExtTreeSet

/-!
# Sector transactions

The pending records of a database transaction, the calls that change them, and the journal
that is written beside them.  The journal is a stream of entries, a name and its key and data,
and is replayed after a crash.
-/

namespace Nexus.LLD

open Nexus.Lib.Bytes
open Nexus.Lib.Checked
open Nexus.Util
open Std

abbrev Bytes := List UInt8

def STATE.EMPTY : UInt8 := 0
def STATE.READY : UInt8 := 1

/-- `SectorKey`: where the record of a key is. -/
structure SectorKey where
  nState : UInt8 := STATE.READY
  nLength : UInt16
  nSectorFile : UInt16
  nSectorSize : UInt32
  nSectorStart : UInt32
  vKey : Bytes
  deriving DecidableEq, Repr

namespace SectorKey

/-- The constructor from a key and a place. -/
def of (vKey : Bytes) (nSectorFile : UInt16) (nSectorStart nSectorSize : UInt32) : SectorKey :=
  { nLength := UInt16.ofNat vKey.length, nSectorFile, nSectorSize, nSectorStart, vKey }

def SetKey (cKey : SectorKey) (vKey : Bytes) : SectorKey :=
  { cKey with vKey, nLength := UInt16.ofNat vKey.length }

def Ready (cKey : SectorKey) : Prop := cKey.nState = STATE.READY

instance (cKey : SectorKey) : Decidable cKey.Ready := by
  unfold Ready
  infer_instance

/-- The serialized fields, which are all but the key. -/
def header (cKey : SectorKey) : Bytes :=
  FixedWidth.encode cKey.nState ++ FixedWidth.encode cKey.nLength ++
    FixedWidth.encode cKey.nSectorFile ++ FixedWidth.encode cKey.nSectorSize ++
    FixedWidth.encode cKey.nSectorStart

/-- `operator>>` from a slot, which leaves the key as it is. -/
def ofHeader (vBucket vKey : Bytes) : SectorKey where
  nState := FixedWidth.decode (vBucket.take 1)
  nLength := FixedWidth.decode ((vBucket.drop 1).take 2)
  nSectorFile := FixedWidth.decode ((vBucket.drop 3).take 2)
  nSectorSize := FixedWidth.decode ((vBucket.drop 5).take 4)
  nSectorStart := FixedWidth.decode ((vBucket.drop 9).take 4)
  vKey := vKey

end SectorKey

/-- `SectorTransaction`. -/
structure SectorTransaction where
  /-- New data to be added. -/
  mapTransactions : ExtTreeMap Bytes Bytes compare := ∅
  /-- Keychain items to commit. -/
  setKeychain : ExtTreeSet Bytes compare := ∅
  /-- Index items to commit. -/
  mapIndex : ExtTreeMap Bytes Bytes compare := ∅
  /-- The keys to be erased. -/
  setErasedData : ExtTreeSet Bytes compare := ∅
  ssJournal : Bytes := []

/-- A call that is made inside a transaction. -/
inductive SectorCall where
  | write (vKey vData : Bytes)
  | key (vKey : Bytes)
  | erase (vKey : Bytes)
  | index (vKey vIndex : Bytes)
  deriving DecidableEq, Repr

namespace SectorCall

/-- The key that a call is about. -/
def vKey : SectorCall → Bytes
  | write vKey _ => vKey
  | key vKey => vKey
  | erase vKey => vKey
  | index vKey _ => vKey

/-- The name in front of the entry of a call in the journal. -/
def strType : SectorCall → Bytes
  | write _ _ => bytesOf "write"
  | key _ => bytesOf "key"
  | erase _ => bytesOf "erase"
  | index _ _ => bytesOf "index"

/-- Key and data of a call. -/
def fields : SectorCall → List Bytes
  | write vKey vData => [vKey, vData]
  | key vKey => [vKey]
  | erase vKey => [vKey]
  | index vKey vIndex => [vKey, vIndex]

/-- The entry of a call in the journal. -/
def entry (c : SectorCall) : Bytes := serializeBytes c.strType ++ c.fields.flatMap serializeBytes

end SectorCall

namespace SectorTransaction

def EraseTransaction (pTransaction : SectorTransaction) (vKey : Bytes) : SectorTransaction :=
  { pTransaction with
    setErasedData := pTransaction.setErasedData.insert vKey
    mapTransactions := pTransaction.mapTransactions.erase vKey
    setKeychain := pTransaction.setKeychain.erase vKey
    mapIndex := pTransaction.mapIndex.erase vKey }

/-- What `Write`, `Erase` and `Index` do to an open transaction. -/
def call (pTransaction : SectorTransaction) (c : SectorCall) : SectorTransaction :=
  let pTransaction := { pTransaction with ssJournal := pTransaction.ssJournal ++ c.entry }
  match c with
  | .write vKey vData =>
      { pTransaction with
        setErasedData := pTransaction.setErasedData.erase vKey
        mapTransactions := pTransaction.mapTransactions.insert vKey vData }
  | .key vKey =>
      { pTransaction with
        setErasedData := pTransaction.setErasedData.erase vKey
        setKeychain := pTransaction.setKeychain.insert vKey }
  | .erase vKey => pTransaction.EraseTransaction vKey
  | .index vKey vIndex =>
      { pTransaction with
        setErasedData := pTransaction.setErasedData.erase vKey
        mapIndex := pTransaction.mapIndex.insert vKey vIndex }

/-- A transaction after some calls. -/
def calls (pTransaction : SectorTransaction) (cs : List SectorCall) : SectorTransaction :=
  cs.foldl call pTransaction

/-- `TxnCheckpoint`: the bytes that are appended to the file. -/
def TxnCheckpoint (pTransaction : SectorTransaction) : Bytes :=
  pTransaction.ssJournal ++ serializeBytes (bytesOf "commit")

/-- What an entry of the journal does to the transaction that is recovered. -/
def restore (pTransaction : SectorTransaction) : SectorCall → SectorTransaction
  | .write vKey vData =>
      { pTransaction with mapTransactions := pTransaction.mapTransactions.insert vKey vData }
  | .key vKey => { pTransaction with setKeychain := pTransaction.setKeychain.insert vKey }
  | .erase vKey => pTransaction.EraseTransaction vKey
  | .index vKey vIndex =>
      { pTransaction with mapIndex := pTransaction.mapIndex.insert vKey vIndex }

end SectorTransaction

/-- The text of a journal that ends early. -/
def neverCommitted : Fault := .error " transaction journal never reached commit"

/-- The branches of the loop of `TxnRecovery` that read an entry of the journal. -/
def readEntry (strType : Bytes) (ssJournal : Stream) : Result (Option SectorCall × Stream) := do
  if strType = bytesOf "erase" then
    let (vKey, ssJournal) ← ssJournal.extractBytes
    return (some (.erase vKey), ssJournal)
  else if strType = bytesOf "key" then
    let (vKey, ssJournal) ← ssJournal.extractBytes
    return (some (.key vKey), ssJournal)
  else if strType = bytesOf "write" then
    let (vKey, ssJournal) ← ssJournal.extractBytes
    let (vData, ssJournal) ← ssJournal.extractBytes
    return (some (.write vKey vData), ssJournal)
  else if strType = bytesOf "index" then
    let (vKey, ssJournal) ← ssJournal.extractBytes
    let (vIndex, ssJournal) ← ssJournal.extractBytes
    return (some (.index vKey vIndex), ssJournal)
  else return (none, ssJournal)

/-- The loop of `TxnRecovery`: the transaction, and where the journal is read up to.  Every turn
reads a byte, so that as many turns as bytes are enough. -/
def readJournal : Nat → Stream → SectorTransaction → Result (SectorTransaction × Stream)
  | 0, _, _ => .error neverCommitted
  | nFuel + 1, ssJournal, pTransaction =>
      if ssJournal.atEnd then .error neverCommitted
      else do
        let (strType, ssJournal) ← ssJournal.extractBytes
        match ← readEntry strType ssJournal with
        | (some c, ssJournal) => readJournal nFuel ssJournal (pTransaction.restore c)
        | (none, ssJournal) =>
            if strType = bytesOf "commit" then return (pTransaction, ssJournal)
            else readJournal nFuel ssJournal pTransaction

/-- `TxnRecovery`, which takes the size of the file for a 32-bit number. -/
def TxnRecovery (vFile : Bytes) : Result SectorTransaction := do
  let nSize := vFile.length % 2 ^ 32
  reject (nSize = 0) (.error "")
  let vBuffer := vFile.take nSize
  (readJournal (vBuffer.length + 1) { vchData := vBuffer } {}).map Prod.fst

end Nexus.LLD
