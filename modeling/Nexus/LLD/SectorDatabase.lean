import Nexus.LLD.Sector

/-!
# The sector database

A keychain that says where the record of a key is, the records, a cache in front of both, and the
transaction that is open.  The keychain is the map it stands for, the cache any type with its four
operations.  A record is kept at the place it starts at; on disk its size is in front of it.
-/

namespace Nexus.LLD

open Nexus.Lib.Bytes
open Nexus.Lib.Checked
open Nexus.Util

/-- `CacheType`: what a database uses of its cache. -/
structure CacheType (γ : Type) where
  Has : γ → Bytes → Bool
  Get : γ → Bytes → Option Bytes × γ
  Put : γ → SectorKey → Bytes → Bytes → γ
  Remove : γ → Bytes → γ

/-- `MAX_SECTOR_FILE_SIZE`. -/
def MAX_SECTOR_FILE_SIZE : UInt32 := 1024 * 1024 * 512

/-- `SectorDatabase`.  Records are by file and position. -/
structure SectorDatabase (γ : Type) where
  pSectorKeys : Bytes → Option SectorKey := fun _ => none
  sectors : UInt32 × UInt32 → Option Bytes := fun _ => none
  cachePool : γ
  nCurrentFile : UInt32 := 0
  nCurrentFileSize : UInt32 := 0
  /-- `FLAGS::APPEND`. -/
  fAppend : Bool := false
  pTransaction : Option SectorTransaction := none

/-- A call that returns `false`. -/
def notFound : Fault := .error ""

/-- The size of a record with its size in front. -/
def recordSize (vData : Bytes) : Nat := vData.length + getSizeOfCompactSize vData.length

/-- A record of zeros behind the name of no type. -/
def blankRecord (nSize : Nat) : Bytes :=
  (serializeBytes (bytesOf "NONE") ++ List.replicate nSize 0).take nSize

namespace SectorKey

/-- Where the record is. -/
def place (cKey : SectorKey) : UInt32 × UInt32 := (cKey.nSectorFile.toUInt32, cKey.nSectorStart)

/-- The entry of a key without a record. -/
def keychainOnly (cKey : SectorKey) : Prop :=
  cKey.nSectorFile = 0 ∧ cKey.nSectorSize = 0 ∧ cKey.nSectorStart = 0

instance (cKey : SectorKey) : Decidable cKey.keychainOnly := by
  unfold keychainOnly
  infer_instance

end SectorKey

namespace SectorDatabase

variable {γ : Type} (cache : CacheType γ) (db : SectorDatabase γ)

/-! ## Records -/

/-- The bytes of a record on disk, read behind the size that is taken to be in front of it. -/
def readSector (cKey : SectorKey) : Result Bytes :=
  let nSize := getSizeOfCompactSize cKey.nSectorSize.toNat
  if cKey.nSectorSize.toNat < nSize then .error (.exception "vector::_M_default_append")
  else do
    let vData ← demand (db.sectors cKey.place) notFound
    let vRead := ((serializeBytes vData).drop nSize).take (cKey.nSectorSize.toNat - nSize)
    reject (vRead.length ≠ cKey.nSectorSize.toNat - nSize) notFound
    return vRead

/-- `Get` of a record, from the cache or from disk. -/
def Get (vKey : Bytes) : Result (Bytes × SectorDatabase γ) :=
  match cache.Get db.cachePool vKey with
  | (some vData, cachePool) => .ok (vData, { db with cachePool })
  | (none, cachePool) => do
      let cKey ← demand (db.pSectorKeys vKey) notFound
      let vData ← db.readSector cKey
      return (vData, { db with cachePool := cache.Put cachePool cKey vKey vData })

/-- `Update`, which is refused for a record of another size. -/
def Update (vKey vData : Bytes) : Option (SectorDatabase γ) := do
  let key ← db.pSectorKeys vKey
  guard (recordSize vData = key.nSectorSize.toNat)
  return { db with
    cachePool := cache.Put db.cachePool key vKey vData
    sectors := Function.update db.sectors key.place (some vData) }

/-- The record is written behind the last one, in a new file when the file is full. -/
def Append (vKey vData : Bytes) : SectorDatabase γ :=
  let fFull := MAX_SECTOR_FILE_SIZE < db.nCurrentFileSize
  let nFile := if fFull then db.nCurrentFile + 1 else db.nCurrentFile
  let nStart := if fFull then 0 else db.nCurrentFileSize
  let nSize := UInt32.ofNat (recordSize vData)
  let key := SectorKey.of vKey nFile.toUInt16 nStart nSize
  { db with
    sectors := Function.update db.sectors (nFile, nStart) (some vData)
    nCurrentFile := nFile
    nCurrentFileSize := nStart + nSize
    pSectorKeys := Function.update db.pSectorKeys vKey (some key)
    cachePool := cache.Put db.cachePool key vKey vData }

/-- `Force`, to which `Put` leads in force mode. -/
def Force (vKey vData : Bytes) : SectorDatabase γ :=
  if db.fAppend then Append cache db vKey vData
  else (Update cache db vKey vData).getD (Append cache db vKey vData)

/-- `Delete`: the key is taken from the keychain and the record is blanked. -/
def Delete (vKey : Bytes) : Result (SectorDatabase γ) := do
  let key ← demand (db.pSectorKeys vKey) notFound
  let db := { db with pSectorKeys := Function.update db.pSectorKeys vKey none }
  if key.keychainOnly then return db
  else
    let vData ← demand (db.sectors key.place) notFound
    reject (Stream.MAX_SIZE < vData.length) (.exception "ReadCompactSize() : size too large")
    return { db with
      sectors := Function.update db.sectors key.place (some (blankRecord vData.length)) }

/-! ## The calls of a database -/

/-- `Exists`. -/
def Exists (vKey : Bytes) : Bool :=
  match db.pTransaction with
  | some pTransaction =>
      if pTransaction.setErasedData.contains vKey then false
      else if pTransaction.mapTransactions.contains vKey then true
      else if pTransaction.setKeychain.contains vKey then true
      else if pTransaction.mapIndex.contains vKey then true
      else cache.Has db.cachePool vKey || (db.pSectorKeys vKey).isSome
  | none => cache.Has db.cachePool vKey || (db.pSectorKeys vKey).isSome

/-- `Read`, to the bytes that a value is deserialized from. -/
def Read (vKey : Bytes) : Result (Bytes × SectorDatabase γ) :=
  match db.pTransaction with
  | some pTransaction =>
      if pTransaction.setErasedData.contains vKey then .error notFound
      else
        let vKey := (pTransaction.mapIndex[vKey]?).getD vKey
        match pTransaction.mapTransactions[vKey]? with
        | some vData => .ok (vData, db)
        | none => Get cache db vKey
  | none => Get cache db vKey

/-- `Write` of a value, `Write` of a key, `Erase` and `Index`. -/
def call : SectorCall → Result (SectorDatabase γ)
  | .write vKey vData =>
      match db.pTransaction with
      | some pTransaction =>
          .ok { db with pTransaction := some (pTransaction.call (.write vKey vData)) }
      | none => .ok (Force cache db vKey vData)
  | .key vKey =>
      match db.pTransaction with
      | some pTransaction => .ok { db with pTransaction := some (pTransaction.call (.key vKey)) }
      | none =>
          .ok { db with
            pSectorKeys := Function.update db.pSectorKeys vKey (some (SectorKey.of vKey 0 0 0)) }
  | .erase vKey =>
      let db := { db with cachePool := cache.Remove db.cachePool vKey }
      match db.pTransaction with
      | some pTransaction => .ok { db with pTransaction := some (pTransaction.call (.erase vKey)) }
      | none => db.Delete vKey
  | .index vKey vIndex =>
      match db.pTransaction with
      | some pTransaction =>
          .ok { db with pTransaction := some (pTransaction.call (.index vKey vIndex)) }
      | none => do
          let cKey ← demand (db.pSectorKeys vIndex) notFound
          return { db with
            cachePool := cache.Remove (cache.Remove db.cachePool vIndex) vKey
            pSectorKeys := Function.update db.pSectorKeys vKey (some (cKey.SetKey vKey)) }

def TxnBegin : SectorDatabase γ := { db with pTransaction := some {} }

/-! ## Commit -/

/-- The first loop of `TxnCommit`. -/
def commitErased : List Bytes → SectorDatabase γ → Result (SectorDatabase γ)
  | [], db => .ok db
  | vKey :: vKeys, db => do
      reject (db.pSectorKeys vKey).isNone (.error "failed to erase from keychain")
      commitErased vKeys { db with pSectorKeys := Function.update db.pSectorKeys vKey none }

/-- The loop over the keychain entries. -/
def commitKeys : List Bytes → SectorDatabase γ → SectorDatabase γ
  | [], db => db
  | vKey :: vKeys, db =>
      commitKeys vKeys { db with
        pSectorKeys := Function.update db.pSectorKeys vKey (some (SectorKey.of vKey 0 0 0)) }

/-- The loop over the indexes, which reads the entry of a target once. -/
def commitIndexes :
    List (Bytes × Bytes) → (Bytes → Option SectorKey) → SectorDatabase γ →
      Result (SectorDatabase γ)
  | [], _, db => .ok db
  | (vKey, vIndex) :: items, mapIndex, db => do
      let cKey ← demand (mapIndex vIndex <|> db.pSectorKeys vIndex)
        (.error "failed to read indexing entry")
      commitIndexes items (Function.update mapIndex vIndex (some cKey))
        { db with
          pSectorKeys := Function.update db.pSectorKeys vKey (some (cKey.SetKey vKey)) }

/-- `TxnCommit`. -/
def TxnCommit : Result (SectorDatabase γ) := do
  let pTransaction ← demand db.pTransaction notFound
  let db ← commitErased pTransaction.setErasedData.toList db
  let db := pTransaction.mapTransactions.toList.foldl
    (fun db item => Force cache db item.1 item.2) db
  let db := commitKeys pTransaction.setKeychain.toList db
  let db ← commitIndexes pTransaction.mapIndex.toList (fun _ => none) db
  return { db with pTransaction := none }

end SectorDatabase

end Nexus.LLD
