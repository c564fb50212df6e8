import Nexus.LLD.Sector

/-!
# The disk hash map

A bucket is a column of slots, one in each of a list of files.  A slot is a header of thirteen
bytes and the compressed key.  The number of slots of a bucket is kept in memory and in the index
file.  Files are bytes by position; a file that is made is filled with zeros, so that a
position that was never written reads as zero.
-/

namespace Nexus.LLD

open Nexus.Lib.Bytes
open Nexus.Lib.Checked
open Nexus.Util

/-- The content of a file by position. -/
abbrev FileBytes := Nat → UInt8

/-- `read` of some bytes at a position. -/
def readAt (file : FileBytes) (nPos nSize : Nat) : Bytes :=
  (List.range nSize).map fun n => file (nPos + n)

/-- `write` of some bytes at a position. -/
def writeAt (file : FileBytes) (nPos : Nat) (vch : Bytes) : FileBytes :=
  fun n => if nPos ≤ n then vch[n - nPos]?.getD (file n) else file n

def HASHMAP_MAX_KEY_SIZE : Nat := 32
def HASHMAP_KEY_ALLOCATION : Nat := HASHMAP_MAX_KEY_SIZE + 13

/-- What a map is built with. -/
structure HashMapConfig where
  XXH64 : Bytes → UInt64
  HASHMAP_TOTAL_BUCKETS : UInt32

/-- The loop of `CompressKey` over half of the key. -/
def foldHalf (vData : Bytes) : Bytes :=
  (List.range (vData.length / 2)).foldl
    (fun v i => v.set i (v[i]?.getD 0 ^^^ v[2 * i]?.getD 0)) vData

/-- `CompressKey`.  The new size is cut to sixteen bits. -/
def CompressKey (vData : Bytes) (nSize : Nat) : Bytes :=
  if h : nSize < vData.length then
    have : ((foldHalf vData).take (max (vData.length / 2 % 2 ^ 16) nSize)).length <
        vData.length := by
      rw [List.length_take]
      have := Nat.mod_le (vData.length / 2) (2 ^ 16)
      omega
    CompressKey ((foldHalf vData).take (max (vData.length / 2 % 2 ^ 16) nSize)) nSize
  else vData
termination_by vData.length

/-- The compressed form of a key. -/
def vKeyCompressed (vKey : Bytes) : Bytes := CompressKey vKey HASHMAP_MAX_KEY_SIZE

/-- `BinaryHashMap`: the files, the index file, and the sizes of the buckets in memory. -/
structure BinaryHashMap where
  files : Nat → FileBytes := fun _ _ => 0
  index : FileBytes := fun _ => 0
  hashmap : Nat → UInt16 := fun _ => 0

namespace BinaryHashMap

variable (cfg : HashMapConfig) (map : BinaryHashMap)

def GetBucket (vKey : Bytes) : UInt32 :=
  (cfg.XXH64 vKey / 7 % cfg.HASHMAP_TOTAL_BUCKETS.toUInt64).toUInt32

/-- The position of a bucket in every file, a product of 32 bits. -/
def nFilePos (nBucket : UInt32) : UInt32 := nBucket * UInt32.ofNat HASHMAP_KEY_ALLOCATION

/-- The bytes of a slot. -/
def vBucket (nBucket : UInt32) (i : Nat) : Bytes :=
  readAt (map.files i) (nFilePos nBucket).toNat HASHMAP_KEY_ALLOCATION

/-- The number of turns of the loops down from `int16_t(hashmap[nBucket] - 1)`. -/
def nSlots (nBucket : UInt32) : Nat :=
  if (map.hashmap nBucket.toNat).toNat ≤ 2 ^ 15 then (map.hashmap nBucket.toNat).toNat else 0

/-- `std::equal` of the first bytes of the key of a slot. -/
def matchKey (vBucket vKeyCompressed : Bytes) : Bool :=
  (vBucket.drop 13).take vKeyCompressed.length == vKeyCompressed

/-- `Initialize` of a map that exists: the sizes are read from the index file. -/
def Initialize : BinaryHashMap :=
  { map with
    hashmap := fun nBucket =>
      if nBucket < cfg.HASHMAP_TOTAL_BUCKETS.toNat then
        FixedWidth.decode (readAt map.index (UInt32.ofNat nBucket * 2).toNat 2)
      else 0 }

/-- The loop of `Get`. -/
def findKey (nBucket : UInt32) (vKey : Bytes) : Nat → Option SectorKey
  | 0 => none
  | i + 1 =>
      if matchKey (map.vBucket nBucket i) (vKeyCompressed vKey) then
        let cKey := SectorKey.ofHeader (map.vBucket nBucket i) vKey
        if cKey.Ready then some cKey else findKey nBucket vKey i
      else findKey nBucket vKey i

def Get (vKey : Bytes) : Option SectorKey :=
  map.findKey (GetBucket cfg vKey) vKey (map.nSlots (GetBucket cfg vKey))

/-- The slot that a put of a key takes: the newest that is empty or has the key. -/
def putSlot (nBucket : UInt32) (vKey : Bytes) : Nat → Option Nat
  | 0 => none
  | i + 1 =>
      if (map.vBucket nBucket i)[0]? = some STATE.EMPTY ∨
          matchKey (map.vBucket nBucket i) (vKeyCompressed vKey) then some i
      else putSlot nBucket vKey i

/-- A key written into a slot. -/
def writeSlot (nBucket : UInt32) (i : Nat) (vch : Bytes) : BinaryHashMap :=
  { map with
    files := Function.update map.files i (writeAt (map.files i) (nFilePos nBucket).toNat vch) }

/-- `Put`, when not in append mode. -/
def Put (cKey : SectorKey) : BinaryHashMap :=
  let nBucket := GetBucket cfg cKey.vKey
  let ssKey := cKey.header ++ vKeyCompressed cKey.vKey
  match map.putSlot nBucket cKey.vKey (map.nSlots nBucket) with
  | some i => map.writeSlot nBucket i ssKey
  | none =>
      let nIndex := map.hashmap nBucket.toNat
      let map := map.writeSlot nBucket nIndex.toNat ssKey
      { map with
        hashmap := Function.update map.hashmap nBucket.toNat (nIndex + 1)
        index := writeAt map.index (nBucket * 2).toNat (FixedWidth.encode (nIndex + 1)) }

/-- The slot that is erased for a key: the newest that has it. -/
def eraseSlot (nBucket : UInt32) (vKey : Bytes) : Nat → Option Nat
  | 0 => none
  | i + 1 =>
      if matchKey (map.vBucket nBucket i) (vKeyCompressed vKey) then some i
      else eraseSlot nBucket vKey i

/-- `Erase`: whether the key was found, and the map. -/
def Erase (vKey : Bytes) : Bool × BinaryHashMap :=
  let nBucket := GetBucket cfg vKey
  match map.eraseSlot nBucket vKey (map.nSlots nBucket) with
  | some i => (true, map.writeSlot nBucket i (List.replicate HASHMAP_KEY_ALLOCATION 0))
  | none => (false, map)

end BinaryHashMap

end Nexus.LLD
