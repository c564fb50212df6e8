import Nexus.LLD.BinaryHashMap

/-!
# The disk hash map as a map

A bucket answers for a key with its newest slot of that key.  What a put, an erasure and a reload
do to the slots is stated slot by slot; the answer of every key follows, as long as
no slot is taken for one of another key, and an erasure removes the only slot of its key.
-/

namespace Nexus.Safety

open Nexus.Lib.Bytes
open Nexus.Lib.Checked
open Nexus.Util
open Nexus.LLD

/-! ## Files -/

section Files

variable {file : FileBytes} {nPos nPos' nSize : Nat} {vch : Bytes}

@[simp] theorem readAt_length : (readAt file nPos nSize).length = nSize := by
  rw [readAt, List.length_map, List.length_range]

theorem readAt_getElem? {n : Nat} (h : n < nSize) :
    (readAt file nPos nSize)[n]? = some (file (nPos + n)) := by
  rw [readAt, List.getElem?_map, List.getElem?_range h, Option.map_some]

theorem writeAt_inside {n : Nat} (h : n < vch.length) :
    writeAt file nPos vch (nPos + n) = vch[n] := by
  rw [writeAt, if_pos (Nat.le_add_right _ _), Nat.add_sub_cancel_left,
    List.getElem?_eq_getElem h, Option.getD_some]

theorem writeAt_outside {n : Nat} (h : n < nPos ∨ nPos + vch.length ≤ n) :
    writeAt file nPos vch n = file n := by
  unfold writeAt
  by_cases hBehind : nPos ≤ n
  · rw [if_pos hBehind, List.getElem?_eq_none (by omega), Option.getD_none]
  · rw [if_neg hBehind]

/-- The written bytes are read in front of the old ones. -/
theorem readAt_writeAt_same (h : vch.length ≤ nSize) :
    readAt (writeAt file nPos vch) nPos nSize = vch ++ (readAt file nPos nSize).drop vch.length := by
  apply List.ext_getElem?
  intro n
  by_cases hSize : n < nSize
  · rw [readAt_getElem? hSize]
    by_cases hIn : n < vch.length
    · rw [writeAt_inside hIn, List.getElem?_append_left hIn, List.getElem?_eq_getElem hIn]
    · rw [writeAt_outside (.inr (by omega)), List.getElem?_append_right (by omega),
        List.getElem?_drop, Nat.add_sub_cancel' (by omega), readAt_getElem? hSize]
  · rw [List.getElem?_eq_none (by rw [readAt_length]; omega), List.getElem?_eq_none]
    rw [List.length_append, List.length_drop, readAt_length]
    omega

theorem readAt_writeAt_apart (h : nPos' + nSize ≤ nPos ∨ nPos + vch.length ≤ nPos') :
    readAt (writeAt file nPos vch) nPos' nSize = readAt file nPos' nSize := by
  apply List.ext_getElem?
  intro n
  by_cases hSize : n < nSize
  · rw [readAt_getElem? hSize, readAt_getElem? hSize, writeAt_outside (by omega)]
  · rw [List.getElem?_eq_none (by rw [readAt_length]; omega),
      List.getElem?_eq_none (by rw [readAt_length]; omega)]

end Files

/-! ## Slots -/

theorem CompressKey_length_le {vData : Bytes} {nSize : Nat} :
    (CompressKey vData nSize).length ≤ nSize := by
  fun_induction CompressKey vData nSize with
  | case1 vData h _ ih => exact ih
  | case2 vData h => exact Nat.le_of_not_lt h

theorem vKeyCompressed_length_le (vKey : Bytes) : (vKeyCompressed vKey).length ≤ 32 :=
  CompressKey_length_le

/-- The key part of the slot of a key. -/
def padded (vKey : Bytes) : Bytes :=
  vKeyCompressed vKey ++ List.replicate (32 - (vKeyCompressed vKey).length) 0

/-- The slot of a key. -/
def slotOf (cKey : SectorKey) : Bytes := cKey.header ++ padded cKey.vKey

def blankSlot : Bytes := List.replicate HASHMAP_KEY_ALLOCATION 0

theorem header_length (cKey : SectorKey) : cKey.header.length = 13 := rfl

theorem padded_length (vKey : Bytes) : (padded vKey).length = 32 := by
  have hLe := vKeyCompressed_length_le vKey
  rw [padded, List.length_append, List.length_replicate]
  omega

theorem slotOf_length (cKey : SectorKey) : (slotOf cKey).length = HASHMAP_KEY_ALLOCATION := by
  rw [slotOf, List.length_append, header_length, padded_length]
  rfl

/-- A slot is ready and its length and key are those of a key. -/
def HoldsKey (vBucket vKey : Bytes) : Prop :=
  vBucket[0]? = some STATE.READY ∧
    (vBucket.drop 1).take 2 = FixedWidth.encode (UInt16.ofNat vKey.length) ∧
      vBucket.drop 13 = padded vKey

instance (vBucket vKey : Bytes) : Decidable (HoldsKey vBucket vKey) := by
  unfold HoldsKey
  infer_instance

/-- The slots of two keys cannot be told apart. -/
def SameSlot (vKey vKey' : Bytes) : Prop :=
  UInt16.ofNat vKey.length = UInt16.ofNat vKey'.length ∧ padded vKey = padded vKey'

theorem slotOf_state (cKey : SectorKey) : (slotOf cKey)[0]? = some cKey.nState := by
  have hFirst : FixedWidth.encode cKey.nState = [cKey.nState] := encode_uint8 _
  rw [slotOf, SectorKey.header, hFirst]
  rfl

theorem slotOf_length_part (cKey : SectorKey) :
    ((slotOf cKey).drop 1).take 2 = FixedWidth.encode cKey.nLength := rfl

theorem slotOf_key_part (cKey : SectorKey) : (slotOf cKey).drop 13 = padded cKey.vKey :=
  List.drop_left' (header_length cKey)

theorem slotOf_holds_iff {vKey vKey' : Bytes} {nSectorFile : UInt16}
    {nSectorStart nSectorSize : UInt32} :
    HoldsKey (slotOf (SectorKey.of vKey nSectorFile nSectorStart nSectorSize)) vKey' ↔
      SameSlot vKey vKey' := by
  rw [HoldsKey, slotOf_state, slotOf_length_part, slotOf_key_part]
  constructor
  · intro ⟨_, hLength, hKey⟩
    exact ⟨FixedWidth.encode_inj hLength, hKey⟩
  · intro ⟨hLength, hKey⟩
    exact ⟨rfl, congrArg _ hLength, hKey⟩

theorem not_holds_blank {vKey : Bytes} : ¬ HoldsKey blankSlot vKey := by
  intro h
  have hState : blankSlot[0]? = some 0 := rfl
  rw [HoldsKey, hState] at h
  cases h.1

theorem HoldsKey.matches {vBucket vKey : Bytes} (h : HoldsKey vBucket vKey) :
    BinaryHashMap.matchKey vBucket (vKeyCompressed vKey) = true := by
  rw [BinaryHashMap.matchKey, h.2.2, padded, List.take_left]
  exact beq_self_eq_true _

theorem ofHeader_slotOf (cKey : SectorKey) :
    SectorKey.ofHeader (slotOf cKey) cKey.vKey = cKey := by
  have hState : (slotOf cKey).take 1 = FixedWidth.encode cKey.nState := rfl
  have hLength : ((slotOf cKey).drop 1).take 2 = FixedWidth.encode cKey.nLength := rfl
  have hFile : ((slotOf cKey).drop 3).take 2 = FixedWidth.encode cKey.nSectorFile := rfl
  have hSize : ((slotOf cKey).drop 5).take 4 = FixedWidth.encode cKey.nSectorSize := rfl
  have hStart : ((slotOf cKey).drop 9).take 4 = FixedWidth.encode cKey.nSectorStart := rfl
  simp only [SectorKey.ofHeader, hState, hLength, hFile, hSize, hStart, FixedWidth.decode_encode]

/-! ## Columns -/

section Columns

variable {cfg : HashMapConfig} {map map' : BinaryHashMap} {nBucket : UInt32} {vKey : Bytes}
variable {n i : Nat}

/-- The newest slot of a key among the first ones. -/
def newest (map : BinaryHashMap) (nBucket : UInt32) (vKey : Bytes) : Nat → Option SectorKey
  | 0 => none
  | i + 1 =>
      if HoldsKey (map.vBucket nBucket i) vKey then
        some (SectorKey.ofHeader (map.vBucket nBucket i) vKey)
      else newest map nBucket vKey i

/-- The slots that match a key are empty or its own. -/
def Clear (map : BinaryHashMap) (nBucket : UInt32) (vKey : Bytes) : Prop :=
  ∀ i < map.nSlots nBucket,
    BinaryHashMap.matchKey (map.vBucket nBucket i) (vKeyCompressed vKey) = true →
    (map.vBucket nBucket i)[0]? = some STATE.EMPTY ∨ HoldsKey (map.vBucket nBucket i) vKey

theorem take_one_eq {vch : Bytes} {b : UInt8} (h : vch[0]? = some b) :
    (FixedWidth.decode (vch.take 1) : UInt8) = b := by
  cases vch with
  | nil => cases h
  | cons c vch =>
      cases h
      have hOne : (b :: vch).take 1 = FixedWidth.encode b := (encode_uint8 b).symm
      rw [hOne, FixedWidth.decode_encode]

/-- `Get` finds the newest slot of a key when no slot of another key matches. -/
theorem findKey_eq_newest (h : ∀ i < n,
      BinaryHashMap.matchKey (map.vBucket nBucket i) (vKeyCompressed vKey) = true →
      (map.vBucket nBucket i)[0]? = some STATE.EMPTY ∨ HoldsKey (map.vBucket nBucket i) vKey) :
    map.findKey nBucket vKey n = newest map nBucket vKey n := by
  induction n with
  | zero => rfl
  | succ n ih =>
      have hRest := ih fun i hLt => h i (Nat.lt_succ_of_lt hLt)
      rw [BinaryHashMap.findKey, newest, hRest]
      by_cases hHolds : HoldsKey (map.vBucket nBucket n) vKey
      · have hReady : (SectorKey.ofHeader (map.vBucket nBucket n) vKey).Ready :=
          take_one_eq hHolds.1
        rw [if_pos hHolds, if_pos hHolds.matches, if_pos hReady]
      · rw [if_neg hHolds]
        by_cases hMatch : BinaryHashMap.matchKey (map.vBucket nBucket n) (vKeyCompressed vKey) = true
        · have hEmpty := (h n (Nat.lt_succ_self n) hMatch).resolve_right hHolds
          have hNotReady : ¬ (SectorKey.ofHeader (map.vBucket nBucket n) vKey).Ready := by
            have hState : (SectorKey.ofHeader (map.vBucket nBucket n) vKey).nState = STATE.EMPTY :=
              take_one_eq hEmpty
            rw [SectorKey.Ready, hState]
            decide
          rw [if_pos hMatch, if_neg hNotReady]
        · rw [if_neg hMatch]

/-- The answer depends on the slots of the key only. -/
theorem newest_congr (h : ∀ i < n, map'.vBucket nBucket i = map.vBucket nBucket i ∨
      (¬ HoldsKey (map.vBucket nBucket i) vKey ∧ ¬ HoldsKey (map'.vBucket nBucket i) vKey)) :
    newest map' nBucket vKey n = newest map nBucket vKey n := by
  induction n with
  | zero => rfl
  | succ n ih =>
      have hRest := ih fun i hLt => h i (Nat.lt_succ_of_lt hLt)
      rw [newest, newest, hRest]
      rcases h n (Nat.lt_succ_self n) with hSame | ⟨hBefore, hAfter⟩
      · rw [hSame]
      · rw [if_neg hBefore, if_neg hAfter]

theorem newest_eq_none (h : ∀ i < n, ¬ HoldsKey (map.vBucket nBucket i) vKey) :
    newest map nBucket vKey n = none := by
  induction n with
  | zero => rfl
  | succ n ih =>
      rw [newest, if_neg (h n (Nat.lt_succ_self n))]
      exact ih fun i hLt => h i (Nat.lt_succ_of_lt hLt)

theorem newest_eq_some {cKey : SectorKey} (hLt : i < n) (hSlot : map.vBucket nBucket i = slotOf cKey)
    (hKey : cKey.vKey = vKey) (hHolds : HoldsKey (slotOf cKey) vKey)
    (hAbove : ∀ j, i < j → j < n → ¬ HoldsKey (map.vBucket nBucket j) vKey) :
    newest map nBucket vKey n = some cKey := by
  induction n with
  | zero => omega
  | succ n ih =>
      rw [newest]
      by_cases hTop : i = n
      · rw [← hTop, hSlot, if_pos hHolds, ← hKey, ofHeader_slotOf]
      · rw [if_neg (hAbove n (by omega) (Nat.lt_succ_self n))]
        exact ih (by omega) fun j hFrom hTo => hAbove j hFrom (Nat.lt_succ_of_lt hTo)

/-- The slot of a put is the newest that is empty or matches. -/
theorem putSlot_eq_some (h : map.putSlot nBucket vKey n = some i) :
    i < n ∧ ((map.vBucket nBucket i)[0]? = some STATE.EMPTY ∨
        BinaryHashMap.matchKey (map.vBucket nBucket i) (vKeyCompressed vKey) = true) ∧
      ∀ j, i < j → j < n →
        ¬ BinaryHashMap.matchKey (map.vBucket nBucket j) (vKeyCompressed vKey) = true := by
  induction n with
  | zero => cases h
  | succ n ih =>
      rw [BinaryHashMap.putSlot] at h
      by_cases hHere : (map.vBucket nBucket n)[0]? = some STATE.EMPTY ∨
          BinaryHashMap.matchKey (map.vBucket nBucket n) (vKeyCompressed vKey) = true
      · rw [if_pos hHere] at h
        cases h
        exact ⟨Nat.lt_succ_self _, hHere, fun j hFrom hTo => by omega⟩
      · rw [if_neg hHere] at h
        obtain ⟨hLt, hSlot, hAbove⟩ := ih h
        refine ⟨Nat.lt_succ_of_lt hLt, hSlot, fun j hFrom hTo => ?_⟩
        by_cases hTop : j = n
        · rw [hTop]
          exact fun hMatch => hHere (.inr hMatch)
        · exact hAbove j hFrom (by omega)

theorem putSlot_eq_none (h : map.putSlot nBucket vKey n = none) :
    ∀ j < n, ¬ ((map.vBucket nBucket j)[0]? = some STATE.EMPTY ∨
      BinaryHashMap.matchKey (map.vBucket nBucket j) (vKeyCompressed vKey) = true) := by
  induction n with
  | zero => exact fun j hLt => nomatch hLt
  | succ n ih =>
      rw [BinaryHashMap.putSlot] at h
      by_cases hHere : (map.vBucket nBucket n)[0]? = some STATE.EMPTY ∨
          BinaryHashMap.matchKey (map.vBucket nBucket n) (vKeyCompressed vKey) = true
      · rw [if_pos hHere] at h
        cases h
      · rw [if_neg hHere] at h
        intro j hTo
        by_cases hTop : j = n
        · rw [hTop]
          exact hHere
        · exact ih h j (by omega)

/-- The slot of an erasure is the newest that matches. -/
theorem eraseSlot_eq_some (h : map.eraseSlot nBucket vKey n = some i) :
    i < n ∧ BinaryHashMap.matchKey (map.vBucket nBucket i) (vKeyCompressed vKey) = true ∧
      ∀ j, i < j → j < n →
        ¬ BinaryHashMap.matchKey (map.vBucket nBucket j) (vKeyCompressed vKey) = true := by
  induction n with
  | zero => cases h
  | succ n ih =>
      rw [BinaryHashMap.eraseSlot] at h
      by_cases hHere : BinaryHashMap.matchKey (map.vBucket nBucket n) (vKeyCompressed vKey) = true
      · rw [if_pos hHere] at h
        cases h
        exact ⟨Nat.lt_succ_self _, hHere, fun j hFrom hTo => by omega⟩
      · rw [if_neg hHere] at h
        obtain ⟨hLt, hSlot, hAbove⟩ := ih h
        refine ⟨Nat.lt_succ_of_lt hLt, hSlot, fun j hFrom hTo => ?_⟩
        by_cases hTop : j = n
        · rw [hTop]
          exact hHere
        · exact hAbove j hFrom (by omega)

theorem eraseSlot_eq_none (h : map.eraseSlot nBucket vKey n = none) :
    ∀ j < n, ¬ BinaryHashMap.matchKey (map.vBucket nBucket j) (vKeyCompressed vKey) = true := by
  induction n with
  | zero => exact fun j hLt => nomatch hLt
  | succ n ih =>
      rw [BinaryHashMap.eraseSlot] at h
      by_cases hHere : BinaryHashMap.matchKey (map.vBucket nBucket n) (vKeyCompressed vKey) = true
      · rw [if_pos hHere] at h
        cases h
      · rw [if_neg hHere] at h
        intro j hTo
        by_cases hTop : j = n
        · rw [hTop]
          exact hHere
        · exact ih h j (by omega)

end Columns

theorem foldHalf_length (vData : Bytes) : (foldHalf vData).length = vData.length := by
  unfold foldHalf
  generalize List.range (vData.length / 2) = is
  induction is generalizing vData with
  | nil => rfl
  | cons i is ih =>
      rw [List.foldl_cons, ih, List.length_set]

theorem CompressKey_length {vData : Bytes} {nSize : Nat} :
    (CompressKey vData nSize).length = min vData.length nSize := by
  fun_induction CompressKey vData nSize with
  | case1 vData h _ ih =>
      rw [ih, List.length_take, foldHalf_length]
      have hMod := Nat.mod_le (vData.length / 2) (2 ^ 16)
      omega
  | case2 vData h => omega

/-- Keys of fewer than `2 ^ 16` bytes share a slot only if their compressed forms are the same. -/
theorem SameSlot.compressed {vKey vKey' : Bytes} (h : SameSlot vKey vKey')
    (hShort : vKey.length < 2 ^ 16) (hShort' : vKey'.length < 2 ^ 16) :
    vKeyCompressed vKey = vKeyCompressed vKey' := by
  have hLength : vKey.length = vKey'.length := by
    have hNat := congrArg UInt16.toNat h.1
    rw [UInt16.toNat_ofNat', UInt16.toNat_ofNat'] at hNat
    omega
  refine (List.append_inj h.2 ?_).1
  rw [vKeyCompressed, vKeyCompressed, CompressKey_length, CompressKey_length, hLength]

/-! ## Places on disk -/

/-- The buckets have places of their own in a file. -/
def Placed (cfg : HashMapConfig) : Prop :=
  0 < cfg.HASHMAP_TOTAL_BUCKETS.toNat ∧
    cfg.HASHMAP_TOTAL_BUCKETS.toNat * HASHMAP_KEY_ALLOCATION ≤ 2 ^ 32

section Places

variable {cfg : HashMapConfig} {map : BinaryHashMap} {nBucket nOther : UInt32} {vKey vch : Bytes}
variable {i j : Nat}

theorem GetBucket_lt (h : Placed cfg) (vKey : Bytes) :
    (BinaryHashMap.GetBucket cfg vKey).toNat < cfg.HASHMAP_TOTAL_BUCKETS.toNat := by
  have hPos := h.1
  have hWidth := cfg.HASHMAP_TOTAL_BUCKETS.toNat_lt
  have hMod := Nat.mod_lt (cfg.XXH64 vKey / 7).toNat hPos
  rw [BinaryHashMap.GetBucket, UInt64.toNat_toUInt32, UInt64.toNat_mod, UInt32.toNat_toUInt64,
    Nat.mod_eq_of_lt (by omega)]
  exact hMod

theorem nFilePos_toNat (h : Placed cfg) (hLt : nBucket.toNat < cfg.HASHMAP_TOTAL_BUCKETS.toNat) :
    (BinaryHashMap.nFilePos nBucket).toNat = nBucket.toNat * 45 := by
  have hPlaced : cfg.HASHMAP_TOTAL_BUCKETS.toNat * 45 ≤ 2 ^ 32 := h.2
  have hSize : (UInt32.ofNat HASHMAP_KEY_ALLOCATION).toNat = 45 := rfl
  rw [BinaryHashMap.nFilePos, UInt32.toNat_mul, hSize, Nat.mod_eq_of_lt (by omega)]

/-- A write into a slot changes no other slot. -/
theorem vBucket_writeSlot_other (h : Placed cfg)
    (hLt : nBucket.toNat < cfg.HASHMAP_TOTAL_BUCKETS.toNat)
    (hLt' : nOther.toNat < cfg.HASHMAP_TOTAL_BUCKETS.toNat) (hLength : vch.length ≤ 45)
    (hOther : nOther ≠ nBucket ∨ j ≠ i) :
    (map.writeSlot nBucket i vch).vBucket nOther j = map.vBucket nOther j := by
  by_cases hFile : j = i
  · have hNe : nOther.toNat ≠ nBucket.toNat := by
      intro hEq
      exact hOther.elim (fun hNe => hNe (UInt32.toNat_inj.mp hEq)) (fun hNe => hNe hFile)
    rw [BinaryHashMap.vBucket, BinaryHashMap.vBucket, BinaryHashMap.writeSlot, hFile]
    simp only [Function.update_self]
    rw [nFilePos_toNat h hLt, nFilePos_toNat h hLt']
    apply readAt_writeAt_apart
    have hAllocation : HASHMAP_KEY_ALLOCATION = 45 := rfl
    rw [hAllocation]
    omega
  · rw [BinaryHashMap.vBucket, BinaryHashMap.vBucket, BinaryHashMap.writeSlot]
    simp only [Function.update_of_ne hFile]

theorem vBucket_writeSlot_same (hLength : vch.length ≤ 45) :
    (map.writeSlot nBucket i vch).vBucket nBucket i =
      vch ++ (map.vBucket nBucket i).drop vch.length := by
  rw [BinaryHashMap.vBucket, BinaryHashMap.vBucket, BinaryHashMap.writeSlot]
  simp only [Function.update_self]
  exact readAt_writeAt_same hLength

theorem vBucket_length : (map.vBucket nBucket i).length = 45 := readAt_length

/-- A put fills the slot of a blank or of its own key. -/
theorem vBucket_put {cKey : SectorKey} (hSlot : map.vBucket nBucket i = blankSlot ∨
      (map.vBucket nBucket i).drop 13 = padded cKey.vKey) :
    (map.writeSlot nBucket i (cKey.header ++ vKeyCompressed cKey.vKey)).vBucket nBucket i =
      slotOf cKey := by
  have hLe := vKeyCompressed_length_le cKey.vKey
  have hLength : (cKey.header ++ vKeyCompressed cKey.vKey).length =
      13 + (vKeyCompressed cKey.vKey).length := by
    rw [List.length_append, header_length]
  rw [vBucket_writeSlot_same (by omega), hLength, slotOf, padded, List.append_assoc]
  congr 2
  rcases hSlot with hBlank | hOwn
  · rw [hBlank, blankSlot, List.drop_replicate]
    congr 1
    have hAllocation : HASHMAP_KEY_ALLOCATION = 45 := rfl
    omega
  · rw [← List.drop_drop, hOwn, padded, List.drop_left]

theorem vBucket_erase :
    (map.writeSlot nBucket i (List.replicate HASHMAP_KEY_ALLOCATION 0)).vBucket nBucket i =
      blankSlot := by
  have hLength : (List.replicate HASHMAP_KEY_ALLOCATION (0 : UInt8)).length = 45 :=
    List.length_replicate
  rw [vBucket_writeSlot_same (by omega), hLength, List.drop_eq_nil_of_le (by rw [vBucket_length]),
    List.append_nil]
  rfl

end Places

/-! ## Runs -/

/-- The calls of a map. -/
inductive MapCall where
  | put (vKey : Bytes) (nSectorFile : UInt16) (nSectorStart nSectorSize : UInt32)
  | erase (vKey : Bytes)
  | get (vKey : Bytes)
  | reopen
  deriving DecidableEq, Repr

namespace MapCall

/-- The keys of a call. -/
def keys : MapCall → List Bytes
  | put vKey _ _ _ => [vKey]
  | erase vKey => [vKey]
  | get vKey => [vKey]
  | reopen => []

/-- A call on the disk hash map. -/
def apply (cfg : HashMapConfig) (map : BinaryHashMap) : MapCall → BinaryHashMap
  | put vKey nSectorFile nSectorStart nSectorSize =>
      map.Put cfg (SectorKey.of vKey nSectorFile nSectorStart nSectorSize)
  | erase vKey => (map.Erase cfg vKey).2
  | get _ => map
  | reopen => map.Initialize cfg

/-- A call on the map that is meant. -/
def spec (m : Bytes → Option SectorKey) : MapCall → Bytes → Option SectorKey
  | put vKey nSectorFile nSectorStart nSectorSize =>
      Function.update m vKey (some (SectorKey.of vKey nSectorFile nSectorStart nSectorSize))
  | erase vKey => Function.update m vKey none
  | get _ => m
  | reopen => m

/-- The slots of a key that is erased: a ready one is the only one, and the newest that
matches. -/
def Alone (map : BinaryHashMap) (nBucket : UInt32) (vKey : Bytes) : Prop :=
  ∀ i < map.nSlots nBucket, HoldsKey (map.vBucket nBucket i) vKey → ∀ j < map.nSlots nBucket, j ≠ i →
    ¬ HoldsKey (map.vBucket nBucket j) vKey ∧
      (i < j → ¬ BinaryHashMap.matchKey (map.vBucket nBucket j) (vKeyCompressed vKey) = true)

/-- The bucket has an empty slot, one that matches, or room for another. -/
def Roomy (map : BinaryHashMap) (nBucket : UInt32) (vKey : Bytes) : Prop :=
  (map.hashmap nBucket.toNat).toNat < 2 ^ 15 ∨
    ∃ i < map.nSlots nBucket, (map.vBucket nBucket i)[0]? = some STATE.EMPTY ∨
      BinaryHashMap.matchKey (map.vBucket nBucket i) (vKeyCompressed vKey) = true

/-- The call finds slots of its own key only. -/
def Sound (cfg : HashMapConfig) (map : BinaryHashMap) : MapCall → Prop
  | put vKey _ _ _ =>
      Clear map (BinaryHashMap.GetBucket cfg vKey) vKey ∧
        Roomy map (BinaryHashMap.GetBucket cfg vKey) vKey
  | erase vKey =>
      Clear map (BinaryHashMap.GetBucket cfg vKey) vKey ∧
        Alone map (BinaryHashMap.GetBucket cfg vKey) vKey
  | get _ => True
  | reopen => True

end MapCall

/-- The entry of the most recent put of a key that was not erased since. -/
def lastPut (cs : List MapCall) : Bytes → Option SectorKey :=
  cs.foldl MapCall.spec fun _ => none

/-- The maps that sound calls lead to. -/
inductive MapRun (cfg : HashMapConfig) : List MapCall → BinaryHashMap → Prop
  | start : MapRun cfg [] {}
  | step {cs : List MapCall} {map : BinaryHashMap} {c : MapCall} :
      MapRun cfg cs map → c.Sound cfg map → MapRun cfg (cs ++ [c]) (c.apply cfg map)

/-- Keys of which no two share a slot. -/
def DistinctKeys (Key : Bytes → Prop) : Prop :=
  ∀ vKey vKey', Key vKey → Key vKey' → SameSlot vKey vKey' → vKey = vKey'

/-- The slots of a map answer for its keys. -/
structure Answers (cfg : HashMapConfig) (Key : Bytes → Prop) (map : BinaryHashMap)
    (m : Bytes → Option SectorKey) : Prop where
  sizes : ∀ n, n < cfg.HASHMAP_TOTAL_BUCKETS.toNat → (map.hashmap n).toNat ≤ 2 ^ 15
  loaded : ∀ n, (map.Initialize cfg).hashmap n = map.hashmap n
  blank : ∀ (nBucket : UInt32) i, nBucket.toNat < cfg.HASHMAP_TOTAL_BUCKETS.toNat →
    (map.hashmap nBucket.toNat).toNat ≤ i → map.vBucket nBucket i = blankSlot
  filled : ∀ (nBucket : UInt32) i, nBucket.toNat < cfg.HASHMAP_TOTAL_BUCKETS.toNat →
    map.vBucket nBucket i = blankSlot ∨ (map.vBucket nBucket i)[0]? = some STATE.READY
  value : ∀ vKey, Key vKey →
    newest map (BinaryHashMap.GetBucket cfg vKey) vKey
      (map.nSlots (BinaryHashMap.GetBucket cfg vKey)) = m vKey

section Steps

variable {cfg : HashMapConfig} {Key : Bytes → Prop} {map : BinaryHashMap}
variable {m : Bytes → Option SectorKey} {vKey vKey' : Bytes} {nBucket : UInt32} {i : Nat}

theorem HoldsKey.same {vBucket : Bytes} (h : HoldsKey vBucket vKey) (h' : HoldsKey vBucket vKey') :
    SameSlot vKey vKey' := by
  refine ⟨FixedWidth.encode_inj ?_, ?_⟩
  · rw [← h.2.1, ← h'.2.1]
  · rw [← h.2.2, ← h'.2.2]

theorem Answers.slots (h : Answers cfg Key map m)
    (hLt : nBucket.toNat < cfg.HASHMAP_TOTAL_BUCKETS.toNat) :
    map.nSlots nBucket = (map.hashmap nBucket.toNat).toNat :=
  if_pos (h.sizes _ hLt)

/-- A slot that is empty or holds another key is none of this key. -/
theorem not_holds_other (hDistinct : DistinctKeys Key) (hKey : Key vKey) (hKey' : Key vKey')
    (hNe : vKey' ≠ vKey) {vBucket : Bytes}
    (h : vBucket[0]? = some STATE.EMPTY ∨ HoldsKey vBucket vKey) : ¬ HoldsKey vBucket vKey' := by
  intro hHolds
  rcases h with hEmpty | hOwn
  · rw [hHolds.1] at hEmpty
    cases hEmpty
  · exact hNe (hDistinct vKey' vKey hKey' hKey (hHolds.same hOwn))

theorem blankSlot_state : blankSlot[0]? = some STATE.EMPTY := rfl

/-- The map without keys. -/
theorem Answers.start (Key : Bytes → Prop) : Answers cfg Key {} fun _ => none := by
  have hBlank : ∀ (nBucket : UInt32) i,
      ({} : BinaryHashMap).vBucket nBucket i = blankSlot := by
    intro nBucket i
    apply List.ext_getElem?
    intro n
    by_cases hSize : n < HASHMAP_KEY_ALLOCATION
    · rw [BinaryHashMap.vBucket, readAt_getElem? hSize, blankSlot, List.getElem?_replicate,
        if_pos hSize]
    · rw [List.getElem?_eq_none (by rw [BinaryHashMap.vBucket, readAt_length]; omega),
        List.getElem?_eq_none (by rw [blankSlot, List.length_replicate]; omega)]
  exact
    { sizes := fun n _ => Nat.zero_le _
      loaded := by
        intro n
        simp only [BinaryHashMap.Initialize]
        split <;> rfl
      blank := fun nBucket i _ _ => hBlank nBucket i
      filled := fun nBucket i _ => .inl (hBlank nBucket i)
      value := fun vKey _ => rfl }

/-- Where a slot is rewritten for a key, the answers of the other keys stay. -/
theorem newest_rewrite {map' : BinaryHashMap} {n : Nat} {vNew : Bytes}
    (hDistinct : DistinctKeys Key) (hKey : Key vKey) (hKey' : Key vKey') (hNe : vKey' ≠ vKey)
    (hOld : (map.vBucket nBucket i)[0]? = some STATE.EMPTY ∨ HoldsKey (map.vBucket nBucket i) vKey)
    (hNew : vNew[0]? = some STATE.EMPTY ∨ HoldsKey vNew vKey)
    (hHere : map'.vBucket nBucket i = vNew)
    (hThere : ∀ j, j ≠ i → map'.vBucket nBucket j = map.vBucket nBucket j) :
    newest map' nBucket vKey' n = newest map nBucket vKey' n := by
  apply newest_congr
  intro j _
  by_cases hSlot : j = i
  · rw [hSlot, hHere]
    exact .inr ⟨not_holds_other hDistinct hKey hKey' hNe hOld,
      not_holds_other hDistinct hKey hKey' hNe hNew⟩
  · exact .inl (hThere j hSlot)

theorem slotOf_holds {nSectorFile : UInt16} {nSectorStart nSectorSize : UInt32} :
    HoldsKey (slotOf (SectorKey.of vKey nSectorFile nSectorStart nSectorSize)) vKey :=
  slotOf_holds_iff.mpr ⟨rfl, rfl⟩

theorem encode_word_length (n : UInt16) : (FixedWidth.encode n).length = 2 := rfl

/-- A slot is rewritten for its key or from empty: the answer of the key is that of the new
slots, the other answers stay. -/
theorem Answers.rewrite {map' : BinaryHashMap} {vNew : Bytes} {o : Option SectorKey}
    (hPlaced : Placed cfg) (hDistinct : DistinctKeys Key) (h : Answers cfg Key map m)
    (hKey : Key vKey) (hLt : i < map.nSlots (BinaryHashMap.GetBucket cfg vKey))
    (hSizes : map'.hashmap = map.hashmap) (hIndex : map'.index = map.index)
    (hHere : map'.vBucket (BinaryHashMap.GetBucket cfg vKey) i = vNew)
    (hOther : ∀ (nOther : UInt32) j, nOther.toNat < cfg.HASHMAP_TOTAL_BUCKETS.toNat →
      nOther ≠ BinaryHashMap.GetBucket cfg vKey ∨ j ≠ i →
        map'.vBucket nOther j = map.vBucket nOther j)
    (hOld : (map.vBucket (BinaryHashMap.GetBucket cfg vKey) i)[0]? = some STATE.EMPTY ∨
      HoldsKey (map.vBucket (BinaryHashMap.GetBucket cfg vKey) i) vKey)
    (hNew : vNew = blankSlot ∨ HoldsKey vNew vKey)
    (hValue : newest map' (BinaryHashMap.GetBucket cfg vKey) vKey
      (map.nSlots (BinaryHashMap.GetBucket cfg vKey)) = o) :
    Answers cfg Key map' (Function.update m vKey o) := by
  have hBucket := GetBucket_lt hPlaced vKey
  have hSlotsHere := h.slots hBucket
  have hSlots : ∀ nOther, map'.nSlots nOther = map.nSlots nOther := by
    intro nOther
    rw [BinaryHashMap.nSlots, BinaryHashMap.nSlots, hSizes]
  exact
    { sizes := by
        rw [hSizes]
        exact h.sizes
      loaded := by
        intro n
        rw [hSizes, ← h.loaded n]
        simp only [BinaryHashMap.Initialize, hIndex]
      blank := by
        intro nOther j hLt' hFrom
        rw [hSizes] at hFrom
        rw [hOther nOther j hLt']
        · exact h.blank nOther j hLt' hFrom
        · by_cases hSame : nOther = BinaryHashMap.GetBucket cfg vKey
          · rw [hSame] at hFrom
            exact .inr (by omega)
          · exact .inl hSame
      filled := by
        intro nOther j hLt'
        by_cases hSame : nOther = BinaryHashMap.GetBucket cfg vKey ∧ j = i
        · rw [hSame.1, hSame.2, hHere]
          exact hNew.imp_right fun hOwn => hOwn.1
        · rw [hOther nOther j hLt' (by tauto)]
          exact h.filled nOther j hLt'
      value := by
        intro vKey' hKey'
        have hBucket' := GetBucket_lt hPlaced vKey'
        rw [hSlots]
        by_cases hSame : vKey' = vKey
        · rw [hSame, Function.update_self]
          exact hValue
        · rw [Function.update_of_ne hSame, ← h.value vKey' hKey']
          by_cases hColumn :
              BinaryHashMap.GetBucket cfg vKey' = BinaryHashMap.GetBucket cfg vKey
          · rw [hColumn]
            exact newest_rewrite hDistinct hKey hKey' hSame hOld
              (hNew.imp_left fun hBlank => hBlank ▸ blankSlot_state) hHere
              fun j hNe => hOther _ j hBucket (.inr hNe)
          · exact newest_congr fun j _ => .inl (hOther _ j hBucket' (.inl hColumn)) }

theorem put_length {nSectorFile : UInt16} {nSectorStart nSectorSize : UInt32} :
    ((SectorKey.of vKey nSectorFile nSectorStart nSectorSize).header ++
      vKeyCompressed vKey).length ≤ 45 := by
  have hLe := vKeyCompressed_length_le vKey
  rw [List.length_append, header_length]
  omega

/-- An empty slot of a map is blank. -/
theorem Answers.blank_of_empty (h : Answers cfg Key map m)
    (hLt : nBucket.toNat < cfg.HASHMAP_TOTAL_BUCKETS.toNat)
    (hEmpty : (map.vBucket nBucket i)[0]? = some STATE.EMPTY) :
    map.vBucket nBucket i = blankSlot := by
  refine (h.filled nBucket i hLt).resolve_right ?_
  rw [hEmpty]
  intro hState
  cases hState

/-- A put into a slot that is there. -/
theorem Answers.put_slot {nSectorFile : UInt16} {nSectorStart nSectorSize : UInt32}
    (hPlaced : Placed cfg) (hDistinct : DistinctKeys Key) (h : Answers cfg Key map m)
    (hKey : Key vKey) (hClear : Clear map (BinaryHashMap.GetBucket cfg vKey) vKey)
    (hSlot : map.putSlot (BinaryHashMap.GetBucket cfg vKey) vKey
      (map.nSlots (BinaryHashMap.GetBucket cfg vKey)) = some i) :
    Answers cfg Key (map.writeSlot (BinaryHashMap.GetBucket cfg vKey) i
      ((SectorKey.of vKey nSectorFile nSectorStart nSectorSize).header ++ vKeyCompressed vKey))
      (Function.update m vKey
        (some (SectorKey.of vKey nSectorFile nSectorStart nSectorSize))) := by
  have hBucket := GetBucket_lt hPlaced vKey
  obtain ⟨hLt, hTaken, hAbove⟩ := putSlot_eq_some hSlot
  have hOld := hTaken.elim .inl (hClear i hLt)
  have hHere := @vBucket_put map (BinaryHashMap.GetBucket cfg vKey) i
    (SectorKey.of vKey nSectorFile nSectorStart nSectorSize) (hOld.imp (h.blank_of_empty hBucket) fun hOwn => hOwn.2.2)
  refine h.rewrite hPlaced hDistinct hKey hLt rfl rfl hHere
    (fun nOther j hLt' => vBucket_writeSlot_other hPlaced hBucket hLt' put_length) hOld
    (.inr slotOf_holds) ?_
  refine newest_eq_some hLt hHere rfl slotOf_holds fun j hFrom hTo hHolds => ?_
  rw [vBucket_writeSlot_other hPlaced hBucket hBucket put_length (.inr (by omega))] at hHolds
  exact hAbove j hFrom hTo hHolds.matches

/-- An erasure. -/
theorem Answers.erase (hPlaced : Placed cfg) (hDistinct : DistinctKeys Key)
    (h : Answers cfg Key map m) (hKey : Key vKey)
    (hClear : Clear map (BinaryHashMap.GetBucket cfg vKey) vKey)
    (hAlone : MapCall.Alone map (BinaryHashMap.GetBucket cfg vKey) vKey) :
    Answers cfg Key (map.Erase cfg vKey).2 (Function.update m vKey none) := by
  have hBucket := GetBucket_lt hPlaced vKey
  unfold BinaryHashMap.Erase
  simp only
  cases hSlot : map.eraseSlot (BinaryHashMap.GetBucket cfg vKey) vKey
      (map.nSlots (BinaryHashMap.GetBucket cfg vKey)) with
  | none =>
      have hAbsent := newest_eq_none (n := map.nSlots (BinaryHashMap.GetBucket cfg vKey))
        fun j hTo hHolds => eraseSlot_eq_none hSlot j hTo (HoldsKey.matches hHolds)
      rw [h.value vKey hKey] at hAbsent
      simp only
      rw [← hAbsent, Function.update_eq_self]
      exact h
  | some i =>
      obtain ⟨hLt, hMatch, hAbove⟩ := eraseSlot_eq_some hSlot
      have hLength : (List.replicate HASHMAP_KEY_ALLOCATION (0 : UInt8)).length ≤ 45 :=
        le_of_eq List.length_replicate
      refine h.rewrite hPlaced hDistinct hKey hLt rfl rfl vBucket_erase
        (fun nOther j hLt' => vBucket_writeSlot_other hPlaced hBucket hLt' hLength)
        (hClear i hLt hMatch) (.inl rfl) ?_
      apply newest_eq_none
      intro j hTo hHolds
      by_cases hSame : j = i
      · rw [hSame, vBucket_erase] at hHolds
        exact not_holds_blank hHolds
      · rw [vBucket_writeSlot_other hPlaced hBucket hBucket hLength (.inr hSame)] at hHolds
        -- a slot of the key that is not erased stands alone, so that the erased one, which
        -- matches, is neither above it nor, being the newest, below
        obtain ⟨_, hBelow⟩ := hAlone j hTo hHolds i hLt (Ne.symm hSame)
        by_cases hOrder : j < i
        · exact hBelow hOrder hMatch
        · exact hAbove j (by omega) hTo hHolds.matches

/-- The place of a bucket in the index file. -/
theorem index_toNat (hPlaced : Placed cfg)
    (hLt : nBucket.toNat < cfg.HASHMAP_TOTAL_BUCKETS.toNat) :
    (nBucket * 2).toNat = 2 * nBucket.toNat := by
  have hWidth : cfg.HASHMAP_TOTAL_BUCKETS.toNat * 45 ≤ 2 ^ 32 := hPlaced.2
  have hTwo : (2 : UInt32).toNat = 2 := rfl
  rw [UInt32.toNat_mul, hTwo, Nat.mod_eq_of_lt (by omega), Nat.mul_comm]

/-- The index file keeps the size of a bucket that grows, and those of the others. -/
theorem Answers.loaded_grow (hPlaced : Placed cfg) (h : Answers cfg Key map m)
    (hLt : nBucket.toNat < cfg.HASHMAP_TOTAL_BUCKETS.toNat) {nIndex : UInt16} {n : Nat} :
    ((BinaryHashMap.Initialize cfg
        { map with
          hashmap := Function.update map.hashmap nBucket.toNat nIndex
          index := writeAt map.index (nBucket * 2).toNat (FixedWidth.encode nIndex) }).hashmap n) =
      Function.update map.hashmap nBucket.toNat nIndex n := by
  have hLoaded := h.loaded n
  have hWidth := cfg.HASHMAP_TOTAL_BUCKETS.toNat_lt
  have hLength := encode_word_length nIndex
  simp only [BinaryHashMap.Initialize] at hLoaded ⊢
  by_cases hSame : n = nBucket.toNat
  · rw [hSame, if_pos hLt, Function.update_self, UInt32.ofNat_toNat,
      readAt_writeAt_same (le_of_eq hLength), hLength,
      List.drop_eq_nil_of_le (le_of_eq readAt_length), List.append_nil, FixedWidth.decode_encode]
  · rw [Function.update_of_ne hSame, ← hLoaded]
    by_cases hIn : n < cfg.HASHMAP_TOTAL_BUCKETS.toNat
    · have hNat : (UInt32.ofNat n).toNat = n := by
        rw [UInt32.toNat_ofNat']
        exact Nat.mod_eq_of_lt (by omega)
      rw [if_pos hIn, if_pos hIn, readAt_writeAt_apart]
      rw [index_toNat hPlaced (by rw [hNat]; exact hIn), index_toNat hPlaced hLt, hNat, hLength]
      omega
    · rw [if_neg hIn, if_neg hIn]

/-- A put into a new slot. -/
theorem Answers.put_new {nSectorFile : UInt16} {nSectorStart nSectorSize : UInt32}
    (hPlaced : Placed cfg) (hDistinct : DistinctKeys Key) (h : Answers cfg Key map m)
    (hKey : Key vKey)
    (hSlot : map.putSlot (BinaryHashMap.GetBucket cfg vKey) vKey
      (map.nSlots (BinaryHashMap.GetBucket cfg vKey)) = none)
    (hRoom : (map.hashmap (BinaryHashMap.GetBucket cfg vKey).toNat).toNat < 2 ^ 15) :
    Answers cfg Key (map.Put cfg (SectorKey.of vKey nSectorFile nSectorStart nSectorSize))
      (Function.update m vKey
        (some (SectorKey.of vKey nSectorFile nSectorStart nSectorSize))) := by
  have hBucket := GetBucket_lt hPlaced vKey
  have hSlotsHere := h.slots hBucket
  have hPut : map.Put cfg (SectorKey.of vKey nSectorFile nSectorStart nSectorSize) =
      { map.writeSlot (BinaryHashMap.GetBucket cfg vKey)
          (map.hashmap (BinaryHashMap.GetBucket cfg vKey).toNat).toNat
          ((SectorKey.of vKey nSectorFile nSectorStart nSectorSize).header ++
            vKeyCompressed vKey) with
        hashmap := Function.update map.hashmap (BinaryHashMap.GetBucket cfg vKey).toNat
          (map.hashmap (BinaryHashMap.GetBucket cfg vKey).toNat + 1)
        index := writeAt map.index (BinaryHashMap.GetBucket cfg vKey * 2).toNat
          (FixedWidth.encode (map.hashmap (BinaryHashMap.GetBucket cfg vKey).toNat + 1)) } := by
    unfold BinaryHashMap.Put
    simp only [SectorKey.of] at hSlot ⊢
    rw [hSlot]
    rfl
  have hHere := @vBucket_put map (BinaryHashMap.GetBucket cfg vKey) _
    (SectorKey.of vKey nSectorFile nSectorStart nSectorSize) (.inl (h.blank _ _ hBucket (Nat.le_refl _)))
  have hGrown : (map.hashmap (BinaryHashMap.GetBucket cfg vKey).toNat + 1).toNat =
      (map.hashmap (BinaryHashMap.GetBucket cfg vKey).toNat).toNat + 1 := by
    have hOne : (1 : UInt16).toNat = 1 := rfl
    rw [UInt16.toNat_add, hOne]
    omega
  have hOther : ∀ (nOther : UInt32) j, nOther.toNat < cfg.HASHMAP_TOTAL_BUCKETS.toNat →
      nOther ≠ BinaryHashMap.GetBucket cfg vKey ∨
        j ≠ (map.hashmap (BinaryHashMap.GetBucket cfg vKey).toNat).toNat →
      (map.Put cfg (SectorKey.of vKey nSectorFile nSectorStart nSectorSize)).vBucket nOther j =
        map.vBucket nOther j := by
    intro nOther j hLt' hEither
    rw [hPut]
    exact vBucket_writeSlot_other hPlaced hBucket hLt' put_length hEither
  have hSizes : (map.Put cfg (SectorKey.of vKey nSectorFile nSectorStart nSectorSize)).hashmap =
      Function.update map.hashmap (BinaryHashMap.GetBucket cfg vKey).toNat
        (map.hashmap (BinaryHashMap.GetBucket cfg vKey).toNat + 1) := by
    rw [hPut]
  have hSlots : ∀ nOther : UInt32, nOther ≠ BinaryHashMap.GetBucket cfg vKey →
      (map.Put cfg (SectorKey.of vKey nSectorFile nSectorStart nSectorSize)).nSlots nOther =
        map.nSlots nOther := by
    intro nOther hNe
    have hNat : nOther.toNat ≠ (BinaryHashMap.GetBucket cfg vKey).toNat :=
      fun hEq => hNe (UInt32.toNat_inj.mp hEq)
    rw [BinaryHashMap.nSlots, BinaryHashMap.nSlots, hSizes, Function.update_of_ne hNat]
  have hSlots' : (map.Put cfg
      (SectorKey.of vKey nSectorFile nSectorStart nSectorSize)).nSlots
        (BinaryHashMap.GetBucket cfg vKey) =
      (map.hashmap (BinaryHashMap.GetBucket cfg vKey).toNat).toNat + 1 := by
    rw [BinaryHashMap.nSlots, hSizes, Function.update_self, hGrown, if_pos (by omega)]
  have hTop : (map.Put cfg (SectorKey.of vKey nSectorFile nSectorStart nSectorSize)).vBucket
      (BinaryHashMap.GetBucket cfg vKey)
      (map.hashmap (BinaryHashMap.GetBucket cfg vKey).toNat).toNat =
      slotOf (SectorKey.of vKey nSectorFile nSectorStart nSectorSize) := by
    rw [hPut]
    exact hHere
  exact
    { sizes := by
        intro n hLt'
        rw [hSizes]
        by_cases hSame : n = (BinaryHashMap.GetBucket cfg vKey).toNat
        · rw [hSame, Function.update_self, hGrown]
          omega
        · rw [Function.update_of_ne hSame]
          exact h.sizes n hLt'
      loaded := by
        intro n
        rw [hPut]
        exact h.loaded_grow hPlaced hBucket
      blank := by
        intro nOther j hLt' hFrom
        rw [hSizes] at hFrom
        by_cases hSame : nOther = BinaryHashMap.GetBucket cfg vKey
        · rw [hSame, Function.update_self, hGrown] at hFrom
          rw [hSame, hOther _ j hBucket (.inr (by omega))]
          exact h.blank _ j hBucket (by omega)
        · have hNat : nOther.toNat ≠ (BinaryHashMap.GetBucket cfg vKey).toNat :=
            fun hEq => hSame (UInt32.toNat_inj.mp hEq)
          rw [Function.update_of_ne hNat] at hFrom
          rw [hOther nOther j hLt' (.inl hSame)]
          exact h.blank nOther j hLt' hFrom
      filled := by
        intro nOther j hLt'
        by_cases hSame : nOther = BinaryHashMap.GetBucket cfg vKey ∧
            j = (map.hashmap (BinaryHashMap.GetBucket cfg vKey).toNat).toNat
        · rw [hSame.1, hSame.2, hTop]
          exact .inr (slotOf_state _)
        · rw [hOther nOther j hLt' (by tauto)]
          exact h.filled nOther j hLt'
      value := by
        intro vKey' hKey'
        have hBucket' := GetBucket_lt hPlaced vKey'
        by_cases hSame : vKey' = vKey
        · rw [hSame, Function.update_self, hSlots']
          exact newest_eq_some (Nat.lt_succ_self _) hTop rfl slotOf_holds
            fun j hFrom hTo => by omega
        · rw [Function.update_of_ne hSame, ← h.value vKey' hKey']
          by_cases hColumn :
              BinaryHashMap.GetBucket cfg vKey' = BinaryHashMap.GetBucket cfg vKey
          · have hNew := not_holds_other hDistinct hKey hKey' hSame
              (.inr (@slotOf_holds vKey nSectorFile nSectorStart nSectorSize))
            rw [hColumn, hSlots', hSlotsHere, newest, hTop, if_neg hNew]
            exact newest_congr fun j hTo => .inl (hOther _ j hBucket (.inr (by omega)))
          · rw [hSlots _ hColumn]
            exact newest_congr fun j _ => .inl (hOther _ j hBucket' (.inl hColumn)) }

theorem Answers.put {nSectorFile : UInt16} {nSectorStart nSectorSize : UInt32}
    (hPlaced : Placed cfg) (hDistinct : DistinctKeys Key) (h : Answers cfg Key map m)
    (hKey : Key vKey) (hClear : Clear map (BinaryHashMap.GetBucket cfg vKey) vKey)
    (hRoomy : MapCall.Roomy map (BinaryHashMap.GetBucket cfg vKey) vKey) :
    Answers cfg Key (map.Put cfg (SectorKey.of vKey nSectorFile nSectorStart nSectorSize))
      (Function.update m vKey
        (some (SectorKey.of vKey nSectorFile nSectorStart nSectorSize))) := by
  cases hSlot : map.putSlot (BinaryHashMap.GetBucket cfg vKey) vKey
      (map.nSlots (BinaryHashMap.GetBucket cfg vKey)) with
  | none =>
      refine h.put_new hPlaced hDistinct hKey hSlot (hRoomy.resolve_right ?_)
      intro ⟨i, hLt, hTaken⟩
      exact putSlot_eq_none hSlot i hLt hTaken
  | some i =>
      have hPut : map.Put cfg (SectorKey.of vKey nSectorFile nSectorStart nSectorSize) =
          map.writeSlot (BinaryHashMap.GetBucket cfg vKey) i
            ((SectorKey.of vKey nSectorFile nSectorStart nSectorSize).header ++
              vKeyCompressed vKey) := by
        unfold BinaryHashMap.Put
        simp only [SectorKey.of] at hSlot ⊢
        rw [hSlot]
      rw [hPut]
      exact h.put_slot hPlaced hDistinct hKey hClear hSlot

/-- A map that is closed and opened again. -/
theorem Answers.reopen (h : Answers cfg Key map m) : Answers cfg Key (map.Initialize cfg) m := by
  have hSame : map.Initialize cfg = map := by
    have hSizes : (map.Initialize cfg).hashmap = map.hashmap := funext h.loaded
    unfold BinaryHashMap.Initialize at hSizes ⊢
    simp only at hSizes
    rw [hSizes]
  rw [hSame]
  exact h

theorem Answers.step {c : MapCall} (hPlaced : Placed cfg) (hDistinct : DistinctKeys Key)
    (h : Answers cfg Key map m) (hKeys : ∀ vKey ∈ c.keys, Key vKey) (hSound : c.Sound cfg map) :
    Answers cfg Key (c.apply cfg map) (c.spec m) := by
  cases c with
  | put vKey nSectorFile nSectorStart nSectorSize =>
      exact h.put hPlaced hDistinct (hKeys vKey List.mem_cons_self) hSound.1 hSound.2
  | erase vKey =>
      exact h.erase hPlaced hDistinct (hKeys vKey List.mem_cons_self) hSound.1 hSound.2
  | get vKey => exact h
  | reopen => exact h.reopen

theorem Answers.run {cs : List MapCall} (hPlaced : Placed cfg) (hDistinct : DistinctKeys Key)
    (hKeys : ∀ c ∈ cs, ∀ vKey ∈ c.keys, Key vKey) (hRun : MapRun cfg cs map) :
    Answers cfg Key map (lastPut cs) := by
  induction hRun with
  | start => exact Answers.start Key
  | @step cs map c _ hSound ih =>
      have hBefore := ih fun d hMem => hKeys d (List.mem_append_left _ hMem)
      have hLast := hKeys c (List.mem_append_right _ List.mem_cons_self)
      rw [lastPut, List.foldl_concat]
      exact hBefore.step hPlaced hDistinct hLast hSound

end Steps

/-- In a run of sound calls, with buckets that have places of their own and keys that have slots
of their own, `Get` answers with the most recent put of a key. -/
theorem hashmap_answers {cfg : HashMapConfig} {Key : Bytes → Prop} {cs : List MapCall}
    {map : BinaryHashMap} (hPlaced : Placed cfg) (hDistinct : DistinctKeys Key)
    (hKeys : ∀ c ∈ cs, ∀ vKey ∈ c.keys, Key vKey) (hRun : MapRun cfg cs map) (vKey : Bytes)
    (hKey : Key vKey) (hClear : Clear map (BinaryHashMap.GetBucket cfg vKey) vKey) :
    map.Get cfg vKey = lastPut cs vKey := by
  rw [BinaryHashMap.Get, findKey_eq_newest hClear]
  exact (Answers.run hPlaced hDistinct hKeys hRun).value vKey hKey

/-! ## A map of one bucket -/

instance (map : BinaryHashMap) (nBucket : UInt32) (vKey : Bytes) :
    Decidable (Clear map nBucket vKey) := by
  unfold Clear
  infer_instance

instance decidableLone (n : Nat) (P Q : Nat → Prop) [DecidablePred P] [DecidablePred Q] :
    Decidable (∀ i < n, P i → ∀ j < n, j ≠ i → ¬ P j ∧ (i < j → ¬ Q j)) :=
  @Nat.decidableBallLT n (fun i _ => P i → ∀ j < n, j ≠ i → ¬ P j ∧ (i < j → ¬ Q j))
    fun _ _ => inferInstance

instance (map : BinaryHashMap) (nBucket : UInt32) (vKey : Bytes) :
    Decidable (MapCall.Alone map nBucket vKey) :=
  decidableLone _ (fun i => HoldsKey (map.vBucket nBucket i) vKey) fun i =>
    BinaryHashMap.matchKey (map.vBucket nBucket i) (vKeyCompressed vKey) = true

instance (map : BinaryHashMap) (nBucket : UInt32) (vKey : Bytes) :
    Decidable (MapCall.Roomy map nBucket vKey) := by
  unfold MapCall.Roomy
  infer_instance

instance (cfg : HashMapConfig) (map : BinaryHashMap) (c : MapCall) :
    Decidable (c.Sound cfg map) := by
  cases c <;> unfold MapCall.Sound <;> infer_instance

instance (vKey vKey' : Bytes) : Decidable (SameSlot vKey vKey') := by
  unfold SameSlot
  infer_instance

/-- All keys go to the only bucket. -/
def oneBucket : HashMapConfig := { XXH64 := fun _ => 0, HASHMAP_TOTAL_BUCKETS := 1 }

/-- Two keys are put, and the second is erased. -/
def putTwo : List MapCall := [.put [1] 0 10 20, .put [2] 0 30 40, .erase [2]]

theorem putTwo_run : MapRun oneBucket putTwo (putTwo.foldl (MapCall.apply oneBucket) {}) := by
  have hFirst : MapRun oneBucket ([] ++ [.put [1] 0 10 20]) _ :=
    .step .start (by decide +kernel)
  have hSecond : MapRun oneBucket [.put [1] 0 10 20, .put [2] 0 30 40] _ :=
    .step hFirst (by decide +kernel)
  exact .step hSecond (by decide +kernel)

/-- The first key is still there. -/
theorem hashmap_answers_two :
    (putTwo.foldl (MapCall.apply oneBucket) {}).Get oneBucket [1] = lastPut putTwo [1] := by
  refine @hashmap_answers _ (fun vKey => vKey ∈ [[1], [2]]) _ _ (by unfold Placed; decide) ?_ ?_
    putTwo_run [1] (by decide) (by decide +kernel)
  · have hApart : ∀ vKey ∈ [[1], [2]], ∀ vKey' ∈ [[1], [2]],
        SameSlot vKey vKey' → vKey = vKey' := by decide +kernel
    exact fun vKey vKey' hKey hKey' => hApart vKey hKey vKey' hKey'
  · decide

/-- A put goes into a hole above the old slot of its key, which comes back when the key is
erased. -/
theorem hashmap_stale :
    vKeyCompressed [1] ≠ vKeyCompressed [2] ∧
      ((putTwo ++ [MapCall.put [1] 0 50 60, .erase [1]]).foldl (MapCall.apply oneBucket) {}).Get
          oneBucket [1] = some (SectorKey.of [1] 0 10 20) ∧
        lastPut (putTwo ++ [.put [1] 0 50 60, .erase [1]]) [1] = none := by
  decide +kernel

end Nexus.Safety
