import Nexus.LLD.SectorDatabase

/-!
# Places of records

What a write does to the other keys of a sector database: their keychain entries stay, their cache
entries stay or go, and their records stay unless the write is made in place and the place is
theirs too.  New records are put behind every place that is in use.

## Main results

* `readSector_stored` — a record of a regular size is read back.
* `Force_sectors` — a place that is in use and is not rewritten keeps its record.
* `forces_written`, `forces_settled` — the same over the writes of a transaction.
-/

namespace Nexus.LLD

open Nexus.Lib.Bytes
open Nexus.Lib.Checked
open Nexus.Util
open Std (ExtTreeMap ExtTreeSet)

/-! ## Caches -/

/-- What a cache holds for a key. -/
def CacheType.held {γ : Type} (cache : CacheType γ) (pool : γ) (vKey : Bytes) : Option Bytes :=
  (cache.Get pool vKey).1

/-- A cache answers for the keys as it was told, and may drop what it holds at any time but when
it is only read. -/
structure CacheType.Lawful {γ : Type} (cache : CacheType γ) (Key : Bytes → Prop) : Prop where
  has : ∀ pool vKey, Key vKey → cache.Has pool vKey = (cache.held pool vKey).isSome
  get : ∀ pool vKey vKey', Key vKey → Key vKey' →
    cache.held (cache.Get pool vKey).2 vKey' = cache.held pool vKey'
  put : ∀ pool cKey vKey vData, Key vKey →
    cache.held (cache.Put pool cKey vKey vData) vKey = none ∨
      cache.held (cache.Put pool cKey vKey vData) vKey = some vData
  put_other : ∀ pool cKey vKey vData vKey', Key vKey → Key vKey' → vKey' ≠ vKey →
    cache.held (cache.Put pool cKey vKey vData) vKey' = none ∨
      cache.held (cache.Put pool cKey vKey vData) vKey' = cache.held pool vKey'
  remove : ∀ pool vKey, Key vKey → cache.held (cache.Remove pool vKey) vKey = none
  remove_other : ∀ pool vKey vKey', Key vKey → Key vKey' →
    cache.held (cache.Remove pool vKey) vKey' = none ∨
      cache.held (cache.Remove pool vKey) vKey' = cache.held pool vKey'

/-- A cache that keeps what it holds under the place it was put with, where another key of the
same place takes it over. -/
structure CacheType.ByPlace {γ : Type} (cache : CacheType γ) (Key : Bytes → Prop)
    (At : γ → Bytes → UInt32 × UInt32 → Prop) : Prop extends cache.Lawful Key where
  put_at : ∀ pool cKey vKey vData, Key vKey →
    cache.held (cache.Put pool cKey vKey vData) vKey ≠ none →
      At (cache.Put pool cKey vKey vData) vKey cKey.place
  put_apart : ∀ pool cKey vKey vData vKey', Key vKey → Key vKey' → vKey' ≠ vKey →
    cache.held (cache.Put pool cKey vKey vData) vKey' ≠ none → ¬ At pool vKey' cKey.place
  put_keeps : ∀ pool cKey vKey vData vKey' place, Key vKey → Key vKey' → vKey' ≠ vKey →
    cache.held (cache.Put pool cKey vKey vData) vKey' ≠ none → At pool vKey' place →
      At (cache.Put pool cKey vKey vData) vKey' place
  get_keeps : ∀ pool vKey vKey' place, Key vKey → Key vKey' →
    cache.held (cache.Get pool vKey).2 vKey' ≠ none → At pool vKey' place →
      At (cache.Get pool vKey).2 vKey' place
  remove_keeps : ∀ pool vKey vKey' place, Key vKey → Key vKey' →
    cache.held (cache.Remove pool vKey) vKey' ≠ none → At pool vKey' place →
      At (cache.Remove pool vKey) vKey' place

/-! ## Sizes -/

theorem writeCompactSize_length (nSize : Nat) :
    (writeCompactSize nSize).length = getSizeOfCompactSize nSize := by
  unfold writeCompactSize getSizeOfCompactSize
  by_cases hByte : nSize < 253
  · rw [if_pos hByte, if_pos hByte, FixedWidth.encode_length]
    rfl
  · rw [if_neg hByte, if_neg hByte]
    by_cases hShort : nSize ≤ 0xffff
    · rw [if_pos hShort, if_pos hShort, List.length_append, FixedWidth.encode_length,
        FixedWidth.encode_length]
      rfl
    · rw [if_neg hShort, if_neg hShort]
      by_cases hWord : nSize ≤ 0xffffffff
      · rw [if_pos hWord, if_pos hWord, List.length_append, FixedWidth.encode_length,
          FixedWidth.encode_length]
        rfl
      · rw [if_neg hWord, if_neg hWord, List.length_append, FixedWidth.encode_length,
          FixedWidth.encode_length]
        rfl

theorem getSizeOfCompactSize_pos (nSize : Nat) : 0 < getSizeOfCompactSize nSize := by
  unfold getSizeOfCompactSize
  split
  · omega
  · split
    · omega
    · split <;> omega

/-- A record fits into a file, and its size with the size in front is written in as many bytes
as its size. -/
def Regular (vData : Bytes) : Prop :=
  recordSize vData < 2 ^ 31 ∧
    getSizeOfCompactSize (recordSize vData) = getSizeOfCompactSize vData.length

instance (vData : Bytes) : Decidable (Regular vData) := by
  unfold Regular
  infer_instance

section Records

variable {γ : Type} {cache : CacheType γ} {db : SectorDatabase γ} {vKey vKey' vData : Bytes}
variable {key key' : SectorKey}

/-- A record of a regular size is read back. -/
theorem readSector_stored (hRegular : Regular vData)
    (hSize : key.nSectorSize.toNat = recordSize vData)
    (hStored : db.sectors key.place = some vData) : db.readSector key = .ok vData := by
  have hFront : recordSize vData - getSizeOfCompactSize vData.length = vData.length := by
    rw [recordSize]
    omega
  have hPrefix : (serializeBytes vData).drop (getSizeOfCompactSize vData.length) = vData := by
    rw [serializeBytes, ← writeCompactSize_length, List.drop_left]
  have hEnough : ¬ recordSize vData < getSizeOfCompactSize vData.length := by
    rw [recordSize]
    omega
  unfold SectorDatabase.readSector
  simp only [hSize, hRegular.2, if_neg hEnough, hStored, demand_some, ok_bind, hPrefix, hFront,
    List.take_length]
  rw [reject_of_not (fun hNe => hNe rfl)]
  rfl

/-- Reading depends on the place, the size and the record there. -/
theorem readSector_congr {db' : SectorDatabase γ} (hSize : key'.nSectorSize = key.nSectorSize)
    (hStored : key.nSectorSize ≠ 0 → db'.sectors key'.place = db.sectors key.place) :
    db'.readSector key' = db.readSector key := by
  unfold SectorDatabase.readSector
  rw [hSize]
  by_cases hZero : key.nSectorSize = 0
  · have hBare : (0 : UInt32).toNat < getSizeOfCompactSize (0 : UInt32).toNat := by decide
    simp only [hZero, if_pos hBare]
  · rw [hStored hZero]

/-- An entry without a record cannot be read. -/
theorem readSector_bare (hZero : key.nSectorSize = 0) :
    db.readSector key = .error (.exception "vector::_M_default_append") := by
  have hBare : (0 : UInt32).toNat < getSizeOfCompactSize (0 : UInt32).toNat := by decide
  unfold SectorDatabase.readSector
  simp only [hZero, if_pos hBare]

end Records

/-! ## Places in order -/

/-- The position of a place in all files. -/
def placeNat (place : UInt32 × UInt32) : Nat := place.1.toNat * 2 ^ 32 + place.2.toNat

theorem placeNat_inj {place place' : UInt32 × UInt32} (h : placeNat place = placeNat place') :
    place = place' := by
  unfold placeNat at h
  have hFirst := place.2.toNat_lt
  have hSecond := place'.2.toNat_lt
  have hFile : place.1.toNat = place'.1.toNat := by omega
  have hStart : place.2.toNat = place'.2.toNat := by omega
  exact Prod.ext (UInt32.toNat_inj.mp hFile) (UInt32.toNat_inj.mp hStart)

namespace SectorDatabase

variable {γ : Type} (db : SectorDatabase γ)

/-- The position behind the last record. -/
def cursor : Nat := placeNat (db.nCurrentFile, db.nCurrentFileSize)

/-- The write of a key is made in place. -/
def InPlace (vKey vData : Bytes) (key : SectorKey) : Prop :=
  db.fAppend = false ∧ db.pSectorKeys vKey = some key ∧
    recordSize vData = key.nSectorSize.toNat

/-- There is room for the numbers of that many more files. -/
def Roomy (n : Nat) : Prop := db.nCurrentFile.toNat + n < 2 ^ 16

end SectorDatabase

section Force

variable {γ : Type} {cache : CacheType γ} {Key : Bytes → Prop} {db : SectorDatabase γ}
variable {vKey vKey' vData vData' : Bytes} {key key' : SectorKey} {place : UInt32 × UInt32}
variable {n : Nat}

open SectorDatabase

theorem Force_inPlace (h : db.InPlace vKey vData key) :
    Force cache db vKey vData =
      { db with
        cachePool := cache.Put db.cachePool key vKey vData
        sectors := Function.update db.sectors key.place (some vData) } := by
  obtain ⟨hMode, hStored, hSize⟩ := h
  unfold Force Update
  rw [hMode, if_neg Bool.false_ne_true, hStored]
  simp [guard, hSize]

theorem Force_append (h : ∀ key, ¬ db.InPlace vKey vData key) :
    Force cache db vKey vData = SectorDatabase.Append cache db vKey vData := by
  unfold Force
  by_cases hMode : db.fAppend = true
  · rw [if_pos hMode]
  · rw [if_neg hMode]
    have hRefused : Update cache db vKey vData = none := by
      unfold Update
      cases hStored : db.pSectorKeys vKey with
      | none => rfl
      | some key =>
          have hSize : ¬ recordSize vData = key.nSectorSize.toNat :=
            fun hSame => h key ⟨Bool.eq_false_of_not_eq_true hMode, hStored, hSame⟩
          simp [guard, hSize]
    rw [hRefused]
    rfl

theorem Force_keys_other (hNe : vKey' ≠ vKey) :
    (Force cache db vKey vData).pSectorKeys vKey' = db.pSectorKeys vKey' := by
  by_cases hPlace : ∃ key, db.InPlace vKey vData key
  · obtain ⟨key, hPlace⟩ := hPlace
    rw [Force_inPlace hPlace]
  · rw [Force_append (not_exists.mp hPlace)]
    exact Function.update_of_ne hNe _ _

theorem Force_mode : (Force cache db vKey vData).fAppend = db.fAppend := by
  by_cases hPlace : ∃ key, db.InPlace vKey vData key
  · obtain ⟨key, hPlace⟩ := hPlace
    rw [Force_inPlace hPlace]
  · rw [Force_append (not_exists.mp hPlace)]
    rfl

theorem Force_transaction :
    (Force cache db vKey vData).pTransaction = db.pTransaction := by
  by_cases hPlace : ∃ key, db.InPlace vKey vData key
  · obtain ⟨key, hPlace⟩ := hPlace
    rw [Force_inPlace hPlace]
  · rw [Force_append (not_exists.mp hPlace)]
    rfl

theorem Force_held_other (hLawful : cache.Lawful Key) (hKey : Key vKey) (hKey' : Key vKey')
    (hNe : vKey' ≠ vKey) :
    cache.held (Force cache db vKey vData).cachePool vKey' = none ∨
      cache.held (Force cache db vKey vData).cachePool vKey' = cache.held db.cachePool vKey' := by
  by_cases hPlace : ∃ key, db.InPlace vKey vData key
  · obtain ⟨key, hPlace⟩ := hPlace
    rw [Force_inPlace hPlace]
    exact hLawful.put_other _ _ _ _ _ hKey hKey' hNe
  · rw [Force_append (not_exists.mp hPlace)]
    exact hLawful.put_other _ _ _ _ _ hKey hKey' hNe

theorem Force_held_self (hLawful : cache.Lawful Key) (hKey : Key vKey) :
    cache.held (Force cache db vKey vData).cachePool vKey = none ∨
      cache.held (Force cache db vKey vData).cachePool vKey = some vData := by
  by_cases hPlace : ∃ key, db.InPlace vKey vData key
  · obtain ⟨key, hPlace⟩ := hPlace
    rw [Force_inPlace hPlace]
    exact hLawful.put _ _ _ _ hKey
  · rw [Force_append (not_exists.mp hPlace)]
    exact hLawful.put _ _ _ _ hKey

/-- The value is put into the cache under the entry that is stored. -/
theorem Force_pool : ∃ key, (Force cache db vKey vData).pSectorKeys vKey = some key ∧
    (Force cache db vKey vData).cachePool = cache.Put db.cachePool key vKey vData := by
  by_cases hPlace : ∃ key, db.InPlace vKey vData key
  · obtain ⟨key, hPlace⟩ := hPlace
    rw [Force_inPlace hPlace]
    exact ⟨key, hPlace.2.1, rfl⟩
  · rw [Force_append (not_exists.mp hPlace)]
    exact ⟨_, Function.update_self _ _ _, rfl⟩

/-- What an appended record leaves behind. -/
theorem Append_spec (hRoom : db.Roomy (n + 1)) (hSize : recordSize vData < 2 ^ 31) :
    ∃ key, SectorDatabase.Append cache db vKey vData =
        { db with
          sectors := Function.update db.sectors key.place (some vData)
          nCurrentFile := (SectorDatabase.Append cache db vKey vData).nCurrentFile
          nCurrentFileSize := (SectorDatabase.Append cache db vKey vData).nCurrentFileSize
          pSectorKeys := Function.update db.pSectorKeys vKey (some key)
          cachePool := cache.Put db.cachePool key vKey vData } ∧
      key.nSectorSize.toNat = recordSize vData ∧ key.SetKey vKey = key ∧
      db.cursor ≤ placeNat key.place ∧
      placeNat key.place < (SectorDatabase.Append cache db vKey vData).cursor ∧
      (SectorDatabase.Append cache db vKey vData).Roomy n := by
  have hSmall : (UInt32.ofNat (recordSize vData)).toNat = recordSize vData := by
    rw [UInt32.toNat_ofNat']
    omega
  have hPos : 0 < recordSize vData := by
    have hFront := getSizeOfCompactSize_pos vData.length
    rw [recordSize]
    omega
  have hCurrent := db.nCurrentFileSize.toNat_lt
  have hLimit : MAX_SECTOR_FILE_SIZE.toNat = 2 ^ 29 := rfl
  have hOne : (1 : UInt32).toNat = 1 := rfl
  unfold SectorDatabase.Roomy at hRoom
  by_cases hFull : MAX_SECTOR_FILE_SIZE < db.nCurrentFileSize
  · have hFile : (db.nCurrentFile + 1).toNat = db.nCurrentFile.toNat + 1 := by
      rw [UInt32.toNat_add, hOne]
      omega
    have hShort : (db.nCurrentFile + 1).toUInt16.toUInt32 = db.nCurrentFile + 1 := by
      apply UInt32.toNat_inj.mp
      rw [UInt16.toNat_toUInt32, UInt32.toNat_toUInt16]
      omega
    refine ⟨SectorKey.of vKey (db.nCurrentFile + 1).toUInt16 0
      (UInt32.ofNat (recordSize vData)), ?_, hSmall, rfl, ?_, ?_, ?_⟩
    · simp only [SectorDatabase.Append, hFull, decide_true, if_true, SectorKey.place, SectorKey.of, hShort]
    · simp only [SectorDatabase.cursor, placeNat, SectorKey.place, SectorKey.of, hShort, hFile,
        UInt32.toNat_zero]
      omega
    · simp only [SectorDatabase.cursor, placeNat, SectorKey.place, SectorKey.of, hShort,
        SectorDatabase.Append,
        hFull, decide_true, if_true, UInt32.toNat_zero, UInt32.zero_add, hSmall]
      omega
    · simp only [SectorDatabase.Roomy, SectorDatabase.Append, hFull, decide_true, if_true, hFile]
      omega
  · have hShort : db.nCurrentFile.toUInt16.toUInt32 = db.nCurrentFile := by
      apply UInt32.toNat_inj.mp
      rw [UInt16.toNat_toUInt32, UInt32.toNat_toUInt16]
      omega
    have hLe : db.nCurrentFileSize.toNat ≤ MAX_SECTOR_FILE_SIZE.toNat :=
      UInt32.le_iff_toNat_le.mp (UInt32.not_lt.mp hFull)
    have hEnd : (db.nCurrentFileSize + UInt32.ofNat (recordSize vData)).toNat =
        db.nCurrentFileSize.toNat + recordSize vData := by
      rw [UInt32.toNat_add, hSmall]
      omega
    refine ⟨SectorKey.of vKey db.nCurrentFile.toUInt16 db.nCurrentFileSize
      (UInt32.ofNat (recordSize vData)), ?_, hSmall, rfl, ?_, ?_, ?_⟩
    · simp only [SectorDatabase.Append, hFull, decide_false, SectorKey.place, SectorKey.of, hShort,
        Bool.false_eq_true, if_false]
    · simp only [SectorDatabase.cursor, placeNat, SectorKey.place, SectorKey.of, hShort]
      omega
    · simp only [SectorDatabase.cursor, placeNat, SectorKey.place, SectorKey.of, hShort,
        SectorDatabase.Append,
        hFull, decide_false, Bool.false_eq_true, if_false, hEnd]
      omega
    · simp only [SectorDatabase.Roomy, SectorDatabase.Append, hFull, decide_false, Bool.false_eq_true, if_false]
      omega

theorem Force_cursor (hRoom : db.Roomy (n + 1)) (hSize : recordSize vData < 2 ^ 31) :
    db.cursor ≤ (Force cache db vKey vData).cursor ∧ (Force cache db vKey vData).Roomy n := by
  by_cases hPlace : ∃ key, db.InPlace vKey vData key
  · obtain ⟨key, hPlace⟩ := hPlace
    rw [Force_inPlace hPlace]
    refine ⟨Nat.le_refl _, ?_⟩
    unfold SectorDatabase.Roomy at hRoom ⊢
    show db.nCurrentFile.toNat + n < 2 ^ 16
    omega
  · rw [Force_append (not_exists.mp hPlace)]
    obtain ⟨key, -, -, -, hFrom, hTo, hLeft⟩ := @Append_spec _ cache db vKey vData n hRoom hSize
    exact ⟨by omega, hLeft⟩

/-- A place that is in use and is not rewritten keeps its record. -/
theorem Force_sectors (hRoom : db.Roomy (n + 1)) (hSize : recordSize vData < 2 ^ 31)
    (hBelow : placeNat place < db.cursor)
    (hApart : ∀ key, db.InPlace vKey vData key → key.place ≠ place) :
    (Force cache db vKey vData).sectors place = db.sectors place := by
  by_cases hPlace : ∃ key, db.InPlace vKey vData key
  · obtain ⟨key, hPlace⟩ := hPlace
    rw [Force_inPlace hPlace]
    exact Function.update_of_ne (hApart key hPlace).symm _ _
  · rw [Force_append (not_exists.mp hPlace)]
    obtain ⟨key, hEq, -, -, hFrom, -, -⟩ := @Append_spec _ cache db vKey vData n hRoom hSize
    have hNe : place ≠ key.place := by
      intro hSame
      rw [hSame] at hBelow
      omega
    rw [hEq]
    exact Function.update_of_ne hNe _ _

/-- The record that is written is there, in place or behind all others. -/
theorem Force_written (hRoom : db.Roomy (n + 1)) (hSize : recordSize vData < 2 ^ 31)
    (hNamed : ∀ key, db.pSectorKeys vKey = some key →
      key.SetKey vKey = key ∧ (key.nSectorSize ≠ 0 → placeNat key.place < db.cursor)) :
    ∃ key, (Force cache db vKey vData).pSectorKeys vKey = some key ∧
      key.nSectorSize.toNat = recordSize vData ∧ key.SetKey vKey = key ∧
      (Force cache db vKey vData).sectors key.place = some vData ∧
      placeNat key.place < (Force cache db vKey vData).cursor ∧
      (db.InPlace vKey vData key ∨ db.cursor ≤ placeNat key.place) := by
  by_cases hPlace : ∃ key, db.InPlace vKey vData key
  · obtain ⟨key, hPlace⟩ := hPlace
    obtain ⟨hName, hBelow⟩ := hNamed key hPlace.2.1
    have hRecord : key.nSectorSize ≠ 0 := by
      intro hZero
      have hSame := hPlace.2.2
      have hFront := getSizeOfCompactSize_pos vData.length
      rw [hZero, recordSize, UInt32.toNat_zero] at hSame
      omega
    rw [Force_inPlace hPlace]
    exact ⟨key, hPlace.2.1, hPlace.2.2.symm, hName, Function.update_self _ _ _, hBelow hRecord,
      .inl hPlace⟩
  · rw [Force_append (not_exists.mp hPlace)]
    obtain ⟨key, hEq, hSame, hName, hFrom, hTo, -⟩ :=
      @Append_spec _ cache db vKey vData n hRoom hSize
    refine ⟨key, ?_, hSame, hName, ?_, hTo, .inr hFrom⟩
    · rw [hEq]
      exact Function.update_self _ _ _
    · rw [hEq]
      exact Function.update_self _ _ _

end Force

/-! ## The writes of a transaction -/

/-- The second loop of `TxnCommit`. -/
def forces {γ : Type} (cache : CacheType γ) (items : List (Bytes × Bytes))
    (db : SectorDatabase γ) : SectorDatabase γ :=
  items.foldl (fun db item => db.Force cache item.1 item.2) db

section Forces

variable {γ : Type} {cache : CacheType γ} {Key : Bytes → Prop} {db : SectorDatabase γ}
variable {vKey vData : Bytes} {place : UInt32 × UInt32} {items : List (Bytes × Bytes)} {n : Nat}

open SectorDatabase

theorem forces_cons {item : Bytes × Bytes} :
    forces cache (item :: items) db = forces cache items (Force cache db item.1 item.2) := rfl

theorem forces_mode : (forces cache items db).fAppend = db.fAppend := by
  induction items generalizing db with
  | nil => rfl
  | cons item items ih => rw [forces_cons, ih, Force_mode]

theorem forces_keys_other (h : ∀ item ∈ items, vKey ≠ item.1) :
    (forces cache items db).pSectorKeys vKey = db.pSectorKeys vKey := by
  induction items generalizing db with
  | nil => rfl
  | cons item items ih =>
      rw [forces_cons, ih fun x hMem => h x (List.mem_cons_of_mem _ hMem)]
      exact Force_keys_other (h item List.mem_cons_self)

theorem forces_held_other (hLawful : cache.Lawful Key) (hKeys : ∀ item ∈ items, Key item.1)
    (hKey : Key vKey) (h : ∀ item ∈ items, vKey ≠ item.1) :
    cache.held (forces cache items db).cachePool vKey = none ∨
      cache.held (forces cache items db).cachePool vKey = cache.held db.cachePool vKey := by
  induction items generalizing db with
  | nil => exact .inr rfl
  | cons item items ih =>
      rw [forces_cons]
      have hStep := @Force_held_other _ _ _ db _ _ item.2 hLawful (hKeys item List.mem_cons_self)
        hKey (h item List.mem_cons_self)
      have hRest := @ih (Force cache db item.1 item.2)
        (fun x hMem => hKeys x (List.mem_cons_of_mem _ hMem))
        (fun x hMem => h x (List.mem_cons_of_mem _ hMem))
      cases hRest with
      | inl hNone => exact .inl hNone
      | inr hSame =>
          rw [hSame]
          exact hStep

theorem forces_cursor (hRoom : db.Roomy (items.length + n))
    (hSizes : ∀ item ∈ items, recordSize item.2 < 2 ^ 31) :
    db.cursor ≤ (forces cache items db).cursor ∧ (forces cache items db).Roomy n := by
  induction items generalizing db with
  | nil =>
      rw [List.length_nil, Nat.zero_add] at hRoom
      exact ⟨Nat.le_refl _, hRoom⟩
  | cons item items ih =>
      have hRoom' : db.Roomy (items.length + n + 1) := by
        rw [List.length_cons] at hRoom
        unfold SectorDatabase.Roomy at hRoom ⊢
        omega
      obtain ⟨hStep, hLeft⟩ := @Force_cursor _ cache db item.1 item.2 _ hRoom'
        (hSizes item List.mem_cons_self)
      obtain ⟨hRest, hEnd⟩ := ih hLeft fun x hMem => hSizes x (List.mem_cons_of_mem _ hMem)
      exact ⟨Nat.le_trans hStep hRest, hEnd⟩

/-- A write in place of a key that another write leaves as it is. -/
theorem inPlace_Force {vKey' vData' : Bytes} {key : SectorKey} (hNe : vKey' ≠ vKey) :
    (Force cache db vKey vData).InPlace vKey' vData' key ↔ db.InPlace vKey' vData' key := by
  unfold SectorDatabase.InPlace
  rw [Force_mode, Force_keys_other hNe]

/-- A place that is in use keeps its record if no write rewrites it. -/
theorem forces_settled (hRoom : db.Roomy (items.length + n))
    (hSizes : ∀ item ∈ items, recordSize item.2 < 2 ^ 31)
    (hOnce : items.Pairwise fun item item' => item.1 ≠ item'.1)
    (hBelow : placeNat place < db.cursor)
    (hApart : ∀ item ∈ items, ∀ key, db.InPlace item.1 item.2 key → key.place ≠ place) :
    (forces cache items db).sectors place = db.sectors place := by
  induction items generalizing db with
  | nil => rfl
  | cons item items ih =>
      have hRoom' : db.Roomy (items.length + n + 1) := by
        rw [List.length_cons] at hRoom
        unfold SectorDatabase.Roomy at hRoom ⊢
        omega
      have hSize := hSizes item List.mem_cons_self
      obtain ⟨hFirst, hOthers⟩ := List.pairwise_cons.mp hOnce
      obtain ⟨hStep, hLeft⟩ := @Force_cursor _ cache db item.1 item.2 _ hRoom' hSize
      rw [forces_cons, ih hLeft (fun x hMem => hSizes x (List.mem_cons_of_mem _ hMem)) hOthers
        (by omega)]
      · exact Force_sectors hRoom' hSize hBelow (hApart item List.mem_cons_self)
      · intro x hMem key hPlace
        exact hApart x (List.mem_cons_of_mem _ hMem) key
          ((inPlace_Force (hFirst x hMem).symm).mp hPlace)

/-- The record of a key that is written is there after all the writes, if no write in place is
made where its entry was. -/
theorem forces_written (hLawful : cache.Lawful Key) (hKeys : ∀ item ∈ items, Key item.1)
    (hRoom : db.Roomy (items.length + n))
    (hSizes : ∀ item ∈ items, recordSize item.2 < 2 ^ 31)
    (hOnce : items.Pairwise fun item item' => item.1 ≠ item'.1)
    (hNamed : ∀ item ∈ items, ∀ key, db.pSectorKeys item.1 = some key →
      key.SetKey item.1 = key ∧ (key.nSectorSize ≠ 0 → placeNat key.place < db.cursor))
    (hAlone : ∀ item ∈ items, ∀ item' ∈ items, item.1 ≠ item'.1 → ∀ key key',
      db.InPlace item.1 item.2 key → db.InPlace item'.1 item'.2 key' → key'.place ≠ key.place)
    (hMem : (vKey, vData) ∈ items) :
    (∃ key, (forces cache items db).pSectorKeys vKey = some key ∧
      key.nSectorSize.toNat = recordSize vData ∧ key.SetKey vKey = key ∧
      (forces cache items db).sectors key.place = some vData) ∧
      (cache.held (forces cache items db).cachePool vKey = none ∨
        cache.held (forces cache items db).cachePool vKey = some vData) := by
  induction items generalizing db with
  | nil => cases hMem
  | cons item items ih =>
      have hRoom' : db.Roomy (items.length + n + 1) := by
        rw [List.length_cons] at hRoom
        unfold SectorDatabase.Roomy at hRoom ⊢
        omega
      have hSize := hSizes item List.mem_cons_self
      obtain ⟨hFirst, hOthers⟩ := List.pairwise_cons.mp hOnce
      obtain ⟨hStep, hLeft⟩ := @Force_cursor _ cache db item.1 item.2 _ hRoom' hSize
      have hRestKeys : ∀ x ∈ items, Key x.1 := fun x hMem => hKeys x (List.mem_cons_of_mem _ hMem)
      have hRestSizes : ∀ x ∈ items, recordSize x.2 < 2 ^ 31 :=
        fun x hMem => hSizes x (List.mem_cons_of_mem _ hMem)
      rw [forces_cons]
      cases List.mem_cons.mp hMem with
      | inl hHere =>
          subst hHere
          have hKey := hKeys (vKey, vData) List.mem_cons_self
          have hOther : ∀ x ∈ items, vKey ≠ x.1 := hFirst
          constructor
          · obtain ⟨key, hEntry, hSame, hName, hRecord, hBelow, hWhere⟩ :=
              @Force_written _ cache db vKey vData _ hRoom' hSize
                (hNamed _ List.mem_cons_self)
            refine ⟨key, ?_, hSame, hName, ?_⟩
            · rw [forces_keys_other hOther]
              exact hEntry
            · rw [forces_settled hLeft hRestSizes hOthers hBelow]
              · exact hRecord
              · intro x hMemX key' hPlace
                rw [inPlace_Force (hFirst x hMemX).symm] at hPlace
                cases hWhere with
                | inl hInPlace =>
                    exact hAlone _ List.mem_cons_self x (List.mem_cons_of_mem _ hMemX)
                      (hFirst x hMemX) key key' hInPlace hPlace
                | inr hBehind =>
                    -- the entry of the other key was in use before the record was appended
                    have hUsed := (hNamed x (List.mem_cons_of_mem _ hMemX) key' hPlace.2.1).2
                    have hNonzero : key'.nSectorSize ≠ 0 := by
                      intro hZero
                      have hSame' := hPlace.2.2
                      have hFront := getSizeOfCompactSize_pos x.2.length
                      rw [hZero, recordSize, UInt32.toNat_zero] at hSame'
                      omega
                    intro hSamePlace
                    have hLt := hUsed hNonzero
                    rw [hSamePlace] at hLt
                    omega
          · have hRest := @forces_held_other _ cache _ (Force cache db vKey vData) _ _ hLawful
              hRestKeys hKey hOther
            cases hRest with
            | inl hNone => exact .inl hNone
            | inr hHeld =>
                rw [hHeld]
                exact Force_held_self hLawful hKey
      | inr hThere =>
          apply ih hRestKeys hLeft hRestSizes hOthers _ _ hThere
          · intro x hMemX key hStored
            rw [Force_keys_other (hFirst x hMemX).symm] at hStored
            obtain ⟨hName, hBelow⟩ := hNamed x (List.mem_cons_of_mem _ hMemX) key hStored
            exact ⟨hName, fun hNonzero => Nat.lt_of_lt_of_le (hBelow hNonzero) hStep⟩
          · intro x hMemX y hMemY hNe key key' hPlace hPlace'
            rw [inPlace_Force (hFirst x hMemX).symm] at hPlace
            rw [inPlace_Force (hFirst y hMemY).symm] at hPlace'
            exact hAlone x (List.mem_cons_of_mem _ hMemX) y (List.mem_cons_of_mem _ hMemY) hNe
              key key' hPlace hPlace'

end Forces

end Nexus.LLD
