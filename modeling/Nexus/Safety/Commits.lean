import Nexus.LLD.Places

/-!
# What a commit keeps

The view of an open transaction, its pending sets in front of the database, against the database
after `TxnCommit`, which applies the sets one after the other.

## Main results

* `commit_keeps` — the commit succeeds and every key answers as it did, if every erased key is
  stored, new keys without a value are not read, an indexed key is not written, a target keeps its
  entry until the first index to it is done, and no write in place hits the record of another key.
-/

namespace Nexus.Safety

open Nexus.Lib.Bytes
open Nexus.Lib.Checked
open Nexus.Util
open Nexus.LLD
open Nexus.LLD.SectorDatabase
open Std (ExtTreeMap ExtTreeSet)

/-- The keys of a call. -/
def callKeys : SectorCall → List Bytes
  | .write vKey _ => [vKey]
  | .key vKey => [vKey]
  | .erase vKey => [vKey]
  | .index vKey vIndex => [vKey, vIndex]

/-! ## Pending sets -/

/-- The pending sets are about the given keys, and an erased key is in no other set. -/
structure Tidy (Key : Bytes → Prop) (p : SectorTransaction) : Prop where
  written : ∀ vKey, vKey ∈ p.mapTransactions → Key vKey ∧ vKey ∉ p.setErasedData
  bare : ∀ vKey, vKey ∈ p.setKeychain → Key vKey ∧ vKey ∉ p.setErasedData
  indexed : ∀ vKey vIndex, p.mapIndex[vKey]? = some vIndex →
    Key vKey ∧ Key vIndex ∧ vKey ∉ p.setErasedData
  erased : ∀ vKey, vKey ∈ p.setErasedData → Key vKey

theorem Tidy.call {Key : Bytes → Prop} {p : SectorTransaction} {c : SectorCall} (h : Tidy Key p)
    (hKeys : ∀ vKey ∈ callKeys c, Key vKey) : Tidy Key (p.call c) := by
  cases c with
  | write vNew vData =>
      have hNew : Key vNew := hKeys vNew List.mem_cons_self
      constructor
      · intro vKey hMem
        simp only [SectorTransaction.call, ExtTreeMap.mem_insert, Std.compare_eq_iff_eq] at hMem
        simp only [SectorTransaction.call, ExtTreeSet.mem_erase, ne_eq, Std.compare_eq_iff_eq,
          not_and]
        cases hMem with
        | inl hSame =>
            subst hSame
            exact ⟨hNew, fun hNe => absurd rfl hNe⟩
        | inr hMem =>
            obtain ⟨hKey, hFree⟩ := h.written vKey hMem
            exact ⟨hKey, fun _ => hFree⟩
      · intro vKey hMem
        obtain ⟨hKey, hFree⟩ := h.bare vKey hMem
        exact ⟨hKey, fun hErased => hFree (ExtTreeSet.mem_of_mem_erase hErased)⟩
      · intro vKey vIndex hIndex
        obtain ⟨hKey, hTarget, hFree⟩ := h.indexed vKey vIndex hIndex
        exact ⟨hKey, hTarget, fun hErased => hFree (ExtTreeSet.mem_of_mem_erase hErased)⟩
      · intro vKey hErased
        exact h.erased vKey (ExtTreeSet.mem_of_mem_erase hErased)
  | key vNew =>
      have hNew : Key vNew := hKeys vNew List.mem_cons_self
      constructor
      · intro vKey hMem
        obtain ⟨hKey, hFree⟩ := h.written vKey hMem
        exact ⟨hKey, fun hErased => hFree (ExtTreeSet.mem_of_mem_erase hErased)⟩
      · intro vKey hMem
        simp only [SectorTransaction.call, ExtTreeSet.mem_insert, Std.compare_eq_iff_eq] at hMem
        simp only [SectorTransaction.call, ExtTreeSet.mem_erase, ne_eq, Std.compare_eq_iff_eq,
          not_and]
        cases hMem with
        | inl hSame =>
            subst hSame
            exact ⟨hNew, fun hNe => absurd rfl hNe⟩
        | inr hMem =>
            obtain ⟨hKey, hFree⟩ := h.bare vKey hMem
            exact ⟨hKey, fun _ => hFree⟩
      · intro vKey vIndex hIndex
        obtain ⟨hKey, hTarget, hFree⟩ := h.indexed vKey vIndex hIndex
        exact ⟨hKey, hTarget, fun hErased => hFree (ExtTreeSet.mem_of_mem_erase hErased)⟩
      · intro vKey hErased
        exact h.erased vKey (ExtTreeSet.mem_of_mem_erase hErased)
  | erase vOld =>
      have hOld : Key vOld := hKeys vOld List.mem_cons_self
      have hFresh : ∀ vKey, vOld ≠ vKey → vKey ∉ p.setErasedData →
          vKey ∉ (p.call (.erase vOld)).setErasedData := by
        intro vKey hNe hFree hErased
        simp only [SectorTransaction.call, SectorTransaction.EraseTransaction,
          ExtTreeSet.mem_insert, Std.compare_eq_iff_eq] at hErased
        exact hErased.elim hNe hFree
      constructor
      · intro vKey hMem
        simp only [SectorTransaction.call, SectorTransaction.EraseTransaction,
          ExtTreeMap.mem_erase, ne_eq, Std.compare_eq_iff_eq] at hMem
        obtain ⟨hKey, hFree⟩ := h.written vKey hMem.2
        exact ⟨hKey, hFresh vKey hMem.1 hFree⟩
      · intro vKey hMem
        simp only [SectorTransaction.call, SectorTransaction.EraseTransaction,
          ExtTreeSet.mem_erase, ne_eq, Std.compare_eq_iff_eq] at hMem
        obtain ⟨hKey, hFree⟩ := h.bare vKey hMem.2
        exact ⟨hKey, hFresh vKey hMem.1 hFree⟩
      · intro vKey vIndex hIndex
        simp only [SectorTransaction.call, SectorTransaction.EraseTransaction,
          ExtTreeMap.getElem?_erase, Std.compare_eq_iff_eq] at hIndex
        split at hIndex
        · cases hIndex
        · obtain ⟨hKey, hTarget, hFree⟩ := h.indexed vKey vIndex hIndex
          exact ⟨hKey, hTarget, hFresh vKey ‹_› hFree⟩
      · intro vKey hErased
        simp only [SectorTransaction.call, SectorTransaction.EraseTransaction,
          ExtTreeSet.mem_insert, Std.compare_eq_iff_eq] at hErased
        cases hErased with
        | inl hSame => exact hSame ▸ hOld
        | inr hErased => exact h.erased vKey hErased
  | index vNew vTarget =>
      have hNew : Key vNew := hKeys vNew List.mem_cons_self
      have hTarget : Key vTarget := hKeys vTarget (List.mem_cons_of_mem _ List.mem_cons_self)
      constructor
      · intro vKey hMem
        obtain ⟨hKey, hFree⟩ := h.written vKey hMem
        exact ⟨hKey, fun hErased => hFree (ExtTreeSet.mem_of_mem_erase hErased)⟩
      · intro vKey hMem
        obtain ⟨hKey, hFree⟩ := h.bare vKey hMem
        exact ⟨hKey, fun hErased => hFree (ExtTreeSet.mem_of_mem_erase hErased)⟩
      · intro vKey vIndex hIndex
        simp only [SectorTransaction.call, ExtTreeMap.getElem?_insert,
          Std.compare_eq_iff_eq] at hIndex
        simp only [SectorTransaction.call, ExtTreeSet.mem_erase, ne_eq, Std.compare_eq_iff_eq,
          not_and]
        split at hIndex
        · rename_i hSame
          cases hIndex
          exact ⟨hSame ▸ hNew, hTarget, fun hNe => absurd hSame hNe⟩
        · obtain ⟨hKey, hOther, hFree⟩ := h.indexed vKey vIndex hIndex
          exact ⟨hKey, hOther, fun _ => hFree⟩
      · intro vKey hErased
        exact h.erased vKey (ExtTreeSet.mem_of_mem_erase hErased)

theorem Tidy.calls {Key : Bytes → Prop} {cs : List SectorCall} {p : SectorTransaction}
    (h : Tidy Key p) (hKeys : ∀ c ∈ cs, ∀ vKey ∈ callKeys c, Key vKey) :
    Tidy Key (p.calls cs) := by
  induction cs generalizing p with
  | nil => exact h
  | cons c cs ih =>
      exact ih (h.call (hKeys c List.mem_cons_self))
        fun d hMem => hKeys d (List.mem_cons_of_mem _ hMem)

theorem Tidy.empty {Key : Bytes → Prop} : Tidy Key {} where
  written vKey hMem := absurd hMem ExtTreeMap.not_mem_empty
  bare vKey hMem := absurd hMem ExtTreeSet.not_mem_empty
  indexed vKey vIndex hIndex := by
    rw [show ({} : SectorTransaction).mapIndex[vKey]? = none from ExtTreeMap.getElem?_empty]
      at hIndex
    cases hIndex
  erased vKey hMem := absurd hMem ExtTreeSet.not_mem_empty

/-! ## The loops of a commit -/

section Loops

variable {γ : Type} {db : SectorDatabase γ} {vKeys : List Bytes}

theorem commitErased_ok (hOnce : vKeys.Pairwise (· ≠ ·))
    (hStored : ∀ vKey ∈ vKeys, (db.pSectorKeys vKey).isSome) :
    commitErased vKeys db = .ok { db with
      pSectorKeys := fun vKey => if vKey ∈ vKeys then none else db.pSectorKeys vKey } := by
  induction vKeys generalizing db with
  | nil => simp [commitErased]
  | cons vOld vKeys ih =>
      obtain ⟨hFirst, hRest⟩ := List.pairwise_cons.mp hOnce
      have hThere : ¬ (db.pSectorKeys vOld).isNone := by
        rw [Option.isNone_iff_eq_none]
        intro hNone
        have hSome := hStored vOld List.mem_cons_self
        rw [hNone] at hSome
        cases hSome
      have hLater : ∀ vKey ∈ vKeys,
          (Function.update db.pSectorKeys vOld none vKey).isSome := by
        intro vKey hMem
        rw [Function.update_of_ne (hFirst vKey hMem).symm]
        exact hStored vKey (List.mem_cons_of_mem _ hMem)
      rw [commitErased, reject_of_not hThere, ok_bind, ih hRest hLater]
      congr 2
      funext vKey
      by_cases hSame : vKey = vOld
      · subst hSame
        simp
      · simp [hSame]

theorem commitKeys_eq : commitKeys vKeys db = { db with
    pSectorKeys := fun vKey =>
      if vKey ∈ vKeys then some (SectorKey.of vKey 0 0 0) else db.pSectorKeys vKey } := by
  induction vKeys generalizing db with
  | nil => simp [commitKeys]
  | cons vNew vKeys ih =>
      rw [commitKeys, ih]
      congr 1
      funext vKey
      by_cases hSame : vKey = vNew
      · subst hSame
        simp
      · simp [hSame]

/-- The indexes, when the entry of a target is read before the target is itself indexed to another
key. -/
theorem commitIndexes_ok {items : List (Bytes × Bytes)} {base : Bytes → Option SectorKey}
    {mapIndex : Bytes → Option SectorKey}
    (hOnce : items.Pairwise fun item item' => item.1 ≠ item'.1)
    (hMap : ∀ vKey key, mapIndex vKey = some key → base vKey = some key)
    (hStored : ∀ item ∈ items, ∃ key, base item.2 = some key ∧ key.SetKey item.2 = key)
    (hTarget : ∀ item ∈ items,
      (mapIndex item.2).isSome ∨ db.pSectorKeys item.2 = base item.2)
    (hStay : ∀ before item behind, items = before ++ item :: behind → ∀ item' ∈ behind,
      item'.2 = item.1 → item.2 = item.1 ∨ (mapIndex item.1).isSome ∨
        ∃ item₀ ∈ before, item₀.2 = item.1) :
    ∃ keys, commitIndexes items mapIndex db = .ok { db with pSectorKeys := keys } ∧
      (∀ vKey, (∀ item ∈ items, item.1 ≠ vKey) → keys vKey = db.pSectorKeys vKey) ∧
      ∀ item ∈ items, keys item.1 = (base item.2).map fun key => key.SetKey item.1 := by
  induction items generalizing db mapIndex with
  | nil =>
      exact ⟨db.pSectorKeys, rfl, fun _ _ => rfl, fun item hMem => by cases hMem⟩
  | cons item items ih =>
      obtain ⟨vKey, vIndex⟩ := item
      obtain ⟨hFirst, hRest⟩ := List.pairwise_cons.mp hOnce
      obtain ⟨key, hBase, hName⟩ := hStored (vKey, vIndex) List.mem_cons_self
      simp only at hBase hName
      have hFound : (mapIndex vIndex <|> db.pSectorKeys vIndex) = some key := by
        cases hKnown : mapIndex vIndex with
        | none =>
            have hHere := (hTarget (vKey, vIndex) List.mem_cons_self).resolve_left
              (by simp [hKnown])
            rw [hBase] at hHere
            exact hHere
        | some known =>
            have hSame := hMap vIndex known hKnown
            rw [hBase] at hSame
            exact hSame.symm
      have hMap' : ∀ vKey' key', Function.update mapIndex vIndex (some key) vKey' = some key' →
          base vKey' = some key' := by
        intro vKey' key' hKnown
        by_cases hSame : vKey' = vIndex
        · rw [hSame, Function.update_self] at hKnown
          rw [hSame, hBase]
          exact hKnown
        · rw [Function.update_of_ne hSame] at hKnown
          exact hMap vKey' key' hKnown
      -- what is known stays known
      have hStays : ∀ vKnown, (mapIndex vKnown).isSome →
          (Function.update mapIndex vIndex (some key) vKnown).isSome := by
        intro vKnown hKnown
        by_cases hSame : vKnown = vIndex
        · rw [hSame, Function.update_self]
          rfl
        · rwa [Function.update_of_ne hSame]
      have hTarget' : ∀ item ∈ items,
          (Function.update mapIndex vIndex (some key) item.2).isSome ∨
            Function.update db.pSectorKeys vKey (some (key.SetKey vKey)) item.2 =
              base item.2 := by
        intro item hMem
        by_cases hSame : item.2 = vKey
        · rcases hStay [] (vKey, vIndex) items rfl item hMem hSame with
            hSelf | hKnown | ⟨item₀, hNone, -⟩
          · -- a key that is indexed to itself keeps its entry
            simp only at hSelf
            subst hSelf
            exact .inr (by rw [hSame, Function.update_self, hBase, hName])
          · exact .inl (hStays _ (hSame ▸ hKnown))
          · cases hNone
        · rw [Function.update_of_ne hSame]
          exact (hTarget item (List.mem_cons_of_mem _ hMem)).imp_left (hStays _)
      have hStay' : ∀ before item behind, items = before ++ item :: behind → ∀ item' ∈ behind,
          item'.2 = item.1 → item.2 = item.1 ∨
            (Function.update mapIndex vIndex (some key) item.1).isSome ∨
              ∃ item₀ ∈ before, item₀.2 = item.1 := by
        intro before item behind hSplit item' hMem hSame
        rcases hStay ((vKey, vIndex) :: before) item behind (by rw [hSplit]; rfl) item' hMem hSame
          with hSelf | hKnown | ⟨item₀, hMem₀, hTo⟩
        · exact .inl hSelf
        · exact .inr (.inl (hStays _ hKnown))
        · rcases List.mem_cons.mp hMem₀ with rfl | hBefore
          · refine .inr (.inl ?_)
            rw [← hTo, Function.update_self]
            rfl
          · exact .inr (.inr ⟨item₀, hBefore, hTo⟩)
      obtain ⟨keys, hRun, hOther, hIndexed⟩ := @ih
        { db with pSectorKeys := Function.update db.pSectorKeys vKey (some (key.SetKey vKey)) }
        (Function.update mapIndex vIndex (some key)) hRest hMap'
        (fun item hMem => hStored item (List.mem_cons_of_mem _ hMem)) hTarget' hStay'
      refine ⟨keys, ?_, ?_, ?_⟩
      · rw [commitIndexes, hFound, demand_some, ok_bind, hRun]
      · intro vKey' hNone
        rw [hOther vKey' fun item hMem => hNone item (List.mem_cons_of_mem _ hMem)]
        exact Function.update_of_ne (hNone _ List.mem_cons_self).symm _ _
      · intro item hMem
        cases List.mem_cons.mp hMem with
        | inl hHere =>
            subst hHere
            rw [hOther vKey fun item hMem => (hFirst item hMem).symm, hBase]
            exact Function.update_self _ _ _
        | inr hThere => exact hIndexed item hThere

end Loops

/-! ## Committing -/

section Commit

variable {γ : Type} (cache : CacheType γ) (Key : Bytes → Prop) (db : SectorDatabase γ)
variable (p : SectorTransaction)

/-- The entries of a database are in use, and its cache holds what its records say. -/
structure Coherent : Prop where
  named : ∀ vKey key, db.pSectorKeys vKey = some key →
    key.SetKey vKey = key ∧ (key.nSectorSize ≠ 0 → placeNat key.place < db.cursor)
  cached : ∀ vKey vData, Key vKey → cache.held db.cachePool vKey = some vData →
    ∃ key, db.pSectorKeys vKey = some key ∧ db.readSector key = .ok vData

/-- A key is indexed to another key. -/
def Repointed (vKey : Bytes) : Prop :=
  ∃ vIndex, p.mapIndex[vKey]? = some vIndex ∧ vIndex ≠ vKey

/-- A key is indexed to another key, and no key to it. -/
def Vacated (vKey : Bytes) : Prop :=
  Repointed p vKey ∧ ∀ vFrom : Bytes, p.mapIndex[vFrom]? ≠ some vKey

/-- Some key before a target is indexed to it. -/
def ReadEarly (vIndex : Bytes) : Prop :=
  ∃ vFirst : Bytes, p.mapIndex[vFirst]? = some vIndex ∧ compare vFirst vIndex = .lt

/-- The calls of a transaction leave each other's keys alone. -/
structure Committable : Prop where
  /-- An erased key is stored, and is not cached again. -/
  erased : ∀ vKey ∈ p.setErasedData,
    (db.pSectorKeys vKey).isSome ∧ cache.held db.cachePool vKey = none
  /-- A key without a value has none to be read. -/
  bare : ∀ vKey ∈ p.setKeychain, vKey ∉ p.mapTransactions ∧
    (Repointed p vKey ∨ db.pSectorKeys vKey = some (SectorKey.of vKey 0 0 0))
  /-- An indexed key has no value of its own.  If its target is indexed to another key, the entry
  of the target is read before, and is the one that is stored. -/
  indexed : ∀ vKey vIndex : Bytes, p.mapIndex[vKey]? = some vIndex → vIndex ≠ vKey →
    vKey ∉ p.mapTransactions ∧ cache.held db.cachePool vKey = none ∧
      (Repointed p vIndex → ReadEarly p vIndex ∧ (vIndex ∈ p.setKeychain →
        db.pSectorKeys vIndex = some (SectorKey.of vIndex 0 0 0)))
  /-- A target is stored when the indexes are written. -/
  target : ∀ vKey vIndex : Bytes, p.mapIndex[vKey]? = some vIndex → vIndex ∉ p.setErasedData ∧
    (vIndex ∈ p.mapTransactions ∨ vIndex ∈ p.setKeychain ∨ (db.pSectorKeys vIndex).isSome)
  /-- A value can be read back. -/
  written : ∀ vKey vData : Bytes, p.mapTransactions[vKey]? = some vData → Regular vData
  /-- A write in place is made in a place that no other key keeps. -/
  alone : ∀ (vKey vData : Bytes) key, p.mapTransactions[vKey]? = some vData →
    db.InPlace vKey vData key → ∀ vKey' key', vKey' ≠ vKey →
      db.pSectorKeys vKey' = some key' → key'.nSectorSize ≠ 0 → key'.place = key.place →
        vKey' ∈ p.setErasedData ∨ Vacated p vKey' ∨
          ∃ vData', p.mapTransactions[vKey']? = some vData' ∧ ¬ db.InPlace vKey' vData' key'
  room : db.Roomy p.mapTransactions.size

/-- What the keychain and the records say about a key. -/
def onDisk (vKey : Bytes) : Result Bytes := do
  let cKey ← demand (db.pSectorKeys vKey) notFound
  db.readSector cKey

theorem lawfulBEq_bytes : LawfulBEq Bytes := inferInstance

/-- The database behind the loop over the erased keys. -/
def withoutErased : SectorDatabase γ :=
  haveI : LawfulBEq Bytes := lawfulBEq_bytes
  { db with
    pSectorKeys := fun vKey =>
      if vKey ∈ p.setErasedData.toList then none else db.pSectorKeys vKey }

/-- The database between the loops over the keychain entries and the indexes. -/
def beforeIndexes : SectorDatabase γ :=
  commitKeys p.setKeychain.toList
    (forces cache p.mapTransactions.toList (withoutErased db p))

end Commit

section Proof

variable {γ : Type} {cache : CacheType γ} {Key : Bytes → Prop} {db : SectorDatabase γ}
variable {p : SectorTransaction} {vKey vData vIndex : Bytes} {key : SectorKey}

theorem items_once {m : ExtTreeMap Bytes Bytes compare} :
    m.toList.Pairwise fun item item' => item.1 ≠ item'.1 :=
  (ExtTreeMap.distinct_keys_toList (t := m)).imp fun hNe hSame =>
    hNe (Std.compare_eq_iff_eq.mpr hSame)

theorem keys_once {s : ExtTreeSet Bytes compare} : s.toList.Pairwise (· ≠ ·) :=
  (ExtTreeSet.distinct_toList (t := s)).imp fun hNe hSame =>
    hNe (Std.compare_eq_iff_eq.mpr hSame)

theorem mem_items {m : ExtTreeMap Bytes Bytes compare} {item : Bytes × Bytes} :
    item ∈ m.toList ↔ m[item.1]? = some item.2 :=
  ExtTreeMap.mem_toList_iff_getElem?_eq_some

theorem not_item_of_none {m : ExtTreeMap Bytes Bytes compare} (h : m[vKey]? = none)
    {item : Bytes × Bytes} (hMem : item ∈ m.toList) : vKey ≠ item.1 := by
  intro hSame
  rw [hSame, mem_items.mp hMem] at h
  cases h

theorem recordSize_pos : 0 < recordSize vData := by
  have hFront := getSizeOfCompactSize_pos vData.length
  rw [recordSize]
  omega

theorem InPlace.nonzero (h : db.InPlace vKey vData key) : key.nSectorSize ≠ 0 := by
  intro hZero
  have hSame := h.2.2
  have hPos := @recordSize_pos vData
  rw [hZero, UInt32.toNat_zero] at hSame
  omega

theorem Tidy.free (h : Tidy Key p) (hData : p.mapTransactions[vKey]? = some vData) :
    vKey ∉ p.setErasedData :=
  (h.written vKey (ExtTreeMap.mem_iff_isSome_getElem?.mpr (by rw [hData]; rfl))).2

theorem Tidy.known (h : Tidy Key p) (hData : p.mapTransactions[vKey]? = some vData) : Key vKey :=
  (h.written vKey (ExtTreeMap.mem_iff_isSome_getElem?.mpr (by rw [hData]; rfl))).1

/-- The erasures change nothing about a key that is not erased. -/
theorem withoutErased_keys (hFree : vKey ∉ p.setErasedData) :
    (withoutErased db p).pSectorKeys vKey = db.pSectorKeys vKey := by
  simp only [withoutErased, ExtTreeSet.mem_toList, if_neg hFree]

theorem inPlace_erased (hFree : vKey ∉ p.setErasedData) :
    (withoutErased db p).InPlace vKey vData key ↔ db.InPlace vKey vData key := by
  unfold SectorDatabase.InPlace
  rw [withoutErased_keys hFree]
  rfl

/-- A written key has its value in the end. -/
theorem beforeIndexes_written (hLawful : cache.Lawful Key) (hCoherent : Coherent cache Key db)
    (hTidy : Tidy Key p) (h : Committable cache db p)
    (hData : p.mapTransactions[vKey]? = some vData) :
    (∃ key, (beforeIndexes cache db p).pSectorKeys vKey = some key ∧ key.SetKey vKey = key ∧
      (beforeIndexes cache db p).readSector key = .ok vData) ∧
      (cache.held (beforeIndexes cache db p).cachePool vKey = none ∨
        cache.held (beforeIndexes cache db p).cachePool vKey = some vData) := by
  have hNotBare : vKey ∉ p.setKeychain := by
    intro hBare
    exact (h.bare vKey hBare).1 (ExtTreeMap.mem_iff_isSome_getElem?.mpr (by rw [hData]; rfl))
  have hItemFree : ∀ item ∈ p.mapTransactions.toList, item.1 ∉ p.setErasedData :=
    fun item hMem => hTidy.free (mem_items.mp hMem)
  obtain ⟨⟨key, hEntry, hSize, hName, hRecord⟩, hHeld⟩ :=
    @forces_written _ cache Key (withoutErased db p) vKey vData p.mapTransactions.toList 0
      hLawful
      (fun item hMem => hTidy.known (mem_items.mp hMem))
      (by rw [ExtTreeMap.length_toList]; exact h.room)
      (fun item hMem => (h.written item.1 item.2 (mem_items.mp hMem)).1) items_once
      (fun item hMem key hStored => by
        rw [withoutErased_keys (hItemFree item hMem)] at hStored
        exact hCoherent.named item.1 key hStored)
      (fun item hMem item' hMem' hNe key key' hPlace hPlace' hSame => by
        rw [inPlace_erased (hItemFree item hMem)] at hPlace
        rw [inPlace_erased (hItemFree item' hMem')] at hPlace'
        have hOther := h.alone item.1 item.2 key (mem_items.mp hMem) hPlace item'.1 key' hNe.symm
          hPlace'.2.1 (InPlace.nonzero hPlace') hSame
        rcases hOther with hErased | hMoved | ⟨vData', hData', hNot⟩
        · exact hItemFree item' hMem' hErased
        · obtain ⟨vIndex, hIndex, hAway⟩ := hMoved.1
          exact (h.indexed item'.1 vIndex hIndex hAway).1
            (ExtTreeMap.mem_iff_isSome_getElem?.mpr (by rw [mem_items.mp hMem']; rfl))
        · rw [mem_items.mp hMem'] at hData'
          cases hData'
          exact hNot hPlace')
      (mem_items.mpr hData)
  unfold beforeIndexes
  rw [commitKeys_eq]
  refine ⟨⟨key, ?_, hName, ?_⟩, hHeld⟩
  · simp only [ExtTreeSet.mem_toList, if_neg hNotBare]
    exact hEntry
  · exact readSector_stored (h.written vKey vData hData) hSize hRecord

/-- The entry of a key is used after the commit: if the key is written without a value its entry
is one without a value. -/
def Used (db : SectorDatabase γ) (p : SectorTransaction) (vKey : Bytes) : Prop :=
  (vKey ∈ p.setKeychain → db.pSectorKeys vKey = some (SectorKey.of vKey 0 0 0)) ∧ ¬ Vacated p vKey

theorem Committable.used (h : Committable cache db p) (hStill : ¬ Repointed p vKey) :
    Used db p vKey :=
  ⟨fun hBare => (h.bare vKey hBare).2.resolve_left hStill, fun hVacated => hStill hVacated.1⟩

/-- A target is used. -/
theorem Committable.used_target (h : Committable cache db p)
    (hIndex : p.mapIndex[vKey]? = some vIndex) : Used db p vIndex := by
  by_cases hMoved : Repointed p vIndex
  · have hAway : vIndex ≠ vKey := by
      rintro rfl
      obtain ⟨vOther, hOther, hNe⟩ := hMoved
      rw [hIndex] at hOther
      exact hNe (Option.some.inj hOther).symm
    exact ⟨((h.indexed vKey vIndex hIndex hAway).2.2 hMoved).2,
      fun hVacated => hVacated.2 vKey hIndex⟩
  · exact h.used hMoved

/-- A key that is neither written nor erased, and whose entry is used, is left as it is. -/
theorem beforeIndexes_kept (hLawful : cache.Lawful Key) (hCoherent : Coherent cache Key db)
    (hTidy : Tidy Key p) (h : Committable cache db p) (hKey : Key vKey)
    (hFree : vKey ∉ p.setErasedData) (hUsed : Used db p vKey)
    (hData : p.mapTransactions[vKey]? = none) :
    (beforeIndexes cache db p).pSectorKeys vKey = db.pSectorKeys vKey ∧
      onDisk (beforeIndexes cache db p) vKey = onDisk db vKey ∧
      (cache.held (beforeIndexes cache db p).cachePool vKey = none ∨
        cache.held (beforeIndexes cache db p).cachePool vKey =
          cache.held db.cachePool vKey) := by
  have hItemFree : ∀ item ∈ p.mapTransactions.toList, item.1 ∉ p.setErasedData :=
    fun item hMem => hTidy.free (mem_items.mp hMem)
  have hEntry : (beforeIndexes cache db p).pSectorKeys vKey = db.pSectorKeys vKey := by
    unfold beforeIndexes
    rw [commitKeys_eq]
    simp only [ExtTreeSet.mem_toList]
    by_cases hBare : vKey ∈ p.setKeychain
    · rw [if_pos hBare]
      exact (hUsed.1 hBare).symm
    · rw [if_neg hBare, forces_keys_other fun item hMem => not_item_of_none hData hMem]
      exact withoutErased_keys hFree
  refine ⟨hEntry, ?_, ?_⟩
  · unfold onDisk
    rw [hEntry]
    cases hStored : db.pSectorKeys vKey with
    | none => rfl
    | some key =>
        simp only [demand_some, ok_bind]
        apply readSector_congr rfl
        intro hNonzero
        unfold beforeIndexes
        rw [commitKeys_eq]
        apply @forces_settled _ cache (withoutErased db p) key.place p.mapTransactions.toList 0
          (by rw [ExtTreeMap.length_toList]; exact h.room)
          (fun item hMem => (h.written item.1 item.2 (mem_items.mp hMem)).1) items_once
          ((hCoherent.named vKey key hStored).2 hNonzero)
        intro item hMem key' hPlace hSame
        rw [inPlace_erased (hItemFree item hMem)] at hPlace
        have hOther := h.alone item.1 item.2 key' (mem_items.mp hMem) hPlace vKey key
          (not_item_of_none hData hMem) hStored hNonzero hSame.symm
        rcases hOther with hErased | hMoved | ⟨vData', hData', _⟩
        · exact hFree hErased
        · exact hUsed.2 hMoved
        · rw [hData] at hData'
          cases hData'
  · unfold beforeIndexes
    rw [commitKeys_eq]
    exact forces_held_other hLawful (fun item hMem => hTidy.known (mem_items.mp hMem)) hKey
      fun item hMem => not_item_of_none hData hMem

/-- What the pending view says about a key that is not erased, without its index. -/
def pendingValue (db : SectorDatabase γ) (p : SectorTransaction) (vKey : Bytes) : Result Bytes :=
  match p.mapTransactions[vKey]? with
  | some vData => .ok vData
  | none => onDisk db vKey

/-- The entry of a key that is used, before the indexes are written. -/
theorem beforeIndexes_settled (hLawful : cache.Lawful Key) (hCoherent : Coherent cache Key db)
    (hTidy : Tidy Key p) (h : Committable cache db p) (hKey : Key vKey)
    (hFree : vKey ∉ p.setErasedData) (hUsed : Used db p vKey) :
    onDisk (beforeIndexes cache db p) vKey = pendingValue db p vKey ∧
      (∀ key, (beforeIndexes cache db p).pSectorKeys vKey = some key → key.SetKey vKey = key) ∧
      (((beforeIndexes cache db p).pSectorKeys vKey).isSome ↔
        vKey ∈ p.mapTransactions ∨ (db.pSectorKeys vKey).isSome) ∧
      ∀ vData, cache.held (beforeIndexes cache db p).cachePool vKey = some vData →
        pendingValue db p vKey = .ok vData := by
  unfold pendingValue
  cases hData : p.mapTransactions[vKey]? with
  | some vData =>
      obtain ⟨⟨key, hEntry, hName, hRead⟩, hHeld⟩ :=
        beforeIndexes_written hLawful hCoherent hTidy h hData
      have hMem : vKey ∈ p.mapTransactions :=
        ExtTreeMap.mem_iff_isSome_getElem?.mpr (by rw [hData]; rfl)
      refine ⟨?_, ?_, ?_, ?_⟩
      · rw [onDisk, hEntry, demand_some, ok_bind, hRead]
      · intro key' hEntry'
        rw [hEntry] at hEntry'
        cases hEntry'
        exact hName
      · rw [hEntry]
        exact ⟨fun _ => .inl hMem, fun _ => rfl⟩
      · intro vData' hHeld'
        rw [hHeld'] at hHeld
        cases hHeld with
        | inl hNone => cases hNone
        | inr hSame => rw [Option.some.inj hSame]
  | none =>
      obtain ⟨hEntry, hDisk, hHeld⟩ :=
        beforeIndexes_kept hLawful hCoherent hTidy h hKey hFree hUsed hData
      refine ⟨hDisk, ?_, ?_, ?_⟩
      · intro key hStored
        rw [hEntry] at hStored
        exact (hCoherent.named vKey key hStored).1
      · rw [hEntry]
        constructor
        · exact .inr
        · intro hEither
          refine hEither.resolve_left fun hMem => ?_
          have hSome := ExtTreeMap.mem_iff_isSome_getElem?.mp hMem
          rw [hData] at hSome
          cases hSome
      · intro vData hHeld'
        rw [hHeld'] at hHeld
        cases hHeld with
        | inl hNone => cases hNone
        | inr hSame =>
            obtain ⟨key, hStored, hRead⟩ := hCoherent.cached vKey vData hKey hSame.symm
            show onDisk db vKey = _
            rw [onDisk, hStored, demand_some, ok_bind, hRead]

theorem beforeIndexes_erased (hLawful : cache.Lawful Key) (hTidy : Tidy Key p)
    (h : Committable cache db p) (hErased : vKey ∈ p.setErasedData) :
    (beforeIndexes cache db p).pSectorKeys vKey = none ∧
      cache.held (beforeIndexes cache db p).cachePool vKey = none := by
  have hNotBare : vKey ∉ p.setKeychain := fun hBare => (hTidy.bare vKey hBare).2 hErased
  have hOther : ∀ item ∈ p.mapTransactions.toList, vKey ≠ item.1 := by
    intro item hMem hSame
    exact hTidy.free (mem_items.mp hMem) (hSame ▸ hErased)
  unfold beforeIndexes
  rw [commitKeys_eq]
  constructor
  · simp only [ExtTreeSet.mem_toList, if_neg hNotBare]
    rw [forces_keys_other hOther]
    simp only [withoutErased, ExtTreeSet.mem_toList, if_pos hErased]
  · have hHeld := @forces_held_other _ cache Key (withoutErased db p) vKey _ hLawful
      (fun item hMem => hTidy.known (mem_items.mp hMem)) (hTidy.erased vKey hErased) hOther
    exact hHeld.elim id fun hSame => hSame.trans (h.erased vKey hErased).2

/-- `Get` answers what is on disk, if the cache does. -/
theorem Get_map (h : ∀ vData, cache.held db.cachePool vKey = some vData →
      onDisk db vKey = .ok vData) :
    (SectorDatabase.Get cache db vKey).map Prod.fst = onDisk db vKey := by
  unfold SectorDatabase.Get
  unfold CacheType.held at h
  generalize cache.Get db.cachePool vKey = answer at h
  obtain ⟨vHeld, pool⟩ := answer
  cases vHeld with
  | some vData => exact (h vData rfl).symm
  | none =>
      unfold onDisk
      cases db.pSectorKeys vKey with
      | none => rfl
      | some cKey =>
          simp only [demand_some, ok_bind]
          cases db.readSector cKey <;> rfl

theorem Coherent.onDisk (hCoherent : Coherent cache Key db) (hKey : Key vKey)
    (hHeld : cache.held db.cachePool vKey = some vData) : onDisk db vKey = .ok vData := by
  obtain ⟨key, hStored, hRead⟩ := hCoherent.cached vKey vData hKey hHeld
  rw [Nexus.Safety.onDisk, hStored, demand_some, ok_bind, hRead]

/-- `Read` of the pending view. -/
theorem Read_pending (hCoherent : Coherent cache Key db) (hOpen : db.pTransaction = some p)
    (hFree : vKey ∉ p.setErasedData) (hKey : Key ((p.mapIndex[vKey]?).getD vKey)) :
    (db.Read cache vKey).map Prod.fst = pendingValue db p ((p.mapIndex[vKey]?).getD vKey) := by
  have hNot : ¬ p.setErasedData.contains vKey = true :=
    fun hMem => hFree (ExtTreeSet.contains_iff_mem.mp hMem)
  unfold SectorDatabase.Read pendingValue
  simp only [hOpen, if_neg hNot]
  cases hData : p.mapTransactions[(p.mapIndex[vKey]?).getD vKey]? with
  | some vData => rfl
  | none => exact Get_map fun vData hHeld => hCoherent.onDisk hKey hHeld

/-- A database without a transaction, whose cache agrees with what is on disk about a key. -/
theorem answers_closed (hLawful : cache.Lawful Key) (hKey : Key vKey)
    (hClosed : db.pTransaction = none)
    (hHeld : ∀ vData, cache.held db.cachePool vKey = some vData → onDisk db vKey = .ok vData) :
    db.Exists cache vKey = (db.pSectorKeys vKey).isSome ∧
      (db.Read cache vKey).map Prod.fst = onDisk db vKey := by
  constructor
  · unfold SectorDatabase.Exists
    simp only [hClosed, hLawful.has _ _ hKey]
    cases hCached : cache.held db.cachePool vKey with
    | none => rfl
    | some vData =>
        have hRead := hHeld vData hCached
        rw [onDisk] at hRead
        obtain ⟨key, hStored, -⟩ := bind_eq_ok.mp hRead
        rw [demand_eq_ok.mp hStored]
        rfl
  · unfold SectorDatabase.Read
    simp only [hClosed]
    exact Get_map hHeld

/-- `Exists` of the pending view. -/
theorem Exists_pending (hLawful : cache.Lawful Key) (hCoherent : Coherent cache Key db)
    (hOpen : db.pTransaction = some p) (hFree : vKey ∉ p.setErasedData) (hKey : Key vKey) :
    db.Exists cache vKey = true ↔ vKey ∈ p.mapTransactions ∨ vKey ∈ p.setKeychain ∨
      vKey ∈ p.mapIndex ∨ (db.pSectorKeys vKey).isSome := by
  have hNot : ¬ p.setErasedData.contains vKey = true :=
    fun hMem => hFree (ExtTreeSet.contains_iff_mem.mp hMem)
  have hBelow : (cache.Has db.cachePool vKey || (db.pSectorKeys vKey).isSome) = true ↔
      (db.pSectorKeys vKey).isSome := by
    rw [hLawful.has _ _ hKey, Bool.or_eq_true]
    constructor
    · intro hEither
      cases hEither with
      | inl hCached =>
          obtain ⟨vData, hCached⟩ := Option.isSome_iff_exists.mp hCached
          obtain ⟨key, hStored, -⟩ := hCoherent.cached vKey vData hKey hCached
          rw [hStored]
          rfl
      | inr hStored => exact hStored
    · exact .inr
  unfold SectorDatabase.Exists
  simp only [hOpen, if_neg hNot, ← ExtTreeMap.contains_iff_mem, ← ExtTreeSet.contains_iff_mem]
  by_cases hData : p.mapTransactions.contains vKey = true
  · simp [hData]
  · by_cases hBare : p.setKeychain.contains vKey = true
    · simp [hData, hBare]
    · by_cases hIndex : p.mapIndex.contains vKey = true
      · simp [hData, hBare, hIndex]
      · simp only [hData, hBare, hIndex, hBelow, false_or, if_false, Bool.false_eq_true]

/-- When a target is indexed to another key, the first index to it was done before. -/
theorem Committable.stays (h : Committable cache db p)
    {before behind : List (Bytes × Bytes)} {item item' : Bytes × Bytes}
    (hSplit : p.mapIndex.toList = before ++ item :: behind) (hMem : item' ∈ behind)
    (hSame : item'.2 = item.1) :
    item.2 = item.1 ∨ ((fun _ => none : Bytes → Option SectorKey) item.1).isSome ∨
      ∃ item₀ ∈ before, item₀.2 = item.1 := by
  by_cases hSelf : item.2 = item.1
  · exact .inl hSelf
  · have hIndex : p.mapIndex[item.1]? = some item.2 := mem_items.mp (by rw [hSplit]; simp)
    have hIndex' : p.mapIndex[item'.1]? = some item'.2 :=
      mem_items.mp (by rw [hSplit]; simp [hMem])
    have hOrdered := ExtTreeMap.ordered_keys_toList (t := p.mapIndex)
    rw [hSplit, List.pairwise_append, List.pairwise_cons] at hOrdered
    obtain ⟨-, ⟨hBehind, -⟩, -⟩ := hOrdered
    have hNever (vKey : Bytes) : compare vKey vKey ≠ .lt := by
      rw [Std.compare_eq_iff_eq.mpr rfl]
      decide
    have hAway : item'.2 ≠ item'.1 := by
      intro hLoop
      have hLess := hBehind item' hMem
      rw [← hSame, hLoop] at hLess
      exact hNever _ hLess
    obtain ⟨⟨vFirst, hFirst, hLess⟩, -⟩ :=
      (h.indexed _ _ hIndex' hAway).2.2 ⟨item.2, by rw [hSame]; exact hIndex, by rwa [hSame]⟩
    rw [hSame] at hFirst hLess
    have hIn : (vFirst, item.1) ∈ p.mapIndex.toList := mem_items.mpr hFirst
    rw [hSplit, List.mem_append, List.mem_cons] at hIn
    rcases hIn with hBefore | hHere | hLater
    · exact .inr (.inr ⟨_, hBefore, rfl⟩)
    · rw [← hHere] at hLess
      exact absurd hLess (hNever _)
    · have hMore : compare item.1 vFirst = .lt := hBehind _ hLater
      rw [Std.OrientedCmp.gt_of_lt hLess] at hMore
      cases hMore

/-- Committing in a state that agrees with its cache. -/
theorem TxnCommit_keeps (hLawful : cache.Lawful Key) (hCoherent : Coherent cache Key db)
    (hTidy : Tidy Key p) (hOpen : db.pTransaction = some p) (h : Committable cache db p) :
    ∃ db', db.TxnCommit cache = .ok db' ∧ ∀ vKey, Key vKey →
      db'.Exists cache vKey = db.Exists cache vKey ∧
        (db'.Read cache vKey).map Prod.fst = (db.Read cache vKey).map Prod.fst := by
  have hUsed : ∀ item ∈ p.mapIndex.toList, Used db p item.2 := fun item hMem =>
    h.used_target (mem_items.mp hMem)
  have hSettled : ∀ item ∈ p.mapIndex.toList, _ := fun item hMem =>
    beforeIndexes_settled hLawful hCoherent hTidy h (hTidy.indexed _ _ (mem_items.mp hMem)).2.1
      (h.target _ _ (mem_items.mp hMem)).1 (hUsed item hMem)
  have hThere : ∀ item ∈ p.mapIndex.toList, ∃ key,
      (beforeIndexes cache db p).pSectorKeys item.2 = some key ∧ key.SetKey item.2 = key := by
    intro item hMem
    obtain ⟨-, hName, hSome, -⟩ := hSettled item hMem
    have hEither : item.2 ∈ p.mapTransactions ∨ (db.pSectorKeys item.2).isSome := by
      rcases (h.target _ _ (mem_items.mp hMem)).2 with hData | hBare | hStored
      · exact .inl hData
      · have hEntry := (hUsed item hMem).1 hBare
        exact .inr (by rw [hEntry]; rfl)
      · exact .inr hStored
    obtain ⟨key, hEntry⟩ := Option.isSome_iff_exists.mp (hSome.mpr hEither)
    exact ⟨key, hEntry, hName key hEntry⟩
  obtain ⟨keys, hIndexes, hOther, hIndexed⟩ :=
    @commitIndexes_ok _ (beforeIndexes cache db p) p.mapIndex.toList
      (beforeIndexes cache db p).pSectorKeys (fun _ => none) items_once
      (fun _ _ hKnown => by cases hKnown) hThere (fun item hMem => .inr rfl)
      (fun before item behind hSplit item' hMem hSame => h.stays hSplit hMem hSame)
  have hCommit : db.TxnCommit cache = .ok
      { beforeIndexes cache db p with pSectorKeys := keys, pTransaction := none } := by
    unfold SectorDatabase.TxnCommit
    rw [hOpen, demand_some, ok_bind, commitErased_ok keys_once fun vKey hMem =>
      (h.erased vKey (ExtTreeSet.mem_toList.mp hMem)).1, ok_bind]
    show (commitIndexes p.mapIndex.toList (fun _ => none) (beforeIndexes cache db p) >>= _) = _
    rw [hIndexes]
    rfl
  refine ⟨_, hCommit, fun vKey hKey => ?_⟩
  generalize hAfter : ({ beforeIndexes cache db p with
    pSectorKeys := keys, pTransaction := none } : SectorDatabase γ) = db'
  have hClosed : db'.pTransaction = none := by
    rw [← hAfter]
  have hEntry : db'.pSectorKeys = keys := by
    rw [← hAfter]
  have hPool : db'.cachePool = (beforeIndexes cache db p).cachePool := by
    rw [← hAfter]
  have hSector : ∀ key key' : SectorKey, key'.nSectorSize = key.nSectorSize →
      key'.place = key.place → db'.readSector key' = (beforeIndexes cache db p).readSector key := by
    intro key key' hSize hPlace
    apply readSector_congr hSize
    intro _
    rw [← hAfter, hPlace]
  -- a key is erased, or indexed to another key, or settled before the indexes are written
  by_cases hErased : vKey ∈ p.setErasedData
  · obtain ⟨hNone, hDropped⟩ := beforeIndexes_erased hLawful hTidy h hErased
    have hItem : ∀ item ∈ p.mapIndex.toList, item.1 ≠ vKey := by
      intro item hMem hSame
      exact (hTidy.indexed _ _ (mem_items.mp hMem)).2.2 (hSame ▸ hErased)
    have hGone : keys vKey = none := (hOther vKey hItem).trans hNone
    have hMem : p.setErasedData.contains vKey = true := ExtTreeSet.contains_iff_mem.mpr hErased
    obtain ⟨hExists, hRead⟩ := answers_closed hLawful hKey hClosed fun vData hHeld => by
      rw [hPool, hDropped] at hHeld
      cases hHeld
    rw [hExists, hRead, onDisk, hEntry, hGone]
    unfold SectorDatabase.Exists SectorDatabase.Read
    simp only [hOpen, if_pos hMem]
    exact ⟨rfl, rfl⟩
  · by_cases hMoved : Repointed p vKey
    · obtain ⟨vIndex, hIndex, hAway⟩ := hMoved
      obtain ⟨hUnwritten, hUncached, -⟩ := h.indexed vKey vIndex hIndex hAway
      have hMem : (vKey, vIndex) ∈ p.mapIndex.toList := mem_items.mpr hIndex
      have hGone : p.mapTransactions[vKey]? = none :=
        ExtTreeMap.getElem?_eq_none hUnwritten
      obtain ⟨hValue, -, -, -⟩ := hSettled (vKey, vIndex) hMem
      have hHere : keys vKey = _ := hIndexed (vKey, vIndex) hMem
      have hDisk : onDisk db' vKey = pendingValue db p vIndex := by
        rw [← hValue, onDisk, onDisk, hEntry, hHere]
        cases (beforeIndexes cache db p).pSectorKeys vIndex with
        | none => rfl
        | some key =>
            rw [Option.map_some, demand_some, demand_some, ok_bind, ok_bind]
            exact hSector key (key.SetKey vKey) rfl rfl
      have hHeld := @forces_held_other _ cache Key (withoutErased db p) vKey _ hLawful
        (fun item hItem => hTidy.known (mem_items.mp hItem)) hKey
        (fun item hItem => not_item_of_none hGone hItem)
      have hDropped : cache.held db'.cachePool vKey = none := by
        rw [hPool]
        unfold beforeIndexes
        rw [commitKeys_eq]
        exact hHeld.elim id fun hSame => hSame.trans hUncached
      obtain ⟨hExists, hRead⟩ := answers_closed hLawful hKey hClosed fun vData hHeld => by
        rw [hDropped] at hHeld
        cases hHeld
      have hIn : vKey ∈ p.mapIndex :=
        ExtTreeMap.mem_iff_isSome_getElem?.mpr (by rw [hIndex]; rfl)
      obtain ⟨key, hTarget, -⟩ := hThere (vKey, vIndex) hMem
      constructor
      · rw [hExists, hEntry, hHere, hTarget]
        exact ((Exists_pending hLawful hCoherent hOpen hErased hKey).mpr
          (.inr (.inr (.inl hIn)))).symm
      · have hPending := Read_pending hCoherent hOpen hErased (by
          rw [hIndex]
          exact (hTidy.indexed vKey vIndex hIndex).2.1)
        rw [hIndex, Option.getD_some] at hPending
        rw [hRead, hDisk, hPending]
    · obtain ⟨hValue, hName, hSome, hHeld⟩ :=
        beforeIndexes_settled hLawful hCoherent hTidy h hKey hErased (h.used hMoved)
      -- the entry of the key is not changed by the indexes
      have hSelf : ∀ vIndex, p.mapIndex[vKey]? = some vIndex → vIndex = vKey := by
        intro vIndex hIndex
        by_contra hAway
        exact hMoved ⟨vIndex, hIndex, hAway⟩
      have hHere : keys vKey = (beforeIndexes cache db p).pSectorKeys vKey := by
        cases hIndex : p.mapIndex[vKey]? with
        | none => exact hOther vKey fun item hMem => (not_item_of_none hIndex hMem).symm
        | some vIndex =>
            have hMem : (vKey, vIndex) ∈ p.mapIndex.toList := mem_items.mpr hIndex
            obtain ⟨key, hTarget, hOwn⟩ := hThere (vKey, vIndex) hMem
            have hNew : keys vKey = _ := hIndexed (vKey, vIndex) hMem
            simp only [hSelf vIndex hIndex] at hTarget hOwn hNew
            rw [hNew, hTarget, Option.map_some, hOwn]
      have hGetD : (p.mapIndex[vKey]?).getD vKey = vKey := by
        cases hIndex : p.mapIndex[vKey]? with
        | none => rfl
        | some vIndex => exact hSelf vIndex hIndex
      have hDisk : onDisk db' vKey = pendingValue db p vKey := by
        rw [← hValue, onDisk, onDisk, hEntry, hHere]
        cases (beforeIndexes cache db p).pSectorKeys vKey with
        | none => rfl
        | some key => exact hSector key key rfl rfl
      obtain ⟨hExists, hRead⟩ := answers_closed hLawful hKey hClosed fun vData hCached => by
        rw [hPool] at hCached
        rw [hDisk, hHeld vData hCached]
      constructor
      · rw [hExists, hEntry, hHere, Bool.eq_iff_iff, hSome,
          Exists_pending hLawful hCoherent hOpen hErased hKey]
        constructor
        · intro hEither
          exact hEither.imp_right fun hStored => .inr (.inr hStored)
        · rintro (hData | hBare | hIn | hStored)
          · exact .inl hData
          · exact .inr (by rw [(h.bare vKey hBare).2.resolve_left hMoved]; rfl)
          · obtain ⟨vIndex, hIndex⟩ :=
              Option.isSome_iff_exists.mp (ExtTreeMap.mem_iff_isSome_getElem?.mp hIn)
            obtain ⟨key, hTarget, -⟩ := hThere (vKey, vIndex) (mem_items.mpr hIndex)
            simp only [hSelf vIndex hIndex] at hTarget
            exact hSome.mp (by rw [hTarget]; rfl)
          · exact .inr hStored
      · have hPending := Read_pending hCoherent hOpen hErased (by rw [hGetD]; exact hKey)
        rw [hGetD] at hPending
        rw [hRead, hDisk, hPending]

end Proof

/-! ## A transaction from its calls to its commit -/

section Transaction

variable {γ : Type} {cache : CacheType γ} {Key : Bytes → Prop} {db db' : SectorDatabase γ}
variable {p : SectorTransaction} {cs : List SectorCall} {c : SectorCall}

/-- Calls one after the other. -/
def runCalls (cache : CacheType γ) (cs : List SectorCall) (db : SectorDatabase γ) :
    Result (SectorDatabase γ) :=
  cs.foldlM (fun db c => db.call cache c) db

/-- A call in a transaction only changes the transaction and drops from the cache. -/
theorem call_opened (hLawful : cache.Lawful Key) (hKeys : ∀ vKey ∈ callKeys c, Key vKey)
    (hOpen : db.pTransaction = some p) (hCall : db.call cache c = .ok db') :
    db' = { db with cachePool := db'.cachePool, pTransaction := some (p.call c) } ∧
      ∀ vKey, Key vKey → cache.held db'.cachePool vKey = none ∨
        cache.held db'.cachePool vKey = cache.held db.cachePool vKey := by
  unfold SectorDatabase.call at hCall
  cases c with
  | write vNew vData =>
      simp only [hOpen, Except.ok.injEq] at hCall
      subst hCall
      exact ⟨rfl, fun _ _ => .inr rfl⟩
  | key vNew =>
      simp only [hOpen, Except.ok.injEq] at hCall
      subst hCall
      exact ⟨rfl, fun _ _ => .inr rfl⟩
  | erase vOld =>
      simp only [hOpen, Except.ok.injEq] at hCall
      subst hCall
      exact ⟨rfl, fun vKey hKey =>
        hLawful.remove_other _ _ _ (hKeys vOld List.mem_cons_self) hKey⟩
  | index vNew vTarget =>
      simp only [hOpen, Except.ok.injEq] at hCall
      subst hCall
      exact ⟨rfl, fun _ _ => .inr rfl⟩

theorem runCalls_opened (hLawful : cache.Lawful Key)
    (hKeys : ∀ c ∈ cs, ∀ vKey ∈ callKeys c, Key vKey)
    (hOpen : db.pTransaction = some p) (hRun : runCalls cache cs db = .ok db') :
    db' = { db with cachePool := db'.cachePool, pTransaction := some (p.calls cs) } ∧
      ∀ vKey, Key vKey → cache.held db'.cachePool vKey = none ∨
        cache.held db'.cachePool vKey = cache.held db.cachePool vKey := by
  unfold runCalls at hRun
  induction cs generalizing db p with
  | nil =>
      rw [foldlM_nil_eq_ok] at hRun
      subst hRun
      refine ⟨?_, fun _ _ => .inr rfl⟩
      show db = { db with cachePool := db.cachePool, pTransaction := some p }
      rw [← hOpen]
  | cons c cs ih =>
      obtain ⟨db₁, hCall, hRest⟩ := foldlM_cons_eq_ok.mp hRun
      obtain ⟨hSame, hHeld⟩ := call_opened hLawful (hKeys c List.mem_cons_self) hOpen hCall
      obtain ⟨hSame', hHeld'⟩ := ih (fun d hMem => hKeys d (List.mem_cons_of_mem _ hMem))
        (by rw [hSame]) hRest
      constructor
      · rw [hSame', hSame]
        rfl
      · intro vKey hKey
        exact (hHeld' vKey hKey).elim .inl fun hEq => by
          rw [hEq]
          exact hHeld vKey hKey

/-- A transaction keeps what its calls showed, if they leave each other's keys alone. -/
theorem commit_keeps (hLawful : cache.Lawful Key) (hCoherent : Coherent cache Key db)
    (hKeys : ∀ c ∈ cs, ∀ vKey ∈ callKeys c, Key vKey)
    (hRun : runCalls cache cs db.TxnBegin = .ok db')
    (h : Committable cache db' (({} : SectorTransaction).calls cs)) :
    ∃ db'', db'.TxnCommit cache = .ok db'' ∧ ∀ vKey, Key vKey →
      db''.Exists cache vKey = db'.Exists cache vKey ∧
        (db''.Read cache vKey).map Prod.fst = (db'.Read cache vKey).map Prod.fst := by
  obtain ⟨hSame, hHeld⟩ := runCalls_opened hLawful hKeys rfl hRun
  have hRecords : ∀ key, db'.readSector key = db.readSector key := by
    intro key
    apply readSector_congr rfl
    intro _
    rw [hSame]
    rfl
  have hCoherent' : Coherent cache Key db' := by
    constructor
    · rw [hSame]
      exact hCoherent.named
    · intro vKey vData hKey hCached
      obtain ⟨key, hStored, hRead⟩ := hCoherent.cached vKey vData hKey
        ((hHeld vKey hKey).elim (fun hNone => by rw [hNone] at hCached; cases hCached)
          fun hEq => hEq.symm.trans hCached)
      refine ⟨key, ?_, (hRecords key).trans hRead⟩
      rw [hSame]
      exact hStored
  exact TxnCommit_keeps hLawful hCoherent' (Tidy.empty.calls hKeys) (by rw [hSame]) h

end Transaction

/-! ## A database of two records -/

/-- A cache without a limit. -/
def mapCache : CacheType (Bytes → Option Bytes) where
  Has pool vKey := (pool vKey).isSome
  Get pool vKey := (pool vKey, pool)
  Put pool _ vKey vData := Function.update pool vKey (some vData)
  Remove pool vKey := Function.update pool vKey none

theorem mapCache_lawful : mapCache.Lawful fun _ => True where
  has _ _ _ := rfl
  get _ _ _ _ _ := rfl
  put _ _ _ _ _ := .inr (Function.update_self _ _ _)
  put_other _ _ _ _ _ _ _ hNe := .inr (Function.update_of_ne hNe _ _)
  remove _ _ _ := Function.update_self _ _ _
  remove_other pool vKey vKey' _ _ := by
    by_cases hSame : vKey' = vKey
    · exact .inl (by rw [hSame]; exact Function.update_self _ _ _)
    · exact .inr (Function.update_of_ne hSame _ _)

/-- The key `[1]` with the value `[10]`, and `[4]` with `[40]`. -/
def twoRecords : SectorDatabase (Bytes → Option Bytes) where
  pSectorKeys vKey :=
    if vKey = [1] then some (SectorKey.of [1] 0 0 2)
    else if vKey = [4] then some (SectorKey.of [4] 0 2 2) else none
  sectors place :=
    if place = (0, 0) then some [10] else if place = (0, 2) then some [40] else none
  cachePool _ := none
  nCurrentFileSize := 4

theorem twoRecords_coherent : Coherent mapCache (fun _ => True) twoRecords := by
  constructor
  · intro vKey key hStored
    simp only [twoRecords] at hStored
    split at hStored
    · rename_i hSame
      cases hStored
      exact ⟨by rw [hSame]; rfl, fun _ => by decide⟩
    · split at hStored
      · rename_i hSame
        cases hStored
        exact ⟨by rw [hSame]; rfl, fun _ => by decide⟩
      · cases hStored
  · intro vKey vData _ hHeld
    cases hHeld

/-- A record is replaced by another under a new key.  The key `[4]` goes over to the new record,
and `[3]` takes its old one. -/
def replaceCalls : List SectorCall := [.write [2] [20], .erase [1], .index [3] [4], .index [4] [2]]

/-- The database with `replaceCalls` pending. -/
def replaced : SectorDatabase (Bytes → Option Bytes) :=
  { twoRecords with
    cachePool := Function.update (fun _ => none) [1] none
    pTransaction := some (({} : SectorTransaction).calls replaceCalls) }

theorem replaced_committable :
    Committable mapCache replaced (({} : SectorTransaction).calls replaceCalls) := by
  have hErased : (({} : SectorTransaction).calls replaceCalls).setErasedData.toList = [[1]] := by
    decide +kernel
  have hBare : (({} : SectorTransaction).calls replaceCalls).setKeychain.toList = [] := by
    decide +kernel
  have hData : (({} : SectorTransaction).calls replaceCalls).mapTransactions.toList =
      [([2], [20])] := by
    decide +kernel
  have hIndex : (({} : SectorTransaction).calls replaceCalls).mapIndex.toList =
      [([3], [4]), ([4], [2])] := by
    decide +kernel
  have hWritten : ∀ vKey vData : Bytes,
      (({} : SectorTransaction).calls replaceCalls).mapTransactions[vKey]? = some vData →
        vKey = [2] ∧ vData = [20] := by
    intro vKey vData hSome
    have hMem := (@mem_items _ (vKey, vData)).mpr hSome
    rw [hData, List.mem_singleton, Prod.mk.injEq] at hMem
    exact hMem
  have hIndexed : ∀ vKey vIndex : Bytes,
      (({} : SectorTransaction).calls replaceCalls).mapIndex[vKey]? = some vIndex →
        (vKey = [3] ∧ vIndex = [4]) ∨ vKey = [4] ∧ vIndex = [2] := by
    intro vKey vIndex hSome
    have hMem := (@mem_items _ (vKey, vIndex)).mpr hSome
    rw [hIndex, List.mem_pair, Prod.mk.injEq, Prod.mk.injEq] at hMem
    exact hMem
  constructor
  · intro vKey hMem
    rw [← ExtTreeSet.mem_toList, hErased, List.mem_singleton] at hMem
    subst hMem
    exact ⟨rfl, by decide⟩
  · intro vKey hMem
    rw [← ExtTreeSet.mem_toList, hBare] at hMem
    cases hMem
  · intro vKey vIndex hSome _
    rcases hIndexed vKey vIndex hSome with ⟨rfl, rfl⟩ | ⟨rfl, rfl⟩
    · -- the old record of `[4]` is read before the key goes over
      refine ⟨by decide +kernel, by decide, fun _ => ⟨⟨[3], hSome, by decide⟩, fun hMem => ?_⟩⟩
      rw [← ExtTreeSet.mem_toList, hBare] at hMem
      cases hMem
    · refine ⟨by decide +kernel, by decide, ?_⟩
      intro ⟨vOther, hOther, _⟩
      rcases hIndexed [2] vOther hOther with ⟨hNot, -⟩ | ⟨hNot, -⟩
      · cases hNot
      · cases hNot
  · intro vKey vIndex hSome
    rcases hIndexed vKey vIndex hSome with ⟨rfl, rfl⟩ | ⟨rfl, rfl⟩
    · exact ⟨by decide +kernel, .inr (.inr (by decide))⟩
    · exact ⟨by decide +kernel, .inl (by decide +kernel)⟩
  · intro vKey vData hSome
    obtain ⟨rfl, rfl⟩ := hWritten vKey vData hSome
    decide
  · intro vKey vData key hSome hPlace
    obtain ⟨rfl, rfl⟩ := hWritten vKey vData hSome
    cases hPlace.2.1
  · unfold SectorDatabase.Roomy
    decide +kernel

/-- The commit of `replaceCalls` keeps what they showed. -/
theorem commit_keeps_replaced :
    ∃ db'', replaced.TxnCommit mapCache = .ok db'' ∧ ∀ vKey, True →
      db''.Exists mapCache vKey = replaced.Exists mapCache vKey ∧
        (db''.Read mapCache vKey).map Prod.fst = (replaced.Read mapCache vKey).map Prod.fst :=
  commit_keeps mapCache_lawful twoRecords_coherent (fun _ _ _ _ => trivial) rfl
    replaced_committable

/-- A key that is written and erased again was never stored, and the commit stops at it. -/
theorem commit_unstored :
    Coherent mapCache (fun _ => True) twoRecords ∧
      ∃ db', runCalls mapCache [.write [7] [70], .erase [7]] twoRecords.TxnBegin = .ok db' ∧
        (db'.TxnCommit mapCache).isOk = false :=
  ⟨twoRecords_coherent, _, rfl, by decide +kernel⟩

end Nexus.Safety
