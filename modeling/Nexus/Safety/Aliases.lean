import Nexus.LLD.BinaryLRU
import Nexus.Safety.Commits

/-!
# Index keys

An index copies the place of its target.  The two keys read the same for as long as neither moves,
and no erasure passes by what the cache holds for one of them.  A write in place does not: of the
keys of one place the cache holds only one.

## Main results

* `alias_faithful` — over runs whose calls leave the places of the live indexes alone and blank no
  record of theirs that is cached, an index reads as its target, and erasing it leaves the target.
-/

namespace Nexus.Safety

open Nexus.Lib.Checked
open Nexus.LLD
open Nexus.LLD.SectorDatabase

/-- The calls of a database without a transaction. -/
inductive DatabaseCall where
  | write (vKey vData : Bytes)
  | index (vKey vIndex : Bytes)
  | erase (vKey : Bytes)
  | read (vKey : Bytes)

namespace DatabaseCall

def keys : DatabaseCall → List Bytes
  | write vKey _ => [vKey]
  | index vKey vIndex => [vKey, vIndex]
  | erase vKey => [vKey]
  | read vKey => [vKey]

/-- The database that a call leaves, also when it returns `false` or throws. -/
def leaves {γ : Type} (cache : CacheType γ) (db : SectorDatabase γ) :
    DatabaseCall → SectorDatabase γ
  | write vKey vData => db.Force cache vKey vData
  | index vKey vIndex =>
      match db.call cache (.index vKey vIndex) with
      | .ok db' => db'
      | .error _ => db
  | erase vKey =>
      match db.call cache (.erase vKey) with
      | .ok db' => db'
      | .error _ => { db with
          cachePool := cache.Remove db.cachePool vKey
          pSectorKeys := Function.update db.pSectorKeys vKey none }
  | read vKey =>
      match db.Read cache vKey with
      | .ok (_, db') => db'
      | .error _ => { db with cachePool := (cache.Get db.cachePool vKey).2 }

end DatabaseCall

/-! ## Live indexes -/

/-- The target of a key whose last call is an `Index` that succeeded, until the target is
erased. -/
abbrev Links := Bytes → Option Bytes

section Links

variable {γ : Type} (cache : CacheType γ) (db : SectorDatabase γ) (links : Links)

def Links.next : DatabaseCall → Links
  | .write vKey _ => Function.update links vKey none
  | .index vKey vIndex =>
      if (db.pSectorKeys vIndex).isSome then Function.update links vKey (some vIndex) else links
  | .erase vKey => fun vKey' => if vKey' = vKey ∨ links vKey' = some vKey then none else links vKey'
  | .read _ => links

/-- A key is a live index or the target of one. -/
def Links.Involved (vKey : Bytes) : Prop :=
  (links vKey).isSome ∨ ∃ vKey', links vKey' = some vKey

/-- A call keeps the live indexes at their places, and blanks no record behind the cache. -/
def DatabaseCall.Harmless : DatabaseCall → Prop
  | .write vKey vData =>
      recordSize vData < 2 ^ 31 ∧ db.Roomy 1 ∧
        ((∃ vKey', vKey' ≠ vKey ∧ links vKey' = some vKey) →
          Regular vData ∧ ∃ key, db.InPlace vKey vData key)
  | .index vKey vIndex =>
      ∀ vKey', vKey' ≠ vKey → links vKey' = some vKey → ∀ key key',
        db.pSectorKeys vKey = some key → db.pSectorKeys vIndex = some key' →
          key'.place = key.place ∧ key'.nSectorSize = key.nSectorSize
  | .erase vKey =>
      (∀ vKey' key key', (Links.next db links (.erase vKey)).Involved vKey' →
        db.pSectorKeys vKey = some key → db.pSectorKeys vKey' = some key' →
          key'.place = key.place → cache.held (cache.Remove db.cachePool vKey) vKey' = none) ∧
        ∀ vIndex, links vKey = some vIndex → vIndex ≠ vKey →
          cache.held (cache.Remove db.cachePool vKey) vIndex ≠ none
  | .read _ => True

end Links

/-- The databases that are reached from an empty one by harmless calls about the given keys. -/
inductive AliasRun {γ : Type} (cache : CacheType γ) (Key : Bytes → Prop) :
    SectorDatabase γ → Links → Prop
  | start {pool : γ} : (∀ vKey, Key vKey → cache.held pool vKey = none) →
      AliasRun cache Key { cachePool := pool } fun _ => none
  | step {db : SectorDatabase γ} {links : Links} {c : DatabaseCall} :
      AliasRun cache Key db links → (∀ vKey ∈ c.keys, Key vKey) → c.Harmless cache db links →
        AliasRun cache Key (c.leaves cache db) (links.next db c)

/-! ## The invariant -/

/-- The entries of two keys lead to one record. -/
def SameRecord {γ : Type} (db : SectorDatabase γ) (vKey vIndex : Bytes) : Prop :=
  ∃ key key', db.pSectorKeys vKey = some key ∧ db.pSectorKeys vIndex = some key' ∧
    key.place = key'.place ∧ key.nSectorSize = key'.nSectorSize

/-- Live indexes share the record of their target, and the cache is right about both. -/
structure Linked {γ : Type} (cache : CacheType γ) (Key : Bytes → Prop)
    (At : γ → Bytes → UInt32 × UInt32 → Prop) (db : SectorDatabase γ) (links : Links) : Prop where
  closed : db.pTransaction = none
  named : ∀ vKey key, db.pSectorKeys vKey = some key → Key vKey ∧
    key.SetKey vKey = key ∧ key.nSectorSize ≠ 0 ∧ placeNat key.place < db.cursor
  shared : ∀ vKey vIndex, links vKey = some vIndex → SameRecord db vKey vIndex
  cached : ∀ vKey vData, links.Involved vKey → cache.held db.cachePool vKey = some vData →
    onDisk db vKey = .ok vData
  placed : ∀ vKey, Key vKey → cache.held db.cachePool vKey ≠ none →
    ∃ key, db.pSectorKeys vKey = some key ∧ At db.cachePool vKey key.place

section Steps

variable {γ : Type} {cache : CacheType γ} {Key : Bytes → Prop}
variable {At : γ → Bytes → UInt32 × UInt32 → Prop} {db db' : SectorDatabase γ}
variable {links links' : Links} {vKey vKey' vIndex vData : Bytes} {key : SectorKey}

theorem onDisk_eq_ok : onDisk db vKey = .ok vData ↔
    ∃ key, db.pSectorKeys vKey = some key ∧ db.readSector key = .ok vData := by
  simp only [onDisk, bind_eq_ok, demand_eq_ok]

/-- The value on disk of a key depends on its entry and its record. -/
theorem onDisk_congr (hEntry : db'.pSectorKeys vKey = db.pSectorKeys vKey)
    (hSector : ∀ key, db.pSectorKeys vKey = some key →
      db'.sectors key.place = db.sectors key.place) :
    onDisk db' vKey = onDisk db vKey := by
  unfold onDisk
  rw [hEntry]
  cases hStored : db.pSectorKeys vKey with
  | none => rfl
  | some key => exact readSector_congr rfl fun _ => hSector key hStored

/-- Keys with one record have one value on disk. -/
theorem SameRecord.onDisk (h : SameRecord db vKey vIndex) :
    onDisk db vKey = onDisk db vIndex := by
  obtain ⟨key, key', hStored, hStored', hPlace, hSize⟩ := h
  rw [Nexus.Safety.onDisk, Nexus.Safety.onDisk, hStored, hStored', demand_some, demand_some]
  exact readSector_congr hSize fun _ => by rw [hPlace]

theorem SameRecord.symm (h : SameRecord db vKey vIndex) : SameRecord db vIndex vKey := by
  obtain ⟨key, key', hStored, hStored', hPlace, hSize⟩ := h
  exact ⟨key', key, hStored', hStored, hPlace.symm, hSize.symm⟩

theorem SameRecord.congr (h : SameRecord db vKey vIndex)
    (hKey : db'.pSectorKeys vKey = db.pSectorKeys vKey)
    (hIndex : db'.pSectorKeys vIndex = db.pSectorKeys vIndex) : SameRecord db' vKey vIndex := by
  obtain ⟨key, key', hStored, hStored', hSame⟩ := h
  exact ⟨key, key', hKey.trans hStored, hIndex.trans hStored', hSame⟩

/-- Both keys of a live index are stored. -/
theorem Linked.stored (h : Linked cache Key At db links) (hIn : links.Involved vKey) :
    ∃ key, db.pSectorKeys vKey = some key := by
  cases hIn with
  | inl hSome =>
      obtain ⟨vIndex, hLink⟩ := Option.isSome_iff_exists.mp hSome
      obtain ⟨key, _, hStored, _⟩ := h.shared vKey vIndex hLink
      exact ⟨key, hStored⟩
  | inr hTarget =>
      obtain ⟨vKey', hLink⟩ := hTarget
      obtain ⟨_, key, _, hStored, _⟩ := h.shared vKey' vKey hLink
      exact ⟨key, hStored⟩

/-- A call that leaves the keys of the live indexes, and what is on disk or in the cache about
them. -/
theorem Linked.frame (h : Linked cache Key At db links) (hClosed : db'.pTransaction = none)
    (hNamed : ∀ vKey key, db'.pSectorKeys vKey = some key → Key vKey ∧
      key.SetKey vKey = key ∧ key.nSectorSize ≠ 0 ∧ placeNat key.place < db'.cursor)
    (hLinks : ∀ vKey vIndex, links' vKey = some vIndex → links vKey = some vIndex)
    (hKeys : ∀ vKey, links'.Involved vKey → db'.pSectorKeys vKey = db.pSectorKeys vKey)
    (hCached : ∀ vKey vData key, links'.Involved vKey → db.pSectorKeys vKey = some key →
      cache.held db'.cachePool vKey = some vData →
        (cache.held db.cachePool vKey = some vData ∧
          db'.sectors key.place = db.sectors key.place) ∨ onDisk db' vKey = .ok vData)
    (hPlaced : ∀ vKey, Key vKey → cache.held db'.cachePool vKey ≠ none →
      ∃ key, db'.pSectorKeys vKey = some key ∧ At db'.cachePool vKey key.place) :
    Linked cache Key At db' links' := by
  have hInvolved : ∀ vKey, links'.Involved vKey → links.Involved vKey := by
    intro vKey hIn
    cases hIn with
    | inl hSome =>
        obtain ⟨vIndex, hLink⟩ := Option.isSome_iff_exists.mp hSome
        exact .inl (by rw [hLinks vKey vIndex hLink]; rfl)
    | inr hTarget =>
        obtain ⟨vKey', hLink⟩ := hTarget
        exact .inr ⟨vKey', hLinks vKey' vKey hLink⟩
  exact
    { closed := hClosed
      named := hNamed
      shared := fun vKey vIndex hLink =>
        (h.shared vKey vIndex (hLinks vKey vIndex hLink)).congr
          (hKeys vKey (.inl (by rw [hLink]; rfl))) (hKeys vIndex (.inr ⟨vKey, hLink⟩))
      cached := by
        intro vKey vData hIn hHeld
        obtain ⟨key, hStored⟩ := h.stored (hInvolved vKey hIn)
        cases hCached vKey vData key hIn hStored hHeld with
        | inr hDisk => exact hDisk
        | inl hSame =>
            rw [← h.cached vKey vData (hInvolved vKey hIn) hSame.1]
            apply onDisk_congr (hKeys vKey hIn)
            intro key' hStored'
            rw [hStored] at hStored'
            cases hStored'
            exact hSame.2
      placed := hPlaced }

/-- What is cached after a put is under the place of its entry. -/
theorem placed_put {pool : γ} {cKey : SectorKey} {keys : Bytes → Option SectorKey}
    (hLawful : cache.ByPlace Key At) (hKey : Key vKey) (hKey' : Key vKey')
    (hEntry : keys vKey = some cKey)
    (hHeld : cache.held (cache.Put pool cKey vKey vData) vKey' ≠ none)
    (hBefore : cache.held pool vKey' ≠ none → ∃ key, keys vKey' = some key ∧
      At pool vKey' key.place) :
    ∃ key, keys vKey' = some key ∧ At (cache.Put pool cKey vKey vData) vKey' key.place := by
  by_cases hSame : vKey' = vKey
  · subst hSame
    exact ⟨cKey, hEntry, hLawful.put_at _ _ _ _ hKey hHeld⟩
  · have hThere : cache.held pool vKey' ≠ none := fun hNone =>
      hHeld ((hLawful.put_other _ _ _ _ _ hKey hKey' hSame).elim id fun hEq => hEq.trans hNone)
    obtain ⟨key, hStored, hAt⟩ := hBefore hThere
    exact ⟨key, hStored, hLawful.put_keeps _ _ _ _ _ _ hKey hKey' hSame hHeld hAt⟩

/-- What is cached after a removal is under the place of its entry. -/
theorem placed_remove {pool : γ} {keys keys' : Bytes → Option SectorKey}
    (hLawful : cache.ByPlace Key At) (hKey : Key vKey) (hKey' : Key vKey')
    (hEntry : vKey' ≠ vKey → keys' vKey' = keys vKey')
    (hHeld : cache.held (cache.Remove pool vKey) vKey' ≠ none)
    (hBefore : cache.held pool vKey' ≠ none → ∃ key, keys vKey' = some key ∧
      At pool vKey' key.place) :
    ∃ key, keys' vKey' = some key ∧ At (cache.Remove pool vKey) vKey' key.place := by
  have hNe : vKey' ≠ vKey := by
    intro hSame
    rw [hSame] at hHeld
    exact hHeld (hLawful.remove _ _ hKey)
  have hThere : cache.held pool vKey' ≠ none := fun hNone =>
    hHeld ((hLawful.remove_other _ _ _ hKey hKey').elim id fun hEq => hEq.trans hNone)
  obtain ⟨key, hStored, hAt⟩ := hBefore hThere
  exact ⟨key, (hEntry hNe).trans hStored,
    hLawful.remove_keeps _ _ _ _ hKey hKey' hHeld hAt⟩

/-- Reading caches what is on disk. -/
theorem Linked.read (hLawful : cache.ByPlace Key At) (h : Linked cache Key At db links)
    (hKey : Key vKey) :
    Linked cache Key At (DatabaseCall.leaves cache db (.read vKey)) links := by
  have hPool : ∃ pool, DatabaseCall.leaves cache db (.read vKey) = { db with cachePool := pool } ∧
      (∀ vOther vData, Key vOther → cache.held pool vOther = some vData →
        cache.held db.cachePool vOther = some vData ∨ onDisk db vOther = .ok vData) ∧
      ∀ vOther, Key vOther → cache.held pool vOther ≠ none →
        ∃ key, db.pSectorKeys vOther = some key ∧ At pool vOther key.place := by
    have hKept : ∀ vOther, Key vOther → cache.held (cache.Get db.cachePool vKey).2 vOther ≠ none →
        ∃ key, db.pSectorKeys vOther = some key ∧
          At (cache.Get db.cachePool vKey).2 vOther key.place := by
      intro vOther hOther hHeld
      obtain ⟨key, hStored, hAt⟩ := h.placed vOther hOther fun hNone =>
        hHeld ((hLawful.get _ _ _ hKey hOther).trans hNone)
      exact ⟨key, hStored, hLawful.get_keeps _ _ _ _ hKey hOther hHeld hAt⟩
    have hSame : ∀ vOther vData, Key vOther →
        cache.held (cache.Get db.cachePool vKey).2 vOther = some vData →
        cache.held db.cachePool vOther = some vData := by
      intro vOther vData hOther hHeld
      rw [← hLawful.get _ _ _ hKey hOther]
      exact hHeld
    simp only [DatabaseCall.leaves, SectorDatabase.Read, h.closed, SectorDatabase.Get]
    generalize hAnswer : cache.Get db.cachePool vKey = answer at hSame hKept
    obtain ⟨vHeld, pool⟩ := answer
    cases vHeld with
    | some vData =>
        exact ⟨pool, rfl, fun vOther vData hOther hHeld =>
          .inl (hSame vOther vData hOther hHeld), hKept⟩
    | none =>
        cases hStored : db.pSectorKeys vKey with
        | none =>
            exact ⟨pool, rfl, fun vOther vData hOther hHeld =>
              .inl (hSame vOther vData hOther hHeld), hKept⟩
        | some cKey =>
            simp only [demand_some, ok_bind]
            cases hRead : db.readSector cKey with
            | error e =>
                exact ⟨pool, rfl, fun vOther vData hOther hHeld =>
                  .inl (hSame vOther vData hOther hHeld), hKept⟩
            | ok vRead =>
                refine ⟨cache.Put pool cKey vKey vRead, rfl, ?_, fun vOther hOther hHeld =>
                  placed_put hLawful hKey hOther hStored hHeld (hKept vOther hOther)⟩
                intro vOther vData hOther hHeld
                by_cases hThis : vOther = vKey
                · subst hThis
                  cases hLawful.put pool cKey vOther vRead hKey with
                  | inl hNone =>
                      rw [hNone] at hHeld
                      cases hHeld
                  | inr hPut =>
                      rw [hPut] at hHeld
                      cases hHeld
                      exact .inr (onDisk_eq_ok.mpr ⟨cKey, hStored, hRead⟩)
                · cases hLawful.put_other pool cKey vKey vRead vOther hKey hOther hThis with
                  | inl hNone =>
                      rw [hNone] at hHeld
                      cases hHeld
                  | inr hLeft =>
                      rw [hLeft] at hHeld
                      exact .inl (hSame vOther vData hOther hHeld)
  obtain ⟨pool, hLeaves, hHeld, hPlaced⟩ := hPool
  rw [hLeaves]
  refine h.frame h.closed h.named (fun _ _ hLink => hLink) (fun _ _ => rfl) ?_ hPlaced
  intro vOther vData key hIn hStored hCached
  cases hHeld vOther vData (h.named vOther key hStored).1 hCached with
  | inl hBefore => exact .inl ⟨hBefore, rfl⟩
  | inr hDisk => exact .inr hDisk

/-- An index is put at the place of its target, and both are dropped from the cache. -/
theorem Linked.index (hLawful : cache.ByPlace Key At) (h : Linked cache Key At db links)
    (hKey : Key vKey) (hTarget : Key vIndex)
    (hHarmless : DatabaseCall.Harmless cache db links (.index vKey vIndex)) :
    Linked cache Key At (DatabaseCall.leaves cache db (.index vKey vIndex))
      (Links.next db links (.index vKey vIndex)) := by
  cases hStored : db.pSectorKeys vIndex with
  | none =>
      have hFails : ¬ (db.pSectorKeys vIndex).isSome := by
        rw [hStored]
        exact Bool.false_ne_true
      simp only [DatabaseCall.leaves, SectorDatabase.call, h.closed, hStored, demand, error_bind,
        Links.next]
      exact h
  | some key =>
      have hSome : (db.pSectorKeys vIndex).isSome := by
        rw [hStored]
        rfl
      have hLeaves : DatabaseCall.leaves cache db (.index vKey vIndex) = { db with
          cachePool := cache.Remove (cache.Remove db.cachePool vIndex) vKey
          pSectorKeys := Function.update db.pSectorKeys vKey (some (key.SetKey vKey)) } := by
        simp only [DatabaseCall.leaves, SectorDatabase.call, h.closed, hStored, demand_some,
          ok_bind]
        rfl
      rw [hLeaves, Links.next, if_pos hSome]
      -- keys at the place of the new index, if one of the two leads to it
      have hMoved : ∀ vOther, links vOther = some vKey → vOther ≠ vKey →
          SameRecord { db with
            pSectorKeys := Function.update db.pSectorKeys vKey (some (key.SetKey vKey)) }
            vOther vKey := by
        intro vOther hLink hNe
        obtain ⟨keyOther, keyOld, hOther, hOld, hPlace, hSize⟩ := h.shared vOther vKey hLink
        obtain ⟨hSame, hSameSize⟩ := hHarmless vOther hNe hLink keyOld key hOld hStored
        exact ⟨keyOther, key.SetKey vKey, (Function.update_of_ne hNe _ _).trans hOther,
          Function.update_self _ _ _, hPlace.trans hSame.symm, hSize.trans hSameSize.symm⟩
      have hNew : SameRecord { db with
          pSectorKeys := Function.update db.pSectorKeys vKey (some (key.SetKey vKey)) }
          vKey vIndex := by
        by_cases hSelf : vIndex = vKey
        · rw [hSelf]
          exact ⟨key.SetKey vKey, key.SetKey vKey, Function.update_self _ _ _,
            Function.update_self _ _ _, rfl, rfl⟩
        · exact ⟨key.SetKey vKey, key, Function.update_self _ _ _,
            (Function.update_of_ne hSelf _ _).trans hStored, rfl, rfl⟩
      constructor
      · exact h.closed
      · intro vOther keyOther hOther
        by_cases hSame : vOther = vKey
        · subst hSame
          simp only [Function.update_self, Option.some.injEq] at hOther
          subst hOther
          obtain ⟨-, -, hNonzero, hBelow⟩ := h.named vIndex key hStored
          exact ⟨hKey, rfl, hNonzero, hBelow⟩
        · simp only [Function.update_of_ne hSame] at hOther
          exact h.named vOther keyOther hOther
      · intro vOther vTarget hLink
        by_cases hSame : vOther = vKey
        · subst hSame
          rw [Function.update_self] at hLink
          cases hLink
          exact hNew
        · rw [Function.update_of_ne hSame] at hLink
          by_cases hThis : vTarget = vKey
          · rw [hThis] at hLink ⊢
            exact hMoved vOther hLink hSame
          · exact (h.shared vOther vTarget hLink).congr (Function.update_of_ne hSame _ _)
              (Function.update_of_ne hThis _ _)
      · intro vOther vData hIn hHeld
        have hDropped : ∀ v, Key v → v ≠ vKey → v ≠ vIndex →
            cache.held (cache.Remove (cache.Remove db.cachePool vIndex) vKey) v = some vData →
            cache.held db.cachePool v = some vData := by
          intro v hV _ _ hCached
          cases hLawful.remove_other (cache.Remove db.cachePool vIndex) vKey v hKey hV with
          | inl hNone =>
              rw [hNone] at hCached
              cases hCached
          | inr hKept =>
              rw [hKept] at hCached
              cases hLawful.remove_other db.cachePool vIndex v hTarget hV with
              | inl hNone =>
                  rw [hNone] at hCached
                  cases hCached
              | inr hKept' =>
                  rw [hKept'] at hCached
                  exact hCached
        by_cases hSame : vOther = vKey
        · rw [hSame] at hHeld
          rw [hLawful.remove _ _ hKey] at hHeld
          cases hHeld
        · by_cases hThis : vOther = vIndex
          · rw [hThis] at hHeld
            cases hLawful.remove_other (cache.Remove db.cachePool vIndex) vKey vIndex hKey
                hTarget with
            | inl hNone =>
                rw [hNone] at hHeld
                cases hHeld
            | inr hKept =>
                rw [hKept, hLawful.remove _ _ hTarget] at hHeld
                cases hHeld
          · have hBefore : links.Involved vOther := by
              cases hIn with
              | inl hLinked =>
                  rw [Function.update_of_ne hSame] at hLinked
                  exact .inl hLinked
              | inr hTo =>
                  obtain ⟨vFrom, hLink⟩ := hTo
                  by_cases hFrom : vFrom = vKey
                  · rw [hFrom, Function.update_self] at hLink
                    exact absurd (Option.some.inj hLink).symm hThis
                  · rw [Function.update_of_ne hFrom] at hLink
                    exact .inr ⟨vFrom, hLink⟩
            obtain ⟨keyOther, hOther⟩ := h.stored hBefore
            have hV := (h.named vOther keyOther hOther).1
            rw [← h.cached vOther vData hBefore (hDropped vOther hV hSame hThis hHeld)]
            exact onDisk_congr (Function.update_of_ne hSame _ _) fun _ _ => rfl
      · intro vOther hOther hHeld
        apply placed_remove hLawful hKey hOther
          (fun hNe => Function.update_of_ne hNe _ db.pSectorKeys) hHeld
        intro hBetween
        exact placed_remove hLawful hTarget hOther (fun _ => rfl) hBetween (h.placed vOther hOther)

/-- What an erasure leaves. -/
theorem leaves_erase (hClosed : db.pTransaction = none) : ∃ sectors,
    DatabaseCall.leaves cache db (.erase vKey) = { db with
      cachePool := cache.Remove db.cachePool vKey
      pSectorKeys := Function.update db.pSectorKeys vKey none
      sectors := sectors } ∧
    ∀ place, (∀ key, db.pSectorKeys vKey = some key → key.place ≠ place) →
      sectors place = db.sectors place := by
  simp only [DatabaseCall.leaves, SectorDatabase.call, hClosed, SectorDatabase.Delete]
  cases hStored : db.pSectorKeys vKey with
  | none => exact ⟨db.sectors, rfl, fun _ _ => rfl⟩
  | some key =>
      simp only [demand_some, ok_bind]
      by_cases hBare : key.keychainOnly
      · rw [if_pos hBare]
        exact ⟨db.sectors, rfl, fun _ _ => rfl⟩
      · rw [if_neg hBare]
        cases hRecord : db.sectors key.place with
        | none => exact ⟨db.sectors, rfl, fun _ _ => rfl⟩
        | some vData =>
            simp only [demand_some, ok_bind]
            by_cases hLarge : Nexus.Util.Stream.MAX_SIZE < vData.length
            · simp only [reject, if_pos hLarge, error_bind]
              exact ⟨db.sectors, rfl, fun _ _ => rfl⟩
            · simp only [reject, if_neg hLarge, ok_bind]
              exact ⟨_, rfl, fun place hApart =>
                Function.update_of_ne (hApart key rfl).symm _ _⟩

theorem Linked.erase (hLawful : cache.ByPlace Key At) (h : Linked cache Key At db links)
    (hKey : Key vKey)
    (hHarmless : DatabaseCall.Harmless cache db links (.erase vKey)) :
    Linked cache Key At (DatabaseCall.leaves cache db (.erase vKey))
      (Links.next db links (.erase vKey)) := by
  obtain ⟨sectors, hLeaves, hApart⟩ := @leaves_erase _ cache db vKey h.closed
  have hLinks : ∀ vOther vTarget, Links.next db links (.erase vKey) vOther = some vTarget →
      links vOther = some vTarget ∧ vOther ≠ vKey ∧ vTarget ≠ vKey := by
    intro vOther vTarget hLink
    simp only [Links.next] at hLink
    split at hLink
    · cases hLink
    · rename_i hNot
      refine ⟨hLink, fun hSame => hNot (.inl hSame), fun hSame => hNot (.inr ?_)⟩
      rw [hLink, hSame]
  have hInvolved : ∀ vOther, (Links.next db links (.erase vKey)).Involved vOther →
      vOther ≠ vKey := by
    intro vOther hIn
    cases hIn with
    | inl hSome =>
        obtain ⟨vTarget, hLink⟩ := Option.isSome_iff_exists.mp hSome
        exact (hLinks vOther vTarget hLink).2.1
    | inr hTo =>
        obtain ⟨vFrom, hLink⟩ := hTo
        exact (hLinks vFrom vOther hLink).2.2
  rw [hLeaves]
  apply h.frame
  · exact h.closed
  · intro vOther keyOther hOther
    by_cases hSame : vOther = vKey
    · subst hSame
      simp only [Function.update_self, reduceCtorEq] at hOther
    · simp only [Function.update_of_ne hSame] at hOther
      exact h.named vOther keyOther hOther
  · exact fun vOther vTarget hLink => (hLinks vOther vTarget hLink).1
  · exact fun vOther hIn => Function.update_of_ne (hInvolved vOther hIn) _ _
  · intro vOther vData keyOther hIn hOther hHeld
    have hV := (h.named vOther keyOther hOther).1
    have hBefore : cache.held db.cachePool vOther = some vData := by
      cases hLawful.remove_other db.cachePool vKey vOther hKey hV with
      | inl hNone =>
          rw [hNone] at hHeld
          cases hHeld
      | inr hKept =>
          rw [hKept] at hHeld
          exact hHeld
    refine .inl ⟨hBefore, hApart _ fun key hStored hPlace => ?_⟩
    rw [hHarmless.1 vOther key keyOther hIn hStored hOther hPlace.symm] at hHeld
    cases hHeld
  · intro vOther hOther hHeld
    exact placed_remove hLawful hKey hOther
      (fun hNe => Function.update_of_ne hNe _ db.pSectorKeys) hHeld (h.placed vOther hOther)

/-- A write in place, or at a new place for a key that no other is indexed to. -/
theorem Linked.write (hLawful : cache.ByPlace Key At) (h : Linked cache Key At db links)
    (hKey : Key vKey) (hHarmless : DatabaseCall.Harmless cache db links (.write vKey vData)) :
    Linked cache Key At (DatabaseCall.leaves cache db (.write vKey vData))
      (Links.next db links (.write vKey vData)) := by
  obtain ⟨hSize, hRoom, hAliased⟩ := hHarmless
  have hLinks : ∀ vOther vTarget, Links.next db links (.write vKey vData) vOther = some vTarget →
      links vOther = some vTarget ∧ vOther ≠ vKey := by
    intro vOther vTarget hLink
    by_cases hSame : vOther = vKey
    · rw [hSame, Links.next, Function.update_self] at hLink
      cases hLink
    · rw [Links.next, Function.update_of_ne hSame] at hLink
      exact ⟨hLink, hSame⟩
  have hAlias : (Links.next db links (.write vKey vData)).Involved vKey →
      ∃ vOther, vOther ≠ vKey ∧ links vOther = some vKey := by
    intro hIn
    cases hIn with
    | inl hSome =>
        rw [Links.next, Function.update_self] at hSome
        cases hSome
    | inr hTo =>
        obtain ⟨vFrom, hLink⟩ := hTo
        obtain ⟨hLink', hNe⟩ := hLinks vFrom vKey hLink
        exact ⟨vFrom, hNe, hLink'⟩
  obtain ⟨key, hEntry, hKeySize, hName, hRecord, hBelow, hWhere⟩ :=
    @Force_written _ cache db vKey vData 0 hRoom hSize fun key hStored =>
      ⟨(h.named vKey key hStored).2.1, fun _ => (h.named vKey key hStored).2.2.2⟩
  have hCursor := (@Force_cursor _ cache db vKey vData 0 hRoom hSize).1
  apply h.frame
  · exact Force_transaction.trans h.closed
  · intro vOther keyOther hOther
    by_cases hSame : vOther = vKey
    · subst hSame
      rw [DatabaseCall.leaves, hEntry] at hOther
      cases hOther
      refine ⟨hKey, hName, ?_, hBelow⟩
      intro hZero
      have hPos := @recordSize_pos vData
      rw [hZero, UInt32.toNat_zero] at hKeySize
      omega
    · rw [DatabaseCall.leaves, Force_keys_other hSame] at hOther
      obtain ⟨hV, hOtherName, hNonzero, hPlace⟩ := h.named vOther keyOther hOther
      exact ⟨hV, hOtherName, hNonzero, Nat.lt_of_lt_of_le hPlace hCursor⟩
  · exact fun vOther vTarget hLink => (hLinks vOther vTarget hLink).1
  · intro vOther hIn
    by_cases hSame : vOther = vKey
    · subst hSame
      obtain ⟨-, keyOld, hPlace⟩ := hAliased (hAlias hIn)
      rw [DatabaseCall.leaves, Force_inPlace hPlace]
    · exact Force_keys_other hSame
  · intro vOther vOld keyOther hIn hOther hHeld
    by_cases hSame : vOther = vKey
    · subst hSame
      obtain ⟨hRegular, -⟩ := hAliased (hAlias hIn)
      right
      cases @Force_held_self _ cache Key db vOther vData hLawful.toLawful hKey with
      | inl hNone =>
          rw [DatabaseCall.leaves, hNone] at hHeld
          cases hHeld
      | inr hPut =>
          rw [DatabaseCall.leaves, hPut] at hHeld
          cases hHeld
          exact onDisk_eq_ok.mpr ⟨key, hEntry, readSector_stored hRegular hKeySize hRecord⟩
    · obtain ⟨hV, -, -, hUsed⟩ := h.named vOther keyOther hOther
      have hBefore : cache.held db.cachePool vOther = some vOld := by
        cases @Force_held_other _ cache Key db vKey vOther vData hLawful.toLawful hKey hV hSame with
        | inl hNone =>
            rw [DatabaseCall.leaves, hNone] at hHeld
            cases hHeld
        | inr hKept =>
            rw [DatabaseCall.leaves, hKept] at hHeld
            exact hHeld
      refine .inl ⟨hBefore, Force_sectors hRoom hSize hUsed fun keyHere hPlace hEq => ?_⟩
      -- what is cached at the place was taken over by the key that is written
      have hStill : cache.held (Force cache db vKey vData).cachePool vOther ≠ none := by
        rw [DatabaseCall.leaves] at hHeld
        rw [hHeld]
        exact Option.some_ne_none _
      rw [Force_inPlace hPlace] at hStill
      have hThere : cache.held db.cachePool vOther ≠ none := by
        rw [hBefore]
        exact Option.some_ne_none _
      obtain ⟨keyAt, hStored, hAt⟩ := h.placed vOther hV hThere
      rw [hOther] at hStored
      cases hStored
      rw [← hEq] at hAt
      exact hLawful.put_apart _ _ _ _ _ hKey hV hSame hStill hAt
  · intro vOther hOther hHeld
    obtain ⟨keyPut, hPut, hPool⟩ := @Force_pool _ cache db vKey vData
    rw [DatabaseCall.leaves] at hHeld ⊢
    rw [hPool] at hHeld ⊢
    by_cases hSame : vOther = vKey
    · subst hSame
      exact ⟨keyPut, hPut, hLawful.put_at _ _ _ _ hKey hHeld⟩
    · rw [Force_keys_other hSame]
      have hThere : cache.held db.cachePool vOther ≠ none := fun hNone =>
        hHeld ((hLawful.put_other _ _ _ _ _ hKey hOther hSame).elim id
          fun hEq => hEq.trans hNone)
      obtain ⟨key', hStored, hAt⟩ := h.placed vOther hOther hThere
      exact ⟨key', hStored, hLawful.put_keeps _ _ _ _ _ _ hKey hOther hSame hHeld hAt⟩

end Steps

/-! ## Runs -/

section Run

variable {γ : Type} {cache : CacheType γ} {Key : Bytes → Prop}
variable {At : γ → Bytes → UInt32 × UInt32 → Prop} {db : SectorDatabase γ}
variable {links : Links} {vKey vIndex : Bytes}

theorem AliasRun.linked (hLawful : cache.ByPlace Key At) (h : AliasRun cache Key db links) :
    Linked cache Key At db links := by
  induction h with
  | start hEmpty =>
      constructor
      · rfl
      · intro vKey key hStored
        cases hStored
      · intro vKey vIndex hLink
        cases hLink
      · intro vKey vData hIn
        cases hIn with
        | inl hSome => cases hSome
        | inr hTo =>
            obtain ⟨vFrom, hLink⟩ := hTo
            cases hLink
      · intro vKey hKey hHeld
        exact absurd (hEmpty vKey hKey) hHeld
  | @step db links c _ hKeys hHarmless ih =>
      cases c with
      | write vKey vData => exact ih.write hLawful (hKeys vKey List.mem_cons_self) hHarmless
      | index vKey vIndex =>
          exact ih.index hLawful (hKeys vKey List.mem_cons_self)
            (hKeys vIndex (List.mem_cons_of_mem _ List.mem_cons_self)) hHarmless
      | erase vKey => exact ih.erase hLawful (hKeys vKey List.mem_cons_self) hHarmless
      | read vKey => exact ih.read hLawful (hKeys vKey List.mem_cons_self)

/-- `Read` of a key of a live index. -/
theorem Linked.reads (h : Linked cache Key At db links) (hIn : links.Involved vKey) :
    (db.Read cache vKey).map Prod.fst = onDisk db vKey := by
  unfold SectorDatabase.Read
  simp only [h.closed]
  exact Get_map fun vData hHeld => h.cached vKey vData hIn hHeld

/-- In a run of harmless calls a live index reads as its target, and its erasure, if it is
harmless, leaves what the target reads. -/
theorem AliasRun.faithful (hLawful : cache.ByPlace Key At) (hRun : AliasRun cache Key db links)
    (hLink : links vKey = some vIndex) :
    (db.Read cache vKey).map Prod.fst = (db.Read cache vIndex).map Prod.fst ∧
      (vIndex ≠ vKey → DatabaseCall.Harmless cache db links (.erase vKey) →
        ((DatabaseCall.leaves cache db (.erase vKey)).Read cache vIndex).map Prod.fst =
          (db.Read cache vIndex).map Prod.fst) := by
  have h := hRun.linked hLawful
  have hHere : links.Involved vKey := .inl (by rw [hLink]; rfl)
  have hThere : links.Involved vIndex := .inr ⟨vKey, hLink⟩
  constructor
  · rw [h.reads hHere, h.reads hThere, (h.shared vKey vIndex hLink).onDisk]
  · intro hNe hHarmless
    obtain ⟨key, keyIndex, hStored, hTarget, -⟩ := h.shared vKey vIndex hLink
    obtain ⟨sectors, hLeaves, -⟩ := @leaves_erase _ cache db vKey h.closed
    have hStays := hHarmless.2 vIndex hLink hNe
    obtain ⟨vData, hHeld⟩ := Option.ne_none_iff_exists'.mp hStays
    have hBefore : cache.held db.cachePool vIndex = some vData := by
      cases hLawful.remove_other db.cachePool vKey vIndex (h.named vKey key hStored).1
          (h.named vIndex keyIndex hTarget).1 with
      | inl hNone => exact absurd hNone hStays
      | inr hKept => exact hKept.symm.trans hHeld
    have hAnswer : ∀ {db' : SectorDatabase γ}, db'.pTransaction = none →
        cache.held db'.cachePool vIndex = some vData →
          (db'.Read cache vIndex).map Prod.fst = .ok vData := by
      intro db' hClosed hCached
      unfold SectorDatabase.Read SectorDatabase.Get
      unfold CacheType.held at hCached
      simp only [hClosed]
      generalize cache.Get db'.cachePool vIndex = answer at hCached
      obtain ⟨vAnswer, pool⟩ := answer
      simp only at hCached
      rw [hCached]
      rfl
    rw [hAnswer h.closed hBefore, hLeaves]
    exact hAnswer h.closed hHeld

end Run

/-- The same with the cache of the databases, for keys whose hashes are apart. -/
theorem alias_faithful {cfg : LRUConfig} {Key : Bytes → Prop} {db : SectorDatabase BinaryLRU}
    {links : Links} {vKey vIndex : Bytes}
    (hApart : ∀ vKey vKey', Key vKey → Key vKey' → vKey' ≠ vKey →
      cfg.XXH64 vKey' ≠ cfg.XXH64 vKey)
    (hRun : AliasRun (binaryLRU cfg) Key db links) (hLink : links vKey = some vIndex) :
    (db.Read (binaryLRU cfg) vKey).map Prod.fst = (db.Read (binaryLRU cfg) vIndex).map Prod.fst ∧
      (vIndex ≠ vKey → DatabaseCall.Harmless (binaryLRU cfg) db links (.erase vKey) →
        ((DatabaseCall.leaves (binaryLRU cfg) db (.erase vKey)).Read (binaryLRU cfg) vIndex).map
            Prod.fst = (db.Read (binaryLRU cfg) vIndex).map Prod.fst) :=
  hRun.faithful (binaryLRU_byPlace cfg Key hApart) hLink

/-! ## One index -/

/-- Calls one after the other. -/
def afterCalls {γ : Type} (cache : CacheType γ) (cs : List DatabaseCall)
    (state : SectorDatabase γ × Links) : SectorDatabase γ × Links :=
  cs.foldl (fun state c => (c.leaves cache state.1, state.2.next state.1 c)) state

/-- A cache of one megabyte, with the first byte of a key for its hash. -/
def exampleCache : LRUConfig where
  XXH64 vKey := (vKey.headD 0).toUInt64
  MAX_CACHE_SIZE := 1024 * 1024
  MAX_CACHE_BUCKETS := 1024 * 1024 / 128

/-- Calls from an empty database on. -/
def fromEmpty (cs : List DatabaseCall) : SectorDatabase BinaryLRU × Links :=
  afterCalls (binaryLRU exampleCache) cs ({ cachePool := .new exampleCache }, fun _ => none)

/-- The keys of the example. -/
def exampleKeys (vKey : Bytes) : Prop := vKey ∈ [[1], [2]]

theorem fromEmpty_run :
    AliasRun (binaryLRU exampleCache) exampleKeys
      (fromEmpty [.write [1] [10], .index [2] [1], .read [1]]).1
      (fromEmpty [.write [1] [10], .index [2] [1], .read [1]]).2 := by
  have hStart : AliasRun (binaryLRU exampleCache) exampleKeys (fromEmpty []).1
      (fromEmpty []).2 :=
    .start fun _ _ => rfl
  have hWrite : AliasRun (binaryLRU exampleCache) exampleKeys (fromEmpty [.write [1] [10]]).1
      (fromEmpty [.write [1] [10]]).2 := by
    refine .step (c := .write [1] [10]) hStart (by unfold exampleKeys; decide)
      ⟨by decide, by unfold Roomy; decide, ?_⟩
    intro ⟨_, _, hLink⟩
    cases hLink
  have hIndex : AliasRun (binaryLRU exampleCache) exampleKeys
      (fromEmpty [.write [1] [10], .index [2] [1]]).1
      (fromEmpty [.write [1] [10], .index [2] [1]]).2 := by
    refine .step (c := .index [2] [1]) hWrite (by unfold exampleKeys; decide) ?_
    intro vKey _ hLink
    have hNone : (fromEmpty [.write [1] [10]]).2 = Function.update (fun _ => none) [1] none := rfl
    rw [hNone, Function.update_eq_self_iff.mpr rfl] at hLink
    cases hLink
  exact .step (c := .read [1]) hIndex (by unfold exampleKeys; decide) trivial

/-- No index is left behind the erasure of the only one, and its target stays in the cache. -/
theorem erase_harmless :
    DatabaseCall.Harmless (binaryLRU exampleCache)
      (fromEmpty [.write [1] [10], .index [2] [1], .read [1]]).1
      (fromEmpty [.write [1] [10], .index [2] [1], .read [1]]).2 (.erase [2]) := by
  have hBefore : (fromEmpty [.write [1] [10], .index [2] [1], .read [1]]).2 =
      Function.update (Function.update (fun _ => none) [1] none) [2] (some [1]) := rfl
  have hLinks : Links.next (fromEmpty [.write [1] [10], .index [2] [1], .read [1]]).1
      (fromEmpty [.write [1] [10], .index [2] [1], .read [1]]).2 (.erase [2]) = fun _ => none := by
    rw [hBefore]
    funext vKey
    by_cases hSame : vKey = [2]
    · exact if_pos (.inl hSame)
    · have hOther : Function.update (Function.update (fun _ => none) [1] none) [2] (some [1]) vKey =
          (none : Option Bytes) := by
        rw [Function.update_of_ne hSame, Function.update_eq_self_iff.mpr rfl]
      simp only [Links.next, hOther, ite_self]
  constructor
  · intro vKey key key' hInvolved
    rw [hLinks] at hInvolved
    rcases hInvolved with hSome | ⟨_, hLink⟩
    · cases hSome
    · cases hLink
  · intro vIndex hLink _
    have hTarget : (fromEmpty [.write [1] [10], .index [2] [1], .read [1]]).2 [2] = some [1] := by
      decide +kernel
    obtain rfl := Option.some.inj (hTarget.symm.trans hLink)
    decide +kernel

theorem alias_faithful_once :
    ((fromEmpty [.write [1] [10], .index [2] [1], .read [1]]).1.Read (binaryLRU exampleCache)
        [2]).map Prod.fst =
        ((fromEmpty [.write [1] [10], .index [2] [1], .read [1]]).1.Read
          (binaryLRU exampleCache) [1]).map Prod.fst ∧
      ((DatabaseCall.leaves (binaryLRU exampleCache)
          (fromEmpty [.write [1] [10], .index [2] [1], .read [1]]).1 (.erase [2])).Read
            (binaryLRU exampleCache) [1]).map Prod.fst =
        ((fromEmpty [.write [1] [10], .index [2] [1], .read [1]]).1.Read
          (binaryLRU exampleCache) [1]).map Prod.fst := by
  have hApart : ∀ v ∈ [[1], [2]], ∀ v' ∈ [[1], [2]], v' ≠ v →
      exampleCache.XXH64 v' ≠ exampleCache.XXH64 v := by decide
  have hLink : (fromEmpty [.write [1] [10], .index [2] [1], .read [1]]).2 [2] = some [1] := by
    decide +kernel
  obtain ⟨hRead, hErase⟩ := alias_faithful
    (fun vKey vKey' hKey hKey' hNe => hApart vKey hKey vKey' hKey' hNe) fromEmpty_run hLink
  exact ⟨hRead, hErase (by decide) erase_harmless⟩

/-- What a key reads after calls from an empty database on. -/
def readAfter (cs : List DatabaseCall) (vKey : Bytes) : Option Bytes :=
  (((fromEmpty cs).1.Read (binaryLRU exampleCache) vKey).map Prod.fst).toOption

/-- A target that is written with another size moves away from its index, and the erasure of an
index blanks the record of its target. -/
theorem alias_left_behind :
    ((fromEmpty [.write [1] [10], .index [2] [1], .write [1] [11, 12]]).2 [2] = some [1] ∧
      readAfter [.write [1] [10], .index [2] [1], .write [1] [11, 12]] [2] = some [10] ∧
      readAfter [.write [1] [10], .index [2] [1], .write [1] [11, 12]] [1] = some [11, 12]) ∧
    ((fromEmpty [.write [1] [10], .index [2] [1]]).2 [2] = some [1] ∧
      readAfter [.write [1] [10], .index [2] [1]] [1] = some [10] ∧
      readAfter [.write [1] [10], .index [2] [1], .erase [2]] [1] = some [4]) := by
  decide +kernel

end Nexus.Safety
