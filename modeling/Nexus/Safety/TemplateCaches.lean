import Nexus.LLD.TemplateLRU

/-!
# What the template cache holds

The template cache after any calls of `Put`, `Get`, `Has` and `Remove`, against the history of the
calls.

## Main results

* `templateLRU_exact` — for every capacity of at least one: no deleted node is read, the list has
  each key of the map once in the order of the last uses, `Get` answers with what was put last, and
  a key is dropped only if the map is full, when it is the one that was used before all others.
-/

namespace Nexus.Safety

open Nexus.LLD
open Nexus.LLD.TemplateLRU
open Nexus.Lib.Recency
open Std (TransCmp LawfulEqCmp)

variable {KeyType DataType Ptr : Type} [DecidableEq KeyType] [DecidableEq Ptr]
variable {cmp : KeyType → KeyType → Ordering} [TransCmp cmp]

/-- The caches that calls lead to, with the history of the calls, the last one in front.  The node
of a `Put` is created where no live node is. -/
inductive Reaches (nElements : UInt32) :
    List (Use KeyType DataType) → TemplateLRU KeyType DataType Ptr cmp → Prop
  | new : Reaches nElements [] (.new nElements)
  | Put {history lru lru'} (pnew : Ptr) (Key : KeyType) (Data : DataType) :
      Reaches nElements history lru → (lru.displace Key).nodes pnew = none →
      lru.Put pnew Key Data = some lru' → Reaches nElements (.put Key Data :: history) lru'
  | Get {history lru lru'} (Key : KeyType) (answer : Option DataType) :
      Reaches nElements history lru → lru.Get Key = some (answer, lru') →
      Reaches nElements (.get Key :: history) lru'
  | Has {history lru} (Key : KeyType) :
      Reaches nElements history lru → Reaches nElements (.has Key :: history) lru
  | Remove {history lru} (Key : KeyType) :
      Reaches nElements history lru →
      Reaches nElements (.remove Key :: history) (lru.Remove Key).2

/-- The keys of some nodes. -/
def keysOf (lru : TemplateLRU KeyType DataType Ptr cmp) (ps : List Ptr) : List KeyType :=
  (lru.entries ps).map Prod.fst

/-- A cache is an exact one of the keys that were used last. -/
structure ExactLRU (nElements : UInt32) (history : List (Use KeyType DataType))
    (lru : TemplateLRU KeyType DataType Ptr cmp) : Prop where
  /-- From `pfirst` on, the live nodes have each key of the map once, in the order of the last
  uses. -/
  list : ∃ ps, lru.links.Lists ps ∧ (∀ p, p ∈ ps ↔ (lru.nodes p).isSome) ∧ (keysOf lru ps).Nodup ∧
    (∀ Key, Key ∈ keysOf lru ps ↔ Key ∈ lru.cache) ∧
    (keysOf lru ps).Pairwise fun Key Key' => lastUse history Key' < lastUse history Key
  size : lru.cache.size ≤ nElements.toNat
  has : ∀ Key, lru.Has Key ↔ Key ∈ lru.cache
  get : ∀ Key, ∃ lru', lru.Get Key =
      some (if Key ∈ lru.cache then lastPut history Key else none, lru') ∧ lru'.cache = lru.cache
  remove : ∀ Key, ((lru.Remove Key).1 ↔ Key ∈ lru.cache) ∧
    ∀ Key', Key' ∈ (lru.Remove Key).2.cache ↔ Key' ∈ lru.cache ∧ Key' ≠ Key
  put : ∀ pnew Key Data, (lru.displace Key).nodes pnew = none →
    ∃ lru', lru.Put pnew Key Data = some lru' ∧
      (Key ∈ lru.cache ∨ lru.cache.size < nElements.toNat →
        ∀ Key', Key' ∈ lru'.cache ↔ Key' = Key ∨ Key' ∈ lru.cache) ∧
      (Key ∉ lru.cache → lru.cache.size = nElements.toNat →
        ∃ oldest ∈ lru.cache, (∀ Key' ∈ lru.cache, Key' ≠ oldest →
            lastUse history oldest < lastUse history Key') ∧
          ∀ Key', Key' ∈ lru'.cache ↔ Key' = Key ∨ (Key' ∈ lru.cache ∧ Key' ≠ oldest))

variable {nElements : UInt32} {history : List (Use KeyType DataType)}
variable {lru : TemplateLRU KeyType DataType Ptr cmp}

/-- The nodes of a cache have the entries that the history leaves. -/
structure Tracked (nElements : UInt32) (history : List (Use KeyType DataType))
    (lru : TemplateLRU KeyType DataType Ptr cmp) (ps : List Ptr) : Prop where
  nodes : lru.Nodes ps
  recent : Recent nElements.toNat history (lru.entries ps)
  room : lru.MAX_CACHE_ELEMENTS = nElements

omit [DecidableEq Ptr] in
theorem Tracked.length_le {ps : List Ptr} (h : Tracked nElements history lru ps) :
    ps.length ≤ nElements.toNat := by
  rw [← h.nodes.length_entries]
  exact h.recent.bound

variable [LawfulEqCmp cmp]

/-- Each call keeps the nodes and the history in step. -/
theorem Reaches.tracked (hElements : 1 ≤ nElements) (h : Reaches nElements history lru) :
    ∃ ps, Tracked nElements history lru ps := by
  have hRoom : 1 ≤ nElements.toNat := hElements
  induction h with
  | new => exact ⟨[], nodes_new, .empty, rfl⟩
  | Put pnew Key Data _ hFresh hPut ih =>
      obtain ⟨ps, hTracked⟩ := ih
      obtain ⟨lru', ps', hSome, hNodes, hEntries, hMax⟩ :=
        hTracked.nodes.Put Data hTracked.room hRoom hTracked.length_le hFresh
      rw [hPut] at hSome
      obtain rfl := Option.some.inj hSome
      refine ⟨ps', hNodes, ?_, hMax⟩
      rw [hEntries]
      exact hTracked.recent.step hRoom (.put Key Data)
  | Get Key answer _ hGet ih =>
      obtain ⟨ps, hTracked⟩ := ih
      obtain ⟨_, lru', ps', hSome, hNodes, hEntries, hMax, -, -⟩ :=
        hTracked.nodes.Get nElements.toNat Key
      rw [hGet] at hSome
      obtain ⟨-, rfl⟩ := Prod.mk.inj (Option.some.inj hSome)
      refine ⟨ps', hNodes, ?_, hMax.trans hTracked.room⟩
      rw [hEntries]
      exact hTracked.recent.step hRoom (.get Key)
  | Has Key _ ih =>
      obtain ⟨ps, hTracked⟩ := ih
      exact ⟨ps, hTracked.nodes, hTracked.recent.step hRoom (.has Key), hTracked.room⟩
  | Remove Key _ ih =>
      obtain ⟨ps, hTracked⟩ := ih
      obtain ⟨ps', hNodes, hEntries, hMax, -⟩ := hTracked.nodes.Remove Key
      refine ⟨ps', hNodes, ?_, hMax.trans hTracked.room⟩
      rw [hEntries]
      exact hTracked.recent.step hRoom (.remove Key)

namespace Tracked

variable {ps : List Ptr}

omit [DecidableEq Ptr] [LawfulEqCmp cmp] in
/-- The keys stand in the order of their last uses. -/
theorem keys_order (h : Tracked nElements history lru ps) :
    (keysOf lru ps).Pairwise fun Key Key' => lastUse history Key' < lastUse history Key := by
  rw [keysOf, List.pairwise_map]
  exact h.recent.order

omit [DecidableEq Ptr] in
theorem size_eq (h : Tracked nElements history lru ps) :
    lru.cache.size = (lru.entries ps).length := by
  rw [h.nodes.size, h.nodes.length_entries]

omit [LawfulEqCmp cmp] in
/-- `Get` answers with what was put last for a key of the map. -/
theorem get_eq (h : Tracked nElements history lru ps) (Key : KeyType) :
    ∃ lru', lru.Get Key = some (if Key ∈ lru.cache then lastPut history Key else none, lru') ∧
      lru'.cache = lru.cache := by
  obtain ⟨answer, lru', _, hGet, -, -, -, hCache, hAnswer⟩ :=
    h.nodes.Get nElements.toNat Key
  refine ⟨lru', ?_, hCache⟩
  rw [hGet]
  congr 2
  by_cases hMem : Key ∈ lru.cache
  · rw [if_pos hMem]
    obtain ⟨⟨_, Data⟩, hEntry, rfl⟩ := List.mem_map.mp (h.nodes.mem_cache.mp hMem)
    rw [h.recent.values _ hEntry]
    exact (hAnswer Data).mpr hEntry
  · rw [if_neg hMem]
    cases answer with
    | none => rfl
    | some Data =>
        have hEntry := (hAnswer Data).mp rfl
        exact absurd (h.nodes.mem_cache.mpr (List.mem_map_of_mem hEntry)) hMem

theorem remove_eq (h : Tracked nElements history lru ps) (Key : KeyType) :
    ((lru.Remove Key).1 ↔ Key ∈ lru.cache) ∧
      ∀ Key', Key' ∈ (lru.Remove Key).2.cache ↔ Key' ∈ lru.cache ∧ Key' ≠ Key := by
  obtain ⟨ps', hNodes, hEntries, -, hFound⟩ := h.nodes.Remove Key
  refine ⟨hFound, fun Key' => ?_⟩
  rw [hNodes.mem_cache, hEntries, mem_keys_without, h.nodes.mem_cache]

omit [DecidableEq Ptr] in
/-- A `Put` where there is room, or of a key of the map, drops nothing. -/
theorem put_room (h : Tracked nElements history lru ps) {Key : KeyType} {Data : DataType}
    {lru' : TemplateLRU KeyType DataType Ptr cmp} {ps' : List Ptr} (hNodes : lru'.Nodes ps')
    (hEntries : lru'.entries ps' = step nElements.toNat (lru.entries ps) (.put Key Data))
    (hRoom : Key ∈ lru.cache ∨ lru.cache.size < nElements.toNat) (Key' : KeyType) :
    Key' ∈ lru'.cache ↔ Key' = Key ∨ Key' ∈ lru.cache := by
  rw [h.nodes.mem_cache, h.size_eq] at hRoom
  rw [hNodes.mem_cache, hEntries, mem_step_room h.recent.bound hRoom, h.nodes.mem_cache]

omit [DecidableEq Ptr] in
/-- A `Put` of a new key into a full map drops the key that was used before all others. -/
theorem put_full (h : Tracked nElements history lru ps) (hElements : 1 ≤ nElements.toNat)
    {Key : KeyType} {Data : DataType} {lru' : TemplateLRU KeyType DataType Ptr cmp} {ps' : List Ptr}
    (hNodes : lru'.Nodes ps')
    (hEntries : lru'.entries ps' = step nElements.toNat (lru.entries ps) (.put Key Data))
    (hKey : Key ∉ lru.cache) (hFull : lru.cache.size = nElements.toNat) :
    ∃ oldest ∈ lru.cache, (∀ Key' ∈ lru.cache, Key' ≠ oldest →
        lastUse history oldest < lastUse history Key') ∧
      ∀ Key', Key' ∈ lru'.cache ↔ Key' = Key ∨ (Key' ∈ lru.cache ∧ Key' ≠ oldest) := by
  rw [h.nodes.mem_cache] at hKey
  rw [h.size_eq] at hFull
  obtain ⟨oldest, hMem, hOldest, hKeys⟩ :=
    h.recent.overflow (v := Data) hElements hKey hFull
  refine ⟨oldest, h.nodes.mem_cache.mpr hMem, ?_, ?_⟩
  · intro Key' hMem' hNe
    exact hOldest Key' (h.nodes.mem_cache.mp hMem') hNe
  · intro Key'
    rw [hNodes.mem_cache, hEntries, hKeys, h.nodes.mem_cache]

end Tracked

/-- The template cache is an exact one of the keys that were used last. -/
theorem templateLRU_exact (hElements : 1 ≤ nElements) (h : Reaches nElements history lru) :
    ExactLRU nElements history lru := by
  obtain ⟨ps, hTracked⟩ := h.tracked hElements
  constructor
  · refine ⟨ps, hTracked.nodes.lists, fun p => (hTracked.nodes.live p).symm,
      hTracked.nodes.keys_nodup, fun Key => hTracked.nodes.mem_cache.symm, hTracked.keys_order⟩
  · rw [hTracked.nodes.size]
    exact hTracked.length_le
  · intro Key
    exact Std.ExtTreeMap.contains_iff_mem
  · exact hTracked.get_eq
  · exact hTracked.remove_eq
  · intro pnew Key Data hFresh
    obtain ⟨lru', ps', hPut, hNodes, hEntries, -⟩ :=
      hTracked.nodes.Put Data hTracked.room hElements hTracked.length_le hFresh
    refine ⟨lru', hPut, ?_, ?_⟩
    · exact hTracked.put_room hNodes hEntries
    · exact hTracked.put_full hElements hNodes hEntries

/-- A cache with room for two keys: the first is read again before a third comes, and the second
goes. -/
theorem templateLRU_exact_three : ∃ lru₁ lru₂ lru₃ lru₄ : TemplateLRU Nat Nat Nat compare,
    (new 2).Put 0 7 70 = some lru₁ ∧ lru₁.Put 1 8 80 = some lru₂ ∧ lru₂.Get 7 = some (some 70, lru₃) ∧
      lru₃.Put 2 9 90 = some lru₄ ∧ 8 ∉ lru₄.cache ∧
      ExactLRU 2 [.put 9 90, .get 7, .put 8 80, .put 7 70] lru₄ := by
  have hAll : ((new 2 : TemplateLRU Nat Nat Nat compare).Put 0 7 70).any (fun lru₁ =>
      ((lru₁.displace 8).nodes 1).isNone && (lru₁.Put 1 8 80).any fun lru₂ =>
        (lru₂.Get 7).any fun r => r.1 = some 70 && ((r.2.displace 9).nodes 2).isNone &&
          (r.2.Put 2 9 90).any fun lru₄ => !lru₄.cache.contains 8) = true := by decide
  simp only [Option.any_eq_true, Bool.and_eq_true, Option.isNone_iff_eq_none, decide_eq_true_eq,
    Bool.not_eq_true'] at hAll
  obtain ⟨lru₁, hPut₁, hFree₁, lru₂, hPut₂, r, hGet, ⟨hAnswer, hFree₂⟩, lru₄, hPut₄, hGone⟩ := hAll
  obtain ⟨answer, lru₃⟩ := r
  obtain rfl : answer = some 70 := hAnswer
  have hRun₁ : Reaches 2 [.put 7 70] lru₁ := .Put 0 7 70 .new rfl hPut₁
  have hRun₂ : Reaches 2 [.put 8 80, .put 7 70] lru₂ := .Put 1 8 80 hRun₁ hFree₁ hPut₂
  have hRun₃ : Reaches 2 [.get 7, .put 8 80, .put 7 70] lru₃ := .Get 7 _ hRun₂ hGet
  refine ⟨lru₁, lru₂, lru₃, lru₄, hPut₁, hPut₂, hGet, hPut₄, ?_, ?_⟩
  · rw [← Std.ExtTreeMap.contains_iff_mem, hGone]
    exact Bool.false_ne_true
  · exact templateLRU_exact (by decide) (.Put 2 9 90 hRun₃ hFree₂ hPut₄)

end Nexus.Safety
