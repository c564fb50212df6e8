import Std.Data.ExtTreeMap
import Nexus.Lib.Linked
import Nexus.Lib.Recency

/-!
# The template cache

Nodes on the heap in a doubly linked list from the one that was used last to the one that is dropped
first, and a map from each key to its node.  A node that was deleted is not read: an operation that
reads one has no result.
-/

namespace Nexus.LLD

open Nexus.Lib.Linked
open Nexus.Lib.Recency
open Std (ExtTreeMap TransCmp LawfulEqCmp)

/-- `TemplateNode`, without its links. -/
structure TemplateNode (KeyType DataType : Type) where
  Key : KeyType
  Data : DataType

/-- `TemplateLRU`. -/
structure TemplateLRU (KeyType DataType Ptr : Type) (cmp : KeyType → KeyType → Ordering) where
  MAX_CACHE_ELEMENTS : UInt32
  cache : ExtTreeMap KeyType Ptr cmp := ∅
  nodes : Ptr → Option (TemplateNode KeyType DataType) := fun _ => none
  links : Links Ptr := {}

namespace TemplateLRU

section

variable {KeyType DataType Ptr : Type} [DecidableEq Ptr] {cmp : KeyType → KeyType → Ordering}
variable [TransCmp cmp] (lru : TemplateLRU KeyType DataType Ptr cmp)

/-- The constructor. -/
def new (nElements : UInt32) : TemplateLRU KeyType DataType Ptr cmp :=
  { MAX_CACHE_ELEMENTS := nElements }

def remove_node (pthis : Ptr) : TemplateLRU KeyType DataType Ptr cmp :=
  { lru with links := lru.links.remove (some pthis) }

def move_to_front (pthis : Ptr) : TemplateLRU KeyType DataType Ptr cmp :=
  { lru with links := lru.links.moveToFront (some pthis) }

/-- `new TemplateNode`, at the place where the heap has room. -/
def create (pnew : Ptr) (Key : KeyType) (Data : DataType) : TemplateLRU KeyType DataType Ptr cmp :=
  { lru with
    cache := lru.cache.insert Key pnew
    nodes := Function.update lru.nodes pnew (some ⟨Key, Data⟩)
    links := { lru.links with cell := Function.update lru.links.cell pnew (some {}) } }

/-- The key is erased from the map and its node deleted. -/
def delete (pthis : Ptr) (Key : KeyType) : TemplateLRU KeyType DataType Ptr cmp :=
  { lru with
    cache := lru.cache.erase Key
    nodes := Function.update lru.nodes pthis none
    links := { lru.links with cell := Function.update lru.links.cell pthis none } }

def Has (Key : KeyType) : Bool := lru.cache.contains Key

def Get (Key : KeyType) : Option (Option DataType × TemplateLRU KeyType DataType Ptr cmp) :=
  match lru.cache[Key]? with
  | none => some (none, lru)
  | some pthis => (lru.nodes pthis).map fun node => (some node.Data, lru.move_to_front pthis)

/-- The first step of `Put`: the node of the key is taken from the list and deleted. -/
def displace (Key : KeyType) : TemplateLRU KeyType DataType Ptr cmp :=
  match lru.cache[Key]? with
  | none => lru
  | some pthis => (lru.remove_node pthis).delete pthis Key

/-- The last step of `Put`: the last node of a list that is too long is deleted. -/
def evict : Option (TemplateLRU KeyType DataType Ptr cmp) :=
  if lru.MAX_CACHE_ELEMENTS.toNat < lru.cache.size then
    match lru.links.plast with
    | none => some lru
    | some pnode => (lru.nodes pnode).map fun node =>
        { lru with links := lru.links.dropLast }.delete pnode node.Key
  else some lru

def Put (pnew : Ptr) (Key : KeyType) (Data : DataType) :
    Option (TemplateLRU KeyType DataType Ptr cmp) :=
  (((lru.displace Key).create pnew Key Data).move_to_front pnew).evict

def Remove (Key : KeyType) : Bool × TemplateLRU KeyType DataType Ptr cmp :=
  match lru.cache[Key]? with
  | none => (false, lru)
  | some pthis => (true, (lru.remove_node pthis).delete pthis Key)

end

/-! ## What is held -/

section

variable {KeyType DataType Ptr : Type} {cmp : KeyType → KeyType → Ordering}

/-- The nodes of a cache, the one that was used last in front: they are the live nodes, each of them
is linked, and each is what the map has for its key. -/
structure Nodes [TransCmp cmp] (lru : TemplateLRU KeyType DataType Ptr cmp) (ps : List Ptr) :
    Prop where
  lists : lru.links.Lists ps
  live : ∀ p, (lru.nodes p).isSome ↔ p ∈ ps
  cache : ∀ Key p, lru.cache[Key]? = some p ↔ ∃ Data, lru.nodes p = some ⟨Key, Data⟩

/-- The keys and values of some nodes. -/
def entries (lru : TemplateLRU KeyType DataType Ptr cmp) (ps : List Ptr) :
    List (KeyType × DataType) :=
  ps.filterMap fun p => (lru.nodes p).map fun node => (node.Key, node.Data)

variable {lru lru' : TemplateLRU KeyType DataType Ptr cmp} {links : Links Ptr} {ps ps' : List Ptr}
variable {p q pnew : Ptr} {Key Key' : KeyType} {Data Data' : DataType}

theorem mem_entries {e : KeyType × DataType} :
    e ∈ lru.entries ps ↔ ∃ p ∈ ps, lru.nodes p = some ⟨e.1, e.2⟩ := by
  rw [entries, List.mem_filterMap]
  apply exists_congr
  intro p
  apply and_congr_right
  intro _
  cases lru.nodes p with
  | none => simp
  | some node =>
      rw [Option.map_some, Option.some_inj, Option.some_inj]
      constructor
      · rintro rfl
        rfl
      · rintro rfl
        rfl

theorem entries_congr (hSame : ∀ p ∈ ps, lru'.nodes p = lru.nodes p) :
    lru'.entries ps = lru.entries ps := by
  apply List.filterMap_congr
  intro p hp
  rw [hSame p hp]

theorem entries_cons (hNode : lru.nodes p = some ⟨Key, Data⟩) :
    lru.entries (p :: ps) = (Key, Data) :: lru.entries ps := by
  rw [entries, List.filterMap_cons, hNode]
  rfl

variable [TransCmp cmp]

theorem nodes_new {nElements : UInt32} :
    Nodes (new nElements : TemplateLRU KeyType DataType Ptr cmp) [] where
  lists := .empty
  live p := by simp [new]
  cache Key p := by simp [new]

namespace Nodes

/-- What the map has for a key is a live node with the key. -/
theorem found (h : lru.Nodes ps) (hCache : lru.cache[Key]? = some p) :
    p ∈ ps ∧ ∃ Data, lru.nodes p = some ⟨Key, Data⟩ := by
  have hNode := (h.cache Key p).mp hCache
  obtain ⟨Data, hData⟩ := hNode
  exact ⟨(h.live p).mp (by rw [hData]; rfl), Data, hData⟩

/-- No two nodes have one key. -/
theorem apart (h : lru.Nodes ps) (hp : lru.nodes p = some ⟨Key, Data⟩)
    (hq : lru.nodes q = some ⟨Key, Data'⟩) : p = q := by
  have hCacheP := (h.cache Key p).mpr ⟨Data, hp⟩
  have hCacheQ := (h.cache Key q).mpr ⟨Data', hq⟩
  rw [hCacheP] at hCacheQ
  exact Option.some.inj hCacheQ

theorem length_entries (h : lru.Nodes ps) : (lru.entries ps).length = ps.length := by
  rw [entries, List.length_filterMap_eq_countP, List.countP_eq_length]
  intro p hp
  rw [Option.isSome_map]
  exact (h.live p).mpr hp

theorem keys_nodup (h : lru.Nodes ps) : ((lru.entries ps).map Prod.fst).Nodup := by
  rw [entries, List.map_filterMap]
  apply h.lists.nodup.filterMap
  intro p q Key hp hq
  simp only [Option.map_map, Option.mem_def, Option.map_eq_some_iff] at hp hq
  obtain ⟨node, hNode, rfl⟩ := hp
  obtain ⟨node', hNode', hKey⟩ := hq
  apply h.apart hNode
  rw [hNode', ← show node'.Key = node.Key from hKey]

/-- The keys of the map are the keys of the nodes. -/
theorem mem_cache (h : lru.Nodes ps) :
    Key ∈ lru.cache ↔ Key ∈ (lru.entries ps).map Prod.fst := by
  rw [ExtTreeMap.mem_iff_isSome_getElem?, Option.isSome_iff_exists]
  simp only [h.cache, List.mem_map, mem_entries]
  constructor
  · rintro ⟨p, Data, hNode⟩
    exact ⟨(Key, Data), ⟨p, (h.live p).mp (by rw [hNode]; rfl), hNode⟩, rfl⟩
  · rintro ⟨e, ⟨p, -, hNode⟩, rfl⟩
    exact ⟨p, e.2, hNode⟩

/-- The entries without those of one key are the entries without its node. -/
theorem entries_erase [DecidableEq Ptr] [DecidableEq KeyType] (h : lru.Nodes ps)
    (hNode : lru.nodes p = some ⟨Key, Data⟩) :
    lru.entries (ps.erase p) = without (lru.entries ps) Key := by
  rw [without, entries, entries, h.lists.nodup.erase_eq_filter, List.filterMap_filter,
    List.filter_filterMap]
  apply List.filterMap_congr
  intro q hq
  obtain ⟨node, hLive⟩ := Option.isSome_iff_exists.mp ((h.live q).mpr hq)
  rw [hLive, Option.map_some]
  by_cases hSame : q = p
  · subst hSame
    rw [hNode] at hLive
    obtain rfl := Option.some.inj hLive
    simp [Option.filter]
  · have hKey : node.Key ≠ Key := by
      rintro rfl
      exact hSame (h.apart hLive hNode)
    simp [Option.filter, hSame, hKey]

theorem size [LawfulEqCmp cmp] (h : lru.Nodes ps) : lru.cache.size = ps.length := by
  rw [← ExtTreeMap.length_keys, ← h.length_entries, ← List.length_map Prod.fst]
  apply List.Perm.length_eq
  rw [List.perm_ext_iff_of_nodup ExtTreeMap.nodup_keys h.keys_nodup]
  intro Key
  rw [ExtTreeMap.mem_keys, h.mem_cache]

variable [DecidableEq Ptr]

/-- A node that was taken from the list is deleted. -/
theorem delete [LawfulEqCmp cmp] (h : lru.Nodes ps) (hNode : lru.nodes p = some ⟨Key, Data⟩)
    (hLists : links.Lists ps') (hPs : ∀ q, q ∈ ps' ↔ q ∈ ps ∧ q ≠ p) :
    Nodes ({ lru with links }.delete p Key) ps' where
  lists := hLists.update (fun hMem => ((hPs p).mp hMem).2 rfl) none
  live q := by
    rw [hPs, ← h.live]
    by_cases hSame : q = p
    · subst hSame
      simp [TemplateLRU.delete]
    · simp [TemplateLRU.delete, hSame]
  cache k q := by
    simp only [TemplateLRU.delete, ExtTreeMap.getElem?_erase]
    by_cases hSame : q = p
    · subst hSame
      rw [Function.update_self]
      simp only [reduceCtorEq, exists_false, iff_false]
      split
      · simp
      · rename_i hKey
        intro hCache
        obtain ⟨Data', hData⟩ := (h.cache k q).mp hCache
        rw [hNode] at hData
        simp only [Option.some.injEq, TemplateNode.mk.injEq] at hData
        exact hKey (LawfulEqCmp.compare_eq_iff_eq.mpr hData.1)
    · rw [Function.update_of_ne hSame, ← h.cache]
      split
      · rename_i hKey
        rw [LawfulEqCmp.compare_eq_iff_eq] at hKey
        subst hKey
        simp only [reduceCtorEq, false_iff]
        intro hCache
        obtain ⟨Data', hData⟩ := (h.cache Key q).mp hCache
        exact hSame (h.apart hData hNode)
      · rfl

/-- The nodes that stay keep their keys and values. -/
theorem entries_delete (hPs : ∀ q ∈ ps', q ≠ p) :
    entries ({ lru with links }.delete p Key) ps' = lru.entries ps' := by
  apply entries_congr
  intro q hq
  exact Function.update_of_ne (hPs q hq) _ _

/-- The node of a key is taken from the list and deleted. -/
theorem remove [LawfulEqCmp cmp] (h : lru.Nodes ps) (hCache : lru.cache[Key]? = some p) :
    Nodes ((lru.remove_node p).delete p Key) (ps.erase p) := by
  obtain ⟨hMem, Data, hNode⟩ := h.found hCache
  obtain ⟨a, b, rfl⟩ := List.append_of_mem hMem
  apply h.delete hNode
  · rw [List.erase_append_right _ h.lists.gap.disjoint.1, List.erase_cons_head]
    exact h.lists.remove
  · intro q
    rw [h.lists.nodup.mem_erase_iff, and_comm]

theorem entries_remove [DecidableEq KeyType] (h : lru.Nodes ps)
    (hCache : lru.cache[Key]? = some p) :
    entries ((lru.remove_node p).delete p Key) (ps.erase p) = without (lru.entries ps) Key := by
  obtain ⟨-, Data, hNode⟩ := h.found hCache
  rw [← h.entries_erase hNode]
  apply entries_delete
  intro q hq
  exact ((h.lists.nodup.mem_erase_iff).mp hq).1

/-- A node of the list becomes the first. -/
theorem front (h : lru.Nodes ps) (hMem : p ∈ ps) :
    Nodes (lru.move_to_front p) (p :: ps.erase p) where
  lists := h.lists.moveToFront fun hNot => absurd hMem hNot
  live q := by
    rw [← (List.perm_cons_erase hMem).mem_iff]
    exact h.live q
  cache := h.cache

/-- A new node with a new key becomes the first. -/
theorem create [LawfulEqCmp cmp] (h : lru.Nodes ps) (Data : DataType) (hKey : Key ∉ lru.cache)
    (hFresh : lru.nodes pnew = none) :
    Nodes ((lru.create pnew Key Data).move_to_front pnew) (pnew :: ps) := by
  have hNew : pnew ∉ ps := fun hMem => by
    have hLive := (h.live pnew).mpr hMem
    rw [hFresh] at hLive
    cases hLive
  constructor
  · rw [← List.erase_of_not_mem hNew]
    exact (h.lists.update hNew (some {})).moveToFront fun _ => Function.update_self _ _ _
  · intro q
    rw [List.mem_cons, ← h.live]
    by_cases hSame : q = pnew
    · subst hSame
      simp [move_to_front, TemplateLRU.create]
    · simp [move_to_front, TemplateLRU.create, hSame]
  · intro k q
    simp only [move_to_front, TemplateLRU.create, ExtTreeMap.getElem?_insert]
    by_cases hSame : q = pnew
    · subst hSame
      rw [Function.update_self]
      simp only [Option.some.injEq, TemplateNode.mk.injEq, exists_and_left, exists_eq', and_true]
      split
      · rename_i hEq
        rw [LawfulEqCmp.compare_eq_iff_eq] at hEq
        simp [hEq]
      · rename_i hNe
        constructor
        · intro hCache
          obtain ⟨Data', hData⟩ := (h.cache k q).mp hCache
          rw [hFresh] at hData
          cases hData
        · intro hEq
          exact absurd (LawfulEqCmp.compare_eq_iff_eq.mpr hEq) hNe
    · rw [Function.update_of_ne hSame, ← h.cache]
      split
      · rename_i hEq
        rw [LawfulEqCmp.compare_eq_iff_eq] at hEq
        subst hEq
        rw [ExtTreeMap.getElem?_eq_none hKey]
        simp [Ne.symm hSame]
      · rfl

theorem entries_create (h : lru.Nodes ps) (hFresh : lru.nodes pnew = none) :
    entries ((lru.create pnew Key Data).move_to_front pnew) (pnew :: ps) =
      (Key, Data) :: lru.entries ps := by
  rw [entries_cons (Function.update_self _ _ _)]
  congr 1
  apply entries_congr
  intro q hq
  apply Function.update_of_ne
  rintro rfl
  have hLive := (h.live q).mpr hq
  rw [hFresh] at hLive
  cases hLive

/-- A list that is one node too long loses its last node. -/
theorem evict [LawfulEqCmp cmp] {nMax : UInt32} (h : lru.Nodes ps)
    (hMax : lru.MAX_CACHE_ELEMENTS = nMax) (hRoom : 1 ≤ nMax.toNat)
    (hLong : ps.length ≤ nMax.toNat + 1) :
    ∃ lru', lru.evict = some lru' ∧ lru'.Nodes (ps.take nMax.toNat) ∧
      lru'.entries (ps.take nMax.toNat) = (lru.entries ps).take nMax.toNat ∧
      lru'.MAX_CACHE_ELEMENTS = nMax := by
  subst hMax
  rw [TemplateLRU.evict, h.size]
  split
  · rename_i hOver
    have hLength : ps.length = lru.MAX_CACHE_ELEMENTS.toNat + 1 := by omega
    have hNe : ps ≠ [] := by
      rintro rfl
      cases hLength
    obtain ⟨a, q, rfl⟩ : ∃ a q, ps = a ++ [q] :=
      ⟨ps.dropLast, ps.getLast hNe, (List.dropLast_append_getLast hNe).symm⟩
    rw [List.length_append, List.length_singleton, Nat.add_right_cancel_iff] at hLength
    have hA : a ≠ [] := by
      rintro rfl
      rw [List.length_nil] at hLength
      omega
    obtain ⟨node, hNode⟩ := Option.isSome_iff_exists.mp ((h.live q).mpr (by simp))
    have hNotMem : q ∉ a := h.lists.gap.disjoint.1
    have hOthers : ∀ q' ∈ a, q' ≠ q := fun q' hq' hSame => hNotMem (hSame ▸ hq')
    have hRest := h.delete hNode (h.lists.dropLast hA) fun q' => by
      rw [List.mem_append, List.mem_singleton]
      constructor
      · exact fun hq' => ⟨.inl hq', hOthers q' hq'⟩
      · exact fun hBoth => hBoth.1.resolve_right hBoth.2
    have hEntries := hRest.length_entries
    rw [entries_delete hOthers] at hEntries
    rw [h.lists.plast_eq hA, ← hLength, List.take_left]
    refine ⟨_, ?_, hRest, ?_, rfl⟩
    · show Option.map _ (lru.nodes q) = _
      rw [hNode]
      rfl
    · rw [entries_delete hOthers, ← hEntries, entries, entries, List.filterMap_append]
      exact List.take_left.symm
  · rename_i hFits
    have hAll : ps.length ≤ lru.MAX_CACHE_ELEMENTS.toNat := by omega
    refine ⟨lru, rfl, ?_, ?_, rfl⟩
    · rwa [List.take_of_length_le hAll]
    · rw [List.take_of_length_le hAll, List.take_of_length_le (by rwa [h.length_entries])]

variable [DecidableEq KeyType]

/-- The first step of `Put` leaves the entries of the other keys. -/
theorem displace [LawfulEqCmp cmp] (h : lru.Nodes ps) (Key : KeyType) :
    ∃ ps', (lru.displace Key).Nodes ps' ∧ Key ∉ (lru.displace Key).cache ∧
      (lru.displace Key).entries ps' = without (lru.entries ps) Key ∧ ps'.length ≤ ps.length ∧
      (lru.displace Key).MAX_CACHE_ELEMENTS = lru.MAX_CACHE_ELEMENTS := by
  rw [TemplateLRU.displace]
  split
  · rename_i hNone
    have hOut : Key ∉ lru.cache := by
      rw [ExtTreeMap.mem_iff_isSome_getElem?, hNone]
      simp
    refine ⟨ps, h, hOut, ?_, Nat.le_refl _, rfl⟩
    rw [without_eq_self]
    rwa [← h.mem_cache]
  · rename_i p hSome
    refine ⟨ps.erase p, h.remove hSome, ?_, h.entries_remove hSome, ?_, rfl⟩
    · simp [TemplateLRU.delete]
    · exact List.length_erase_le

/-- `Put` does to the entries what a put does. -/
theorem Put [LawfulEqCmp cmp] {nMax : UInt32} (h : lru.Nodes ps) (Data : DataType)
    (hMax : lru.MAX_CACHE_ELEMENTS = nMax)
    (hRoom : 1 ≤ nMax.toNat) (hBound : ps.length ≤ nMax.toNat)
    (hFresh : (lru.displace Key).nodes pnew = none) :
    ∃ lru' ps', lru.Put pnew Key Data = some lru' ∧ lru'.Nodes ps' ∧
      lru'.entries ps' = step nMax.toNat (lru.entries ps) (.put Key Data) ∧
      lru'.MAX_CACHE_ELEMENTS = nMax := by
  obtain ⟨ps₁, hNodes, hKey, hEntries, hLength, hSame⟩ := h.displace Key
  have hCreated := hNodes.create Data hKey hFresh
  obtain ⟨lru', hEvict, hNodes', hEntries', hMax'⟩ := hCreated.evict (hSame.trans hMax) hRoom
    (by rw [List.length_cons]; omega)
  rw [hNodes.entries_create hFresh, hEntries] at hEntries'
  exact ⟨lru', _, hEvict, hNodes', hEntries', hMax'⟩

/-- `Get` does to the entries what a get does, and answers with the entry of the key. -/
theorem Get (h : lru.Nodes ps) (nMax : Nat) (Key : KeyType) :
    ∃ answer lru' ps', lru.Get Key = some (answer, lru') ∧ lru'.Nodes ps' ∧ lru'.entries ps' = step nMax (lru.entries ps) (.get Key) ∧
    lru'.MAX_CACHE_ELEMENTS = lru.MAX_CACHE_ELEMENTS ∧ lru'.cache = lru.cache ∧
    (∀ Data, answer = some Data ↔ (Key, Data) ∈ lru.entries ps) := by
  rw [TemplateLRU.Get, step]
  split
  · rename_i hNone
    have hOut : Key ∉ (lru.entries ps).map Prod.fst := by
      rw [← h.mem_cache, ExtTreeMap.mem_iff_isSome_getElem?, hNone]
      simp
    refine ⟨none, lru, ps, rfl, h, ?_, rfl, rfl, fun Data => ?_⟩
    · rw [filter_eq_nil hOut, without_eq_self hOut]
      rfl
    · simp only [reduceCtorEq, false_iff]
      exact fun hMem => hOut (List.mem_map_of_mem (f := Prod.fst) hMem)
  · rename_i p hSome
    obtain ⟨hMem, Data, hNode⟩ := h.found hSome
    have hEntry : (Key, Data) ∈ lru.entries ps := mem_entries.mpr ⟨p, hMem, hNode⟩
    refine ⟨some Data, lru.move_to_front p, p :: ps.erase p, by simp only [hNode, Option.map_some],
      h.front hMem, ?_, rfl, rfl, fun Data' => ?_⟩
    · rw [filter_eq_of_mem h.keys_nodup hEntry, List.singleton_append, ← h.entries_erase hNode]
      exact entries_cons hNode
    · rw [mem_entries]
      constructor
      · rintro hEq
        exact ⟨p, hMem, by rw [hNode, Option.some.inj hEq]⟩
      · rintro ⟨q, -, hNode'⟩
        rw [← h.apart hNode hNode', hNode] at hNode'
        simpa using hNode'

theorem Remove [LawfulEqCmp cmp] (h : lru.Nodes ps) (Key : KeyType) :
    ∃ ps', (lru.Remove Key).2.Nodes ps' ∧
    (lru.Remove Key).2.entries ps' = without (lru.entries ps) Key ∧
    (lru.Remove Key).2.MAX_CACHE_ELEMENTS = lru.MAX_CACHE_ELEMENTS ∧
    ((lru.Remove Key).1 ↔ Key ∈ lru.cache) := by
  rw [TemplateLRU.Remove, ExtTreeMap.mem_iff_isSome_getElem?]
  split
  · rename_i hNone
    have hOut : Key ∉ lru.cache := by
      rw [ExtTreeMap.mem_iff_isSome_getElem?, hNone]
      simp
    refine ⟨ps, h, ?_, rfl, by simp [hOut]⟩
    rw [without_eq_self]
    rwa [← h.mem_cache]
  · rename_i p hSome
    exact ⟨ps.erase p, h.remove hSome, h.entries_remove hSome, rfl, by simp [hSome]⟩

end Nodes

end

end TemplateLRU

end Nexus.LLD
