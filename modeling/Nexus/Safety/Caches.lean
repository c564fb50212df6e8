import Nexus.LLD.BinaryLRU

/-!
# Runs of the record cache

A node stays where it is for ever and is only emptied, and a bucket whose index is not zero
leads to a node.  The bucket of the node that is dropped may have no index any more only after
a place whose index wraps to zero was put, and then there is a node in the first slot, which is
emptied in its stead.  A cache of less than 128 bytes has no slots at all, and every call
divides by their number.

## Main results

* `cache_transparent_iff`: in every run of a cache of a given size, what is answered is what was
  put last, and every slot that is used is there, unless the cache is too small for one.
-/

namespace Nexus.Safety

open Nexus.Lib.Bytes
open Nexus.Util
open Nexus.LLD
open Nexus.LLD.BinaryLRU

/-! ## Calls -/

inductive CacheCall where
  | Has (vKey : Bytes)
  | Get (vKey : Bytes)
  | Put (key : SectorKey) (vKey vData : Bytes)
  | Remove (vKey : Bytes)

namespace CacheCall

def vKey : CacheCall → Bytes
  | Has vKey => vKey
  | Get vKey => vKey
  | Put _ vKey _ => vKey
  | Remove vKey => vKey

/-- The cache after a call. -/
def after (cfg : LRUConfig) (lru : BinaryLRU) : CacheCall → BinaryLRU
  | Has _ => lru
  | Get vKey => (lru.Get cfg vKey).2
  | Put key vKey vData => lru.Put cfg key vKey vData
  | Remove vKey => lru.Remove cfg vKey

/-- What was put last of every key and not removed since. -/
def record (latest : Bytes → Option Bytes) : CacheCall → Bytes → Option Bytes
  | Has _ => latest
  | Get _ => latest
  | Put _ vKey vData => Function.update latest vKey (some vData)
  | Remove vKey => Function.update latest vKey none

end CacheCall

/-- A cache of a size in bytes. -/
def cacheConfig (XXH64 : Bytes → UInt64) (nCacheSizeIn : UInt32) : LRUConfig where
  XXH64
  MAX_CACHE_SIZE := nCacheSizeIn
  MAX_CACHE_BUCKETS := nCacheSizeIn / 128

/-! ## The slots that a call uses -/

/-- A position of the two tables. -/
def InTables (cfg : LRUConfig) (n : UInt32) : Prop := n < cfg.MAX_CACHE_BUCKETS

/-- The bucket of a hash. -/
def hashBucket (cfg : LRUConfig) (hashKey : UInt64) : UInt32 :=
  (hashKey % cfg.MAX_CACHE_BUCKETS.toUInt64).toUInt32

/-- The loop that drops the last nodes ends, and every slot that it empties has a node. -/
def EvictDefined (cfg : LRUConfig) : Nat → BinaryLRU → Prop
  | 0, lru => cfg.MAX_CACHE_SIZE < lru.nCurrentSize →
      ∀ pnode, lru.plast.bind lru.hashmap = some pnode → pnode.IsNull
  | nFuel + 1, lru => cfg.MAX_CACHE_SIZE < lru.nCurrentSize →
      ∀ pnode, lru.plast.bind lru.hashmap = some pnode → ¬ pnode.IsNull →
        InTables cfg (hashBucket cfg pnode.hashKey) ∧
          InTables cfg (slot cfg (lru.indexes (hashBucket cfg pnode.hashKey))) ∧
          lru.contents (slot cfg (lru.indexes (hashBucket cfg pnode.hashKey))) ≠ none ∧
          EvictDefined cfg nFuel (lru.dropLast cfg pnode)

/-- A pointer leads to a node. -/
def Leads (lru : BinaryLRU) (p : Option UInt32) : Prop :=
  ∀ nSlot, p = some nSlot → lru.contents nSlot ≠ none

/-- All pointers lead to nodes. -/
structure Chained (lru : BinaryLRU) : Prop where
  first : Leads lru lru.pfirst
  last : Leads lru lru.plast
  prev : ∀ p, Leads lru (lru.pprev p)
  next : ∀ p, Leads lru (lru.pnext p)

/-- The slots that a call uses are in the tables, and those that it dereferences have nodes. -/
structure CallDefined (cfg : LRUConfig) (lru : BinaryLRU) (call : CacheCall) : Prop where
  linked : Chained lru
  bucket : InTables cfg (bucket cfg call.vKey)
  slot : InTables cfg (slot cfg (lru.indexes (BinaryLRU.bucket cfg call.vKey)))
  place : ∀ key vKey vData, call = .Put key vKey vData →
    InTables cfg (BinaryLRU.slot cfg (placeIndex key.place))
  evict : ∀ key vKey vData, call = .Put key vKey vData →
    EvictDefined cfg (cfg.MAX_CACHE_BUCKETS.toNat + 1)
      ((lru.free cfg vKey).claim cfg key vKey vData)

/-- A call is defined, answers what was put last, and `Has` agrees with `Get`. -/
structure CallTransparent (cfg : LRUConfig) (Key : Bytes → Prop) (lru : BinaryLRU)
    (latest : Bytes → Option Bytes) (call : CacheCall) : Prop where
  defined : CallDefined cfg lru call
  get : ∀ vKey vData, Key vKey → (lru.Get cfg vKey).1 = some vData → latest vKey = some vData
  has : ∀ vKey, Key vKey → lru.Has cfg vKey = (lru.Get cfg vKey).1.isSome

/-- Every call of a run is transparent. -/
def Transparent (cfg : LRUConfig) (Key : Bytes → Prop) :
    BinaryLRU → (Bytes → Option Bytes) → List CacheCall → Prop
  | _, _, [] => True
  | lru, latest, call :: calls =>
      CallTransparent cfg Key lru latest call ∧
        Transparent cfg Key (call.after cfg lru) (call.record latest) calls

variable {cfg : LRUConfig} {lru lru' : BinaryLRU} {p q : Option UInt32}
variable {vKey vData : Bytes} {key : SectorKey}

/-! ## Pointers -/

/-- The nodes are in the same slots. -/
def SameSlots (lru lru' : BinaryLRU) : Prop :=
  ∀ nSlot, lru'.contents nSlot = none ↔ lru.contents nSlot = none

theorem SameSlots.refl : SameSlots lru lru := fun _ => Iff.rfl

theorem SameSlots.trans {lru'' : BinaryLRU} (h : SameSlots lru lru') (h' : SameSlots lru' lru'') :
    SameSlots lru lru'' := fun nSlot => (h' nSlot).trans (h nSlot)

theorem sameSlots_of_same (h : SameContents lru lru') : SameSlots lru lru' := by
  intro nSlot
  rw [h.1]

theorem Leads.kept (h : Leads lru p) (hSlots : SameSlots lru lru') : Leads lru' p := by
  intro nSlot hp hNone
  exact h nSlot hp ((hSlots nSlot).mp hNone)

theorem leads_none : Leads lru none := by
  intro nSlot hp
  cases hp

theorem modify_slots {f : BinaryNode → BinaryNode} : SameSlots lru (lru.modify p f) := by
  cases p with
  | none => exact .refl
  | some nThis =>
      intro nSlot
      rw [contents, contents, Option.map_eq_none_iff, Option.map_eq_none_iff]
      by_cases hHere : nSlot = nThis
      · subst hHere
        simp only [BinaryLRU.modify, Function.update_self, Option.map_eq_none_iff]
      · simp only [BinaryLRU.modify, Function.update_of_ne hHere]

/-- Links that lead to nodes may be given to a node. -/
theorem Chained.modify {f : BinaryNode → BinaryNode} (h : Chained lru)
    (hPrev : ∀ node, Leads lru node.pprev → Leads lru (f node).pprev)
    (hNext : ∀ node, Leads lru node.pnext → Leads lru (f node).pnext) :
    Chained (lru.modify p f) := by
  have hSlots : SameSlots lru (lru.modify p f) := modify_slots
  cases p with
  | none => exact h
  | some nThis =>
      have hNode : ∀ nSlot node, (lru.modify (some nThis) f).hashmap nSlot = some node →
          Leads lru node.pprev ∧ Leads lru node.pnext := by
        intro nSlot node hNode
        by_cases hHere : nSlot = nThis
        · subst hHere
          simp only [BinaryLRU.modify, Function.update_self, Option.map_eq_some_iff] at hNode
          obtain ⟨old, hOld, rfl⟩ := hNode
          have hOldPrev := h.prev (some nSlot)
          have hOldNext := h.next (some nSlot)
          simp only [pprev, pnext, Option.bind_some, hOld] at hOldPrev hOldNext
          exact ⟨hPrev old hOldPrev, hNext old hOldNext⟩
        · simp only [BinaryLRU.modify, Function.update_of_ne hHere] at hNode
          have hOldPrev := h.prev (some nSlot)
          have hOldNext := h.next (some nSlot)
          simp only [pprev, pnext, Option.bind_some, hNode] at hOldPrev hOldNext
          exact ⟨hOldPrev, hOldNext⟩
      refine ⟨h.first.kept hSlots, h.last.kept hSlots, fun p => ?_, fun p => ?_⟩
      · cases p with
        | none => exact leads_none
        | some nSlot =>
            rw [pprev, Option.bind_some]
            cases hHere : (lru.modify (some nThis) f).hashmap nSlot with
            | none => exact leads_none
            | some node => exact (hNode nSlot node hHere).1.kept hSlots
      · cases p with
        | none => exact leads_none
        | some nSlot =>
            rw [pnext, Option.bind_some]
            cases hHere : (lru.modify (some nThis) f).hashmap nSlot with
            | none => exact leads_none
            | some node => exact (hNode nSlot node hHere).2.kept hSlots

theorem Chained.setPrev (h : Chained lru) (hq : Leads lru q) :
    Chained (lru.modify p fun node => { node with pprev := q }) :=
  h.modify (fun _ _ => hq) (fun _ hNext => hNext)

theorem Chained.setNext (h : Chained lru) (hq : Leads lru q) :
    Chained (lru.modify p fun node => { node with pnext := q }) :=
  h.modify (fun _ hPrev => hPrev) (fun _ _ => hq)

theorem Chained.withLast (h : Chained lru) (hp : Leads lru p) : Chained { lru with plast := p } :=
  ⟨h.first, hp, h.prev, h.next⟩

theorem Chained.withFirst (h : Chained lru) (hp : Leads lru p) : Chained { lru with pfirst := p } :=
  ⟨hp, h.last, h.prev, h.next⟩

theorem Chained.relinkLast (h : Chained lru) : Chained (lru.relinkLast p) := by
  unfold BinaryLRU.relinkLast
  split
  · exact (h.withLast (h.prev _)).setNext leads_none
  · exact h

theorem Chained.relinkFirst (h : Chained lru) : Chained (lru.relinkFirst p) := by
  unfold BinaryLRU.relinkFirst
  split
  · exact (h.withFirst (h.next _)).setPrev leads_none
  · exact h

theorem Chained.unlink (h : Chained lru) : Chained (lru.unlink p) :=
  h.modify (fun _ _ => leads_none) (fun _ _ => leads_none)

theorem Chained.remove_node (h : Chained lru) : Chained (lru.remove_node p) := by
  have hEnds : Chained ((lru.relinkLast p).relinkFirst p) := h.relinkLast.relinkFirst
  have hNext : Chained (((lru.relinkLast p).relinkFirst p).bridgeNext p) :=
    hEnds.setPrev (hEnds.prev p)
  have hPrev : Chained ((((lru.relinkLast p).relinkFirst p).bridgeNext p).bridgePrev p) :=
    hNext.setNext (hNext.next p)
  exact hPrev.unlink

theorem Chained.linkFront (h : Chained lru) : Chained (lru.linkFront p) :=
  h.modify (fun _ _ => leads_none) (fun _ _ => h.first)

theorem Chained.linkBack (h : Chained lru) (hp : Leads lru p) : Chained (lru.linkBack p) := by
  have hBack := Chained.setPrev (p := lru.pfirst) h hp
  unfold BinaryLRU.linkBack
  simp only
  split
  · exact (hBack.withLast hBack.first).setNext leads_none
  · exact hBack

theorem Chained.move_to_front (h : Chained lru) (hp : Leads lru p) :
    Chained (lru.move_to_front p) := by
  unfold BinaryLRU.move_to_front
  split
  · exact h
  · have hFront : SameContents lru ((lru.remove_node p).linkFront p) :=
      remove_node_same.trans linkFront_same
    have hBack := h.remove_node.linkFront.linkBack (hp.kept (sameSlots_of_same hFront))
    exact hBack.withFirst (hp.kept (sameSlots_of_same (hFront.trans linkBack_same)))

theorem Chained.empty (h : Chained lru) : Chained (lru.modify p fun _ => .null) :=
  h.modify (fun _ _ => leads_none) (fun _ _ => leads_none)

theorem Chained.clear {nSlot : UInt32} (h : Chained lru) : Chained (lru.clear nSlot) :=
  h.remove_node.empty

theorem Chained.dropLast {pnode : BinaryNode} (h : Chained lru) :
    Chained (lru.dropLast cfg pnode) := by
  have hLast := (h.withLast (h.prev lru.plast)).setNext (p := lru.pprev lru.plast) leads_none
  have hEmptied := (hLast.unlink (p := lru.plast)).empty
    (p := some (slot cfg (lru.indexes (hashBucket cfg pnode.hashKey))))
  exact ⟨hEmptied.first, hEmptied.last, hEmptied.prev, hEmptied.next⟩

theorem Chained.free (h : Chained lru) : Chained (lru.free cfg vKey) := by
  unfold BinaryLRU.free
  simp only
  split
  · exact h
  · split
    · exact h
    · split
      · exact h
      · exact ⟨h.clear.first, h.clear.last, h.clear.prev, h.clear.next⟩

/-- The node of a slot that is claimed. -/
def claimedNode (lru : BinaryLRU) (nSlot : UInt32) (hashKey : UInt64) (vData : Bytes) :
    BinaryNode :=
  let node := (lru.hashmap nSlot).getD .null
  { node with hashKey, vData }

theorem claimedNode_links (lru : BinaryLRU) (nSlot : UInt32) (hashKey : UInt64) (vData : Bytes) :
    (claimedNode lru nSlot hashKey vData).pprev = lru.pprev (some nSlot) ∧
      (claimedNode lru nSlot hashKey vData).pnext = lru.pnext (some nSlot) := by
  rw [pprev, pnext, Option.bind_some, Option.bind_some]
  unfold claimedNode
  cases lru.hashmap nSlot with
  | none => exact ⟨rfl, rfl⟩
  | some node => exact ⟨rfl, rfl⟩

def withNode (lru : BinaryLRU) (nSlot : UInt32) (node : BinaryNode) : BinaryLRU :=
  { lru with hashmap := Function.update lru.hashmap nSlot (some node) }

theorem withNode_self (lru : BinaryLRU) (nSlot : UInt32) (node : BinaryNode) :
    (withNode lru nSlot node).hashmap nSlot = some node := Function.update_self ..

theorem withNode_other {nThis nSlot : UInt32} {node : BinaryNode} (h : nThis ≠ nSlot) :
    (withNode lru nSlot node).hashmap nThis = lru.hashmap nThis := Function.update_of_ne h ..

theorem Chained.claimSlot (nSlot : UInt32) (hashKey : UInt64) (vData : Bytes) (h : Chained lru) :
    Chained (withNode lru nSlot (claimedNode lru nSlot hashKey vData)) := by
  have hSlots : ∀ p, Leads lru p →
      Leads (withNode lru nSlot (claimedNode lru nSlot hashKey vData)) p := by
    intro p hp nThis hThis
    have hOld := hp nThis hThis
    rw [contents, Ne, Option.map_eq_none_iff] at hOld ⊢
    by_cases hHere : nThis = nSlot
    · subst hHere
      rw [withNode_self]
      exact Option.some_ne_none _
    · rw [withNode_other hHere]
      exact hOld
  have hOwn := claimedNode_links lru nSlot hashKey vData
  refine ⟨hSlots _ h.first, hSlots _ h.last, fun p => hSlots _ ?_, fun p => hSlots _ ?_⟩
  · cases p with
    | none => exact leads_none
    | some nThis =>
        have hPrev := h.prev (some nThis)
        rw [pprev, Option.bind_some] at hPrev ⊢
        by_cases hHere : nThis = nSlot
        · subst hHere
          rw [withNode_self, Option.bind_some, hOwn.1]
          exact h.prev (some nThis)
        · rw [withNode_other hHere]
          exact hPrev
  · cases p with
    | none => exact leads_none
    | some nThis =>
        have hNext := h.next (some nThis)
        rw [pnext, Option.bind_some] at hNext ⊢
        by_cases hHere : nThis = nSlot
        · subst hHere
          rw [withNode_self, Option.bind_some, hOwn.2]
          exact h.next (some nThis)
        · rw [withNode_other hHere]
          exact hNext

theorem Chained.claim (h : Chained lru) : Chained (lru.claim cfg key vKey vData) := by
  have hBase := h.claimSlot (slot cfg (placeIndex key.place)) (cfg.XXH64 vKey) vData
  unfold BinaryLRU.claim
  apply Chained.move_to_front
  · exact ⟨hBase.first, hBase.last, hBase.prev, hBase.next⟩
  · intro nSlot hSlot
    cases hSlot
    simp only [contents, Function.update_self, Option.map_some]
    exact Option.some_ne_none _

theorem Chained.evict {nFuel : Nat} (h : Chained lru) : Chained (lru.evict cfg nFuel) := by
  induction nFuel generalizing lru with
  | zero => exact h
  | succ nFuel ih =>
      rw [BinaryLRU.evict]
      split
      · split
        · exact h
        · split
          · exact h
          · exact ih h.dropLast
      · exact h

theorem Chained.after {call : CacheCall} (h : Chained lru) : Chained (call.after cfg lru) := by
  cases call with
  | Has vKey => exact h
  | Get vKey =>
      show Chained (lru.Get cfg vKey).2
      unfold BinaryLRU.Get
      simp only
      split
      · exact h
      · split
        · exact ⟨h.first, h.last, h.prev, h.next⟩
        · split
          · exact ⟨h.first, h.last, h.prev, h.next⟩
          · split
            · exact h
            · rename_i node hNode _ _
              apply h.move_to_front
              intro nSlot hSlot
              cases hSlot
              rw [contents, hNode]
              exact Option.some_ne_none _
  | Put key vKey vData =>
      have hEvicted : Chained (((lru.free cfg vKey).claim cfg key vKey vData).evict cfg
          (cfg.MAX_CACHE_BUCKETS.toNat + 1)) := h.free.claim.evict
      exact ⟨hEvicted.first, hEvicted.last, hEvicted.prev, hEvicted.next⟩
  | Remove vKey =>
      show Chained (lru.Remove cfg vKey)
      unfold BinaryLRU.Remove
      simp only
      split
      · exact h
      · split
        · exact ⟨h.first, h.last, h.prev, h.next⟩
        · exact ⟨h.clear.first, h.clear.last, h.clear.prev, h.clear.next⟩

/-! ## Owners of nodes -/

/-- The slots that have nodes are in the table, and an index that is not zero leads to one.  As
long as the first slot has no node, the nodes that are not empty are those that the indexes of
their buckets lead to. -/
structure Owned (cfg : LRUConfig) (lru : BinaryLRU) : Prop where
  table : ∀ nSlot, lru.contents nSlot ≠ none → InTables cfg nSlot
  indexed : ∀ nBucket, lru.indexes nBucket ≠ 0 →
    lru.contents (slot cfg (lru.indexes nBucket)) ≠ none
  owned : lru.contents 0 = none → ∀ nSlot node, lru.contents nSlot = some node → node.1 ≠ 0 →
    lru.indexes (hashBucket cfg node.1) ≠ 0 ∧
      slot cfg (lru.indexes (hashBucket cfg node.1)) = nSlot

theorem owned_new : Owned cfg (.new cfg) where
  table _ hSlot := absurd rfl hSlot
  indexed _ hIndex := absurd rfl hIndex
  owned _ _ _ hNode := by cases hNode

/-- A node that is not empty is the node it was, and when only indexes of empty nodes are reset,
the index of its bucket is what it was. -/
theorem leads_of_fewer (hFewer : Fewer lru lru')
    (hReset : ∀ nBucket, lru'.indexes nBucket ≠ lru.indexes nBucket →
      ∀ node, lru'.contents (slot cfg (lru.indexes nBucket)) = some node → node.1 = 0)
    (hLed : ∀ nSlot node, lru.contents nSlot = some node → node.1 ≠ 0 →
      lru.indexes (hashBucket cfg node.1) ≠ 0 ∧
        slot cfg (lru.indexes (hashBucket cfg node.1)) = nSlot)
    (hNode : lru'.contents nSlot = some node) (hKey : node.1 ≠ 0) :
    lru'.indexes (hashBucket cfg node.1) ≠ 0 ∧
      slot cfg (lru'.indexes (hashBucket cfg node.1)) = nSlot := by
  have hOld : lru.contents nSlot = some node := by
    cases hFewer.1 nSlot with
    | inl hSame => rw [← hSame, hNode]
    | inr hNull =>
        rw [hNull] at hNode
        cases hNode
        exact absurd rfl hKey
  obtain ⟨hIndex, hSlot⟩ := hLed nSlot node hOld hKey
  have hSame : lru'.indexes (hashBucket cfg node.1) = lru.indexes (hashBucket cfg node.1) := by
    by_contra hChanged
    exact hKey (hReset _ hChanged node (by rw [hSlot, hNode]))
  rw [hSame]
  exact ⟨hIndex, hSlot⟩

/-- Nodes are emptied, and an index is reset only when its node is empty. -/
theorem Owned.fewer (h : Owned cfg lru) (hFewer : Fewer lru lru') (hSlots : SameSlots lru lru')
    (hReset : ∀ nBucket, lru'.indexes nBucket ≠ lru.indexes nBucket →
      ∀ node, lru'.contents (slot cfg (lru.indexes nBucket)) = some node → node.1 = 0) :
    Owned cfg lru' := by
  constructor
  · intro nSlot hSlot
    exact h.table nSlot fun hNone => hSlot ((hSlots nSlot).mpr hNone)
  · intro nBucket hIndex
    have hSame := (hFewer.2 nBucket).resolve_right hIndex
    rw [hSame] at hIndex ⊢
    exact fun hNone => h.indexed nBucket hIndex ((hSlots _).mp hNone)
  · intro hFirst nSlot node hNode hKey
    exact leads_of_fewer hFewer hReset (h.owned ((hSlots 0).mp hFirst)) hNode hKey

theorem Owned.same (h : Owned cfg lru) (hSame : SameContents lru lru') : Owned cfg lru' :=
  h.fewer hSame.fewer (sameSlots_of_same hSame) fun nBucket hChanged =>
    absurd (congrFun hSame.2 nBucket) hChanged

theorem modify_null_contents {nSlot : UInt32} {node : UInt64 × Bytes}
    (h : (lru.modify (some nSlot) fun _ => .null).contents nSlot = some node) : node.1 = 0 := by
  simp only [BinaryLRU.modify, contents, Function.update_self, Option.map_map] at h
  cases hNode : lru.hashmap nSlot with
  | none =>
      rw [hNode] at h
      cases h
  | some old =>
      rw [hNode] at h
      cases h
      rfl

theorem clear_slots {nSlot : UInt32} : SameSlots lru (lru.clear nSlot) :=
  (sameSlots_of_same remove_node_same).trans modify_slots

theorem clear_contents {nSlot : UInt32} {node : UInt64 × Bytes}
    (h : (lru.clear nSlot).contents nSlot = some node) : node.1 = 0 :=
  modify_null_contents h

theorem clear_indexes {nSlot : UInt32} : (lru.clear nSlot).indexes = lru.indexes :=
  (remove_node_same (p := some nSlot)).2

theorem dropLast_slots {pnode : BinaryNode} : SameSlots lru (lru.dropLast cfg pnode) := by
  have hLast : SameSlots lru ({ lru with plast := lru.pprev lru.plast }.modify
      (lru.pprev lru.plast) fun node => { node with pnext := none }) := modify_slots
  have hUnlinked := hLast.trans (sameSlots_of_same (unlink_same (p := lru.plast)))
  exact hUnlinked.trans (modify_slots
    (p := some (slot cfg (lru.indexes (hashBucket cfg pnode.hashKey)))))

/-- The index of a bucket is reset when its node is empty. -/
theorem Owned.reset {nBucket : UInt32} (h : Owned cfg lru)
    (hNodes : ∀ nSlot, lru'.contents nSlot = lru.contents nSlot ∨
      lru'.contents nSlot = some (0, []))
    (hSlots : SameSlots lru lru')
    (hIndexes : lru'.indexes = Function.update lru.indexes nBucket 0)
    (hNull : ∀ node, lru'.contents (slot cfg (lru.indexes nBucket)) = some node → node.1 = 0) :
    Owned cfg lru' := by
  have hOther : ∀ nOther, nOther ≠ nBucket → lru'.indexes nOther = lru.indexes nOther := by
    intro nOther hNe
    rw [hIndexes, Function.update_of_ne hNe]
  have hFewer : Fewer lru lru' := by
    refine ⟨hNodes, fun nOther => ?_⟩
    by_cases hSame : nOther = nBucket
    · right
      rw [hIndexes, hSame, Function.update_self]
    · exact .inl (hOther nOther hSame)
  apply h.fewer hFewer hSlots
  intro nChanged hChanged node hNode
  have hSame : nChanged = nBucket := by
    by_contra hNe
    exact hChanged (hOther nChanged hNe)
  rw [hSame] at hNode
  exact hNull node hNode

theorem Owned.dropLast {pnode : BinaryNode} (h : Owned cfg lru) :
    Owned cfg (lru.dropLast cfg pnode) := by
  apply h.reset dropLast_fewer.1 dropLast_slots rfl
  intro node hNode
  exact modify_null_contents hNode

theorem Owned.evict {nFuel : Nat} (h : Owned cfg lru) : Owned cfg (lru.evict cfg nFuel) := by
  induction nFuel generalizing lru with
  | zero => exact h
  | succ nFuel ih =>
      rw [BinaryLRU.evict]
      split
      · split
        · exact h
        · split
          · exact h
          · exact ih h.dropLast
      · exact h

/-- After the first step of a put, the bucket of the key has no node. -/
theorem Owned.free (h : Owned cfg lru) : Owned cfg (lru.free cfg vKey) ∧
    ((lru.free cfg vKey).contents 0 = none → ∀ nSlot node,
      (lru.free cfg vKey).contents nSlot = some node → node.1 ≠ 0 →
        hashBucket cfg node.1 ≠ bucket cfg vKey) := by
  have hIndexes : (lru.free cfg vKey).indexes = lru.indexes := by
    unfold BinaryLRU.free
    simp only
    split
    · rfl
    · split
      · rfl
      · split
        · rfl
        · exact clear_indexes
  have hSlots : SameSlots lru (lru.free cfg vKey) := by
    unfold BinaryLRU.free
    simp only
    split
    · exact .refl
    · split
      · exact .refl
      · split
        · exact .refl
        · exact clear_slots
  refine ⟨h.fewer free_fewer hSlots fun nBucket hChanged => absurd (congrFun hIndexes _) hChanged,
    fun hFirst nSlot node hNode hKey hBucket => ?_⟩
  have hOld : lru.contents nSlot = some node := by
    cases (@free_fewer cfg lru vKey).1 nSlot with
    | inl hSame => rw [← hSame, hNode]
    | inr hNull =>
        rw [hNull] at hNode
        cases hNode
        exact absurd rfl hKey
  obtain ⟨hIndex, hSlot⟩ := h.owned ((hSlots 0).mp hFirst) nSlot node hOld hKey
  rw [hBucket] at hIndex hSlot
  have hCleared : ∀ n, (lru.free cfg vKey).contents nSlot = some n → n.1 = 0 := by
    intro n
    unfold BinaryLRU.free
    rw [← hSlot]
    simp only [if_neg hIndex]
    intro hHere
    cases hThis : lru.hashmap (slot cfg (lru.indexes (bucket cfg vKey))) with
    | none =>
        rw [hThis] at hHere
        simp only [contents, hThis, Option.map_none] at hHere
        cases hHere
    | some pthis =>
        rw [hThis] at hHere
        simp only at hHere
        split at hHere
        · rename_i hNull
          rw [contents, hThis] at hHere
          cases hHere
          exact hNull
        · exact clear_contents hHere
  exact hKey (hCleared node hNode)

theorem slot_inTables (hSlots : 0 < cfg.MAX_CACHE_BUCKETS) (nIndex : UInt64) :
    InTables cfg (slot cfg nIndex) := by
  have hPositive : 0 < cfg.MAX_CACHE_BUCKETS.toNat := UInt32.lt_iff_toNat_lt.mp hSlots
  have hMod := Nat.mod_lt nIndex.toNat hPositive
  have hBound := cfg.MAX_CACHE_BUCKETS.toNat_lt
  rw [InTables, UInt32.lt_iff_toNat_lt, slot, UInt64.toNat_toUInt32, UInt64.toNat_mod,
    UInt32.toNat_toUInt64]
  omega

theorem slot_zero : slot cfg 0 = 0 := by
  rw [slot, UInt64.zero_mod]
  rfl

theorem claim_contents (nSlot : UInt32) :
    (lru.claim cfg key vKey vData).contents nSlot =
      if nSlot = slot cfg (placeIndex key.place) then some (cfg.XXH64 vKey, vData)
      else lru.contents nSlot := by
  rw [claim_same.1]
  split
  · rename_i hHere
    subst hHere
    simp only [contents, Function.update_self, Option.map_some]
  · rename_i hOther
    simp only [contents, Function.update_of_ne hOther]

theorem Owned.claim (hSlots : 0 < cfg.MAX_CACHE_BUCKETS) (h : Owned cfg lru)
    (hFreed : lru.contents 0 = none → ∀ nSlot node, lru.contents nSlot = some node →
      node.1 ≠ 0 → hashBucket cfg node.1 ≠ bucket cfg vKey) :
    Owned cfg (lru.claim cfg key vKey vData) := by
  constructor
  · intro nSlot hSlot
    rw [claim_contents] at hSlot
    split at hSlot
    · rename_i hHere
      rw [hHere]
      exact slot_inTables hSlots _
    · exact h.table nSlot hSlot
  · intro nBucket hIndex
    rw [claim_indexes] at hIndex ⊢
    rw [claim_contents]
    split
    · exact Option.some_ne_none _
    · rename_i hOther
      by_cases hBucket : nBucket = bucket cfg vKey
      · rw [hBucket, Function.update_self] at hOther
        exact absurd rfl hOther
      · rw [Function.update_of_ne hBucket] at hIndex ⊢
        exact h.indexed nBucket hIndex
  · intro hFirst nSlot node hNode hKey
    rw [claim_contents] at hFirst hNode
    rw [claim_indexes]
    split at hFirst
    · cases hFirst
    · rename_i hNotFirst
      split at hNode
      · rename_i hHere
        cases hNode
        have hBucket : hashBucket cfg (cfg.XXH64 vKey) = bucket cfg vKey := rfl
        rw [hBucket, Function.update_self]
        refine ⟨fun hZero => hNotFirst ?_, hHere.symm⟩
        rw [hZero, slot_zero]
      · rw [Function.update_of_ne (hFreed hFirst nSlot node hNode hKey)]
        exact h.owned hFirst nSlot node hNode hKey

theorem Owned.after {call : CacheCall} (hSlots : 0 < cfg.MAX_CACHE_BUCKETS) (h : Owned cfg lru) :
    Owned cfg (call.after cfg lru) := by
  have hReset : ∀ vKey : Bytes,
      (∀ node, lru.contents (slot cfg (lru.indexes (bucket cfg vKey))) = some node →
        node.1 = 0) →
      Owned cfg { lru with indexes := Function.update lru.indexes (bucket cfg vKey) 0 } := by
    intro vKey hNull
    exact h.reset (fun _ => .inl rfl) (fun _ => Iff.rfl) rfl hNull
  cases call with
  | Has vKey => exact h
  | Get vKey =>
      show Owned cfg (lru.Get cfg vKey).2
      unfold BinaryLRU.Get
      simp only
      split
      · exact h
      · split
        · rename_i hNode
          apply hReset
          intro node hHere
          rw [contents, hNode] at hHere
          cases hHere
        · rename_i pthis hNode
          split
          · rename_i hNull
            apply hReset
            intro node hHere
            rw [contents, hNode] at hHere
            cases hHere
            exact hNull
          · split
            · exact h
            · exact h.same move_to_front_same
  | Put key vKey vData =>
      have hFree := @Owned.free cfg lru vKey h
      have hEvicted : Owned cfg (((lru.free cfg vKey).claim cfg key vKey vData).evict cfg
          (cfg.MAX_CACHE_BUCKETS.toNat + 1)) := (hFree.1.claim hSlots hFree.2).evict
      exact ⟨hEvicted.table, hEvicted.indexed, hEvicted.owned⟩
  | Remove vKey =>
      show Owned cfg (lru.Remove cfg vKey)
      unfold BinaryLRU.Remove
      simp only
      split
      · exact h
      · split
        · rename_i hNode
          apply hReset
          intro node hHere
          rw [contents, hNode] at hHere
          cases hHere
        · exact h.reset (fun nSlot => clear_fewer.1 nSlot) (fun nSlot => clear_slots nSlot) rfl
            fun _ hNode => clear_contents hNode

/-! ## The loop of a put -/

/-- The number of nodes that have a node in front of them. -/
def countPrev (cfg : LRUConfig) (lru : BinaryLRU) : Nat :=
  ((Finset.range cfg.MAX_CACHE_BUCKETS.toNat).filter fun n =>
    lru.pprev (some (UInt32.ofNat n)) ≠ none).card

theorem countPrev_le : countPrev cfg lru ≤ cfg.MAX_CACHE_BUCKETS.toNat := by
  have hCard := Finset.card_filter_le (Finset.range cfg.MAX_CACHE_BUCKETS.toNat)
    fun n => lru.pprev (some (UInt32.ofNat n)) ≠ none
  rwa [Finset.card_range] at hCard

theorem modify_plast {f : BinaryNode → BinaryNode} : (lru.modify p f).plast = lru.plast := by
  cases p <;> rfl

/-- A change that gives a node no new node in front of it. -/
theorem modify_pprev {f : BinaryNode → BinaryNode}
    (hPrev : ∀ node, (f node).pprev = none ∨ (f node).pprev = node.pprev)
    (h : (lru.modify p f).pprev q ≠ none) : lru.pprev q ≠ none := by
  cases p with
  | none => exact h
  | some nThis =>
      cases q with
      | none => exact h
      | some nSlot =>
          rw [pprev, Option.bind_some] at h ⊢
          by_cases hHere : nSlot = nThis
          · subst hHere
            simp only [BinaryLRU.modify, Function.update_self] at h
            cases hNode : lru.hashmap nSlot with
            | none =>
                rw [hNode] at h
                exact absurd rfl h
            | some node =>
                rw [hNode] at h
                cases hPrev node with
                | inl hNone => exact absurd hNone h
                | inr hSame => exact fun hNone => h (hSame.trans hNone)
          · simp only [BinaryLRU.modify, Function.update_of_ne hHere] at h
            exact h

theorem unlink_pprev : (lru.unlink p).pprev p = none := by
  cases p with
  | none => rfl
  | some nThis =>
      rw [pprev, Option.bind_some]
      simp only [BinaryLRU.unlink, BinaryLRU.modify, Function.update_self]
      cases lru.hashmap nThis with
      | none => rfl
      | some node => rfl

theorem dropLast_plast {pnode : BinaryNode} :
    (lru.dropLast cfg pnode).plast = lru.pprev lru.plast := by
  show (BinaryLRU.modify _ _ _).plast = _
  rw [modify_plast]
  show (BinaryLRU.unlink _ _).plast = _
  rw [BinaryLRU.unlink, modify_plast, modify_plast]

/-- The node that is dropped has no node in front of it any more, and no other node has a new
one. -/
theorem dropLast_pprev {pnode : BinaryNode} (h : (lru.dropLast cfg pnode).pprev q ≠ none) :
    lru.pprev q ≠ none ∧ q ≠ lru.plast := by
  have hUnlinked := modify_pprev (fun _ => .inl rfl)
    (show (BinaryLRU.modify _ (some _) fun _ => .null).pprev q ≠ none from h)
  constructor
  · have hLast := modify_pprev (fun _ => .inl rfl) hUnlinked
    have hFirst : ({ lru with plast := lru.pprev lru.plast } : BinaryLRU).pprev q ≠ none :=
      modify_pprev (f := fun node => { node with pnext := none }) (fun _ => .inr rfl) hLast
    exact hFirst
  · intro hLast
    rw [hLast] at hUnlinked
    exact hUnlinked unlink_pprev

theorem dropLast_countPrev {pnode : BinaryNode} (h : Owned cfg lru) (hLinked : Chained lru)
    (hPrev : lru.pprev lru.plast ≠ none) :
    countPrev cfg (lru.dropLast cfg pnode) < countPrev cfg lru := by
  cases hLast : lru.plast with
  | none =>
      rw [hLast] at hPrev
      exact absurd rfl hPrev
  | some nLast =>
      have hTable := h.table nLast (hLinked.last nLast hLast)
      apply Finset.card_lt_card
      rw [Finset.ssubset_iff_of_subset]
      · refine ⟨nLast.toNat, ?_, ?_⟩
        · rw [Finset.mem_filter, Finset.mem_range, UInt32.ofNat_toNat, ← hLast]
          exact ⟨UInt32.lt_iff_toNat_lt.mp hTable, hPrev⟩
        · rw [Finset.mem_filter, UInt32.ofNat_toNat, ← hLast]
          exact fun hBoth => (dropLast_pprev hBoth.2).2 rfl
      · intro n hn
        rw [Finset.mem_filter] at hn ⊢
        exact ⟨hn.1, (dropLast_pprev hn.2).1⟩

theorem evict_defined (hSlots : 0 < cfg.MAX_CACHE_BUCKETS) {nFuel : Nat} (h : Owned cfg lru)
    (hLinked : Chained lru) (hFuel : lru.plast = none ∨ countPrev cfg lru + 1 ≤ nFuel) :
    EvictDefined cfg nFuel lru := by
  induction nFuel generalizing lru with
  | zero =>
      intro _ pnode hLast
      have hNone : lru.plast = none := hFuel.resolve_right (by omega)
      rw [hNone] at hLast
      cases hLast
  | succ nFuel ih =>
      intro _ pnode hLast hNotNull
      obtain ⟨nLast, hPlast, hNode⟩ := Option.bind_eq_some_iff.mp hLast
      have hContents : lru.contents nLast = some (pnode.hashKey, pnode.vData) := by
        rw [contents, hNode]
        rfl
      have hSlot : lru.contents (slot cfg (lru.indexes (hashBucket cfg pnode.hashKey))) ≠ none := by
        by_cases hIndex : lru.indexes (hashBucket cfg pnode.hashKey) = 0
        · rw [hIndex, slot_zero]
          intro hFirst
          exact (h.owned hFirst nLast _ hContents hNotNull).1 hIndex
        · exact h.indexed _ hIndex
      refine ⟨slot_inTables hSlots _, slot_inTables hSlots _, hSlot, ?_⟩
      apply ih h.dropLast hLinked.dropLast
      rw [dropLast_plast]
      by_cases hPrev : lru.pprev lru.plast = none
      · exact .inl hPrev
      · have hCount := @dropLast_countPrev cfg lru pnode h hLinked hPrev
        have hEnough : countPrev cfg lru + 1 ≤ nFuel + 1 :=
          hFuel.resolve_left (by rw [hPlast]; exact Option.some_ne_none _)
        right
        omega

/-! ## Runs -/

theorem call_defined (hSlots : 0 < cfg.MAX_CACHE_BUCKETS) (h : Owned cfg lru)
    (hLinked : Chained lru) (call : CacheCall) : CallDefined cfg lru call where
  linked := hLinked
  bucket := slot_inTables hSlots _
  slot := slot_inTables hSlots _
  place _ _ _ _ := slot_inTables hSlots _
  evict key vKey vData _ := by
    have hFree := @Owned.free cfg lru vKey h
    apply evict_defined hSlots (hFree.1.claim hSlots hFree.2) hLinked.free.claim
    right
    have hCount := @countPrev_le cfg ((lru.free cfg vKey).claim cfg key vKey vData)
    omega

/-- What is held is what was put last. -/
def Latest (cfg : LRUConfig) (Key : Bytes → Prop) (lru : BinaryLRU)
    (latest : Bytes → Option Bytes) : Prop :=
  ∀ vKey, Key vKey → (binaryLRU cfg).held lru vKey = none ∨
    (binaryLRU cfg).held lru vKey = latest vKey

theorem Latest.after {Key : Bytes → Prop} {latest : Bytes → Option Bytes} {call : CacheCall}
    (hLawful : (binaryLRU cfg).Lawful Key) (hKey : Key call.vKey) (h : Latest cfg Key lru latest) :
    Latest cfg Key (call.after cfg lru) (call.record latest) := by
  intro vKey hThis
  cases call with
  | Has _ => exact h vKey hThis
  | Get vGet =>
      rw [show (binaryLRU cfg).held (CacheCall.after cfg lru (.Get vGet)) vKey = _ from
        hLawful.get lru vGet vKey hKey hThis]
      exact h vKey hThis
  | Put key vPut vData =>
      by_cases hSame : vKey = vPut
      · subst hSame
        rw [CacheCall.record, Function.update_self]
        exact hLawful.put lru key vKey vData hThis
      · rw [CacheCall.record, Function.update_of_ne hSame]
        cases hLawful.put_other lru key vPut vData vKey hKey hThis hSame with
        | inl hNone => exact .inl hNone
        | inr hKept =>
            rw [show (binaryLRU cfg).held (CacheCall.after cfg lru (.Put key vPut vData)) vKey = _
              from hKept]
            exact h vKey hThis
  | Remove vRemove =>
      by_cases hSame : vKey = vRemove
      · subst hSame
        exact .inl (hLawful.remove lru vKey hThis)
      · rw [CacheCall.record, Function.update_of_ne hSame]
        cases hLawful.remove_other lru vRemove vKey hKey hThis with
        | inl hNone => exact .inl hNone
        | inr hKept =>
            rw [show (binaryLRU cfg).held (CacheCall.after cfg lru (.Remove vRemove)) vKey = _
              from hKept]
            exact h vKey hThis

theorem transparent_run {Key : Bytes → Prop} {latest : Bytes → Option Bytes}
    {calls : List CacheCall} (hSlots : 0 < cfg.MAX_CACHE_BUCKETS)
    (hLawful : (binaryLRU cfg).Lawful Key) (hKeys : ∀ call ∈ calls, Key call.vKey)
    (h : Owned cfg lru) (hLinked : Chained lru) (hLatest : Latest cfg Key lru latest) :
    Transparent cfg Key lru latest calls := by
  induction calls generalizing lru latest with
  | nil => exact trivial
  | cons call calls ih =>
      have hKey := hKeys call List.mem_cons_self
      refine ⟨⟨call_defined hSlots h hLinked call, ?_, fun vKey hThis => hLawful.has lru vKey hThis⟩,
        ?_⟩
      · intro vKey vData hThis hGet
        cases hLatest vKey hThis with
        | inl hNone =>
            rw [show (lru.Get cfg vKey).1 = none from hNone] at hGet
            cases hGet
        | inr hSame =>
            rw [← hSame]
            exact hGet
      · exact ih (fun other hOther => hKeys other (List.mem_cons_of_mem _ hOther))
          (h.after hSlots) hLinked.after (hLatest.after hLawful hKey)

/-- A cache of 128 bytes has a slot. -/
theorem buckets_pos_iff {XXH64 : Bytes → UInt64} {nCacheSizeIn : UInt32} :
    0 < (cacheConfig XXH64 nCacheSizeIn).MAX_CACHE_BUCKETS ↔ 128 ≤ nCacheSizeIn := by
  show 0 < nCacheSizeIn / 128 ↔ _
  rw [UInt32.lt_iff_toNat_lt, UInt32.le_iff_toNat_le, UInt32.toNat_div]
  show 0 < nCacheSizeIn.toNat / 128 ↔ 128 ≤ nCacheSizeIn.toNat
  omega

/-- Every call of a run on a new cache is transparent, if and only if the cache has room for a
slot. -/
theorem cache_transparent_iff {XXH64 : Bytes → UInt64} {nCacheSizeIn : UInt32}
    {Key : Bytes → Prop} {calls : List CacheCall}
    (hApart : ∀ vKey vKey', Key vKey → Key vKey' → vKey' ≠ vKey → XXH64 vKey' ≠ XXH64 vKey)
    (hKeys : ∀ call ∈ calls, Key call.vKey) :
    Transparent (cacheConfig XXH64 nCacheSizeIn) Key (.new (cacheConfig XXH64 nCacheSizeIn))
      (fun _ => none) calls ↔ calls = [] ∨ 128 ≤ nCacheSizeIn := by
  constructor
  · intro h
    cases calls with
    | nil => exact .inl rfl
    | cons call calls =>
        right
        rw [← @buckets_pos_iff XXH64]
        exact UInt32.lt_of_le_of_lt UInt32.zero_le h.1.defined.bucket
  · rintro (rfl | hSize)
    · exact trivial
    · apply transparent_run (buckets_pos_iff.mpr hSize) (binaryLRU_lawful _ Key hApart) hKeys owned_new
      · exact ⟨leads_none, leads_none, fun p => by cases p <;> exact leads_none,
          fun p => by cases p <;> exact leads_none⟩
      · intro vKey _
        left
        rw [held_eq]
        exact if_pos rfl

/-- A toy hash: the number of the bytes. -/
def exampleHash (vKey : Bytes) : UInt64 := UInt64.ofNat (leNat vKey)

/-- A put, two reads and a removal. -/
def exampleCalls : List CacheCall :=
  [.Put (.of [1] 0 5 2) [1] [7, 8], .Get [1], .Has [2], .Remove [1]]

theorem cache_transparent_iff_example :
    Transparent (cacheConfig exampleHash 1024) (fun vKey => vKey = [1] ∨ vKey = [2])
      (.new (cacheConfig exampleHash 1024)) (fun _ => none) exampleCalls := by
  have hApart : ∀ vKey vKey' : Bytes, vKey = [1] ∨ vKey = [2] → vKey' = [1] ∨ vKey' = [2] →
      vKey' ≠ vKey → exampleHash vKey' ≠ exampleHash vKey := by
    rintro _ _ (rfl | rfl) (rfl | rfl) <;> decide
  exact (cache_transparent_iff hApart (by decide)).mpr (.inr (by decide))

theorem small_cache_undefined :
    ¬ Transparent (cacheConfig exampleHash 64) (fun vKey => vKey = [1] ∨ vKey = [2])
      (.new (cacheConfig exampleHash 64)) (fun _ => none) exampleCalls := by
  intro h
  exact absurd h.1.defined.bucket (by unfold InTables; decide)

end Nexus.Safety
