import Nexus.LLD.Places

/-!
# The record cache

Nodes in slots, found through one index for each bucket of keys, in a doubly linked list from the
node that was used last to the one that is dropped first.  A node is known by its slot.

## Main results

* `binaryLRU_lawful` — the cache may drop what it holds, but never answers for a key with anything
  but what was put last, for keys whose hashes are apart.
-/

namespace Nexus.LLD

/-- `BinaryNode`. -/
structure BinaryNode where
  pprev : Option UInt32 := none
  pnext : Option UInt32 := none
  hashKey : UInt64
  vData : Bytes

namespace BinaryNode

def IsNull (node : BinaryNode) : Prop := node.hashKey = 0

instance (node : BinaryNode) : Decidable node.IsNull := by
  unfold IsNull
  infer_instance

/-- `SetNull`. -/
def null : BinaryNode := { hashKey := 0, vData := [] }

end BinaryNode

/-- The hash of a cache and its limits. -/
structure LRUConfig where
  XXH64 : Bytes → UInt64
  MAX_CACHE_SIZE : UInt32
  MAX_CACHE_BUCKETS : UInt32

/-- `BinaryLRU`. -/
structure BinaryLRU where
  nCurrentSize : UInt32
  hashmap : UInt32 → Option BinaryNode := fun _ => none
  indexes : UInt32 → UInt64 := fun _ => 0
  pfirst : Option UInt32 := none
  plast : Option UInt32 := none

namespace BinaryLRU

variable (cfg : LRUConfig) (lru : BinaryLRU)

/-- The constructor. -/
def new : BinaryLRU := { nCurrentSize := cfg.MAX_CACHE_BUCKETS * 16 }

def bucket (vKey : Bytes) : UInt32 := (cfg.XXH64 vKey % cfg.MAX_CACHE_BUCKETS.toUInt64).toUInt32

def slot (nIndex : UInt64) : UInt32 := (nIndex % cfg.MAX_CACHE_BUCKETS.toUInt64).toUInt32

/-! ## The linked list -/

/-- A node is changed through a pointer to it. -/
def modify (p : Option UInt32) (f : BinaryNode → BinaryNode) : BinaryLRU :=
  match p with
  | none => lru
  | some nSlot =>
      { lru with hashmap := Function.update lru.hashmap nSlot ((lru.hashmap nSlot).map f) }

def pprev (p : Option UInt32) : Option UInt32 := p.bind fun nSlot =>
  (lru.hashmap nSlot).bind BinaryNode.pprev

def pnext (p : Option UInt32) : Option UInt32 := p.bind fun nSlot =>
  (lru.hashmap nSlot).bind BinaryNode.pnext

/-- The last pointer goes to the node in front. -/
def relinkLast (pthis : Option UInt32) : BinaryLRU :=
  if pthis = lru.plast then
    { lru with plast := lru.pprev lru.plast }.modify (lru.pprev lru.plast)
      fun node => { node with pnext := none }
  else lru

/-- The first pointer goes to the node behind. -/
def relinkFirst (pthis : Option UInt32) : BinaryLRU :=
  if pthis = lru.pfirst then
    { lru with pfirst := lru.pnext lru.pfirst }.modify (lru.pnext lru.pfirst)
      fun node => { node with pprev := none }
  else lru

def bridgeNext (pthis : Option UInt32) : BinaryLRU :=
  lru.modify (lru.pnext pthis) fun node => { node with pprev := lru.pprev pthis }

def bridgePrev (pthis : Option UInt32) : BinaryLRU :=
  lru.modify (lru.pprev pthis) fun node => { node with pnext := lru.pnext pthis }

def unlink (pthis : Option UInt32) : BinaryLRU :=
  lru.modify pthis fun node => { node with pnext := none, pprev := none }

def remove_node (pthis : Option UInt32) : BinaryLRU :=
  ((((lru.relinkLast pthis).relinkFirst pthis).bridgeNext pthis).bridgePrev pthis).unlink pthis

def linkFront (pthis : Option UInt32) : BinaryLRU :=
  lru.modify pthis fun node => { node with pprev := none, pnext := lru.pfirst }

/-- The node that was first, if there is one, is linked back, and is the last one if there was
none. -/
def linkBack (pthis : Option UInt32) : BinaryLRU :=
  let lru := lru.modify lru.pfirst fun node => { node with pprev := pthis }
  if lru.pfirst.isSome ∧ lru.plast.isNone then
    { lru with plast := lru.pfirst }.modify lru.pfirst fun node => { node with pnext := none }
  else lru

def move_to_front (pthis : Option UInt32) : BinaryLRU :=
  if pthis = lru.pfirst then lru
  else { ((lru.remove_node pthis).linkFront pthis).linkBack pthis with pfirst := pthis }

/-! ## Operations -/

def Has (vKey : Bytes) : Bool :=
  let nIndex := lru.indexes (bucket cfg vKey)
  if nIndex = 0 then false
  else
    match lru.hashmap (slot cfg nIndex) with
    | none => false
    | some pthis => !decide pthis.IsNull && pthis.hashKey == cfg.XXH64 vKey

def Get (vKey : Bytes) : Option Bytes × BinaryLRU :=
  let nIndex := lru.indexes (bucket cfg vKey)
  let reset := { lru with indexes := Function.update lru.indexes (bucket cfg vKey) 0 }
  if nIndex = 0 then (none, lru)
  else
    match lru.hashmap (slot cfg nIndex) with
    | none => (none, reset)
    | some pthis =>
        if pthis.IsNull then (none, reset)
        else if pthis.hashKey ≠ cfg.XXH64 vKey then (none, lru)
        else (some pthis.vData, lru.move_to_front (some (slot cfg nIndex)))

/-- The last node is taken from the list and emptied, and the index of its bucket reset. -/
def dropLast (pnode : BinaryNode) : BinaryLRU :=
  let nBucket := (pnode.hashKey % cfg.MAX_CACHE_BUCKETS.toUInt64).toUInt32
  let unlinked := ({ lru with plast := lru.pprev lru.plast }.modify (lru.pprev lru.plast)
    fun node => { node with pnext := none }).unlink lru.plast
  let emptied := unlinked.modify (some (slot cfg (lru.indexes nBucket))) fun _ => .null
  { emptied with
    nCurrentSize := lru.nCurrentSize - UInt32.ofNat pnode.vData.length
    indexes := Function.update lru.indexes nBucket 0 }

/-- The loop of `Put` that drops the last nodes. -/
def evict : Nat → BinaryLRU → BinaryLRU
  | 0, lru => lru
  | nFuel + 1, lru =>
      if cfg.MAX_CACHE_SIZE < lru.nCurrentSize then
        match lru.plast.bind lru.hashmap with
        | none => lru
        | some pnode => if pnode.IsNull then lru else evict nFuel (lru.dropLast cfg pnode)
      else lru

/-- `sizeof(BinaryNode)`. -/
def nNodeSize : UInt32 := 48

/-- A node is taken from the list and emptied. -/
def clear (nSlot : UInt32) : BinaryLRU :=
  (lru.remove_node (some nSlot)).modify (some nSlot) fun _ => .null

/-- The first step of `Put`: the node that the index of the bucket leads to is freed. -/
def free (vKey : Bytes) : BinaryLRU :=
  let nIndex := lru.indexes (bucket cfg vKey)
  if nIndex = 0 then lru
  else
    match lru.hashmap (slot cfg nIndex) with
    | none => lru
    | some pthis =>
        if pthis.IsNull then lru
        else { lru.clear (slot cfg nIndex) with
          nCurrentSize := lru.nCurrentSize - UInt32.ofNat pthis.vData.length }

/-- The index of a place, a product of 32 bits. -/
def placeIndex (place : UInt32 × UInt32) : UInt64 :=
  ((place.1 + 1) * (place.2 + 1)).toUInt64

/-- The second step of `Put`: the slot of the place is taken. -/
def claim (key : SectorKey) (vKey vData : Bytes) : BinaryLRU :=
  let nSlot := slot cfg (placeIndex key.place)
  let node := (lru.hashmap nSlot).getD .null
  let nCurrentSize :=
    match lru.hashmap nSlot with
    | some pthis =>
        if pthis.IsNull then lru.nCurrentSize
        else lru.nCurrentSize - UInt32.ofNat pthis.vData.length
    | none => lru.nCurrentSize + nNodeSize
  { lru with
    nCurrentSize
    indexes := Function.update lru.indexes (bucket cfg vKey) (placeIndex key.place)
    hashmap := Function.update lru.hashmap nSlot
      (some { node with hashKey := cfg.XXH64 vKey, vData }) }.move_to_front (some nSlot)

def Put (key : SectorKey) (vKey vData : Bytes) : BinaryLRU :=
  let lru := evict cfg (cfg.MAX_CACHE_BUCKETS.toNat + 1)
    ((lru.free cfg vKey).claim cfg key vKey vData)
  { lru with nCurrentSize := lru.nCurrentSize + UInt32.ofNat vData.length }

def Remove (vKey : Bytes) : BinaryLRU :=
  let nIndex := lru.indexes (bucket cfg vKey)
  if nIndex = 0 then lru
  else
    match lru.hashmap (slot cfg nIndex) with
    | none => { lru with indexes := Function.update lru.indexes (bucket cfg vKey) 0 }
    | some _ =>
        -- the size that is taken off is that of the emptied node
        { lru.clear (slot cfg nIndex) with
          nCurrentSize := lru.nCurrentSize - nNodeSize
          indexes := Function.update lru.indexes (bucket cfg vKey) 0 }

end BinaryLRU

/-- `BinaryLRU` as the cache of a sector database. -/
def binaryLRU (cfg : LRUConfig) : CacheType BinaryLRU where
  Has lru vKey := lru.Has cfg vKey
  Get lru vKey := lru.Get cfg vKey
  Put lru key vKey vData := lru.Put cfg key vKey vData
  Remove lru vKey := lru.Remove cfg vKey

/-! ## What is held -/

namespace BinaryLRU

variable {cfg : LRUConfig} {lru lru' lru'' : BinaryLRU} {vKey vKey' vData : Bytes}
variable {key : SectorKey} {p : Option UInt32} {nSlot : UInt32}

/-- A node without its links. -/
def contents (lru : BinaryLRU) (nSlot : UInt32) : Option (UInt64 × Bytes) :=
  (lru.hashmap nSlot).map fun node => (node.hashKey, node.vData)

/-- The answer of `Get`. -/
theorem held_eq : (binaryLRU cfg).held lru vKey =
    if lru.indexes (bucket cfg vKey) = 0 then none
    else (lru.contents (slot cfg (lru.indexes (bucket cfg vKey)))).bind fun node =>
      if node.1 ≠ 0 ∧ node.1 = cfg.XXH64 vKey then some node.2 else none := by
  show (lru.Get cfg vKey).1 = _
  unfold BinaryLRU.Get contents
  by_cases hIndex : lru.indexes (bucket cfg vKey) = 0
  · simp only [if_pos hIndex]
  · simp only [if_neg hIndex]
    cases lru.hashmap (slot cfg (lru.indexes (bucket cfg vKey))) with
    | none => rfl
    | some pthis =>
        simp only [Option.map_some, Option.bind_some]
        by_cases hNull : pthis.hashKey = 0
        · simp only [BinaryNode.IsNull, hNull, if_true, ne_eq, not_true_eq_false, false_and,
            if_false]
        · by_cases hHash : pthis.hashKey = cfg.XXH64 vKey
          · have hNone : ¬ pthis.IsNull := hNull
            rw [if_neg hNone, if_neg (not_not_intro hHash), if_pos ⟨hNull, hHash⟩]
          · have hNone : ¬ pthis.IsNull := hNull
            rw [if_neg hNone, if_pos hHash, if_neg fun hBoth => hHash hBoth.2]

/-- Two caches that differ in their links and sizes only. -/
def SameContents (lru lru' : BinaryLRU) : Prop :=
  lru'.contents = lru.contents ∧ lru'.indexes = lru.indexes

/-- A cache after some nodes were emptied and some indexes reset. -/
def Fewer (lru lru' : BinaryLRU) : Prop :=
  (∀ nSlot, lru'.contents nSlot = lru.contents nSlot ∨ lru'.contents nSlot = some (0, [])) ∧
    ∀ nBucket, lru'.indexes nBucket = lru.indexes nBucket ∨ lru'.indexes nBucket = 0

theorem SameContents.fewer (h : SameContents lru lru') : Fewer lru lru' :=
  ⟨fun _ => .inl (by rw [h.1]), fun _ => .inl (by rw [h.2])⟩

theorem SameContents.trans (h : SameContents lru lru') (h' : SameContents lru' lru'') :
    SameContents lru lru'' :=
  ⟨h'.1.trans h.1, h'.2.trans h.2⟩

theorem Fewer.refl : Fewer lru lru := ⟨fun _ => .inl rfl, fun _ => .inl rfl⟩

theorem Fewer.trans (h : Fewer lru lru') (h' : Fewer lru' lru'') : Fewer lru lru'' := by
  constructor
  · intro nSlot
    cases h'.1 nSlot with
    | inl hSame =>
        rw [hSame]
        exact h.1 nSlot
    | inr hNull => exact .inr hNull
  · intro nBucket
    cases h'.2 nBucket with
    | inl hSame =>
        rw [hSame]
        exact h.2 nBucket
    | inr hZero => exact .inr hZero

/-- Nothing new is held. -/
theorem Fewer.held (h : Fewer lru lru') : (binaryLRU cfg).held lru' vKey = none ∨
    (binaryLRU cfg).held lru' vKey = (binaryLRU cfg).held lru vKey := by
  rw [held_eq, held_eq]
  cases h.2 (bucket cfg vKey) with
  | inr hZero => exact .inl (if_pos hZero)
  | inl hSame =>
      rw [hSame]
      cases h.1 (slot cfg (lru.indexes (bucket cfg vKey))) with
      | inl hNode =>
          rw [hNode]
          exact .inr rfl
      | inr hNull =>
          rw [hNull]
          left
          split
          · rfl
          · simp

theorem SameContents.held (h : SameContents lru lru') :
    (binaryLRU cfg).held lru' vKey = (binaryLRU cfg).held lru vKey := by
  rw [held_eq, held_eq, h.1, h.2]

theorem SameContents.refl : SameContents lru lru := ⟨rfl, rfl⟩

/-- A change of the links of a node. -/
theorem modify_links {f : BinaryNode → BinaryNode}
    (hLinks : ∀ node, (f node).hashKey = node.hashKey ∧ (f node).vData = node.vData) :
    SameContents lru (lru.modify p f) := by
  cases p with
  | none => exact .refl
  | some nThis =>
      refine ⟨funext fun nSlot => ?_, rfl⟩
      by_cases hSame : nSlot = nThis
      · subst hSame
        simp only [modify, contents, Function.update_self, Option.map_map]
        congr 1
        funext node
        simp only [Function.comp_apply, hLinks]
      · simp only [modify, contents, Function.update_of_ne hSame]

/-- A node is emptied. -/
theorem modify_null : Fewer lru (lru.modify p fun _ => .null) := by
  cases p with
  | none => exact .refl
  | some nThis =>
      refine ⟨fun nSlot => ?_, fun _ => .inl rfl⟩
      by_cases hSame : nSlot = nThis
      · subst hSame
        simp only [modify, contents, Function.update_self, Option.map_map]
        cases lru.hashmap nSlot with
        | none => exact .inl rfl
        | some node => exact .inr rfl
      · exact .inl (by simp only [modify, contents, Function.update_of_ne hSame])

theorem relinkLast_same : SameContents lru (lru.relinkLast p) := by
  unfold relinkLast
  split
  · exact .trans ⟨rfl, rfl⟩ (modify_links fun _ => ⟨rfl, rfl⟩)
  · exact .refl

theorem relinkFirst_same : SameContents lru (lru.relinkFirst p) := by
  unfold relinkFirst
  split
  · exact .trans ⟨rfl, rfl⟩ (modify_links fun _ => ⟨rfl, rfl⟩)
  · exact .refl

theorem bridgeNext_same : SameContents lru (lru.bridgeNext p) := by
  unfold bridgeNext
  exact modify_links fun _ => ⟨rfl, rfl⟩

theorem bridgePrev_same : SameContents lru (lru.bridgePrev p) := by
  unfold bridgePrev
  exact modify_links fun _ => ⟨rfl, rfl⟩

theorem unlink_same : SameContents lru (lru.unlink p) := by
  unfold unlink
  exact modify_links fun _ => ⟨rfl, rfl⟩

theorem linkFront_same : SameContents lru (lru.linkFront p) := by
  unfold linkFront
  exact modify_links fun _ => ⟨rfl, rfl⟩

theorem remove_node_same : SameContents lru (lru.remove_node p) :=
  relinkLast_same.trans <| relinkFirst_same.trans <| bridgeNext_same.trans <|
    bridgePrev_same.trans unlink_same

theorem linkBack_same : SameContents lru (lru.linkBack p) := by
  have hBack : SameContents lru (lru.modify lru.pfirst fun node => { node with pprev := p }) :=
    modify_links fun _ => ⟨rfl, rfl⟩
  unfold linkBack
  generalize (lru.modify lru.pfirst fun node => { node with pprev := p }) = lru₁ at hBack
  refine hBack.trans ?_
  simp only
  split
  · exact .trans ⟨rfl, rfl⟩ (modify_links fun _ => ⟨rfl, rfl⟩)
  · exact .refl

theorem move_to_front_same : SameContents lru (lru.move_to_front p) := by
  unfold move_to_front
  split
  · exact .refl
  · have hLinked : SameContents lru (((lru.remove_node p).linkFront p).linkBack p) :=
      remove_node_same.trans (linkFront_same.trans linkBack_same)
    exact hLinked

theorem clear_fewer : Fewer lru (lru.clear nSlot) :=
  .trans remove_node_same.fewer modify_null

theorem free_fewer : Fewer lru (lru.free cfg vKey) := by
  unfold free
  simp only
  split
  · exact .refl
  · split
    · exact .refl
    · split
      · exact .refl
      · exact clear_fewer

theorem dropLast_fewer {pnode : BinaryNode} : Fewer lru (lru.dropLast cfg pnode) := by
  have hLast : SameContents lru ({ lru with plast := lru.pprev lru.plast }.modify
      (lru.pprev lru.plast) fun node => { node with pnext := none }) :=
    .trans ⟨rfl, rfl⟩ (modify_links fun _ => ⟨rfl, rfl⟩)
  have hUnlinked := hLast.trans (@unlink_same _ lru.plast)
  have hEmptied := hUnlinked.fewer.trans (@modify_null _ (some (slot cfg (lru.indexes
    (pnode.hashKey % cfg.MAX_CACHE_BUCKETS.toUInt64).toUInt32))))
  refine ⟨hEmptied.1, fun nBucket => ?_⟩
  unfold dropLast
  simp only
  by_cases hSame : nBucket = (pnode.hashKey % cfg.MAX_CACHE_BUCKETS.toUInt64).toUInt32
  · rw [hSame]
    exact .inr (Function.update_self _ _ _)
  · exact .inl (Function.update_of_ne hSame _ _)

theorem evict_fewer {nFuel : Nat} : Fewer lru (evict cfg nFuel lru) := by
  induction nFuel generalizing lru with
  | zero => exact .refl
  | succ nFuel ih =>
      rw [evict]
      split
      · split
        · exact .refl
        · split
          · exact .refl
          · exact .trans dropLast_fewer ih
      · exact .refl

/-- The cache with a slot claimed, but for its links. -/
theorem claim_same : SameContents { lru with
      indexes := Function.update lru.indexes (bucket cfg vKey) (placeIndex key.place)
      hashmap := Function.update lru.hashmap (slot cfg (placeIndex key.place))
        (some { hashKey := cfg.XXH64 vKey, vData }) } (lru.claim cfg key vKey vData) := by
  unfold claim
  simp only
  refine SameContents.trans ?_ move_to_front_same
  refine ⟨funext fun nSlot => ?_, rfl⟩
  by_cases hSame : nSlot = slot cfg (placeIndex key.place)
  · subst hSame
    simp only [contents, Function.update_self, Option.map_some]
  · simp only [contents, Function.update_of_ne hSame]

theorem claim_self : (binaryLRU cfg).held (lru.claim cfg key vKey vData) vKey = none ∨
    (binaryLRU cfg).held (lru.claim cfg key vKey vData) vKey = some vData := by
  rw [SameContents.held claim_same, held_eq]
  simp only [Function.update_self, contents, Option.map_some, Option.bind_some, and_true]
  split
  · exact .inl rfl
  · split
    · exact .inr rfl
    · exact .inl rfl

theorem claim_other (hHash : cfg.XXH64 vKey' ≠ cfg.XXH64 vKey) :
    (binaryLRU cfg).held (lru.claim cfg key vKey vData) vKey' = none ∨
      (binaryLRU cfg).held (lru.claim cfg key vKey vData) vKey' =
        (binaryLRU cfg).held lru vKey' := by
  rw [SameContents.held claim_same, held_eq, held_eq]
  simp only
  by_cases hBucket : bucket cfg vKey' = bucket cfg vKey
  · -- the index of the bucket leads to the new node
    left
    rw [hBucket, Function.update_self]
    simp only [contents, Function.update_self, Option.map_some, Option.bind_some]
    split
    · rfl
    · exact if_neg fun hBoth => hHash hBoth.2.symm
  · rw [Function.update_of_ne hBucket]
    by_cases hSlot : slot cfg (lru.indexes (bucket cfg vKey')) = slot cfg (placeIndex key.place)
    · left
      rw [hSlot]
      simp only [contents, Function.update_self, Option.map_some, Option.bind_some]
      split
      · rfl
      · exact if_neg fun hBoth => hHash hBoth.2.symm
    · right
      simp only [contents, Function.update_of_ne hSlot]

theorem put_fewer : Fewer ((lru.free cfg vKey).claim cfg key vKey vData)
    (lru.Put cfg key vKey vData) := by
  exact evict_fewer

theorem remove_fewer : Fewer lru (lru.Remove cfg vKey) := by
  have hReset : ∀ nBucket, Function.update lru.indexes (bucket cfg vKey) 0 nBucket =
      lru.indexes nBucket ∨ Function.update lru.indexes (bucket cfg vKey) 0 nBucket = 0 := by
    intro nBucket
    by_cases hSame : nBucket = bucket cfg vKey
    · rw [hSame]
      exact .inr (Function.update_self _ _ _)
    · exact .inl (Function.update_of_ne hSame _ _)
  unfold Remove
  simp only
  split
  · exact .refl
  · split
    · exact ⟨fun _ => .inl rfl, hReset⟩
    · exact ⟨clear_fewer.1, hReset⟩

end BinaryLRU

open BinaryLRU in
/-- The cache never answers wrongly for keys whose hashes are apart. -/
theorem binaryLRU_lawful (cfg : LRUConfig) (Key : Bytes → Prop)
    (hApart : ∀ vKey vKey', Key vKey → Key vKey' → vKey' ≠ vKey →
      cfg.XXH64 vKey' ≠ cfg.XXH64 vKey) : (binaryLRU cfg).Lawful Key where
  has lru vKey _ := by
    rw [held_eq]
    show lru.Has cfg vKey = _
    unfold BinaryLRU.Has contents
    by_cases hIndex : lru.indexes (bucket cfg vKey) = 0
    · simp only [if_pos hIndex, Option.isSome_none]
    · simp only [if_neg hIndex]
      cases lru.hashmap (slot cfg (lru.indexes (bucket cfg vKey))) with
      | none => rfl
      | some pthis =>
          simp only [Option.map_some, Option.bind_some]
          by_cases hNull : pthis.IsNull
          · have hNot : ¬ (pthis.hashKey ≠ 0 ∧ pthis.hashKey = cfg.XXH64 vKey) :=
              fun hBoth => hBoth.1 hNull
            rw [decide_eq_true hNull, if_neg hNot]
            rfl
          · rw [decide_eq_false hNull]
            by_cases hHash : pthis.hashKey = cfg.XXH64 vKey
            · rw [if_pos ⟨hNull, hHash⟩, beq_iff_eq.mpr hHash]
              rfl
            · rw [if_neg fun hBoth => hHash hBoth.2, beq_false_of_ne hHash]
              rfl
  get lru vKey vKey' _ _ := by
    show (binaryLRU cfg).held (lru.Get cfg vKey).2 vKey' = _
    have hReset : ∀ node, lru.contents (slot cfg (lru.indexes (bucket cfg vKey))) = node →
        (∀ n, node = some n → n.1 = 0) →
        (binaryLRU cfg).held { lru with
          indexes := Function.update lru.indexes (bucket cfg vKey) 0 } vKey' =
        (binaryLRU cfg).held lru vKey' := by
      intro node hNode hNull
      rw [held_eq, held_eq]
      simp only
      by_cases hBucket : bucket cfg vKey' = bucket cfg vKey
      · rw [hBucket, Function.update_self, if_pos rfl, hNode]
        split
        · rfl
        · cases node with
          | none => rfl
          | some n => simp [hNull n rfl]
      · rw [Function.update_of_ne hBucket]
        rfl
    unfold BinaryLRU.Get
    simp only
    split
    · rfl
    · cases hNode : lru.hashmap (slot cfg (lru.indexes (bucket cfg vKey))) with
      | none =>
          apply hReset none
          · rw [contents, hNode, Option.map_none]
          · intro n hSome
            cases hSome
      | some pthis =>
          simp only
          split
          · rename_i hNull
            apply hReset (some (pthis.hashKey, pthis.vData))
            · rw [contents, hNode, Option.map_some]
            · intro n hSome
              cases hSome
              exact hNull
          · split
            · rfl
            · exact SameContents.held move_to_front_same
  put lru key vKey vData _ := by
    cases put_fewer.held with
    | inl hNone => exact .inl hNone
    | inr hSame =>
        rw [show (binaryLRU cfg).held ((binaryLRU cfg).Put lru key vKey vData) vKey = _ from hSame]
        exact claim_self
  put_other lru key vKey vData vKey' hKey hKey' hNe := by
    cases put_fewer.held with
    | inl hNone => exact .inl hNone
    | inr hSame =>
        rw [show (binaryLRU cfg).held ((binaryLRU cfg).Put lru key vKey vData) vKey' = _ from hSame]
        cases claim_other (hApart vKey vKey' hKey hKey' hNe) with
        | inl hNone => exact .inl hNone
        | inr hKept =>
            rw [hKept]
            exact free_fewer.held
  remove lru vKey _ := by
    show (binaryLRU cfg).held (lru.Remove cfg vKey) vKey = none
    rw [held_eq]
    have hZero : (lru.Remove cfg vKey).indexes (bucket cfg vKey) = 0 := by
      unfold Remove
      simp only
      split
      · assumption
      · split
        · exact Function.update_self _ _ _
        · exact Function.update_self _ _ _
    rw [if_pos hZero]
  remove_other _ _ _ _ _ := remove_fewer.held

namespace BinaryLRU

variable {cfg : LRUConfig} {lru lru' : BinaryLRU} {vKey vKey' vData : Bytes} {key : SectorKey}

/-- What is held has an index. -/
theorem index_of_held (h : (binaryLRU cfg).held lru vKey ≠ none) :
    lru.indexes (bucket cfg vKey) ≠ 0 := by
  intro hZero
  rw [held_eq, if_pos hZero] at h
  exact h rfl

/-- What is still held is held under its index. -/
theorem Fewer.index (h : Fewer lru lru') (hHeld : (binaryLRU cfg).held lru' vKey ≠ none) :
    lru'.indexes (bucket cfg vKey) = lru.indexes (bucket cfg vKey) :=
  (h.2 (bucket cfg vKey)).resolve_right (index_of_held hHeld)

/-- What is held of another key after a put is in another bucket. -/
theorem bucket_of_held (hHash : cfg.XXH64 vKey' ≠ cfg.XXH64 vKey)
    (hHeld : (binaryLRU cfg).held (lru.claim cfg key vKey vData) vKey' ≠ none) :
    bucket cfg vKey' ≠ bucket cfg vKey ∧
      slot cfg (lru.indexes (bucket cfg vKey')) ≠ slot cfg (placeIndex key.place) := by
  rw [SameContents.held claim_same, held_eq] at hHeld
  simp only at hHeld
  have hOver : ∀ nIndex, slot cfg nIndex = slot cfg (placeIndex key.place) →
      (BinaryLRU.contents { lru with
        indexes := Function.update lru.indexes (bucket cfg vKey) (placeIndex key.place)
        hashmap := Function.update lru.hashmap (slot cfg (placeIndex key.place))
          (some { hashKey := cfg.XXH64 vKey, vData }) } (slot cfg nIndex)).bind
        (fun node => if node.1 ≠ 0 ∧ node.1 = cfg.XXH64 vKey' then some node.2 else none) =
      none := by
    intro nIndex hSlot
    rw [hSlot]
    simp only [contents, Function.update_self, Option.map_some, Option.bind_some]
    exact if_neg fun hBoth => hHash hBoth.2.symm
  have hBucket : bucket cfg vKey' ≠ bucket cfg vKey := by
    intro hSame
    apply hHeld
    rw [hSame, Function.update_self, hOver _ rfl]
    split <;> rfl
  refine ⟨hBucket, fun hSlot => ?_⟩
  apply hHeld
  rw [Function.update_of_ne hBucket, hOver _ hSlot]
  split <;> rfl

theorem claim_indexes : (lru.claim cfg key vKey vData).indexes =
    Function.update lru.indexes (bucket cfg vKey) (placeIndex key.place) :=
  claim_same.2

/-- A key is under the index of a place. -/
def At (cfg : LRUConfig) (lru : BinaryLRU) (vKey : Bytes) (place : UInt32 × UInt32) : Prop :=
  lru.indexes (bucket cfg vKey) = placeIndex place

end BinaryLRU

open BinaryLRU in
/-- Two keys of one place have one slot, which only one of them can hold. -/
theorem binaryLRU_byPlace (cfg : LRUConfig) (Key : Bytes → Prop)
    (hApart : ∀ vKey vKey', Key vKey → Key vKey' → vKey' ≠ vKey →
      cfg.XXH64 vKey' ≠ cfg.XXH64 vKey) :
    (binaryLRU cfg).ByPlace Key (BinaryLRU.At cfg) where
  toLawful := binaryLRU_lawful cfg Key hApart
  put_at lru key vKey vData _ hHeld := by
    show (lru.Put cfg key vKey vData).indexes (bucket cfg vKey) = _
    rw [put_fewer.index hHeld, claim_indexes, Function.update_self]
  put_apart lru key vKey vData vKey' hKey hKey' hNe hHeld hAt := by
    have hClaimed : (binaryLRU cfg).held ((lru.free cfg vKey).claim cfg key vKey vData) vKey' ≠
        none := by
      intro hNone
      exact hHeld (put_fewer.held.elim id fun hSame => hSame.trans hNone)
    obtain ⟨hBucket, hSlot⟩ := bucket_of_held (hApart vKey vKey' hKey hKey' hNe) hClaimed
    have hIndex := index_of_held hClaimed
    rw [claim_indexes, Function.update_of_ne hBucket] at hIndex
    apply hSlot
    rw [(free_fewer.2 (bucket cfg vKey')).resolve_right hIndex]
    exact congrArg (slot cfg) hAt
  put_keeps lru key vKey vData vKey' place hKey hKey' hNe hHeld hAt := by
    have hClaimed : (binaryLRU cfg).held ((lru.free cfg vKey).claim cfg key vKey vData) vKey' ≠
        none := by
      intro hNone
      exact hHeld (put_fewer.held.elim id fun hSame => hSame.trans hNone)
    obtain ⟨hBucket, -⟩ := bucket_of_held (hApart vKey vKey' hKey hKey' hNe) hClaimed
    have hIndex := index_of_held hClaimed
    rw [claim_indexes, Function.update_of_ne hBucket] at hIndex
    show (lru.Put cfg key vKey vData).indexes (bucket cfg vKey') = _
    rw [put_fewer.index hHeld, claim_indexes, Function.update_of_ne hBucket,
      (free_fewer.2 (bucket cfg vKey')).resolve_right hIndex]
    exact hAt
  get_keeps lru vKey vKey' place _ _ hHeld hAt := by
    have hFewer : (lru.Get cfg vKey).2.indexes = lru.indexes ∨
        (lru.Get cfg vKey).2.indexes =
          Function.update lru.indexes (bucket cfg vKey) 0 := by
      unfold BinaryLRU.Get
      simp only
      split
      · exact .inl rfl
      · split
        · exact .inr rfl
        · split
          · exact .inr rfl
          · split
            · exact .inl rfl
            · exact .inl move_to_front_same.2
    show (lru.Get cfg vKey).2.indexes (bucket cfg vKey') = _
    have hIndex : (lru.Get cfg vKey).2.indexes (bucket cfg vKey') ≠ 0 := index_of_held hHeld
    cases hFewer with
    | inl hSame =>
        rw [hSame]
        exact hAt
    | inr hReset =>
        rw [hReset] at hIndex ⊢
        by_cases hBucket : bucket cfg vKey' = bucket cfg vKey
        · rw [hBucket, Function.update_self] at hIndex
          exact absurd rfl hIndex
        · rw [Function.update_of_ne hBucket]
          exact hAt
  remove_keeps lru vKey vKey' place _ _ hHeld hAt := by
    show (lru.Remove cfg vKey).indexes (bucket cfg vKey') = _
    rw [remove_fewer.index hHeld]
    exact hAt

end Nexus.LLD
