import Mathlib.Algebra.Group.Action.Defs
import Mathlib.Algebra.Order.BigOperators.Group.Finset
import Nexus.Lib.Linked
import Nexus.Safety.Caches

/-!
# What the record cache charges

The list of the record cache against its nodes, and its size against what the nodes are charged.
The nodes are never freed: a node that was emptied is charged with its own size until its slot is
claimed again.

## Main results

* `cache_accounts` — in every run whose puts have room the list has each live node once and each put
  drops live nodes only; there is room, and the size accounts for the nodes, as long as no removal
  finds a node.
* `cache_drifts` — what a removal, a hash of zero and an index of zero do to this.
-/

namespace Nexus.Safety

open Nexus.Lib.Linked
open Nexus.Util
open Nexus.LLD
open Nexus.LLD.BinaryLRU

variable {cfg : LRUConfig} {lru lru' : BinaryLRU} {p : Option UInt32} {l l' : List UInt32}
variable {vKey vData : Bytes} {key : SectorKey} {nSlot : UInt32}

/-! ## The links of the nodes -/

/-- The pointers of a cache. -/
def linksOf (lru : BinaryLRU) : Links UInt32 where
  cell nSlot := (lru.hashmap nSlot).map fun node => ⟨node.pprev, node.pnext⟩
  pfirst := lru.pfirst
  plast := lru.plast

theorem linksOf_modify {f : BinaryNode → BinaryNode} {g : Cell UInt32 → Cell UInt32}
    (h : ∀ node, Cell.mk (f node).pprev (f node).pnext = g ⟨node.pprev, node.pnext⟩) :
    linksOf (lru.modify p f) = (linksOf lru).modify p g := by
  cases p with
  | none => rfl
  | some nThis =>
      have hCell : (linksOf (lru.modify (some nThis) f)).cell =
          setCell (linksOf lru).cell (some nThis) g := by
        funext nSlot
        by_cases hHere : nSlot = nThis
        · subst hHere
          rw [setCell_self]
          simp only [linksOf, BinaryLRU.modify, Function.update_self, Option.map_map]
          congr 1
          funext node
          exact h node
        · rw [setCell_of_ne fun hEq => hHere (Option.some.inj hEq).symm]
          simp only [linksOf, BinaryLRU.modify, Function.update_of_ne hHere]
      show Links.mk (linksOf (lru.modify (some nThis) f)).cell _ _ = _
      rw [hCell]
      rfl

theorem linksOf_pprev : (linksOf lru).pprev p = lru.pprev p := by
  cases p with
  | none => rfl
  | some nThis =>
      simp only [Links.pprev, pprev, linksOf, Option.bind_some, Option.bind_map]
      rfl

theorem linksOf_pnext : (linksOf lru).pnext p = lru.pnext p := by
  cases p with
  | none => rfl
  | some nThis =>
      simp only [Links.pnext, pnext, linksOf, Option.bind_some, Option.bind_map]
      rfl

theorem linksOf_relinkLast : linksOf (lru.relinkLast p) = (linksOf lru).relinkLast p := by
  rw [BinaryLRU.relinkLast, Links.relinkLast]
  simp only [show (linksOf lru).plast = lru.plast from rfl, linksOf_pprev]
  split
  · exact linksOf_modify fun _ => rfl
  · rfl

theorem linksOf_relinkFirst : linksOf (lru.relinkFirst p) = (linksOf lru).relinkFirst p := by
  rw [BinaryLRU.relinkFirst, Links.relinkFirst]
  simp only [show (linksOf lru).pfirst = lru.pfirst from rfl, linksOf_pnext]
  split
  · exact linksOf_modify fun _ => rfl
  · rfl

theorem linksOf_bridgeNext : linksOf (lru.bridgeNext p) = (linksOf lru).bridgeNext p := by
  rw [BinaryLRU.bridgeNext, Links.bridgeNext, linksOf_pnext, linksOf_pprev]
  exact linksOf_modify fun _ => rfl

theorem linksOf_bridgePrev : linksOf (lru.bridgePrev p) = (linksOf lru).bridgePrev p := by
  rw [BinaryLRU.bridgePrev, Links.bridgePrev, linksOf_pnext, linksOf_pprev]
  exact linksOf_modify fun _ => rfl

theorem linksOf_unlink : linksOf (lru.unlink p) = (linksOf lru).unlink p := by
  rw [BinaryLRU.unlink, Links.unlink]
  exact linksOf_modify fun _ => rfl

theorem linksOf_remove_node : linksOf (lru.remove_node p) = (linksOf lru).remove p := by
  rw [BinaryLRU.remove_node, Links.remove, linksOf_unlink, linksOf_bridgePrev, linksOf_bridgeNext,
    linksOf_relinkFirst, linksOf_relinkLast]

theorem linksOf_linkFront : linksOf (lru.linkFront p) = (linksOf lru).linkFront p := by
  rw [BinaryLRU.linkFront, Links.linkFront]
  exact linksOf_modify fun _ => rfl

theorem linksOf_linkBack : linksOf (lru.linkBack p) = (linksOf lru).linkBack p := by
  have hBack : linksOf (lru.modify lru.pfirst fun node => { node with pprev := p }) =
      (linksOf lru).modify lru.pfirst fun node => { node with pprev := p } :=
    linksOf_modify fun _ => rfl
  rw [BinaryLRU.linkBack, Links.linkBack]
  simp only [show (linksOf lru).pfirst = lru.pfirst from rfl, ← hBack]
  generalize (lru.modify lru.pfirst fun node => { node with pprev := p }) = lru₁
  simp only [show (linksOf lru₁).pfirst = lru₁.pfirst from rfl,
    show (linksOf lru₁).plast = lru₁.plast from rfl]
  split
  · exact linksOf_modify fun _ => rfl
  · rfl

theorem linksOf_move_to_front : linksOf (lru.move_to_front p) = (linksOf lru).moveToFront p := by
  rw [BinaryLRU.move_to_front, Links.moveToFront]
  simp only [show (linksOf lru).pfirst = lru.pfirst from rfl]
  split
  · rfl
  · rw [← linksOf_remove_node, ← linksOf_linkFront, ← linksOf_linkBack]
    rfl

/-! ## Live nodes -/

/-- A node that is not empty. -/
def Live (lru : BinaryLRU) (nSlot : UInt32) : Prop :=
  ∃ node, lru.contents nSlot = some node ∧ node.1 ≠ 0

/-- The index of the bucket of a live node leads to it. -/
def Led (cfg : LRUConfig) (lru : BinaryLRU) : Prop :=
  ∀ nSlot node, lru.contents nSlot = some node → node.1 ≠ 0 →
    lru.indexes (hashBucket cfg node.1) ≠ 0 ∧
      slot cfg (lru.indexes (hashBucket cfg node.1)) = nSlot

/-- The live nodes of a cache are in the list, the others have no links and no data. -/
structure Threaded (cfg : LRUConfig) (lru : BinaryLRU) (l : List UInt32) : Prop where
  lists : (linksOf lru).Lists l
  live : ∀ nSlot, nSlot ∈ l ↔ Live lru nSlot
  alone : ∀ nSlot, nSlot ∉ l → ∀ cell, (linksOf lru).cell nSlot = some cell → cell = {}
  empty : ∀ nSlot node, lru.contents nSlot = some node → node.1 = 0 → node.2 = []
  led : Led cfg lru

theorem threaded_new : Threaded cfg (.new cfg) [] where
  lists := .empty
  live nSlot := by
    constructor
    · intro hMem
      cases hMem
    · rintro ⟨node, hNode, -⟩
      cases hNode
  alone _ _ _ hCell := by cases hCell
  empty _ _ hNode := by cases hNode
  led _ _ hNode := by cases hNode

/-- Nodes are emptied, and an index is reset only when its node is empty. -/
theorem Led.fewer (h : Led cfg lru) (hFewer : Fewer lru lru')
    (hReset : ∀ nBucket, lru'.indexes nBucket ≠ lru.indexes nBucket →
      ∀ node, lru'.contents (slot cfg (lru.indexes nBucket)) = some node → node.1 = 0) :
    Led cfg lru' := by
  intro nSlot node hNode hKey
  exact leads_of_fewer hFewer hReset h hNode hKey

theorem linksOf_cell_eq_none : (linksOf lru).cell nSlot = none ↔ lru.contents nSlot = none := by
  simp [linksOf, contents]

/-- A node that is there and in no list has no links. -/
theorem Threaded.cell_alone (h : Threaded cfg lru l) (hOut : nSlot ∉ l)
    (hNode : lru.contents nSlot ≠ none) : (linksOf lru).cell nSlot = some {} := by
  cases hCell : (linksOf lru).cell nSlot with
  | none => exact absurd (linksOf_cell_eq_none.mp hCell) hNode
  | some cell => rw [h.alone nSlot hOut cell hCell]

/-- The live nodes are linked anew. -/
theorem Threaded.relink (h : Threaded cfg lru l) (hSame : SameContents lru lru')
    (hLists : (linksOf lru').Lists l') (hMem : ∀ nSlot, nSlot ∈ l' ↔ nSlot ∈ l)
    (hFrame : ∀ nSlot, nSlot ∉ l → (linksOf lru').cell nSlot = (linksOf lru).cell nSlot) :
    Threaded cfg lru' l' where
  lists := hLists
  live nSlot := by
    rw [hMem, h.live, Live, Live, hSame.1]
  alone nSlot hOut cell hCell := by
    rw [hMem] at hOut
    exact h.alone nSlot hOut cell (by rw [← hFrame nSlot hOut, hCell])
  empty nSlot node hNode := h.empty nSlot node (by rw [← hSame.1, hNode])
  led := h.led.fewer hSame.fewer fun nBucket hChanged => absurd (congrFun hSame.2 nBucket) hChanged

/-- A live node is moved to the front. -/
theorem Threaded.move_to_front (h : Threaded cfg lru l) (hMem : nSlot ∈ l) :
    Threaded cfg (lru.move_to_front (some nSlot)) (nSlot :: l.erase nSlot) := by
  have hFront := h.lists.moveToFront (p := nSlot) fun hNot => absurd hMem hNot
  apply h.relink move_to_front_same
  · rw [linksOf_move_to_front]
    exact hFront
  · intro nThis
    exact (List.perm_cons_erase hMem).mem_iff.symm
  · intro nThis hOut
    rw [linksOf_move_to_front]
    apply h.lists.moveToFront_frame fun hNot => absurd hMem hNot
    intro hIn
    rcases List.mem_cons.mp hIn with rfl | hIn
    · exact hOut hMem
    · exact hOut hIn

/-- The contents of an emptied slot. -/
theorem clear_contents_eq (nThis : UInt32) : (lru.clear nSlot).contents nThis =
    if nThis = nSlot then (lru.contents nSlot).map fun _ => (0, []) else lru.contents nThis := by
  have hSame := (@remove_node_same lru (some nSlot)).1
  rw [BinaryLRU.clear, ← hSame]
  by_cases hHere : nThis = nSlot
  · subst hHere
    rw [if_pos rfl]
    simp only [BinaryLRU.modify, contents, Function.update_self, Option.map_map]
    rfl
  · rw [if_neg hHere]
    simp only [BinaryLRU.modify, contents, Function.update_of_ne hHere]

/-- A node that is in no list is emptied. -/
theorem linksOf_null (hCell : (linksOf lru).cell nSlot = some {}) :
    linksOf (lru.modify (some nSlot) fun _ => .null) = linksOf lru := by
  rw [linksOf_modify (g := fun _ => {}) fun _ => rfl, Links.modify]
  have hSame : setCell (linksOf lru).cell (some nSlot) (fun _ => {}) = (linksOf lru).cell := by
    show Function.update _ _ _ = _
    rw [hCell, Function.update_eq_self_iff, hCell]
    rfl
  rw [hSame]

theorem linksOf_clear (hCell : ((linksOf lru).remove (some nSlot)).cell nSlot = some {}) :
    linksOf (lru.clear nSlot) = (linksOf lru).remove (some nSlot) := by
  rw [← linksOf_remove_node] at hCell ⊢
  exact linksOf_null hCell

/-- A node that has left the list is emptied. -/
theorem Threaded.emptied (h : Threaded cfg lru l) (nSlot : UInt32)
    (hContents : ∀ nThis, lru'.contents nThis =
      if nThis = nSlot then (lru.contents nSlot).map fun _ => (0, []) else lru.contents nThis)
    (hLists : (linksOf lru').Lists l') (hMem : ∀ nThis, nThis ∈ l' ↔ nThis ≠ nSlot ∧ nThis ∈ l)
    (hSelf : (linksOf lru').cell nSlot = some {})
    (hFrame : ∀ nThis, nThis ∉ l → (linksOf lru').cell nThis = (linksOf lru).cell nThis)
    (hLed : Led cfg lru') : Threaded cfg lru' l' where
  lists := hLists
  live nThis := by
    rw [hMem, h.live, Live, Live, hContents]
    split
    · rename_i hHere
      subst hHere
      simp
    · rename_i hOther
      simp [hOther]
  alone nThis hOut cell hCell := by
    by_cases hHere : nThis = nSlot
    · rw [hHere, hSelf] at hCell
      exact (Option.some.inj hCell).symm
    · have hNot : nThis ∉ l := fun hIn => hOut ((hMem nThis).mpr ⟨hHere, hIn⟩)
      rw [hFrame nThis hNot] at hCell
      exact h.alone nThis hNot cell hCell
  empty nThis node hThis hKey := by
    rw [hContents] at hThis
    split at hThis
    · obtain ⟨_, -, rfl⟩ := Option.map_eq_some_iff.mp hThis
      rfl
    · exact h.empty nThis node hThis hKey
  led := hLed

/-- A node is taken from the list and emptied. -/
theorem Threaded.clear (h : Threaded cfg lru l) (hNode : lru.contents nSlot ≠ none) :
    Threaded cfg (lru.clear nSlot) (l.erase nSlot) := by
  have hAlone : nSlot ∉ l → (linksOf lru).cell nSlot = some {} := fun hOut => h.cell_alone hOut hNode
  have hSelf := h.lists.remove_erase_self hAlone
  have hLinks := linksOf_clear hSelf
  apply h.emptied nSlot clear_contents_eq
  · rw [hLinks]
    exact h.lists.remove_erase hAlone
  · intro nThis
    exact h.lists.nodup.mem_erase_iff
  · rw [hLinks]
    exact hSelf
  · intro nThis hOut
    rw [hLinks]
    exact h.lists.remove_erase_frame hAlone hOut
  · apply h.led.fewer clear_fewer
    intro nBucket hChanged
    exact absurd (congrFun clear_indexes nBucket) hChanged

/-- The list does not depend on sizes, nor on the index of a bucket without live nodes. -/
theorem Threaded.reindex {nCurrentSize : UInt32} {indexes : UInt32 → UInt64} (h : Threaded cfg lru l)
    (hLed : Led cfg { lru with nCurrentSize, indexes }) :
    Threaded cfg { lru with nCurrentSize, indexes } l :=
  ⟨h.lists, h.live, h.alone, h.empty, hLed⟩

/-- An index is reset whose bucket has no live node. -/
theorem Led.reset (h : Led cfg lru) (nBucket nCurrentSize : UInt32)
    (hNull : ∀ nSlot node, lru.contents nSlot = some node → node.1 ≠ 0 →
      hashBucket cfg node.1 ≠ nBucket) :
    Led cfg { lru with nCurrentSize, indexes := Function.update lru.indexes nBucket 0 } := by
  intro nSlot node hNode hKey
  show Function.update lru.indexes nBucket 0 _ ≠ 0 ∧
    slot cfg (Function.update lru.indexes nBucket 0 _) = nSlot
  rw [Function.update_of_ne (hNull nSlot node hNode hKey)]
  exact h nSlot node hNode hKey

/-- No live node is left of a bucket whose node was emptied. -/
theorem Led.cleared {nBucket : UInt32} (h : Led cfg lru) :
    ∀ nThis node, (lru.clear (slot cfg (lru.indexes nBucket))).contents nThis = some node →
      node.1 ≠ 0 → hashBucket cfg node.1 ≠ nBucket := by
  intro nThis node hNode hKey hBucket
  rw [clear_contents_eq] at hNode
  split at hNode
  · obtain ⟨_, -, rfl⟩ := Option.map_eq_some_iff.mp hNode
    exact hKey rfl
  · rename_i hOther
    obtain ⟨-, hSlot⟩ := h nThis node hNode hKey
    rw [hBucket] at hSlot
    exact hOther hSlot.symm

/-! ## The steps of a put -/

/-- The first step empties the node of the bucket. -/
theorem Threaded.free (h : Threaded cfg lru l) (vKey : Bytes) :
    ∃ l', Threaded cfg (lru.free cfg vKey) l' ∧
      ∀ nThis node, (lru.free cfg vKey).contents nThis = some node → node.1 ≠ 0 →
        hashBucket cfg node.1 ≠ bucket cfg vKey := by
  have hBucket : ∀ nThis node, lru.contents nThis = some node → node.1 ≠ 0 →
      hashBucket cfg node.1 = bucket cfg vKey → lru.indexes (bucket cfg vKey) ≠ 0 ∧
        slot cfg (lru.indexes (bucket cfg vKey)) = nThis := by
    intro nThis node hNode hKey hSame
    rw [← hSame]
    exact h.led nThis node hNode hKey
  unfold BinaryLRU.free
  simp only
  split
  · rename_i hIndex
    refine ⟨l, h, fun nThis node hNode hKey hSame => ?_⟩
    exact (hBucket nThis node hNode hKey hSame).1 hIndex
  · split
    · rename_i hNone
      refine ⟨l, h, fun nThis node hNode hKey hSame => ?_⟩
      rw [← (hBucket nThis node hNode hKey hSame).2, contents, hNone] at hNode
      cases hNode
    · rename_i pthis hSome
      split
      · rename_i hNull
        refine ⟨l, h, fun nThis node hNode hKey hSame => ?_⟩
        rw [← (hBucket nThis node hNode hKey hSame).2, contents, hSome] at hNode
        obtain rfl := Option.some.inj hNode
        exact hKey hNull
      · have hThere : lru.contents (slot cfg (lru.indexes (bucket cfg vKey))) ≠ none := by
          rw [contents, hSome]
          exact Option.some_ne_none _
        have hCleared := h.clear hThere
        exact ⟨_, ⟨hCleared.lists, hCleared.live, hCleared.alone, hCleared.empty, hCleared.led⟩,
          h.led.cleared⟩

theorem linksOf_cell_getD : ((linksOf lru).cell nSlot).getD {} =
    ⟨((lru.hashmap nSlot).getD .null).pprev, ((lru.hashmap nSlot).getD .null).pnext⟩ := by
  show ((lru.hashmap nSlot).map fun node => Cell.mk node.pprev node.pnext).getD {} = _
  cases lru.hashmap nSlot with
  | none => rfl
  | some node => rfl

/-- The links of a node whose slot is claimed are its own, or none. -/
theorem linksOf_claimed (node : BinaryNode) (nCurrentSize : UInt32) (indexes : UInt32 → UInt64)
    (hNode : Cell.mk node.pprev node.pnext = ((linksOf lru).cell nSlot).getD {}) :
    linksOf { lru with
        nCurrentSize, indexes, hashmap := Function.update lru.hashmap nSlot (some node) } =
      { linksOf lru with
        cell := Function.update (linksOf lru).cell nSlot
          (some <| ((linksOf lru).cell nSlot).getD {}) } := by
  have hCell : (linksOf { lru with
      nCurrentSize, indexes, hashmap := Function.update lru.hashmap nSlot (some node) }).cell =
      Function.update (linksOf lru).cell nSlot (some (((linksOf lru).cell nSlot).getD {})) := by
    funext nThis
    by_cases hHere : nThis = nSlot
    · subst hHere
      rw [Function.update_self, ← hNode]
      simp only [linksOf, Function.update_self, Option.map_some]
    · rw [Function.update_of_ne hHere]
      simp only [linksOf, Function.update_of_ne hHere]
  rw [← hCell]
  rfl

/-- A node gets its links back, or none. -/
theorem Threaded.withCell (h : Threaded cfg lru l) (nSlot : UInt32) : Links.Lists { linksOf lru with
    cell := Function.update (linksOf lru).cell nSlot (some (((linksOf lru).cell nSlot).getD {})) } l ∧
      (nSlot ∉ l → ((linksOf lru).cell nSlot).getD {} = {}) := by
  by_cases hMem : nSlot ∈ l
  · obtain ⟨node, hNode, -⟩ := (h.live nSlot).mp hMem
    have hThere : (linksOf lru).cell nSlot ≠ none := by
      rw [Ne, linksOf_cell_eq_none, hNode]
      exact Option.some_ne_none node
    obtain ⟨cell, hCell⟩ := Option.ne_none_iff_exists'.mp hThere
    have hSame : Function.update (linksOf lru).cell nSlot (some (((linksOf lru).cell nSlot).getD {})) =
        (linksOf lru).cell := by
      rw [Function.update_eq_self_iff, hCell]
      rfl
    rw [hSame]
    exact ⟨h.lists, fun hOut => absurd hMem hOut⟩
  · refine ⟨h.lists.update hMem _, fun _ => ?_⟩
    cases hCell : (linksOf lru).cell nSlot with
    | none => rfl
    | some cell => exact h.alone nSlot hMem cell hCell

/-- The second step puts the node of the place in front. -/
theorem Threaded.claim (h : Threaded cfg lru l) (vData : Bytes) (hHash : cfg.XXH64 vKey ≠ 0)
    (hPlace : placeIndex key.place ≠ 0)
    (hFreed : ∀ nThis node, lru.contents nThis = some node → node.1 ≠ 0 →
      hashBucket cfg node.1 ≠ bucket cfg vKey) :
    Threaded cfg (lru.claim cfg key vKey vData)
      (slot cfg (placeIndex key.place) :: l.erase (slot cfg (placeIndex key.place))) := by
  obtain ⟨cell, hCell, hLinks⟩ : ∃ cell,
      cell = ((linksOf lru).cell (slot cfg (placeIndex key.place))).getD {} ∧
      linksOf (lru.claim cfg key vKey vData) = Links.moveToFront { linksOf lru with
        cell := Function.update (linksOf lru).cell (slot cfg (placeIndex key.place)) (some cell) }
        (some (slot cfg (placeIndex key.place))) := by
    refine ⟨_, rfl, ?_⟩
    rw [BinaryLRU.claim, linksOf_move_to_front, linksOf_claimed]
    exact linksOf_cell_getD.symm
  obtain ⟨hLists, hNone⟩ := h.withCell (slot cfg (placeIndex key.place))
  rw [← hCell] at hLists hNone
  have hAlone : slot cfg (placeIndex key.place) ∉ l →
      Function.update (linksOf lru).cell (slot cfg (placeIndex key.place)) (some cell)
        (slot cfg (placeIndex key.place)) = some {} := by
    intro hOut
    rw [Function.update_self, hNone hOut]
  constructor
  · rw [hLinks]
    exact hLists.moveToFront hAlone
  · intro nThis
    rw [Live, claim_contents, List.mem_cons, h.lists.nodup.mem_erase_iff, h.live, Live]
    split
    · rename_i hHere
      simp [hHere, hHash]
    · rename_i hOther
      simp [hOther]
  · intro nThis hOut cell' hThis
    have hOther : nThis ≠ slot cfg (placeIndex key.place) := fun hSame =>
      hOut (List.mem_cons.mpr (.inl hSame))
    have hNot : nThis ∉ l := fun hIn =>
      hOut (List.mem_cons.mpr (.inr (h.lists.nodup.mem_erase_iff.mpr ⟨hOther, hIn⟩)))
    rw [hLinks, hLists.moveToFront_frame hAlone] at hThis
    · have hOld : Function.update (linksOf lru).cell (slot cfg (placeIndex key.place)) (some cell)
          nThis = some cell' := hThis
      rw [Function.update_of_ne hOther] at hOld
      exact h.alone nThis hNot cell' hOld
    · rw [List.mem_cons, not_or]
      exact ⟨hOther, hNot⟩
  · intro nThis node hThis hKey
    rw [claim_contents] at hThis
    split at hThis
    · obtain rfl := Option.some.inj hThis
      exact absurd hKey hHash
    · exact h.empty nThis node hThis hKey
  · intro nThis node hThis hKey
    rw [claim_contents] at hThis
    rw [claim_indexes]
    split at hThis
    · rename_i hHere
      obtain rfl := Option.some.inj hThis
      rw [show hashBucket cfg (cfg.XXH64 vKey) = bucket cfg vKey from rfl, Function.update_self]
      exact ⟨hPlace, hHere.symm⟩
    · rw [Function.update_of_ne (hFreed nThis node hThis hKey)]
      exact h.led nThis node hThis hKey

/-! ## The loop of a put -/

theorem dropLast_contents_eq {pnode : BinaryNode} (nThis : UInt32) :
    (lru.dropLast cfg pnode).contents nThis =
      if nThis = slot cfg (lru.indexes (hashBucket cfg pnode.hashKey)) then
        (lru.contents (slot cfg (lru.indexes (hashBucket cfg pnode.hashKey)))).map fun _ => (0, [])
      else lru.contents nThis := by
  have hPlast : SameContents lru { lru with plast := lru.pprev lru.plast } := ⟨rfl, rfl⟩
  have hNext : SameContents { lru with plast := lru.pprev lru.plast }
      ({ lru with plast := lru.pprev lru.plast }.modify (lru.pprev lru.plast) fun node =>
        { node with pnext := none }) := modify_links fun _ => ⟨rfl, rfl⟩
  rw [← ((hPlast.trans hNext).trans (unlink_same (p := lru.plast))).1]
  show (BinaryLRU.modify _ (some (slot cfg (lru.indexes (hashBucket cfg pnode.hashKey)))) _).contents
    nThis = _
  generalize slot cfg (lru.indexes (hashBucket cfg pnode.hashKey)) = nSlot
  by_cases hHere : nThis = nSlot
  · subst hHere
    rw [if_pos rfl]
    simp only [BinaryLRU.modify, contents, Function.update_self, Option.map_map]
    rfl
  · rw [if_neg hHere]
    simp only [BinaryLRU.modify, contents, Function.update_of_ne hHere]

/-- The node that is dropped is the one whose slot is emptied. -/
theorem linksOf_dropLast {pnode : BinaryNode} {nLast : UInt32}
    (hSlot : slot cfg (lru.indexes (hashBucket cfg pnode.hashKey)) = nLast)
    (hCell : (linksOf lru).dropLast.cell nLast = some {}) :
    linksOf (lru.dropLast cfg pnode) = (linksOf lru).dropLast := by
  have hUnlinked : linksOf (({ lru with plast := lru.pprev lru.plast }.modify
      (lru.pprev lru.plast) fun node => { node with pnext := none }).unlink lru.plast) =
      (linksOf lru).dropLast := by
    rw [linksOf_unlink, linksOf_modify (g := fun node => { node with pnext := none }) fun _ => rfl,
      Links.dropLast, show (linksOf lru).plast = lru.plast from rfl, linksOf_pprev]
    rfl
  rw [← hUnlinked] at hCell ⊢
  rw [← linksOf_null hCell, ← hSlot]
  rfl

/-- The last of two or more nodes is taken from the list and emptied. -/
theorem Threaded.dropLast {pnode : BinaryNode} {nLast : UInt32} (h : Threaded cfg lru (l ++ [nLast]))
    (hl : l ≠ []) (hNode : lru.hashmap nLast = some pnode) :
    slot cfg (lru.indexes (hashBucket cfg pnode.hashKey)) = nLast ∧
      Threaded cfg (lru.dropLast cfg pnode) l := by
  have hContents : lru.contents nLast = some (pnode.hashKey, pnode.vData) := by
    rw [contents, hNode]
    rfl
  obtain ⟨node, hLive, hKey⟩ := (h.live nLast).mp (by simp)
  rw [hContents] at hLive
  obtain rfl := Option.some.inj hLive
  have hSlot := (h.led nLast _ hContents hKey).2
  have hSelf := h.lists.dropLast_self hl
  have hLinks := linksOf_dropLast hSlot hSelf
  refine ⟨hSlot, h.emptied nLast ?_ ?_ ?_ ?_ ?_ ?_⟩
  · intro nThis
    rw [dropLast_contents_eq, show hashBucket cfg pnode.hashKey = _ from rfl, hSlot]
  · rw [hLinks]
    exact h.lists.dropLast hl
  · intro nThis
    have hOut : nLast ∉ l := h.lists.gap.disjoint.1
    rw [List.mem_append, List.mem_singleton]
    constructor
    · exact fun hIn => ⟨fun hSame => hOut (hSame ▸ hIn), .inl hIn⟩
    · exact fun hBoth => hBoth.2.resolve_right hBoth.1
  · rw [hLinks]
    exact hSelf
  · intro nThis hOut
    rw [hLinks]
    exact h.lists.dropLast_frame hl hOut
  · apply h.led.fewer dropLast_fewer
    intro nBucket hChanged nOther hOther
    have hBucket : nBucket = hashBucket cfg pnode.hashKey := by
      by_contra hNe
      exact hChanged (Function.update_of_ne hNe _ _)
    rw [hBucket, dropLast_contents_eq, if_pos rfl] at hOther
    obtain ⟨_, -, rfl⟩ := Option.map_eq_some_iff.mp hOther
    rfl

/-! ## Charges -/

/-- The bytes that a node holds. -/
def dataSize (lru : BinaryLRU) (nSlot : UInt32) : Nat :=
  (lru.contents nSlot).elim 0 fun node => node.2.length

/-- What a slot is charged: the size of its node, if there is one, and of what it holds. -/
def charge (lru : BinaryLRU) (nSlot : UInt32) : Nat :=
  (lru.contents nSlot).elim 0 fun node => nNodeSize.toNat + node.2.length

/-- What all slots are charged. -/
def charged (cfg : LRUConfig) (lru : BinaryLRU) : Nat :=
  ∑ n ∈ Finset.range cfg.MAX_CACHE_BUCKETS.toNat, charge lru (UInt32.ofNat n)

/-- The bytes that all nodes but one hold. -/
def heldBeside (cfg : LRUConfig) (lru : BinaryLRU) (nSlot : UInt32) : Nat :=
  ∑ n ∈ (Finset.range cfg.MAX_CACHE_BUCKETS.toNat).erase nSlot.toNat, dataSize lru (UInt32.ofNat n)

/-- The size of a cache is that of its tables and what the slots are charged, but for some bytes
that are still to be added. -/
def Accounted (cfg : LRUConfig) (lru : BinaryLRU) (nBytes : Nat) : Prop :=
  lru.nCurrentSize + UInt32.ofNat nBytes =
    cfg.MAX_CACHE_BUCKETS * 16 + UInt32.ofNat (charged cfg lru)

theorem ofNat_ne {n : Nat} (hn : n < cfg.MAX_CACHE_BUCKETS.toNat) (hNe : n ≠ nSlot.toNat) :
    UInt32.ofNat n ≠ nSlot := by
  intro hSame
  apply hNe
  rw [← hSame]
  have hBound := cfg.MAX_CACHE_BUCKETS.toNat_lt
  exact (UInt32.toNat_ofNat_of_lt' (by rw [UInt32.size]; omega)).symm

/-- The contents of one slot are changed. -/
theorem sum_update (F : Finset Nat) (f : Option (UInt64 × Bytes) → Nat)
    (hF : ∀ n ∈ F, n < cfg.MAX_CACHE_BUCKETS.toNat) (hMem : nSlot.toNat ∈ F)
    (hOther : ∀ nThis, nThis ≠ nSlot → lru'.contents nThis = lru.contents nThis) :
    ∑ n ∈ F, f (lru'.contents (UInt32.ofNat n)) + f (lru.contents nSlot) =
      ∑ n ∈ F, f (lru.contents (UInt32.ofNat n)) + f (lru'.contents nSlot) := by
  have hRest : ∑ n ∈ F.erase nSlot.toNat, f (lru'.contents (UInt32.ofNat n)) =
      ∑ n ∈ F.erase nSlot.toNat, f (lru.contents (UInt32.ofNat n)) := by
    apply Finset.sum_congr rfl
    intro n hn
    rw [Finset.mem_erase] at hn
    rw [hOther _ (ofNat_ne (hF n hn.2) hn.1)]
  have hNew := Finset.add_sum_erase _ (fun n => f (lru'.contents (UInt32.ofNat n))) hMem
  have hOld := Finset.add_sum_erase _ (fun n => f (lru.contents (UInt32.ofNat n))) hMem
  simp only [UInt32.ofNat_toNat] at hNew hOld
  rw [← hNew, ← hOld, hRest]
  omega

/-- One slot is charged anew. -/
theorem charged_update (hTable : InTables cfg nSlot)
    (hOther : ∀ nThis, nThis ≠ nSlot → lru'.contents nThis = lru.contents nThis) :
    charged cfg lru' + charge lru nSlot = charged cfg lru + charge lru' nSlot := by
  have hRange : ∀ n ∈ Finset.range cfg.MAX_CACHE_BUCKETS.toNat, n < cfg.MAX_CACHE_BUCKETS.toNat :=
    fun n hn => Finset.mem_range.mp hn
  have hMem : nSlot.toNat ∈ Finset.range cfg.MAX_CACHE_BUCKETS.toNat :=
    Finset.mem_range.mpr (UInt32.lt_iff_toNat_lt.mp hTable)
  exact sum_update _ (fun node => node.elim 0 fun node => nNodeSize.toNat + node.2.length) hRange hMem
    hOther

/-- One of the other nodes holds other bytes. -/
theorem heldBeside_update {nThat : UInt32} (hTable : InTables cfg nSlot) (hNe : nSlot ≠ nThat)
    (hOther : ∀ nThis, nThis ≠ nSlot → lru'.contents nThis = lru.contents nThis) :
    heldBeside cfg lru' nThat + dataSize lru nSlot =
      heldBeside cfg lru nThat + dataSize lru' nSlot := by
  have hRange : ∀ n ∈ (Finset.range cfg.MAX_CACHE_BUCKETS.toNat).erase nThat.toNat,
      n < cfg.MAX_CACHE_BUCKETS.toNat :=
    fun n hn => Finset.mem_range.mp (Finset.mem_of_mem_erase hn)
  have hMem : nSlot.toNat ∈ (Finset.range cfg.MAX_CACHE_BUCKETS.toNat).erase nThat.toNat := by
    rw [Finset.mem_erase, Finset.mem_range]
    exact ⟨fun hSame => hNe (UInt32.toNat_inj.mp hSame), UInt32.lt_iff_toNat_lt.mp hTable⟩
  exact sum_update _ (fun node => node.elim 0 fun node => node.2.length) hRange hMem hOther

/-- A node holds nothing unless it is live. -/
theorem Threaded.dataSize_eq_zero (h : Threaded cfg lru l) (hOut : nSlot ∉ l) :
    dataSize lru nSlot = 0 := by
  rw [dataSize]
  cases hNode : lru.contents nSlot with
  | none => rfl
  | some node =>
      have hKey : node.1 = 0 := by
        by_contra hKey
        exact hOut ((h.live nSlot).mpr ⟨node, hNode, hKey⟩)
      rw [Option.elim_some, h.empty nSlot node hNode hKey]
      rfl

/-- A node that is alone in the list is alone in holding bytes. -/
theorem Threaded.heldBeside_singleton (h : Threaded cfg lru [nSlot]) : heldBeside cfg lru nSlot = 0 := by
  apply Finset.sum_eq_zero
  intro n hn
  rw [Finset.mem_erase, Finset.mem_range] at hn
  apply h.dataSize_eq_zero
  rw [List.mem_singleton]
  exact ofNat_ne hn.2 hn.1

/-! ## Victims -/

/-- There is room for a node if all others are dropped. -/
def HasRoom (cfg : LRUConfig) (lru : BinaryLRU) (nSlot : UInt32) : Prop :=
  lru.nCurrentSize - UInt32.ofNat (heldBeside cfg lru nSlot) ≤ cfg.MAX_CACHE_SIZE

/-- As long as a cache is too large, the loop finds a live node other than the new one to drop, and
it ends with a cache that is not. -/
def EvictFinds (cfg : LRUConfig) (nSlot : UInt32) : Nat → BinaryLRU → Prop
  | 0, lru => lru.nCurrentSize ≤ cfg.MAX_CACHE_SIZE
  | nFuel + 1, lru => cfg.MAX_CACHE_SIZE < lru.nCurrentSize →
      ∃ nLast pnode, lru.plast = some nLast ∧ lru.hashmap nLast = some pnode ∧ ¬ pnode.IsNull ∧
        nLast ≠ nSlot ∧ EvictFinds cfg nSlot nFuel (lru.dropLast cfg pnode)

/-- What the cache is after the loop: the new node is still in front, and the size is within the
bound and still accounts for the nodes. -/
structure Evicted (cfg : LRUConfig) (nSlot : UInt32) (lru lru' : BinaryLRU) : Prop where
  kept : ∃ l, Threaded cfg lru' (nSlot :: l)
  size : lru'.nCurrentSize ≤ cfg.MAX_CACHE_SIZE
  accounted : ∀ nBytes, Accounted cfg lru nBytes → Accounted cfg lru' nBytes

theorem dropLast_charges {pnode : BinaryNode} {nLast : UInt32} (h : Threaded cfg lru (l ++ [nLast]))
    (hl : l ≠ []) (hNode : lru.hashmap nLast = some pnode) (hTable : InTables cfg nLast) :
    charged cfg (lru.dropLast cfg pnode) + pnode.vData.length = charged cfg lru ∧
      ∀ nThat, nLast ≠ nThat →
        heldBeside cfg (lru.dropLast cfg pnode) nThat + pnode.vData.length =
          heldBeside cfg lru nThat := by
  have hSlot := (h.dropLast hl hNode).1
  have hOld : lru.contents nLast = some (pnode.hashKey, pnode.vData) := by
    rw [contents, hNode]
    rfl
  have hNew : (lru.dropLast cfg pnode).contents nLast = some (0, []) := by
    rw [dropLast_contents_eq, hSlot, if_pos rfl, hOld]
    rfl
  have hOther : ∀ nThis, nThis ≠ nLast →
      (lru.dropLast cfg pnode).contents nThis = lru.contents nThis := by
    intro nThis hNe
    rw [dropLast_contents_eq, hSlot, if_neg hNe]
  constructor
  · have hUpdate := charged_update hTable hOther
    rw [charge, charge, hOld, hNew] at hUpdate
    simp only [Option.elim_some, List.length_nil] at hUpdate
    omega
  · intro nThat hNe
    have hUpdate := heldBeside_update hTable hNe hOther
    rw [dataSize, dataSize, hOld, hNew] at hUpdate
    exact hUpdate

/-- One turn of the loop. -/
theorem evict_step {pnode : BinaryNode} {nLast nThat : UInt32} (h : Threaded cfg lru (l ++ [nLast]))
    (hl : l ≠ []) (hNode : lru.hashmap nLast = some pnode) (hTable : InTables cfg nLast)
    (hNe : nLast ≠ nThat) : (HasRoom cfg lru nThat → HasRoom cfg (lru.dropLast cfg pnode) nThat) ∧
      ∀ nBytes, Accounted cfg lru nBytes → Accounted cfg (lru.dropLast cfg pnode) nBytes := by
  obtain ⟨hCharged, hHeld⟩ := dropLast_charges h hl hNode hTable
  have hSize : (lru.dropLast cfg pnode).nCurrentSize =
      lru.nCurrentSize - UInt32.ofNat pnode.vData.length := rfl
  constructor
  · intro hRoom
    rw [HasRoom, ← hHeld nThat hNe, UInt32.ofNat_add] at hRoom
    have hSame : lru.nCurrentSize - UInt32.ofNat pnode.vData.length -
        UInt32.ofNat (heldBeside cfg (lru.dropLast cfg pnode) nThat) =
        lru.nCurrentSize - (UInt32.ofNat (heldBeside cfg (lru.dropLast cfg pnode) nThat) +
          UInt32.ofNat pnode.vData.length) := by grind
    rwa [HasRoom, hSize, hSame]
  · intro nBytes hAccounted
    rw [Accounted, ← hCharged, UInt32.ofNat_add] at hAccounted
    rw [Accounted, hSize]
    grind

/-- The loop finds a victim in each turn and ends before the new node is dropped. -/
theorem evict_finds (nFuel : Nat) {nThat : UInt32} (h : Threaded cfg lru (nThat :: l))
    (hOwned : Owned cfg lru) (hRoom : HasRoom cfg lru nThat) (hFuel : l.length ≤ nFuel) :
    EvictFinds cfg nThat nFuel lru ∧ Evicted cfg nThat lru (lru.evict cfg nFuel) := by
  induction nFuel generalizing lru l with
  | zero =>
      obtain rfl := List.length_eq_zero_iff.mp (Nat.le_zero.mp hFuel)
      rw [HasRoom, h.heldBeside_singleton] at hRoom
      have hSize : lru.nCurrentSize ≤ cfg.MAX_CACHE_SIZE := by
        rwa [show UInt32.ofNat 0 = 0 from rfl, UInt32.sub_zero] at hRoom
      exact ⟨hSize, ⟨[], h⟩, hSize, fun _ hAccounted => hAccounted⟩
  | succ nFuel ih =>
      rw [BinaryLRU.evict, EvictFinds]
      by_cases hLarge : cfg.MAX_CACHE_SIZE < lru.nCurrentSize
      · have hNe : l ≠ [] := by
          rintro rfl
          rw [HasRoom, h.heldBeside_singleton, show UInt32.ofNat 0 = 0 from rfl,
            UInt32.sub_zero] at hRoom
          exact UInt32.not_lt.mpr hRoom hLarge
        obtain ⟨a, nLast, rfl⟩ : ∃ a nLast, l = a ++ [nLast] :=
          ⟨l.dropLast, l.getLast hNe, (List.dropLast_append_getLast hNe).symm⟩
        have hThat : nThat :: a ≠ [] := List.cons_ne_nil _ _
        have hList : Threaded cfg lru ((nThat :: a) ++ [nLast]) := h
        have hApart : nLast ≠ nThat := by
          rintro rfl
          exact hList.lists.gap.disjoint.1 List.mem_cons_self
        obtain ⟨node, hLive, hKey⟩ := (hList.live nLast).mp (by simp)
        obtain ⟨pnode, hNode, rfl⟩ := Option.map_eq_some_iff.mp hLive
        have hTable := hOwned.table nLast (by rw [hLive]; exact Option.some_ne_none _)
        have hPlast : lru.plast = some nLast := hList.lists.plast_eq hThat
        have hStep := evict_step hList hThat hNode hTable hApart
        have hShort : a.length ≤ nFuel := by
          rw [List.length_append, List.length_singleton] at hFuel
          omega
        obtain ⟨hFinds, hEvicted⟩ := ih (hList.dropLast hThat hNode).2 hOwned.dropLast
          (hStep.1 hRoom) hShort
        have hNotNull : ¬ pnode.IsNull := hKey
        rw [if_pos hLarge, hPlast, Option.bind_some, hNode]
        simp only [if_neg hNotNull]
        refine ⟨fun _ => ⟨nLast, pnode, rfl, hNode, hNotNull, hApart, hFinds⟩, hEvicted.kept,
          hEvicted.size, fun nBytes hAccounted => ?_⟩
        exact hEvicted.accounted nBytes (hStep.2 nBytes hAccounted)
      · rw [if_neg hLarge]
        exact ⟨fun hLess => absurd hLess hLarge, ⟨l, h⟩, UInt32.not_lt.mp hLarge,
          fun _ hAccounted => hAccounted⟩

/-! ## The size after a call -/

theorem modify_size {f : BinaryNode → BinaryNode} :
    (lru.modify p f).nCurrentSize = lru.nCurrentSize := by
  cases p with
  | none => rfl
  | some _ => rfl

theorem remove_node_size : (lru.remove_node p).nCurrentSize = lru.nCurrentSize := by
  have hLast : (lru.relinkLast p).nCurrentSize = lru.nCurrentSize := by
    rw [BinaryLRU.relinkLast]
    split
    · exact modify_size
    · rfl
  have hFirst : ((lru.relinkLast p).relinkFirst p).nCurrentSize = (lru.relinkLast p).nCurrentSize := by
    rw [BinaryLRU.relinkFirst]
    split
    · exact modify_size
    · rfl
  rw [BinaryLRU.remove_node, BinaryLRU.unlink, modify_size, BinaryLRU.bridgePrev, modify_size,
    BinaryLRU.bridgeNext, modify_size, hFirst, hLast]

theorem linkBack_size : (lru.linkBack p).nCurrentSize = lru.nCurrentSize := by
  rw [BinaryLRU.linkBack]
  split
  · rw [modify_size]
    exact modify_size
  · exact modify_size

theorem move_to_front_size : (lru.move_to_front p).nCurrentSize = lru.nCurrentSize := by
  rw [BinaryLRU.move_to_front]
  split
  · rfl
  · show (BinaryLRU.linkBack _ _).nCurrentSize = _
    rw [linkBack_size, BinaryLRU.linkFront, modify_size, remove_node_size]

/-- Links and indexes are charged nothing. -/
theorem Accounted.same {nBytes : Nat} (h : Accounted cfg lru nBytes)
    (hContents : lru'.contents = lru.contents) (hSize : lru'.nCurrentSize = lru.nCurrentSize) :
    Accounted cfg lru' nBytes := by
  have hCharged : charged cfg lru' = charged cfg lru := by
    apply Finset.sum_congr rfl
    intro n _
    rw [charge, charge, hContents]
  rw [Accounted, hSize, hCharged]
  exact h

/-- The first step of a put takes off what the node held that it empties. -/
theorem Accounted.free (h : Accounted cfg lru 0) (vKey : Bytes) (hOwned : Owned cfg lru) :
    Accounted cfg (lru.free cfg vKey) 0 := by
  unfold BinaryLRU.free
  simp only
  split
  · exact h
  · split
    · exact h
    · rename_i pthis hNode
      split
      · exact h
      · have hOld : lru.contents (slot cfg (lru.indexes (bucket cfg vKey))) =
            some (pthis.hashKey, pthis.vData) := by
          rw [contents, hNode]
          rfl
        have hTable := hOwned.table (slot cfg (lru.indexes (bucket cfg vKey)))
          (by rw [hOld]; exact Option.some_ne_none _)
        generalize slot cfg (lru.indexes (bucket cfg vKey)) = nSlot at *
        have hNew : (lru.clear nSlot).contents nSlot = some (0, []) := by
          rw [clear_contents_eq, if_pos rfl, hOld]
          rfl
        have hUpdate := @charged_update cfg lru (lru.clear nSlot) nSlot hTable fun nThis hNe => by
          rw [clear_contents_eq, if_neg hNe]
        rw [charge, charge, hOld, hNew] at hUpdate
        simp only [Option.elim_some, List.length_nil] at hUpdate
        have hCharged : charged cfg (lru.clear nSlot) + pthis.vData.length = charged cfg lru := by
          omega
        rw [Accounted, ← hCharged, UInt32.ofNat_add] at h
        show lru.nCurrentSize - UInt32.ofNat pthis.vData.length + UInt32.ofNat 0 =
          cfg.MAX_CACHE_BUCKETS * 16 + UInt32.ofNat (charged cfg (lru.clear nSlot))
        grind

theorem claim_size : (lru.claim cfg key vKey vData).nCurrentSize =
    match lru.hashmap (slot cfg (placeIndex key.place)) with
    | some pthis =>
        if pthis.IsNull then lru.nCurrentSize
        else lru.nCurrentSize - UInt32.ofNat pthis.vData.length
    | none => lru.nCurrentSize + nNodeSize := by
  rw [BinaryLRU.claim]
  exact move_to_front_size

/-- The second step charges the node, but for what it holds. -/
theorem Accounted.claim (h : Accounted cfg lru 0) (key : SectorKey) (vKey vData : Bytes)
    (hThreaded : Threaded cfg lru l)
    (hSlots : 0 < cfg.MAX_CACHE_BUCKETS) :
    Accounted cfg (lru.claim cfg key vKey vData) vData.length := by
  have hUpdate := @charged_update cfg lru (lru.claim cfg key vKey vData)
    (slot cfg (placeIndex key.place)) (slot_inTables hSlots _) fun nThis hNe => by
      rw [claim_contents, if_neg hNe]
  have hNew : charge (lru.claim cfg key vKey vData) (slot cfg (placeIndex key.place)) =
      nNodeSize.toNat + vData.length := by
    rw [charge, claim_contents, if_pos rfl]
    rfl
  rw [hNew] at hUpdate
  have hOld : nNodeSize = UInt32.ofNat nNodeSize.toNat := UInt32.ofNat_toNat.symm
  have hWords := congrArg UInt32.ofNat hUpdate
  simp only [UInt32.ofNat_add] at hWords
  rw [Accounted, claim_size]
  rw [Accounted] at h
  rw [charge, contents] at hWords
  cases hNode : lru.hashmap (slot cfg (placeIndex key.place)) with
  | none =>
      rw [hNode] at hWords
      simp only [Option.map_none, Option.elim_none] at hWords ⊢
      grind
  | some pthis =>
      rw [hNode] at hWords
      simp only [Option.map_some, Option.elim_some, UInt32.ofNat_add] at hWords ⊢
      split
      · rename_i hNull
        have hEmpty : pthis.vData = [] := by
          apply hThreaded.empty (slot cfg (placeIndex key.place)) (pthis.hashKey, pthis.vData)
          · rw [contents, hNode]
            rfl
          · exact hNull
        rw [hEmpty, List.length_nil] at hWords
        grind
      · grind

/-! ## Calls -/

/-- What all slots are charged: the nodes, what one of them holds, and what the others hold. -/
theorem charged_eq (lru : BinaryLRU) (hTable : InTables cfg nSlot) :
    ∃ nNodes ≤ nNodeSize.toNat * cfg.MAX_CACHE_BUCKETS.toNat,
      charged cfg lru = nNodes + dataSize lru nSlot + heldBeside cfg lru nSlot := by
  have hCharge : ∀ n, charge lru n =
      ((lru.contents n).elim 0 fun _ => nNodeSize.toNat) + dataSize lru n := by
    intro n
    rw [charge, dataSize]
    cases lru.contents n with
    | none => rfl
    | some node => rfl
  have hMem : nSlot.toNat ∈ Finset.range cfg.MAX_CACHE_BUCKETS.toNat :=
    Finset.mem_range.mpr (UInt32.lt_iff_toNat_lt.mp hTable)
  have hHeld := Finset.add_sum_erase _ (fun n => dataSize lru (UInt32.ofNat n)) hMem
  simp only [UInt32.ofNat_toNat] at hHeld
  refine ⟨∑ n ∈ Finset.range cfg.MAX_CACHE_BUCKETS.toNat,
    (lru.contents (UInt32.ofNat n)).elim 0 fun _ => nNodeSize.toNat, ?_, ?_⟩
  · have hLe := Finset.sum_le_card_nsmul (Finset.range cfg.MAX_CACHE_BUCKETS.toNat)
      (fun n => (lru.contents (UInt32.ofNat n)).elim 0 fun _ => nNodeSize.toNat) nNodeSize.toNat
      fun n _ => by
        cases lru.contents (UInt32.ofNat n) with
        | none => exact Nat.zero_le _
        | some node => exact Nat.le_refl _
    rw [Finset.card_range, smul_eq_mul, Nat.mul_comm] at hLe
    exact hLe
  · rw [charged, Finset.sum_congr rfl fun n _ => hCharge (UInt32.ofNat n), Finset.sum_add_distrib,
      ← hHeld, heldBeside, Nat.add_assoc]

/-- A cache that accounts for its nodes has room for one of them. -/
theorem Accounted.hasRoom {XXH64 : Bytes → UInt64} {nCacheSizeIn : UInt32}
    (h : Accounted (cacheConfig XXH64 nCacheSizeIn) lru (dataSize lru nSlot))
    (hTable : InTables (cacheConfig XXH64 nCacheSizeIn) nSlot) :
    HasRoom (cacheConfig XXH64 nCacheSizeIn) lru nSlot := by
  obtain ⟨nNodes, hNodes, hCharged⟩ := charged_eq lru hTable
  rw [Accounted, hCharged, UInt32.ofNat_add, UInt32.ofNat_add] at h
  have hSize : lru.nCurrentSize -
      UInt32.ofNat (heldBeside (cacheConfig XXH64 nCacheSizeIn) lru nSlot) =
      (cacheConfig XXH64 nCacheSizeIn).MAX_CACHE_BUCKETS * 16 + UInt32.ofNat nNodes := by
    grind
  have hBuckets : (cacheConfig XXH64 nCacheSizeIn).MAX_CACHE_BUCKETS.toNat =
      nCacheSizeIn.toNat / 128 := UInt32.toNat_div ..
  have hBound := nCacheSizeIn.toNat_lt
  have hNodeSize : nNodeSize.toNat = 48 := rfl
  rw [hBuckets, hNodeSize] at hNodes
  rw [HasRoom, hSize, UInt32.le_iff_toNat_le, UInt32.toNat_add, UInt32.toNat_mul, hBuckets,
    UInt32.toNat_ofNat']
  show (nCacheSizeIn.toNat / 128 * 16 % 2 ^ 32 + nNodes % 2 ^ 32) % 2 ^ 32 ≤ nCacheSizeIn.toNat
  omega

theorem Threaded.length_le (h : Threaded cfg lru l) (hOwned : Owned cfg lru) :
    l.length ≤ cfg.MAX_CACHE_BUCKETS.toNat := by
  have hNodup : (l.map UInt32.toNat).Nodup :=
    h.lists.nodup.map fun _ _ hSame => UInt32.toNat_inj.mp hSame
  have hSubset : (l.map UInt32.toNat).toFinset ⊆ Finset.range cfg.MAX_CACHE_BUCKETS.toNat := by
    intro n hn
    obtain ⟨nSlot, hMem, rfl⟩ := List.mem_map.mp (List.mem_toFinset.mp hn)
    obtain ⟨node, hNode, -⟩ := (h.live nSlot).mp hMem
    have hTable := hOwned.table nSlot (by rw [hNode]; exact Option.some_ne_none _)
    exact Finset.mem_range.mpr (UInt32.lt_iff_toNat_lt.mp hTable)
  have hCard := Finset.card_le_card hSubset
  rwa [List.toFinset_card_of_nodup hNodup, List.length_map, Finset.card_range] at hCard

/-- The slot of a place is claimed. -/
def claimedBy (cfg : LRUConfig) (lru : BinaryLRU) (key : SectorKey) (vKey vData : Bytes) : BinaryLRU :=
  (lru.free cfg vKey).claim cfg key vKey vData

/-- A put with room for its node keeps the list. -/
theorem Threaded.put (h : Threaded cfg lru l) (hOwned : Owned cfg lru)
    (hSlots : 0 < cfg.MAX_CACHE_BUCKETS)
    (hHash : cfg.XXH64 vKey ≠ 0) (hPlace : placeIndex key.place ≠ 0)
    (hRoom : HasRoom cfg (claimedBy cfg lru key vKey vData) (slot cfg (placeIndex key.place))) :
    EvictFinds cfg (slot cfg (placeIndex key.place)) (cfg.MAX_CACHE_BUCKETS.toNat + 1)
        (claimedBy cfg lru key vKey vData) ∧
      (∃ l', Threaded cfg (lru.Put cfg key vKey vData) l') ∧
      (Accounted cfg (claimedBy cfg lru key vKey vData) vData.length →
        Accounted cfg (lru.Put cfg key vKey vData) 0) := by
  obtain ⟨l₁, hFreed, hBucket⟩ := h.free vKey
  have hClaimed := hFreed.claim vData hHash hPlace hBucket
  have hOwnedFree := @Owned.free cfg lru vKey hOwned
  have hOwnedClaim := @Owned.claim cfg (lru.free cfg vKey) vKey vData key hSlots hOwnedFree.1
    hOwnedFree.2
  have hLength := hClaimed.length_le hOwnedClaim
  rw [List.length_cons] at hLength
  obtain ⟨hFinds, hEvicted⟩ := evict_finds (cfg.MAX_CACHE_BUCKETS.toNat + 1) hClaimed
    hOwnedClaim hRoom (by omega)
  obtain ⟨l₂, hThreaded⟩ := hEvicted.kept
  refine ⟨hFinds, ⟨_, hThreaded.lists, hThreaded.live, hThreaded.alone, hThreaded.empty, hThreaded.led⟩,
    fun hAccounted => ?_⟩
  have hAfter := hEvicted.accounted _ hAccounted
  rw [Accounted] at hAfter ⊢
  show _ + UInt32.ofNat vData.length + UInt32.ofNat 0 = _
  rw [hAfter, show UInt32.ofNat 0 = 0 from rfl, UInt32.add_zero]
  rfl

/-- A read moves a live node to the front, or resets an index that leads to none. -/
theorem Threaded.get (h : Threaded cfg lru l) : (∃ l', Threaded cfg (lru.Get cfg vKey).2 l') ∧
    (Accounted cfg lru 0 → Accounted cfg (lru.Get cfg vKey).2 0) := by
  have hReset : (∀ node, lru.contents (slot cfg (lru.indexes (bucket cfg vKey))) = some node →
      node.1 = 0) → Led cfg { lru with indexes := Function.update lru.indexes (bucket cfg vKey) 0 } := by
    intro hNull
    apply h.led.reset (bucket cfg vKey) lru.nCurrentSize
    intro nThis node hNode hKey hSame
    have hSlot := (h.led nThis node hNode hKey).2
    rw [hSame] at hSlot
    rw [hSlot] at hNull
    exact hKey (hNull node hNode)
  unfold BinaryLRU.Get
  simp only
  split
  · exact ⟨⟨l, h⟩, id⟩
  · split
    · rename_i hNone
      refine ⟨⟨l, h.reindex (hReset fun node hNode => ?_)⟩, fun hAccounted => hAccounted⟩
      rw [contents, hNone] at hNode
      cases hNode
    · rename_i pthis hSome
      split
      · rename_i hNull
        refine ⟨⟨l, h.reindex (hReset fun node hNode => ?_)⟩, fun hAccounted => hAccounted⟩
        rw [contents, hSome] at hNode
        obtain rfl := Option.some.inj hNode
        exact hNull
      · rename_i hNull
        split
        · exact ⟨⟨l, h⟩, id⟩
        · have hMem : slot cfg (lru.indexes (bucket cfg vKey)) ∈ l := by
            rw [h.live, Live, contents, hSome]
            exact ⟨_, rfl, hNull⟩
          exact ⟨⟨_, h.move_to_front hMem⟩, fun hAccounted =>
            hAccounted.same move_to_front_same.1 move_to_front_size⟩

/-- A removal takes a node from the list. -/
theorem Threaded.remove (h : Threaded cfg lru l) : ∃ l', Threaded cfg (lru.Remove cfg vKey) l' := by
  unfold BinaryLRU.Remove
  simp only
  split
  · exact ⟨l, h⟩
  · split
    · rename_i hNone
      refine ⟨l, h.reindex (h.led.reset _ _ fun nThis node hNode hKey hSame => ?_)⟩
      have hSlot := (h.led nThis node hNode hKey).2
      rw [hSame] at hSlot
      rw [← hSlot, contents, hNone] at hNode
      cases hNode
    · rename_i pthis hSome
      have hThere : lru.contents (slot cfg (lru.indexes (bucket cfg vKey))) ≠ none := by
        rw [contents, hSome]
        exact Option.some_ne_none _
      have hCleared := h.clear hThere
      have hLed := hCleared.led.reset (bucket cfg vKey) (lru.nCurrentSize - nNodeSize) h.led.cleared
      rw [clear_indexes] at hLed
      exact ⟨_, hCleared.reindex hLed⟩

/-! ## Runs -/

/-- A call that puts only under a hash and an index that are not zero. -/
def Indexed (cfg : LRUConfig) (call : CacheCall) : Prop :=
  ∀ key vKey vData, call = .Put key vKey vData → cfg.XXH64 vKey ≠ 0 ∧ placeIndex key.place ≠ 0

/-- A call that puts only where there is room for the node if all others are dropped. -/
def RoomFor (cfg : LRUConfig) (lru : BinaryLRU) (call : CacheCall) : Prop :=
  ∀ key vKey vData, call = .Put key vKey vData →
    HasRoom cfg (claimedBy cfg lru key vKey vData) (slot cfg (placeIndex key.place))

/-- A removal that finds a node. -/
def RemovesNode (cfg : LRUConfig) (lru : BinaryLRU) (call : CacheCall) : Prop :=
  ∃ vKey, call = .Remove vKey ∧ lru.indexes (bucket cfg vKey) ≠ 0 ∧
    lru.contents (slot cfg (lru.indexes (bucket cfg vKey))) ≠ none

/-- Each put drops live nodes only, and ends. -/
def Victims (cfg : LRUConfig) (lru : BinaryLRU) (call : CacheCall) : Prop :=
  ∀ key vKey vData, call = .Put key vKey vData →
    EvictFinds cfg (slot cfg (placeIndex key.place)) (cfg.MAX_CACHE_BUCKETS.toNat + 1)
      (claimedBy cfg lru key vKey vData)

/-- The caches that calls lead to, each of which is as required. -/
inductive CacheRun (cfg : LRUConfig) (Required : BinaryLRU → CacheCall → Prop) : BinaryLRU → Prop
  | new : CacheRun cfg Required (.new cfg)
  | call {lru : BinaryLRU} (call : CacheCall) : CacheRun cfg Required lru → Required lru call →
      CacheRun cfg Required (call.after cfg lru)

variable {Required : BinaryLRU → CacheCall → Prop}

theorem CacheRun.owned (hSlots : 0 < cfg.MAX_CACHE_BUCKETS) (h : CacheRun cfg Required lru) :
    Owned cfg lru := by
  induction h with
  | new => exact owned_new
  | call call _ _ ih => exact ih.after hSlots

/-- Every call with room keeps the list. -/
theorem Threaded.after {call : CacheCall} (h : Threaded cfg lru l) (hOwned : Owned cfg lru)
    (hSlots : 0 < cfg.MAX_CACHE_BUCKETS) (hIndexed : Indexed cfg call) (hRoom : RoomFor cfg lru call) :
    ∃ l', Threaded cfg (call.after cfg lru) l' := by
  cases call with
  | Has vKey => exact ⟨l, h⟩
  | Get vKey => exact h.get.1
  | Put key vKey vData =>
      obtain ⟨hHash, hPlace⟩ := hIndexed key vKey vData rfl
      exact (h.put hOwned hSlots hHash hPlace (hRoom key vKey vData rfl)).2.1
  | Remove vKey => exact h.remove

theorem Threaded.victims {call : CacheCall} (h : Threaded cfg lru l) (hOwned : Owned cfg lru)
    (hSlots : 0 < cfg.MAX_CACHE_BUCKETS) (hIndexed : Indexed cfg call) (hRoom : RoomFor cfg lru call) :
    Victims cfg lru call := by
  intro key vKey vData hCall
  obtain ⟨hHash, hPlace⟩ := hIndexed key vKey vData hCall
  exact (h.put hOwned hSlots hHash hPlace (hRoom key vKey vData hCall)).1

/-- The list after every run of calls with room. -/
theorem CacheRun.threaded (hSlots : 0 < cfg.MAX_CACHE_BUCKETS) (h : CacheRun cfg Required lru)
    (hRequired : ∀ lru call, Required lru call → Indexed cfg call ∧ RoomFor cfg lru call) :
    ∃ l, Threaded cfg lru l := by
  induction h with
  | new => exact ⟨[], threaded_new⟩
  | call call hRun hCall ih =>
      obtain ⟨l, hThreaded⟩ := ih
      obtain ⟨hIndexed, hRoom⟩ := hRequired _ call hCall
      exact hThreaded.after (hRun.owned hSlots) hSlots hIndexed hRoom

/-- The list has each live node once. -/
def ListsLive (lru : BinaryLRU) : Prop :=
  ∃ l, (linksOf lru).Lists l ∧ ∀ nSlot, nSlot ∈ l ↔ Live lru nSlot

theorem Threaded.listsLive (h : Threaded cfg lru l) : ListsLive lru := ⟨l, h.lists, h.live⟩

section

variable {XXH64 : Bytes → UInt64} {nCacheSizeIn : UInt32}

theorem accounted_new : Accounted cfg (.new cfg) 0 := by
  have hNone : charged cfg (.new cfg) = 0 := Finset.sum_eq_zero fun _ _ => rfl
  rw [Accounted, hNone]
  rfl

/-- A cache that accounts for its nodes has room for every node that is put. -/
theorem Accounted.roomFor {call : CacheCall} (h : Accounted (cacheConfig XXH64 nCacheSizeIn) lru 0)
    (hThreaded : Threaded (cacheConfig XXH64 nCacheSizeIn) lru l)
    (hOwned : Owned (cacheConfig XXH64 nCacheSizeIn) lru)
    (hSlots : 0 < (cacheConfig XXH64 nCacheSizeIn).MAX_CACHE_BUCKETS) :
    RoomFor (cacheConfig XXH64 nCacheSizeIn) lru call := by
  intro key vKey vData _
  obtain ⟨l', hFreed, -⟩ := hThreaded.free vKey
  have hClaimed := (h.free vKey hOwned).claim key vKey vData hFreed hSlots
  apply Accounted.hasRoom _ (slot_inTables hSlots _)
  have hData : dataSize (claimedBy (cacheConfig XXH64 nCacheSizeIn) lru key vKey vData)
      (slot (cacheConfig XXH64 nCacheSizeIn) (placeIndex key.place)) = vData.length := by
    rw [dataSize, claimedBy, claim_contents, if_pos rfl]
    rfl
  rw [hData]
  exact hClaimed

/-- Every call but a removal that finds a node keeps the account. -/
theorem Accounted.after {call : CacheCall} (h : Accounted (cacheConfig XXH64 nCacheSizeIn) lru 0)
    (hThreaded : Threaded (cacheConfig XXH64 nCacheSizeIn) lru l)
    (hOwned : Owned (cacheConfig XXH64 nCacheSizeIn) lru)
    (hSlots : 0 < (cacheConfig XXH64 nCacheSizeIn).MAX_CACHE_BUCKETS)
    (hIndexed : Indexed (cacheConfig XXH64 nCacheSizeIn) call)
    (hNone : ¬ RemovesNode (cacheConfig XXH64 nCacheSizeIn) lru call) :
    Accounted (cacheConfig XXH64 nCacheSizeIn) (call.after (cacheConfig XXH64 nCacheSizeIn) lru) 0 := by
  cases call with
  | Has vKey => exact h
  | Get vKey => exact hThreaded.get.2 h
  | Put key vKey vData =>
      obtain ⟨hHash, hPlace⟩ := hIndexed key vKey vData rfl
      obtain ⟨l', hFreed, -⟩ := hThreaded.free vKey
      have hClaimed := (h.free vKey hOwned).claim key vKey vData hFreed hSlots
      have hRoom := h.roomFor hThreaded hOwned hSlots key vKey vData rfl
      exact (hThreaded.put hOwned hSlots hHash hPlace hRoom).2.2 hClaimed
  | Remove vKey =>
      show Accounted _ (lru.Remove _ vKey) 0
      unfold BinaryLRU.Remove
      simp only
      split
      · exact h
      · rename_i hIndex
        split
        · exact h
        · rename_i pthis hSome
          refine absurd ⟨vKey, rfl, hIndex, ?_⟩ hNone
          rw [contents, hSome]
          exact Option.some_ne_none _

/-- The list and the account after every run in which no removal finds a node. -/
theorem CacheRun.accounted (hSlots : 0 < (cacheConfig XXH64 nCacheSizeIn).MAX_CACHE_BUCKETS)
    (h : CacheRun (cacheConfig XXH64 nCacheSizeIn) (fun lru call =>
      Indexed (cacheConfig XXH64 nCacheSizeIn) call ∧
        ¬ RemovesNode (cacheConfig XXH64 nCacheSizeIn) lru call) lru) :
    ∃ l, Threaded (cacheConfig XXH64 nCacheSizeIn) lru l ∧
      Accounted (cacheConfig XXH64 nCacheSizeIn) lru 0 := by
  induction h with
  | new => exact ⟨[], threaded_new, accounted_new⟩
  | call call hRun hCall ih =>
      obtain ⟨l, hThreaded, hAccounted⟩ := ih
      have hOwned := hRun.owned hSlots
      obtain ⟨l', hAfter⟩ := hThreaded.after hOwned hSlots hCall.1
        (hAccounted.roomFor hThreaded hOwned hSlots)
      exact ⟨l', hAfter, hAccounted.after hThreaded hOwned hSlots hCall.1 hCall.2⟩

/-- The list has each live node once as long as there is room for each node that is put.  As long
as no removal finds a node there is, and the size is that of the tables, of all nodes, emptied ones
too, and of what the live ones hold. -/
theorem cache_accounts (hSize : 128 ≤ nCacheSizeIn) :
    (∀ lru, CacheRun (cacheConfig XXH64 nCacheSizeIn) (fun lru call =>
        Indexed (cacheConfig XXH64 nCacheSizeIn) call ∧
          RoomFor (cacheConfig XXH64 nCacheSizeIn) lru call) lru →
      ListsLive lru ∧ ∀ call, Indexed (cacheConfig XXH64 nCacheSizeIn) call →
        RoomFor (cacheConfig XXH64 nCacheSizeIn) lru call →
        Victims (cacheConfig XXH64 nCacheSizeIn) lru call) ∧
    ∀ lru, CacheRun (cacheConfig XXH64 nCacheSizeIn) (fun lru call =>
        Indexed (cacheConfig XXH64 nCacheSizeIn) call ∧
          ¬ RemovesNode (cacheConfig XXH64 nCacheSizeIn) lru call) lru →
      ListsLive lru ∧
      lru.nCurrentSize = (BinaryLRU.new (cacheConfig XXH64 nCacheSizeIn)).nCurrentSize +
        UInt32.ofNat (charged (cacheConfig XXH64 nCacheSizeIn) lru) ∧
      ∀ call, Indexed (cacheConfig XXH64 nCacheSizeIn) call →
        RoomFor (cacheConfig XXH64 nCacheSizeIn) lru call ∧
        Victims (cacheConfig XXH64 nCacheSizeIn) lru call := by
  have hSlots : 0 < (cacheConfig XXH64 nCacheSizeIn).MAX_CACHE_BUCKETS := buckets_pos_iff.mpr hSize
  constructor
  · intro lru hRun
    obtain ⟨l, hThreaded⟩ := hRun.threaded hSlots fun _ _ hCall => hCall
    refine ⟨hThreaded.listsLive, fun call hIndexed hRoom => ?_⟩
    exact hThreaded.victims (hRun.owned hSlots) hSlots hIndexed hRoom
  · intro lru hRun
    obtain ⟨l, hThreaded, hAccounted⟩ := hRun.accounted hSlots
    have hOwned := hRun.owned hSlots
    refine ⟨hThreaded.listsLive, ?_, fun call hIndexed => ?_⟩
    · rw [Accounted, show UInt32.ofNat 0 = 0 from rfl, UInt32.add_zero] at hAccounted
      exact hAccounted
    · have hRoom : RoomFor (cacheConfig XXH64 nCacheSizeIn) lru call :=
        hAccounted.roomFor hThreaded hOwned hSlots
      exact ⟨hRoom, hThreaded.victims hOwned hSlots hIndexed hRoom⟩

end

/-- A cache of a kilobyte, after two bytes were put. -/
def filledCache : BinaryLRU :=
  CacheCall.after (cacheConfig exampleHash 1024) (.new (cacheConfig exampleHash 1024))
    (.Put (.of [1] 0 5 2) [1] [7, 8])

/-- A put of an indexed key removes no node. -/
theorem required_put {cfg : LRUConfig} {lru : BinaryLRU} {key : SectorKey} {vKey vData : Bytes}
    (hKey : cfg.XXH64 vKey ≠ 0) (hPlace : placeIndex key.place ≠ 0) :
    Indexed cfg (.Put key vKey vData) ∧ ¬ RemovesNode cfg lru (.Put key vKey vData) := by
  constructor
  · intro key' vKey' vData' hCall
    cases hCall
    exact ⟨hKey, hPlace⟩
  · rintro ⟨vKey', hCall, -⟩
    cases hCall

theorem filledCache_run : CacheRun (cacheConfig exampleHash 1024) (fun lru call =>
    Indexed (cacheConfig exampleHash 1024) call ∧
      ¬ RemovesNode (cacheConfig exampleHash 1024) lru call) filledCache :=
  .call _ .new (required_put (by decide) (by decide))

/-- The cache after 700 more bytes and a read of the first two. -/
def readCache : BinaryLRU :=
  CacheCall.after (cacheConfig exampleHash 1024)
    (CacheCall.after (cacheConfig exampleHash 1024) filledCache
      (.Put (.of [2] 0 6 700) [2] (List.replicate 700 7)))
    (.Get [1])

/-- The cache after a removal that finds nothing and 300 bytes more, and after a put that drops the
700. -/
def servedCache : BinaryLRU :=
  CacheCall.after (cacheConfig exampleHash 1024)
    (CacheCall.after (cacheConfig exampleHash 1024)
      (CacheCall.after (cacheConfig exampleHash 1024) readCache (.Remove [3]))
      (.Put (.of [4] 0 7 300) [4] (List.replicate 300 9)))
    (.Put (.of [5] 0 8 1) [5] [1])

theorem servedCache_run : CacheRun (cacheConfig exampleHash 1024) (fun lru call =>
    Indexed (cacheConfig exampleHash 1024) call ∧
      ¬ RemovesNode (cacheConfig exampleHash 1024) lru call) servedCache := by
  have hRead : ∀ lru, Indexed (cacheConfig exampleHash 1024) (.Get [1]) ∧
      ¬ RemovesNode (cacheConfig exampleHash 1024) lru (.Get [1]) := by
    intro lru
    refine ⟨fun key vKey vData hCall => (by cases hCall), ?_⟩
    rintro ⟨vKey, hCall, -⟩
    cases hCall
  have hRemove : Indexed (cacheConfig exampleHash 1024) (.Remove [3]) ∧
      ¬ RemovesNode (cacheConfig exampleHash 1024) readCache (.Remove [3]) := by
    refine ⟨fun key vKey vData hCall => (by cases hCall), ?_⟩
    rintro ⟨vKey, hCall, hIndex, -⟩
    cases hCall
    exact hIndex (by decide +kernel)
  have hFilled := filledCache_run.call _ (@required_put _ filledCache (.of [2] 0 6 700) [2]
    (List.replicate 700 7) (by decide) (by decide))
  have hRefused := (hFilled.call _ (hRead _)).call _ hRemove
  exact .call _ (.call _ hRefused (required_put (by decide) (by decide)))
    (required_put (by decide) (by decide))

theorem cache_accounts_example :
    ListsLive servedCache ∧
      servedCache.nCurrentSize = 128 +
        UInt32.ofNat (charged (cacheConfig exampleHash 1024) servedCache) ∧
      servedCache.nCurrentSize = 128 + 4 * 48 + 2 + 300 + 1 := by
  obtain ⟨hLists, hSize, -⟩ := (cache_accounts (by decide)).2 servedCache servedCache_run
  exact ⟨hLists, hSize, by decide +kernel⟩

/-- A cache of a kilobyte, after a key was put whose hash is zero. -/
def nullCache : BinaryLRU :=
  CacheCall.after (cacheConfig exampleHash 1024) (.new (cacheConfig exampleHash 1024))
    (.Put (.of [0] 0 5 2) [0] [7, 8])

/-- A cache of two slots, after a key was put at a place whose index wraps to zero, and then another
one of the same bucket. -/
def wrappedCache : BinaryLRU :=
  CacheCall.after (cacheConfig exampleHash 256)
    (CacheCall.after (cacheConfig exampleHash 256) (.new (cacheConfig exampleHash 256))
      (.Put (.of [1] 15 0x0fffffff 200) [1] (List.replicate 200 7)))
    (.Put (.of [3] 0 0 1) [3] [8])

/-- The only node of the list is not the last one, and its removal takes off the size of the node,
which is still there, and not what it held.  A key whose hash is zero has a node in the list that is
empty, and a place whose index is zero has the wrong node emptied. -/
theorem cache_drifts :
    (filledCache.pfirst = some 6 ∧ Live filledCache 6 ∧ filledCache.plast = none) ∧
    ((filledCache.Remove (cacheConfig exampleHash 1024) [1]).nCurrentSize = 130 ∧
      (BinaryLRU.new (cacheConfig exampleHash 1024)).nCurrentSize = 128 ∧
      (∀ nSlot, ¬ Live (filledCache.Remove (cacheConfig exampleHash 1024) [1]) nSlot) ∧
      (filledCache.Remove (cacheConfig exampleHash 1024) [1]).contents 6 ≠ none) ∧
    (nullCache.pfirst = some 6 ∧ ¬ Live nullCache 6) ∧
    (wrappedCache.pfirst = some 1 ∧ ¬ Live wrappedCache 1 ∧ Live wrappedCache 0) := by
  have hSlots : 0 < (cacheConfig exampleHash 1024).MAX_CACHE_BUCKETS := by decide
  obtain ⟨l, hThreaded, -⟩ := filledCache_run.accounted hSlots
  obtain ⟨l', hRemoved⟩ := @Threaded.remove _ _ _ [1] hThreaded
  have hFirst : (filledCache.Remove (cacheConfig exampleHash 1024) [1]).pfirst = none := by decide
  have hNone : l' = [] := by
    apply List.head?_eq_none_iff.mp
    rw [← hRemoved.lists.first]
    exact hFirst
  have hNull : nullCache.contents 6 = some (0, [7, 8]) := by decide
  have hEmptied : wrappedCache.contents 1 = some (0, []) := by decide +kernel
  have hLeft : wrappedCache.contents 0 = some (1, List.replicate 200 7) := by
    decide +kernel
  refine ⟨⟨by decide, ⟨(1, [7, 8]), by decide, by decide⟩, by decide⟩,
    ⟨by decide, by decide, ?_, by decide⟩, ⟨by decide, ?_⟩, ⟨by decide +kernel, ?_, ?_⟩⟩
  · intro nSlot hLive
    rw [← hRemoved.live, hNone] at hLive
    cases hLive
  · rintro ⟨node, hNode, hKey⟩
    rw [hNull] at hNode
    obtain rfl := Option.some.inj hNode
    exact hKey rfl
  · rintro ⟨node, hNode, hKey⟩
    rw [hEmptied] at hNode
    obtain rfl := Option.some.inj hNode
    exact hKey rfl
  · exact ⟨_, hLeft, show (1 : UInt64) ≠ 0 by decide⟩

end Nexus.Safety
