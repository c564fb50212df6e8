import Nexus.Ledger.Process
import Nexus.Lib.Reorder
import Nexus.Safety.Hardening

/-!
# Blocks out of order

A chain of blocks each of which is accepted behind the one before it is accepted in any order: the
orphans are the waiting items of a reorder buffer, and the loop behind a block that is accepted
delivers them.

## Main results

* `blocks_arrive`: in whatever order the blocks of a chain arrive, all of them are accepted.
-/

namespace Nexus.Safety

open Nexus.Lib.Bytes
open Nexus.Lib.Checked
open Nexus.Lib.Reorder
open Nexus.Util
open Nexus.LLD
open Nexus.Ledger

variable {σ β : Type} {rt : BlockMethods σ β} {n : Nat} {block : Nat → β} {chains : Nat → σ}
  {p p' : Processing σ β} {b : Buffer}

/-- A chain of `n` blocks: the block with the number `i` is accepted on `chains i`, and leaves
`chains (i + 1)`. -/
structure Succession (rt : BlockMethods σ β) (block : Nat → β) (chains : Nat → σ) (n : Nat) :
    Prop where
  checks : ∀ i < n, (rt.Check (chains i) (block i)).1 = .returned true
  accepts : ∀ i < n, rt.Accept (chains i) (block i) = (chains (i + 1), .returned true)
  follows : ∀ i, i + 1 < n → (rt.toBlock (block (i + 1))).hashPrevBlock = rt.GetHash (block i)
  /-- The block before a block is stored once the blocks before it are accepted. -/
  stored : ∀ i ≤ n, ∀ j < n,
    rt.HasBlock (chains i) (rt.toBlock (block j)).hashPrevBlock = decide (j ≤ i)
  /-- No block is behind the checkpoint. -/
  height : ∀ i ≤ n, ∀ j < n, i < j →
    rt.fTestNet = true ∨ rt.nCheckpointHeight (chains i) ≤ (rt.toBlock (block j)).nHeight

/-- The key of a block among the orphans. -/
def waitsFor (rt : BlockMethods σ β) (block : Nat → β) (i : Nat) : Uint1024 :=
  (rt.toBlock (block i)).hashPrevBlock

/-- Blocks of a chain wait for different blocks. -/
theorem Succession.waitsFor_inj (h : Succession rt block chains n) {i j : Nat} (hi : i < n)
    (hj : j < n) (hSame : waitsFor rt block i = waitsFor rt block j) : i = j := by
  have hFirst := h.stored i (by omega) j hj
  have hSecond := h.stored j (by omega) i hi
  unfold waitsFor at hSame
  rw [← hSame, h.stored i (by omega) i hi, decide_eq_decide] at hFirst
  rw [hSame, h.stored j (by omega) j hj, decide_eq_decide] at hSecond
  have hUp := hFirst.mp (Nat.le_refl i)
  have hDown := hSecond.mp (Nat.le_refl j)
  omega

/-- The blocks below `next` are accepted, and the waiting ones are the orphans. -/
structure Tracks (rt : BlockMethods σ β) (block : Nat → β) (chains : Nat → σ) (n : Nat)
    (p : Processing σ β) (b : Buffer) : Prop where
  chain : p.chain = chains b.next
  bound : b.next ≤ n
  complete : p.setIncomplete = []
  waiting : ∀ i ∈ b.waiting, i < n
  orphans : ∀ key orphan, p.mapOrphans.lookup key = some orphan ↔
    ∃ i ∈ b.waiting, key = waitsFor rt block i ∧ orphan = block i

/-- Nothing is left among the orphans once everything is delivered. -/
theorem Tracks.eq_of_delivered (h : Tracks rt block chains n p ⟨n, ∅⟩) :
    p = { chain := chains n } := by
  have hNone : p.mapOrphans = [] := by
    rcases hList : p.mapOrphans with _ | ⟨⟨key, orphan⟩, rest⟩
    · rfl
    · have hFirst : p.mapOrphans.lookup key = some orphan := by
        rw [hList]
        exact List.lookup_cons_self
      obtain ⟨i, hi, -⟩ := (h.orphans key orphan).mp hFirst
      simp at hi
  have hChain := h.chain
  have hComplete := h.complete
  cases p
  simp_all only

theorem Tracks.lookup (hSuccession : Succession rt block chains n)
    (h : Tracks rt block chains n p b) {i : Nat} (hi : i < n) :
    p.mapOrphans.lookup (waitsFor rt block i) = if i ∈ b.waiting then some (block i) else none := by
  split
  · exact (h.orphans _ _).mpr ⟨i, ‹_›, rfl, rfl⟩
  · rw [Option.eq_none_iff_forall_not_mem]
    intro orphan hOrphan
    obtain ⟨j, hj, hKey, -⟩ := (h.orphans _ _).mp hOrphan
    rw [← hSuccession.waitsFor_inj hi (h.waiting j hj) hKey] at hj
    contradiction

/-- The block with the next number is accepted from among the orphans. -/
theorem Tracks.deliver (hSuccession : Succession rt block chains n)
    (h : Tracks rt block chains n p b) (hMem : b.next ∈ b.waiting) :
    Tracks rt block chains n
      ({ p with chain := chains (b.next + 1) }.eraseOrphan (waitsFor rt block b.next))
      ⟨b.next + 1, b.waiting.erase b.next⟩ where
  chain := rfl
  bound := h.waiting _ hMem
  complete := h.complete
  waiting i hi := h.waiting i (Finset.mem_of_mem_erase hi)
  orphans key orphan := by
    rw [Processing.lookup_eraseOrphan]
    by_cases hKey : key = waitsFor rt block b.next
    · rw [if_pos hKey]
      constructor
      · intro hNone
        cases hNone
      · rintro ⟨i, hi, hSame, -⟩
        rw [Finset.mem_erase] at hi
        exact absurd (hSuccession.waitsFor_inj (h.waiting i hi.2) (h.waiting _ hMem)
          (hSame.symm.trans hKey)) hi.1
    · rw [if_neg hKey]
      refine (h.orphans key orphan).trans ⟨?_, ?_⟩
      · rintro ⟨i, hi, hSame, hBlock⟩
        refine ⟨i, Finset.mem_erase.mpr ⟨?_, hi⟩, hSame, hBlock⟩
        rintro rfl
        exact hKey hSame
      · rintro ⟨i, hi, hSame, hBlock⟩
        exact ⟨i, Finset.mem_of_mem_erase hi, hSame, hBlock⟩

/-- The loop behind the block before the next one delivers what is waiting. -/
theorem Tracks.flush (hSuccession : Succession rt block chains n) {k : Nat} {waiting : Finset Nat}
    {turns : Nat} (h : Tracks rt block chains n p ⟨k + 1, waiting⟩)
    (hOrdered : ∀ i ∈ waiting, k + 1 ≤ i) (hTurns : p.mapOrphans.length ≤ turns) (r : Processed) :
    Tracks rt block chains n
      (Processing.processOrphans rt turns (rt.GetHash (block k)) p r).1
      (Buffer.flush ⟨k + 1, waiting⟩) := by
  induction turns generalizing k waiting p r with
  | zero =>
      have hNone : p.mapOrphans = [] := List.eq_nil_of_length_eq_zero (Nat.le_zero.mp hTurns)
      have hNot : k + 1 ∉ waiting := by
        intro hMem
        have hSome := (h.orphans _ _).mpr ⟨_, hMem, rfl, rfl⟩
        rw [hNone] at hSome
        cases hSome
      rw [Buffer.flush_of_not_mem hNot]
      exact h
  | succ turns ih =>
      by_cases hMem : k + 1 ∈ waiting
      · have hBound : k + 1 < n := h.waiting _ hMem
        have hFollows : waitsFor rt block (k + 1) = rt.GetHash (block k) :=
          hSuccession.follows k hBound
        have hOrphan := h.lookup hSuccession hBound
        rw [if_pos hMem, hFollows] at hOrphan
        have hDelivered := h.deliver hSuccession hMem
        have hLess := @Processing.length_eraseOrphan _ _ { p with chain := chains (k + 1 + 1) }
          (rt.GetHash (block k)) (by rw [hOrphan]; rfl)
        have hCheck := hSuccession.checks (k + 1) hBound
        have hAccept := hSuccession.accepts (k + 1) hBound
        rw [← h.chain] at hCheck hAccept
        rcases hResult : rt.Check p.chain (block (k + 1)) with ⟨outcome, vMissing⟩
        rw [hResult] at hCheck
        subst hCheck
        rw [Buffer.flush_of_mem hMem, Processing.processOrphans]
        simp only [hOrphan, hResult, hAccept]
        rw [hFollows] at hDelivered
        refine ih hDelivered ?_ ?_ r
        · intro i hi
          exact Nat.lt_of_le_of_ne (hOrdered i (Finset.mem_of_mem_erase hi))
            (Ne.symm (Finset.ne_of_mem_erase hi))
        · exact Nat.le_of_lt_succ (Nat.lt_of_lt_of_le hLess hTurns)
      · have hNone : p.mapOrphans.lookup (rt.GetHash (block k)) = none := by
          rw [Option.eq_none_iff_forall_not_mem]
          intro orphan hOrphan
          obtain ⟨i, hi, hKey, -⟩ := (h.orphans _ _).mp hOrphan
          have hBound : k + 1 < n := Nat.lt_of_le_of_lt (hOrdered i hi) (h.waiting i hi)
          have hSame : waitsFor rt block (k + 1) = waitsFor rt block i :=
            (hSuccession.follows k hBound).trans hKey
          exact hMem (hSuccession.waitsFor_inj hBound (h.waiting i hi) hSame ▸ hi)
        rw [Buffer.flush_of_not_mem hMem, Processing.processOrphans]
        simp only [hNone]
        exact h

/-- A block that comes before its turn waits. -/
theorem Tracks.wait (hSuccession : Succession rt block chains n) {i : Nat}
    (h : Tracks rt block chains n p b) (hi : i < n) (hAhead : b.next < i)
    (hNew : i ∉ b.waiting) :
    Tracks rt block chains n (p.processOrphan rt (block i)).1 ⟨b.next, insert i b.waiting⟩ := by
  have hFree : p.mapOrphans.lookup (waitsFor rt block i) = none := by
    rw [h.lookup hSuccession hi, if_neg hNew]
  have hHeight : ¬(rt.fTestNet = false ∧
      (rt.toBlock (block i)).nHeight < rt.nCheckpointHeight p.chain) := by
    rw [h.chain]
    rintro ⟨hMain, hBehind⟩
    rcases hSuccession.height b.next h.bound i hi hAhead with hTest | hAbove
    · rw [hTest] at hMain
      cases hMain
    · exact absurd hBehind (UInt32.not_lt.mpr hAbove)
  have hWaits : (p.processOrphan rt (block i)).1 = p.insertOrphan (waitsFor rt block i) (block i) := by
    unfold waitsFor at hFree ⊢
    rw [Processing.processOrphan]
    simp only [h.complete, List.not_mem_nil, if_false, hFree, Option.isSome_none,
      Bool.false_eq_true, hHeight]
  rw [hWaits]
  have hInserted (key : Uint1024) := @Processing.lookup_insertOrphan _ _ p _ (block i) hFree key
  refine ⟨?_, h.bound, ?_, ?_, ?_⟩
  · rw [Processing.insertOrphan, if_neg (by simp [hFree])]
    exact h.chain
  · rw [Processing.insertOrphan, if_neg (by simp [hFree])]
    exact h.complete
  · intro j hj
    rcases Finset.mem_insert.mp hj with rfl | hOld
    · exact hi
    · exact h.waiting j hOld
  · intro key orphan
    rw [hInserted]
    by_cases hKey : key = waitsFor rt block i
    · rw [if_pos hKey, Option.some_inj]
      constructor
      · intro hBlock
        exact ⟨i, Finset.mem_insert_self i _, hKey, hBlock.symm⟩
      · rintro ⟨j, hj, hSame, hBlock⟩
        rcases Finset.mem_insert.mp hj with rfl | hOld
        · exact hBlock.symm
        · rw [hBlock, hSuccession.waitsFor_inj hi (h.waiting j hOld) (hKey.symm.trans hSame)]
    · rw [if_neg hKey]
      refine (h.orphans key orphan).trans ⟨?_, ?_⟩
      · rintro ⟨j, hj, hRest⟩
        exact ⟨j, Finset.mem_insert_of_mem hj, hRest⟩
      · rintro ⟨j, hj, hSame, hBlock⟩
        rcases Finset.mem_insert.mp hj with rfl | hOld
        · exact absurd hSame hKey
        · exact ⟨j, hOld, hSame, hBlock⟩

/-- A block that arrives is an item that arrives. -/
theorem Tracks.arrive (hSuccession : Succession rt block chains n) {i : Nat}
    (h : Tracks rt block chains n p b) (hOrdered : b.Ordered) (hi : i < n)
    (hNew : i ∉ b.received) :
    Tracks rt block chains n (p.Process rt (block i)).1 (b.arrive i) := by
  rw [Buffer.mem_received, not_or] at hNew
  have hHas : rt.HasBlock p.chain (rt.toBlock (block i)).hashPrevBlock = decide (i ≤ b.next) := by
    rw [h.chain]
    exact hSuccession.stored b.next h.bound i hi
  rw [Processing.Process, Buffer.arrive]
  simp only [hHas, decide_eq_false_iff_not]
  by_cases hNext : i = b.next
  · have hCheck := hSuccession.checks i hi
    have hAccept := hSuccession.accepts i hi
    rw [hNext, ← h.chain] at hCheck hAccept
    rcases hResult : rt.Check p.chain (block b.next) with ⟨outcome, vMissing⟩
    rw [hResult] at hCheck
    subst hCheck
    rw [if_neg (by omega), if_pos hNext, hNext]
    simp only [hResult, hAccept]
    have hAccepted : Tracks rt block chains n { p with chain := chains (b.next + 1) }
        ⟨b.next + 1, b.waiting⟩ :=
      ⟨rfl, by simp only; omega, h.complete, h.waiting, h.orphans⟩
    refine hAccepted.flush hSuccession ?_ (Nat.le_refl _) _
    intro j hj
    exact hOrdered j hj
  · rw [if_pos (by omega), if_neg hNext]
    exact h.wait hSuccession hi (by omega) hNew.2

theorem Tracks.arrivals (hSuccession : Succession rt block chains n) {order : List Nat}
    (h : Tracks rt block chains n p b) (hOrdered : b.Ordered) (hNodup : order.Nodup)
    (hNew : ∀ i ∈ order, i < n ∧ i ∉ b.received) :
    Tracks rt block chains n (order.foldl (fun p i => (p.Process rt (block i)).1) p)
      (order.foldl Buffer.arrive b) := by
  induction order generalizing p b with
  | nil => exact h
  | cons i order ih =>
      obtain ⟨hFresh, hRest⟩ := List.nodup_cons.mp hNodup
      obtain ⟨hi, hHead⟩ := hNew i List.mem_cons_self
      refine ih (h.arrive hSuccession hOrdered hi hHead) (Buffer.ordered_arrive hOrdered hHead) hRest ?_
      intro j hj
      obtain ⟨hBound, hLater⟩ := hNew j (List.mem_cons_of_mem i hj)
      refine ⟨hBound, ?_⟩
      rw [Buffer.received_arrive, Finset.mem_insert, not_or]
      refine ⟨?_, hLater⟩
      rintro rfl
      exact hFresh hj

/-- In whatever order the blocks of a chain arrive, all of them are accepted, in the order of the
chain, and none is left among the orphans. -/
theorem blocks_arrive (hSuccession : Succession rt block chains n) {order : List Nat}
    (hOrder : order.Perm (List.range n)) :
    order.foldl (fun p i => (Processing.Process rt p (block i)).1) { chain := chains 0 } =
      { chain := chains n } := by
  have hStart : Tracks rt block chains n { chain := chains 0 } ⟨0, ∅⟩ := by
    refine ⟨rfl, Nat.zero_le n, rfl, ?_, ?_⟩
    · intro i hi
      simp at hi
    · intro key orphan
      simp
  have hEmpty : (⟨0, ∅⟩ : Buffer).Ordered := by
    intro i hi
    simp at hi
  have hNew : ∀ i ∈ order, i < n ∧ i ∉ (⟨0, ∅⟩ : Buffer).received := by
    intro i hi
    simpa [Buffer.mem_received] using hOrder.mem_iff.mp hi
  have hEnd := hStart.arrivals hSuccession hEmpty (hOrder.nodup_iff.mpr List.nodup_range) hNew
  rw [Buffer.arrivals_deliver hOrder] at hEnd
  exact hEnd.eq_of_delivered

/-! ## Two blocks on a chain -/

/-- The methods of Tritium blocks on a node, whose checks without the chain all pass. -/
def exampleMethods : BlockMethods (Session (Uint512 → Bool) (Uint512 → Bool)) TritiumBlock where
  toBlock block := block.toBlock
  GetHash block := (block.state exampleLedger.toRuntime).GetHash exampleLedger
  HasBlock session hash := (session.node.db.ReadBlock hash).isSome
  Check _ _ := (.returned true, [])
  Accept := exampleNode.Accept
  nCheckpointHeight session := session.node.chain.nCheckpointHeight
  Synchronizing _ := false
  fTestNet := true

/-- A block on `mainLast`. -/
def mainNext : TritiumBlock :=
  { nVersion := 9, hashPrevBlock := exampleMethods.GetHash mainLast,
    nChannel := CHANNEL.STAKE, nHeight := 3, nBits := 1, nTime := 300,
    vtx := [(TRANSACTION.LEGACY, 13)] }

def mainBlocks : Nat → TritiumBlock
  | 0 => mainLast
  | _ + 1 => mainNext

def mainSessions : Nat → Session (Uint512 → Bool) (Uint512 → Bool)
  | 0 => { forkSession with legacy := fun hash => hash = 12 ∨ hash = 13 }
  | i + 1 => (exampleMethods.Accept (mainSessions i) (mainBlocks i)).1

theorem mainBlocks_succession : Succession exampleMethods mainBlocks mainSessions 2 where
  checks _ _ := rfl
  accepts i hi := by
    have hAll : ∀ i < 2, (exampleMethods.Accept (mainSessions i) (mainBlocks i)).2 =
        .returned true := by decide +kernel
    exact Prod.ext rfl (hAll i hi)
  follows i hi := by
    have hAll : ∀ i < 1, (exampleMethods.toBlock (mainBlocks (i + 1))).hashPrevBlock =
        exampleMethods.GetHash (mainBlocks i) := by decide +kernel
    exact hAll i (by omega)
  stored i hi j hj := by
    have hAll : ∀ i ≤ 2, ∀ j < 2, exampleMethods.HasBlock (mainSessions i)
        (exampleMethods.toBlock (mainBlocks j)).hashPrevBlock = decide (j ≤ i) := by decide +kernel
    exact hAll i hi j hj
  height _ _ _ _ _ := Or.inl rfl

/-- The second block waits for the first one, and both are accepted. -/
theorem blocks_arrive_swapped :
    ([1, 0].foldl (fun p i => (Processing.Process exampleMethods p (mainBlocks i)).1)
        { chain := mainSessions 0 }) = { chain := mainSessions 2 } ∧
      (mainSessions 2).node.chain.nBestHeight = 3 :=
  ⟨blocks_arrive mainBlocks_succession (by decide), by decide +kernel⟩

end Nexus.Safety
