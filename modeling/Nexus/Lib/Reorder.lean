import Mathlib.Data.Finset.Card
import Mathlib.Data.List.Nodup
import Mathlib.Data.List.Perm.Basic
import Mathlib.Tactic.Common

/-!
# Arrivals out of order

Numbered items arrive in any order, and are delivered in theirs.  An item that arrives
before the items in front of it waits, and is delivered with the last of them.
-/

namespace Nexus.Lib.Reorder

/-- The items below `next` are delivered. -/
structure Buffer where
  next : Nat
  waiting : Finset Nat

namespace Buffer

variable (b : Buffer)

/-- Waiting items are delivered as long as the next one is among them. -/
def flush (b : Buffer) : Buffer :=
  if b.next ∈ b.waiting then flush ⟨b.next + 1, b.waiting.erase b.next⟩ else b
termination_by b.waiting.card
decreasing_by exact Finset.card_erase_lt_of_mem ‹_›

def arrive (i : Nat) : Buffer :=
  if i = b.next then flush ⟨b.next + 1, b.waiting⟩ else ⟨b.next, insert i b.waiting⟩

/-- The items that have arrived. -/
def received : Finset Nat := Finset.range b.next ∪ b.waiting

/-- An item waits only for items that have not arrived. -/
def Ordered : Prop := ∀ i ∈ b.waiting, b.next < i

variable {b}

theorem mem_received {i : Nat} : i ∈ b.received ↔ i < b.next ∨ i ∈ b.waiting := by
  simp only [received, Finset.mem_union, Finset.mem_range]

theorem flush_of_mem (h : b.next ∈ b.waiting) :
    b.flush = flush ⟨b.next + 1, b.waiting.erase b.next⟩ := by
  rw [flush, if_pos h]

theorem flush_of_not_mem (h : b.next ∉ b.waiting) : b.flush = b := by
  rw [flush, if_neg h]

/-- What is flushed is delivered from `next` on. -/
theorem flush_spec (b : Buffer) :
    b.next ≤ b.flush.next ∧ b.flush.next ∉ b.flush.waiting ∧
      (∀ i, b.next ≤ i → i < b.flush.next → i ∈ b.waiting) ∧
      ∀ i, i ∈ b.flush.waiting ↔ i ∈ b.waiting ∧ ¬ (b.next ≤ i ∧ i < b.flush.next) := by
  induction b using flush.induct with
  | case1 b hMem ih =>
      obtain ⟨hLe, hNot, hIn, hIff⟩ := ih
      rw [flush_of_mem hMem]
      refine ⟨Nat.le_of_succ_le hLe, hNot, ?_, ?_⟩
      · intro i hFrom hTo
        by_cases hNext : i = b.next
        · rw [hNext]
          exact hMem
        · exact Finset.mem_of_mem_erase (hIn i (by simp only; omega) hTo)
      · intro i
        simp only [hIff, Finset.mem_erase] at hLe ⊢
        constructor
        · rintro ⟨⟨hNe, hMem'⟩, hOut⟩
          exact ⟨hMem', by omega⟩
        · rintro ⟨hMem', hOut⟩
          have hNe : i ≠ b.next := by
            intro hEq
            exact hOut ⟨by omega, by omega⟩
          exact ⟨⟨hNe, hMem'⟩, by omega⟩
  | case2 b hNot =>
      rw [flush_of_not_mem hNot]
      refine ⟨Nat.le_refl _, hNot, ?_, ?_⟩
      · intro i hFrom hTo
        omega
      · intro i
        constructor
        · intro hMem
          exact ⟨hMem, by omega⟩
        · exact And.left

theorem received_flush : b.flush.received = b.received := by
  obtain ⟨hLe, -, hIn, hIff⟩ := flush_spec b
  ext i
  rw [mem_received, mem_received, hIff]
  constructor
  · rintro (hLt | ⟨hMem, -⟩)
    · by_cases hOld : i < b.next
      · exact Or.inl hOld
      · exact Or.inr (hIn i (by omega) hLt)
    · exact Or.inr hMem
  · rintro (hLt | hMem)
    · exact Or.inl (by omega)
    · by_cases hFlushed : i < b.flush.next
      · exact Or.inl hFlushed
      · exact Or.inr ⟨hMem, by omega⟩

/-- Flushing keeps the order of a buffer whose next item may have arrived. -/
theorem ordered_flush (h : ∀ i ∈ b.waiting, b.next ≤ i) : b.flush.Ordered := by
  obtain ⟨-, hNot, -, hIff⟩ := flush_spec b
  intro i hMem
  have hWaiting := (hIff i).mp hMem
  have hFrom := h i hWaiting.1
  have hNe : i ≠ b.flush.next := by
    intro hEq
    exact hNot (hEq ▸ hMem)
  omega

theorem received_arrive (i : Nat) : (b.arrive i).received = insert i b.received := by
  unfold arrive
  by_cases hNext : i = b.next
  · rw [if_pos hNext, received_flush]
    ext j
    simp only [mem_received, Finset.mem_insert, Nat.lt_succ_iff_lt_or_eq, hNext]
    tauto
  · rw [if_neg hNext]
    ext j
    simp only [mem_received, Finset.mem_insert]
    tauto

theorem ordered_arrive {i : Nat} (hOrdered : b.Ordered) (hNew : i ∉ b.received) :
    (b.arrive i).Ordered := by
  rw [mem_received, not_or] at hNew
  unfold arrive
  by_cases hNext : i = b.next
  · rw [if_pos hNext]
    refine ordered_flush ?_
    intro j hMem
    exact hOrdered j hMem
  · rw [if_neg hNext]
    intro j hMem
    rcases Finset.mem_insert.mp hMem with rfl | hOld
    · change b.next < j
      omega
    · exact hOrdered j hOld

theorem received_arrivals (arrivals : List Nat) (b : Buffer) :
    (arrivals.foldl arrive b).received = b.received ∪ arrivals.toFinset := by
  induction arrivals generalizing b with
  | nil => simp
  | cons i arrivals ih =>
      rw [List.foldl_cons, ih, received_arrive]
      ext j
      simp only [Finset.mem_union, Finset.mem_insert, List.toFinset_cons]
      tauto

theorem ordered_arrivals {arrivals : List Nat} (hOrdered : b.Ordered) (hNodup : arrivals.Nodup)
    (hNew : ∀ i ∈ arrivals, i ∉ b.received) : (arrivals.foldl arrive b).Ordered := by
  induction arrivals generalizing b with
  | nil => exact hOrdered
  | cons i arrivals ih =>
      obtain ⟨hFresh, hRest⟩ := List.nodup_cons.mp hNodup
      refine ih (ordered_arrive hOrdered (hNew i List.mem_cons_self)) hRest ?_
      intro j hMem
      rw [received_arrive, Finset.mem_insert, not_or]
      refine ⟨?_, hNew j (List.mem_cons_of_mem i hMem)⟩
      rintro rfl
      exact hFresh hMem

/-- An ordered buffer that has received the first `n` items has delivered them. -/
theorem eq_of_received {n : Nat} (hOrdered : b.Ordered) (hAll : b.received = Finset.range n) :
    b = ⟨n, ∅⟩ := by
  have hMem : ∀ i, i < b.next ∨ i ∈ b.waiting ↔ i < n := by
    intro i
    rw [← mem_received, hAll, Finset.mem_range]
  have hNot : ¬ (b.next < n) := by
    intro hLt
    rcases (hMem b.next).mpr hLt with hSelf | hWaiting
    · omega
    · exact Nat.lt_irrefl _ (hOrdered b.next hWaiting)
  have hLe : b.next ≤ n := by
    by_contra hGt
    have hIn := (hMem n).mp (Or.inl (by omega))
    omega
  have hNext : b.next = n := by omega
  have hEmpty : b.waiting = ∅ := by
    rw [Finset.eq_empty_iff_forall_notMem]
    intro i hWaiting
    have hIn := (hMem i).mp (Or.inr hWaiting)
    have hLt := hOrdered i hWaiting
    omega
  cases b
  simp_all

/-- **In whatever order the first `n` items arrive, all of them are delivered.** -/
theorem arrivals_deliver {n : Nat} {arrivals : List Nat} (h : arrivals.Perm (List.range n)) :
    arrivals.foldl arrive ⟨0, ∅⟩ = ⟨n, ∅⟩ := by
  have hNodup : arrivals.Nodup := h.nodup_iff.mpr List.nodup_range
  have hOrdered : (arrivals.foldl arrive ⟨0, ∅⟩).Ordered := by
    refine ordered_arrivals ?_ hNodup ?_
    · intro i hMem
      simp at hMem
    · intro i hMem
      simp [mem_received]
  refine eq_of_received hOrdered ?_
  rw [received_arrivals]
  ext i
  simp [mem_received, h.mem_iff]

end Buffer

end Nexus.Lib.Reorder
