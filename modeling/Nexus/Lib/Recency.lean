import Mathlib.Data.List.Nodup
import Mathlib.Data.List.Lattice

/-!
# Least recently used

What a cache of a bounded number of entries holds when the entry that was used longest ago makes
room: a list of entries, the one that was used last in front.  A history of calls, the last one in
front, says when a key was used last and what was put for it.

## Main results

* `Recent.step` — after every history the entries stand in the order of their last use, hold what
  was put last and are no more than the bound.
* `Recent.overflow` — the entry that makes room was used before all others.
-/

namespace Nexus.Lib.Recency

/-- The calls of a cache. -/
inductive Use (Key Data : Type)
  | put (k : Key) (v : Data)
  | get (k : Key)
  | has (k : Key)
  | remove (k : Key)

section

variable {Key Data : Type} [DecidableEq Key]

/-- The call that was the last put or get of a key, counted from the first call on. -/
def lastUse : List (Use Key Data) → Key → Nat
  | [], _ => 0
  | .put k' _ :: h, k => if k' = k then h.length + 1 else lastUse h k
  | .get k' :: h, k => if k' = k then h.length + 1 else lastUse h k
  | _ :: h, k => lastUse h k

/-- The value that was put last for a key. -/
def lastPut : List (Use Key Data) → Key → Option Data
  | [], _ => none
  | .put k' v :: h, k => if k' = k then some v else lastPut h k
  | _ :: h, k => lastPut h k

/-- The entries of all other keys. -/
def without (l : List (Key × Data)) (k : Key) : List (Key × Data) :=
  l.filter fun e => e.1 ≠ k

/-- What a call does to the entries of a cache with room for `c` of them. -/
def step (c : Nat) (l : List (Key × Data)) : Use Key Data → List (Key × Data)
  | .put k v => ((k, v) :: without l k).take c
  | .get k => l.filter (fun e => e.1 = k) ++ without l k
  | .has _ => l
  | .remove k => without l k

/-- The entries that a history leaves. -/
structure Recent (c : Nat) (h : List (Use Key Data)) (l : List (Key × Data)) : Prop where
  order : l.Pairwise fun e e' => lastUse h e'.1 < lastUse h e.1
  values : ∀ e ∈ l, lastPut h e.1 = some e.2
  bound : l.length ≤ c

variable {c : Nat} {h : List (Use Key Data)} {l l' : List (Key × Data)} {k : Key} {v : Data}

theorem lastUse_le (h : List (Use Key Data)) (k : Key) : lastUse h k ≤ h.length := by
  induction h with
  | nil => exact Nat.le_refl 0
  | cons u h ih =>
      cases u with
      | put k' v =>
          rw [lastUse, List.length_cons]
          split <;> omega
      | get k' =>
          rw [lastUse, List.length_cons]
          split <;> omega
      | has k' => exact Nat.le_succ_of_le ih
      | remove k' => exact Nat.le_succ_of_le ih

namespace Recent

theorem empty : Recent c ([] : List (Use Key Data)) [] :=
  ⟨List.Pairwise.nil, fun _ hMem => absurd hMem List.not_mem_nil, Nat.zero_le c⟩

/-- No key has two entries. -/
theorem keys_nodup (hRecent : Recent c h l) : (l.map Prod.fst).Nodup := by
  rw [List.Nodup, List.pairwise_map]
  apply hRecent.order.imp
  intro e e' hLt hSame
  rw [hSame] at hLt
  exact Nat.lt_irrefl _ hLt

/-- Some entries of a cache, in their order. -/
theorem sublist (hRecent : Recent c h l) (hSub : l'.Sublist l) : Recent c h l' where
  order := hRecent.order.sublist hSub
  values e he := hRecent.values e (hSub.subset he)
  bound := Nat.le_trans hSub.length_le hRecent.bound

theorem without (hRecent : Recent c h l) : Recent c h (without l k) :=
  hRecent.sublist List.filter_sublist

/-- A call changes nothing about the keys that it does not put or get. -/
theorem later (hRecent : Recent c h l) (u : Use Key Data)
    (hUse : ∀ e ∈ l, lastUse (u :: h) e.1 = lastUse h e.1)
    (hPut : ∀ e ∈ l, lastPut (u :: h) e.1 = lastPut h e.1) : Recent c (u :: h) l where
  order := by
    apply hRecent.order.imp_of_mem
    intro e e' he he' hLt
    rwa [hUse e he, hUse e' he']
  values e he := by
    rw [hPut e he]
    exact hRecent.values e he
  bound := hRecent.bound

/-- An entry of its own in front, used by the last call. -/
theorem cons (hRecent : Recent c h l) {e : Key × Data}
    (hUse : ∀ e' ∈ l, lastUse h e'.1 < lastUse h e.1) (hValue : lastPut h e.1 = some e.2)
    (hRoom : l.length < c) : Recent c h (e :: l) where
  order := List.pairwise_cons.mpr ⟨hUse, hRecent.order⟩
  values := by
    intro e' he'
    rcases List.mem_cons.mp he' with hSame | hMem
    · rw [hSame]
      exact hValue
    · exact hRecent.values e' hMem
  bound := hRoom

end Recent

theorem mem_without {e : Key × Data} : e ∈ without l k ↔ e ∈ l ∧ e.1 ≠ k := by
  simp [without]

/-- The entry of a key is found under the key. -/
theorem filter_eq_of_mem (hOnce : (l.map Prod.fst).Nodup) (hMem : (k, v) ∈ l) :
    l.filter (fun e => e.1 = k) = [(k, v)] := by
  induction l with
  | nil => exact absurd hMem List.not_mem_nil
  | cons e l ih =>
      rw [List.map_cons, List.nodup_cons] at hOnce
      rcases List.mem_cons.mp hMem with hSame | hRest
      · subst hSame
        rw [List.filter_cons_of_pos (by simp)]
        congr 1
        apply List.filter_eq_nil_iff.mpr
        intro e' he' hKey
        exact hOnce.1 (List.mem_map.mpr ⟨e', he', of_decide_eq_true hKey⟩)
      · rw [List.filter_cons_of_neg, ih hOnce.2 hRest]
        intro hKey
        apply hOnce.1
        rw [of_decide_eq_true hKey]
        exact List.mem_map_of_mem hRest

theorem filter_eq_nil (hNone : k ∉ l.map Prod.fst) : l.filter (fun e => e.1 = k) = [] := by
  apply List.filter_eq_nil_iff.mpr
  intro e he hKey
  exact hNone (List.mem_map.mpr ⟨e, he, of_decide_eq_true hKey⟩)

theorem without_eq_self (hNone : k ∉ l.map Prod.fst) : without l k = l := by
  apply List.filter_eq_self.mpr
  intro e he
  exact decide_eq_true fun hKey => hNone (List.mem_map.mpr ⟨e, he, hKey⟩)

/-- An entry that leaves makes room for one. -/
theorem length_without (hMem : (k, v) ∈ l) : (without l k).length < l.length := by
  apply List.length_filter_lt_length_iff_exists.mpr
  exact ⟨(k, v), hMem, by simp⟩

/-- Each call leaves the entries in the order of their last use, with what was put last. -/
theorem Recent.step (hRoom : 1 ≤ c) (hRecent : Recent c h l) (u : Use Key Data) :
    Recent c (u :: h) (step c l u) := by
  cases u with
  | put k v =>
      have hOthers : ∀ e ∈ Recency.without l k, k ≠ e.1 := fun e he hSame =>
        (mem_without.mp he).2 hSame.symm
      have hLater : Recent c (.put k v :: h) ((Recency.without l k).take (c - 1)) := by
        apply (hRecent.without.sublist (List.take_sublist _ _)).later
        · intro e he
          exact if_neg (hOthers e (List.mem_of_mem_take he))
        · intro e he
          exact if_neg (hOthers e (List.mem_of_mem_take he))
      obtain ⟨n, rfl⟩ : ∃ n, c = n + 1 := ⟨c - 1, by omega⟩
      rw [Recency.step, List.take_succ_cons]
      apply hLater.cons
      · intro e he
        rw [show lastUse (.put k v :: h) e.1 = lastUse h e.1 from
          if_neg (hOthers e (List.mem_of_mem_take he)), show lastUse (.put k v :: h) k = _ from
          if_pos rfl]
        exact Nat.lt_succ_of_le (lastUse_le h e.1)
      · exact if_pos rfl
      · rw [List.length_take]
        omega
  | get k =>
      have hOthers : ∀ e ∈ Recency.without l k, k ≠ e.1 := fun e he hSame =>
        (mem_without.mp he).2 hSame.symm
      have hLater : Recent c (.get k :: h) (Recency.without l k) := by
        apply hRecent.without.later
        · intro e he
          exact if_neg (hOthers e he)
        · intro e _
          rfl
      rw [Recency.step]
      by_cases hKey : k ∈ l.map Prod.fst
      · obtain ⟨⟨_, v⟩, hMem, rfl⟩ := List.mem_map.mp hKey
        rw [filter_eq_of_mem hRecent.keys_nodup hMem]
        apply hLater.cons
        · intro e he
          rw [show lastUse (.get _ :: h) e.1 = lastUse h e.1 from if_neg (hOthers e he),
            show lastUse (.get _ :: h) _ = _ from if_pos rfl]
          exact Nat.lt_succ_of_le (lastUse_le h e.1)
        · exact hRecent.values _ hMem
        · exact Nat.lt_of_lt_of_le (length_without hMem) hRecent.bound
      · rw [filter_eq_nil hKey]
        exact hLater
  | has k => exact hRecent.later (.has k) (fun _ _ => rfl) fun _ _ => rfl
  | remove k => exact hRecent.without.later (.remove k) (fun _ _ => rfl) fun _ _ => rfl

theorem mem_keys_without {k' : Key} :
    k' ∈ (without l k).map Prod.fst ↔ k' ∈ l.map Prod.fst ∧ k' ≠ k := by
  simp only [List.mem_map, mem_without]
  constructor
  · rintro ⟨e, ⟨hMem, hNe⟩, rfl⟩
    exact ⟨⟨e, hMem, rfl⟩, hNe⟩
  · rintro ⟨⟨e, hMem, rfl⟩, hNe⟩
    exact ⟨e, ⟨hMem, hNe⟩, rfl⟩

/-- A put drops nothing while there is room, or if the key had an entry. -/
theorem mem_step_room {k' : Key} (hBound : l.length ≤ c)
    (hRoom : k ∈ l.map Prod.fst ∨ l.length < c) :
    k' ∈ (step c l (.put k v)).map Prod.fst ↔ k' = k ∨ k' ∈ l.map Prod.fst := by
  have hFits : (without l k).length < c := by
    rcases hRoom with hMem | hLess
    · obtain ⟨⟨_, v'⟩, hEntry, rfl⟩ := List.mem_map.mp hMem
      exact Nat.lt_of_lt_of_le (length_without hEntry) hBound
    · exact Nat.lt_of_le_of_lt (List.length_filter_le _ _) hLess
  rw [step, List.take_of_length_le (by rw [List.length_cons]; omega), List.map_cons, List.mem_cons,
    mem_keys_without]
  by_cases hSame : k' = k
  · simp [hSame]
  · simp [hSame]

/-- A put of a new key into a full cache drops the key that was used before all others. -/
theorem Recent.overflow (hRecent : Recent c h l) (hRoom : 1 ≤ c) (hKey : k ∉ l.map Prod.fst)
    (hFull : l.length = c) : ∃ oldest ∈ l.map Prod.fst,
      (∀ k' ∈ l.map Prod.fst, k' ≠ oldest → lastUse h oldest < lastUse h k') ∧
      ∀ k', k' ∈ (Recency.step c l (.put k v)).map Prod.fst ↔
        k' = k ∨ (k' ∈ l.map Prod.fst ∧ k' ≠ oldest) := by
  have hNe : l ≠ [] := by
    rintro rfl
    rw [List.length_nil] at hFull
    omega
  obtain ⟨a, e, rfl⟩ : ∃ a e, l = a ++ [e] :=
    ⟨l.dropLast, l.getLast hNe, (List.dropLast_append_getLast hNe).symm⟩
  have hOnce := hRecent.keys_nodup
  have hOrder := (List.pairwise_append.mp hRecent.order).2.2
  rw [List.map_append, List.nodup_append] at hOnce
  rw [List.length_append, List.length_singleton] at hFull
  subst hFull
  have hOthers : ∀ k', k' ∈ (a ++ [e]).map Prod.fst ∧ k' ≠ e.1 ↔ k' ∈ a.map Prod.fst := by
    intro k'
    rw [List.map_append, List.mem_append, List.map_singleton, List.mem_singleton]
    constructor
    · exact fun hBoth => hBoth.1.resolve_right hBoth.2
    · exact fun hMem => ⟨.inl hMem, hOnce.2.2 k' hMem e.1 (by simp)⟩
  refine ⟨e.1, List.mem_map_of_mem (by simp), ?_, ?_⟩
  · intro k' hMem hNot
    obtain ⟨e', he', rfl⟩ := List.mem_map.mp ((hOthers k').mp ⟨hMem, hNot⟩)
    exact hOrder e' he' e List.mem_cons_self
  · intro k'
    rw [Recency.step, without_eq_self hKey, List.take_succ_cons, List.take_left, List.map_cons,
      List.mem_cons, hOthers]

end

end Nexus.Lib.Recency
