import Mathlib.Data.List.Forall2

/-!
# Forests of ranked nodes

Every node names its parent, or has none, and a rooted node is one rank above
its parent, down to a root of rank zero.  The lineage of a node is the node and
what it descends from.  Two nodes are compared by an equivalence that tells
parents and ranks; the branch of one node off another is what is in its lineage
and has no equivalent in the lineage of the other.

The rules are those of a walk that goes back on both lineages at once: where
the nodes are equivalent both branches are empty, and a node that is apart from
the other lineage is the tip of its own branch.
-/

namespace Nexus.Lib

universe u

/-- Nodes with their parents and their ranks. -/
structure Forest (α : Type u) where
  parent : α → Option α
  rank : α → Nat

namespace Forest

variable {α : Type u} (F : Forest α)

/-- A node that descends from a root of rank zero, one rank with each step. -/
inductive Rooted : α → Prop
  | root {a : α} (hParent : F.parent a = none) (hRank : F.rank a = 0) : Rooted a
  | child {a b : α} (hParent : F.parent a = some b) (hRank : F.rank a = F.rank b + 1)
      (hRooted : Rooted b) : Rooted a

/-- The ancestors of a node, as many as there are. -/
def ancestors : Nat → α → List α
  | 0, _ => []
  | n + 1, a =>
      match F.parent a with
      | none => []
      | some b => b :: ancestors n b

/-- A node and its ancestors, the node first. -/
def lineage (a : α) : List α := a :: F.ancestors (F.rank a) a

variable {F} {a b p x y : α}

theorem lineage_of_none (hParent : F.parent a = none) : F.lineage a = [a] := by
  unfold lineage
  cases F.rank a with
  | zero => rfl
  | succ n => simp only [ancestors, hParent]

theorem lineage_of_some (hParent : F.parent a = some b) (hRank : F.rank a = F.rank b + 1) :
    F.lineage a = a :: F.lineage b := by
  unfold lineage
  simp only [hRank, ancestors, hParent]

theorem mem_lineage_self : a ∈ F.lineage a := List.mem_cons_self

namespace Rooted

theorem of_mem (h : F.Rooted a) (hMem : x ∈ F.lineage a) : F.Rooted x := by
  induction h with
  | root hParent hRank =>
      rw [lineage_of_none hParent, List.mem_singleton] at hMem
      subst hMem
      exact .root hParent hRank
  | child hParent hRank hRooted ih =>
      rw [lineage_of_some hParent hRank, List.mem_cons] at hMem
      cases hMem with
      | inl hSelf =>
          subst hSelf
          exact .child hParent hRank hRooted
      | inr hMem => exact ih hMem

theorem rank_le (h : F.Rooted a) (hMem : x ∈ F.lineage a) : F.rank x ≤ F.rank a := by
  induction h with
  | root hParent hRank =>
      rw [lineage_of_none hParent, List.mem_singleton] at hMem
      subst hMem
      omega
  | child hParent hRank hRooted ih =>
      rw [lineage_of_some hParent hRank, List.mem_cons] at hMem
      cases hMem with
      | inl hSelf =>
          subst hSelf
          omega
      | inr hMem =>
          have hLe := ih hMem
          omega

/-- Only the node itself has its rank in its lineage. -/
theorem eq_self (h : F.Rooted a) (hMem : x ∈ F.lineage a) (hRank : F.rank a ≤ F.rank x) :
    x = a := by
  cases h with
  | root hParent _ =>
      rw [lineage_of_none hParent, List.mem_singleton] at hMem
      exact hMem
  | child hParent hChild hRooted =>
      rw [lineage_of_some hParent hChild, List.mem_cons] at hMem
      cases hMem with
      | inl hSelf => exact hSelf
      | inr hMem =>
          have hLe := hRooted.rank_le hMem
          omega

/-- A lineage has one node of each rank. -/
theorem eq_of_rank (h : F.Rooted a) (hx : x ∈ F.lineage a) (hy : y ∈ F.lineage a)
    (hRank : F.rank x = F.rank y) : x = y := by
  induction h with
  | root hParent _ =>
      rw [lineage_of_none hParent, List.mem_singleton] at hx hy
      rw [hx, hy]
  | @child a b hParent hChild hRooted ih =>
      have hRooted' : F.Rooted a := .child hParent hChild hRooted
      by_cases hTip : F.rank a ≤ F.rank x
      · rw [hRooted'.eq_self hx hTip, hRooted'.eq_self hy (by omega)]
      · rw [lineage_of_some hParent hChild, List.mem_cons] at hx hy
        cases hx with
        | inl hSelf =>
            subst hSelf
            omega
        | inr hx =>
            cases hy with
            | inl hSelf =>
                subst hSelf
                omega
            | inr hy => exact ih hx hy

end Rooted

/-! ## Branches -/

/-- An equivalence that tells parents and ranks. -/
structure Tells (F : Forest α) (R : α → α → Prop) : Prop where
  refl : ∀ a, R a a
  symm : ∀ {a b}, R a b → R b a
  parent : ∀ {a b}, R a b → F.parent a = F.parent b
  rank : ∀ {a b}, R a b → F.rank a = F.rank b

theorem Rooted.of_rel {R : α → α → Prop} (h : F.Rooted a) (hTells : F.Tells R) (hR : R a b) :
    F.Rooted b := by
  have hParent' := hTells.parent hR
  have hRank' := hTells.rank hR
  cases h with
  | root hParent hRank => exact .root (hParent'.symm.trans hParent) (by omega)
  | child hParent hRank hRooted =>
      exact .child (hParent'.symm.trans hParent) (by omega) hRooted

variable (F) (R : α → α → Prop) [DecidableRel R]

/-- What is in the lineage of a node, and has no equivalent in that of another. -/
def branch (a b : α) : List α := (F.lineage a).filter fun x => ¬ ∃ y ∈ F.lineage b, R x y

/-- Two lineages have equivalent nodes. -/
def Meets (a b : α) : Prop := ∃ x ∈ F.lineage a, ∃ y ∈ F.lineage b, R x y

/-- A node has no equivalent in the lineage of another. -/
def Apart (a b : α) : Prop := ∀ y ∈ F.lineage b, ¬ R a y

variable {F R}

theorem Meets.symm (hTells : F.Tells R) (h : F.Meets R a b) : F.Meets R b a := by
  obtain ⟨x, hx, y, hy, hR⟩ := h
  exact ⟨y, hy, x, hx, hTells.symm hR⟩

/-- A node of a rank that the other does not exceed is apart if it is not equivalent. -/
theorem Rooted.apart (h : F.Rooted b) (hTells : F.Tells R) (hRank : F.rank b ≤ F.rank a)
    (hNot : ¬ R a b) : F.Apart R a b := by
  intro y hy hR
  have hSame := hTells.rank hR
  rw [h.eq_self hy (by omega)] at hR
  exact hNot hR

/-- Where a lineage meets another from which its node is apart, it goes on. -/
theorem Rooted.parent_of_apart (h : F.Rooted a) (hApart : F.Apart R a b) (hMeets : F.Meets R a b) :
    ∃ p, F.parent a = some p ∧ F.rank a = F.rank p + 1 ∧ F.Rooted p ∧ F.Meets R p b := by
  obtain ⟨x, hx, y, hy, hR⟩ := hMeets
  cases h with
  | root hParent _ =>
      rw [lineage_of_none hParent, List.mem_singleton] at hx
      subst hx
      exact absurd hR (hApart y hy)
  | @child _ p hParent hRank hRooted =>
      rw [lineage_of_some hParent hRank, List.mem_cons] at hx
      cases hx with
      | inl hSelf =>
          subst hSelf
          exact absurd hR (hApart y hy)
      | inr hx => exact ⟨p, hParent, hRank, hRooted, x, hx, y, hy, hR⟩

theorem branch_of_rel (h : F.Rooted a) (hTells : F.Tells R) (hR : R a b) : F.branch R a b = [] := by
  have hSome : ∀ x ∈ F.lineage a, ∃ y ∈ F.lineage b, R x y := by
    intro x hx
    cases h with
    | root hParent _ =>
        rw [lineage_of_none hParent, List.mem_singleton] at hx
        subst hx
        exact ⟨b, mem_lineage_self, hR⟩
    | child hParent hRank _ =>
        have hParent' := (hTells.parent hR).symm.trans hParent
        have hRank' := (hTells.rank hR).symm.trans hRank
        rw [lineage_of_some hParent hRank, List.mem_cons] at hx
        cases hx with
        | inl hSelf =>
            subst hSelf
            exact ⟨b, mem_lineage_self, hR⟩
        | inr hx =>
            refine ⟨x, ?_, hTells.refl x⟩
            rw [lineage_of_some hParent' hRank']
            exact List.mem_cons_of_mem _ hx
  unfold branch
  rw [List.filter_eq_nil_iff]
  intro x hx
  simpa using hSome x hx

/-- A node apart is the tip of its branch. -/
theorem branch_of_apart (hParent : F.parent a = some p) (hRank : F.rank a = F.rank p + 1)
    (hApart : F.Apart R a b) : F.branch R a b = a :: F.branch R p b := by
  unfold branch
  rw [lineage_of_some hParent hRank]
  apply List.filter_cons_of_pos
  simpa [Apart] using hApart

/-- A node apart takes nothing from the branch of the other. -/
theorem branch_apart (hTells : F.Tells R) (hParent : F.parent a = some p)
    (hRank : F.rank a = F.rank p + 1) (hApart : F.Apart R a b) :
    F.branch R b a = F.branch R b p := by
  unfold branch
  apply List.filter_congr
  intro x hx
  have hNot : ¬ R x a := fun hR => hApart x hx (hTells.symm hR)
  simp only [lineage_of_some hParent hRank, List.mem_cons, exists_eq_or_imp, hNot, false_or]

/-- Two lineages that meet are their branches, and behind them equivalent nodes. -/
theorem lineage_branch (ha : F.Rooted a) (hb : F.Rooted b) (hTells : F.Tells R)
    (hMeets : F.Meets R a b) :
    ∃ as bs, F.lineage a = F.branch R a b ++ as ∧ F.lineage b = F.branch R b a ++ bs ∧
      List.Forall₂ R as bs := by
  generalize hSum : F.rank a + F.rank b = n
  induction n using Nat.strongRecOn generalizing a b with
  | ind n ih =>
      by_cases hR : R a b
      · refine ⟨F.lineage a, F.lineage b, ?_, ?_, ?_⟩
        · rw [branch_of_rel ha hTells hR, List.nil_append]
        · rw [branch_of_rel hb hTells (hTells.symm hR), List.nil_append]
        · cases ha with
          | root hParent _ =>
              rw [lineage_of_none hParent, lineage_of_none ((hTells.parent hR).symm.trans hParent)]
              exact .cons hR .nil
          | child hParent hRank _ =>
              rw [lineage_of_some hParent hRank, lineage_of_some ((hTells.parent hR).symm.trans hParent)
                ((hTells.rank hR).symm.trans hRank)]
              exact .cons hR (List.forall₂_same.mpr fun x _ => hTells.refl x)
      · by_cases hRank : F.rank b ≤ F.rank a
        · have hApart := hb.apart hTells hRank hR
          obtain ⟨p, hParent, hAbove, hRooted, hMeets'⟩ := ha.parent_of_apart hApart hMeets
          obtain ⟨as, bs, hLeft, hRight, hSame⟩ := ih _ (by omega) hRooted hb hMeets' rfl
          refine ⟨as, bs, ?_, ?_, hSame⟩
          · rw [lineage_of_some hParent hAbove, branch_of_apart hParent hAbove hApart, hLeft,
              List.cons_append]
          · rw [branch_apart hTells hParent hAbove hApart, hRight]
        · have hApart := ha.apart hTells (by omega) (fun hBoth => hR (hTells.symm hBoth))
          obtain ⟨p, hParent, hAbove, hRooted, hMeets'⟩ :=
            hb.parent_of_apart hApart (hMeets.symm hTells)
          obtain ⟨as, bs, hLeft, hRight, hSame⟩ :=
            ih _ (by omega) ha hRooted (hMeets'.symm hTells) rfl
          refine ⟨as, bs, ?_, ?_, hSame⟩
          · rw [branch_apart hTells hParent hAbove hApart, hLeft]
          · rw [lineage_of_some hParent hAbove, branch_of_apart hParent hAbove hApart, hRight,
              List.cons_append]

/-- Under two equivalences of which one is finer, the branches are the same where the coarser one
relates nothing more. -/
theorem branch_eq_iff {K : α → α → Prop} [DecidableRel K] (h : F.Rooted b) (hTells : F.Tells R)
    (hFiner : ∀ x ∈ F.lineage a, ∀ y ∈ F.lineage b, K x y → R x y) :
    F.branch R a b = F.branch K a b ↔
      ∀ x ∈ F.lineage a, ∀ y ∈ F.lineage b, R x y → K x y := by
  constructor
  · intro hEq x hx y hy hR
    have hOut : x ∉ F.branch K a b := by
      rw [← hEq]
      simp only [branch, List.mem_filter, hx, true_and, decide_not, Bool.not_eq_true',
        decide_eq_false_iff_not, not_not]
      exact ⟨y, hy, hR⟩
    have hSome : ∃ y' ∈ F.lineage b, K x y' := by
      simpa only [branch, List.mem_filter, hx, true_and, decide_not, Bool.not_eq_true',
        decide_eq_false_iff_not, not_not] using hOut
    obtain ⟨y', hy', hK⟩ := hSome
    have hRank := hTells.rank (hFiner x hx y' hy' hK)
    have hRank' := hTells.rank hR
    rwa [h.eq_of_rank hy hy' (by omega)]
  · intro hCoarser
    apply List.filter_congr
    intro x hx
    have hIff : (∃ y ∈ F.lineage b, R x y) ↔ ∃ y ∈ F.lineage b, K x y := by
      constructor
      · intro hR
        obtain ⟨y, hy, hR⟩ := hR
        exact ⟨y, hy, hCoarser x hx y hy hR⟩
      · intro hK
        obtain ⟨y, hy, hK⟩ := hK
        exact ⟨y, hy, hFiner x hx y hy hK⟩
    simp only [hIff]

end Forest

end Nexus.Lib
