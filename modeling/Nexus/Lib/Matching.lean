import Mathlib.Data.List.NodupEquivFin
import Mathlib.Data.Fintype.Card

/-!
# Greedy matching in order

To match the entries of one list with entries of another in order, it is enough to
take the first partner that fits: whatever matching there is can be moved to it.
-/

namespace Nexus.Lib.Matching

variable {α β : Type*} (check : α → β → Bool)

/-- Match the entries of `as` one after the other, each with the first of `bs` that fits. -/
def greedy : List α → List β → Bool
  | [], _ => true
  | _ :: _, [] => false
  | a :: as, b :: bs => if check a b then greedy as bs else greedy (a :: as) bs

/-- An assignment of every entry of `as` to an entry of `bs` that fits, strictly in order. -/
def Assigns (as : List α) (bs : List β) : Prop :=
  ∃ f : Fin as.length → Fin bs.length, StrictMono f ∧ ∀ i, check (as.get i) (bs.get (f i)) = true

variable {check}

/-- An assignment picks a sublist that fits entry by entry. -/
theorem assigns_iff {as : List α} {bs : List β} :
    Assigns check as bs ↔ ∃ cs, cs.Sublist bs ∧ List.Forall₂ (fun a b => check a b = true) as cs := by
  constructor
  · rintro ⟨f, hMono, hFits⟩
    refine ⟨List.ofFn fun i => bs.get (f i), ?_, ?_⟩
    · rw [List.sublist_iff_exists_fin_orderEmbedding_get_eq]
      have hLength : (List.ofFn fun i => bs.get (f i)).length = as.length := List.length_ofFn
      refine ⟨OrderEmbedding.ofStrictMono (fun i => f (i.cast hLength)) fun i j hij => hMono hij, ?_⟩
      intro i
      simp only [List.get_eq_getElem, List.getElem_ofFn]
      rfl
    · rw [List.forall₂_iff_get]
      refine ⟨by simp, ?_⟩
      intro i h₁ h₂
      simpa using hFits ⟨i, h₁⟩
  · rintro ⟨cs, hSub, hFits⟩
    obtain ⟨f, hf⟩ := List.sublist_iff_exists_fin_orderEmbedding_get_eq.mp hSub
    rw [List.forall₂_iff_get] at hFits
    refine ⟨fun i => f (i.cast hFits.1), fun i j hij => f.strictMono hij, ?_⟩
    intro i
    rw [← hf]
    exact hFits.2 i i.isLt (hFits.1 ▸ i.isLt)

/-- The greedy choice is complete: a matching of `a` further on can be moved to the first that
fits. -/
theorem greedy_iff {as : List α} {bs : List β} : greedy check as bs = true ↔ Assigns check as bs := by
  rw [assigns_iff]
  induction bs generalizing as with
  | nil =>
      cases as with
      | nil => exact ⟨fun _ => ⟨[], List.Sublist.refl _, .nil⟩, fun _ => rfl⟩
      | cons a as =>
          constructor
          · intro h
            exact absurd h (by simp [greedy])
          · rintro ⟨cs, hSub, hFits⟩
            rw [List.sublist_nil.mp hSub] at hFits
            cases hFits
  | cons b bs ih =>
      cases as with
      | nil => exact ⟨fun _ => ⟨[], List.nil_sublist _, .nil⟩, fun _ => by simp [greedy]⟩
      | cons a as =>
          rw [greedy]
          by_cases hFit : check a b = true
          · rw [if_pos hFit, ih]
            constructor
            · rintro ⟨cs, hSub, hFits⟩
              exact ⟨b :: cs, hSub.cons_cons b, .cons hFit hFits⟩
            · rintro ⟨cs, hSub, hFits⟩
              cases hFits with
              | @cons _ c _ cs' _ hRest => exact ⟨cs', hSub.tail, hRest⟩
          · rw [if_neg hFit, ih]
            constructor
            · rintro ⟨cs, hSub, hFits⟩
              exact ⟨cs, hSub.cons b, hFits⟩
            · rintro ⟨cs, hSub, hFits⟩
              cases hSub with
              | cons _ hSub => exact ⟨cs, hSub, hFits⟩
              | cons_cons _ hSub =>
                  cases hFits with
                  | cons hb _ => exact absurd hb hFit

/-- Too few partners are left. -/
theorem greedy_short {as : List α} {bs : List β} (h : bs.length < as.length) :
    greedy check as bs = false := by
  rw [← Bool.not_eq_true, greedy_iff]
  rintro ⟨f, hMono, -⟩
  have hCard := Fintype.card_le_of_injective f hMono.injective
  simp only [Fintype.card_fin] at hCard
  omega

end Nexus.Lib.Matching
