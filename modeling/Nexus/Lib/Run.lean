import Mathlib.Algebra.BigOperators.Group.List.Basic
import Mathlib.Algebra.Ring.Nat

/-!
# Runs of a transition system

A run takes one step for each label of a list.  The rules are the induction
principles that safety proofs use: an invariant that every step keeps, a
property that every step has, and an invariant that counts what the steps add.
-/

namespace Nexus.Lib

universe u v

variable {σ : Type u} {α : Type v}

/-- A run from one state to another, with the labels of its steps. -/
inductive Run (step : σ → α → σ → Prop) : σ → List α → σ → Prop
  | nil (s : σ) : Run step s [] s
  | cons {s t u : σ} {a : α} {as : List α} (hStep : step s a t) (hRun : Run step t as u) :
      Run step s (a :: as) u

namespace Run

variable {step step' : σ → α → σ → Prop} {s t u : σ} {as bs : List α}

theorem single {a : α} (h : step s a t) : Run step s [a] t := .cons h (.nil t)

theorem append (h : Run step s as t) (h' : Run step t bs u) : Run step s (as ++ bs) u := by
  induction h with
  | nil => exact h'
  | cons hStep _ ih => exact .cons hStep (ih h')

/-- What every step keeps holds at the end of a run. -/
theorem invariant {I : σ → Prop} (hKeep : ∀ s a t, I s → step s a t → I t)
    (h : Run step s as t) (h0 : I s) : I t := by
  induction h with
  | nil => exact h0
  | cons hStep _ ih => exact ih (hKeep _ _ _ h0 hStep)

/-- A run with an invariant is a run whose steps start from states where it holds. -/
theorem strengthen {I : σ → Prop} (hKeep : ∀ s a t, I s → step s a t → I t)
    (hStep' : ∀ s a t, I s → step s a t → step' s a t) (h : Run step s as t) (h0 : I s) :
    Run step' s as t := by
  induction h with
  | nil => exact .nil _
  | cons hStep _ ih => exact .cons (hStep' _ _ _ h0 hStep) (ih (hKeep _ _ _ h0 hStep))

/-- A property of every step is a property of the steps of every run. -/
theorem mono (hStep' : ∀ s a t, step s a t → step' s a t) (h : Run step s as t) :
    Run step' s as t :=
  h.strengthen (I := fun _ => True) (fun _ _ _ _ _ => trivial)
    (fun s a t _ hStep => hStep' s a t hStep) trivial

/-- A property that every step gives its label. -/
theorem labels {P : α → Prop} (hStep' : ∀ s a t, step s a t → P a) (h : Run step s as t) :
    ∀ a ∈ as, P a := by
  induction h with
  | nil => exact fun a hMem => by cases hMem
  | cons hStep _ ih => exact List.forall_mem_cons.mpr ⟨hStep' _ _ _ hStep, ih⟩

/-- An invariant of the state and of the total weight of the steps so far. -/
theorem total {I : σ → Nat → Prop} {weight : α → Nat} {n : Nat}
    (hKeep : ∀ s n a t, I s n → step s a t → I t (n + weight a)) (h : Run step s as t)
    (h0 : I s n) : I t (n + (as.map weight).sum) := by
  induction h generalizing n with
  | nil => simpa using h0
  | cons hStep _ ih =>
      rw [List.map_cons, List.sum_cons, ← Nat.add_assoc]
      exact ih (hKeep _ _ _ _ h0 hStep)

end Run

end Nexus.Lib
