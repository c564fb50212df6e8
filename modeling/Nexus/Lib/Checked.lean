import Mathlib.Logic.Basic

/-!
# Checked computations

Straight-line code that can stop early is an `Except` computation.  This file
gives the inversion rules such code is reasoned with: an accepting run of a
sequence is an accepting run of each part, a guard that was passed is a fact,
and a lookup that succeeded names the value it found.  Every rule is an
equivalence, so one `simp only` call turns the acceptance of a long body into
the conjunction of what it checked and read.
-/

namespace Nexus.Lib.Checked

universe u v

variable {ε : Type u} {α β : Type v}

/-- Stop with `e` when `c` holds: the early `return` of a guard. -/
def reject (c : Prop) [Decidable c] (e : ε) : Except ε Unit :=
  if c then .error e else .ok ()

/-- The value of a lookup, or stop with `e`. -/
def demand (o : Option α) (e : ε) : Except ε α :=
  match o with
  | some a => .ok a
  | none => .error e

/-! ## Inversion rules -/

theorem bind_eq_ok {x : Except ε α} {f : α → Except ε β} {b : β} :
    x >>= f = .ok b ↔ ∃ a, x = .ok a ∧ f a = .ok b := by
  cases x with
  | error e => simp [bind, Except.bind]
  | ok a => simp [bind, Except.bind]

theorem pure_eq_ok {a b : α} : (pure a : Except ε α) = .ok b ↔ a = b := by
  simp [pure, Except.pure]

theorem map_eq_ok {x : Except ε α} {f : α → β} {b : β} :
    x.map f = .ok b ↔ ∃ a, x = .ok a ∧ f a = b := by
  cases x with
  | error e => simp [Except.map]
  | ok a => simp [Except.map]

@[simp] theorem map_ok (a : α) (f : α → β) :
    (Except.ok a : Except ε α).map f = .ok (f a) := rfl

theorem map_bind {γ : Type v} {x : Except ε α} {f : α → Except ε β} {g : β → γ} :
    (x >>= f).map g = x >>= fun a => (f a).map g := by
  cases x <;> rfl

theorem bind_map {γ : Type v} {x : Except ε α} {g : α → β} {f : β → Except ε γ} :
    x.map g >>= f = x >>= fun a => f (g a) := by
  cases x <;> rfl

theorem throw_ne_ok {e : ε} {b : α} : (throw e : Except ε α) ≠ .ok b := by
  simp [throw, throwThe, MonadExceptOf.throw]

@[simp] theorem ok_bind (a : α) (f : α → Except ε β) :
    (Except.ok a >>= f) = f a := rfl

@[simp] theorem error_bind (e : ε) (f : α → Except ε β) :
    ((Except.error e : Except ε α) >>= f) = .error e := rfl

theorem reject_eq_ok {c : Prop} [Decidable c] {e : ε} {u : Unit} :
    reject c e = .ok u ↔ ¬ c := by
  unfold reject
  split <;> simp [*]

theorem demand_eq_ok {o : Option α} {e : ε} {a : α} :
    demand o e = .ok a ↔ o = some a := by
  cases o <;> simp [demand]

/-- A branch taken inside a checked computation. -/
theorem ite_eq_ok {c : Prop} [Decidable c] {x y : Except ε α} {a : α} :
    (if c then x else y) = .ok a ↔ (c ∧ x = .ok a) ∨ (¬ c ∧ y = .ok a) := by
  split <;> simp [*]

/-! ## Loops -/

theorem foldlM_nil_eq_ok {f : β → α → Except ε β} {b b' : β} :
    List.foldlM f b [] = .ok b' ↔ b = b' := by
  rw [List.foldlM_nil]
  exact pure_eq_ok

theorem foldlM_cons_eq_ok {f : β → α → Except ε β} {b b' : β} {a : α} {as : List α} :
    List.foldlM f b (a :: as) = .ok b' ↔ ∃ c, f b a = .ok c ∧ List.foldlM f c as = .ok b' := by
  rw [List.foldlM_cons]
  exact bind_eq_ok

/-- A relation to the state at the start that every turn of a loop keeps. -/
theorem foldlM_keeps {f : β → α → Except ε β} (P : β → β → Prop) (hRefl : ∀ b, P b b)
    (hTrans : ∀ {b c d}, P b c → P c d → P b d) {as : List α} {b b' : β}
    (hTurn : ∀ a ∈ as, ∀ b c, f b a = .ok c → P b c) (h : as.foldlM f b = .ok b') : P b b' := by
  induction as generalizing b with
  | nil =>
      rw [foldlM_nil_eq_ok] at h
      rw [h]
      exact hRefl b'
  | cons a as ih =>
      obtain ⟨c, hFirst, hRest⟩ := foldlM_cons_eq_ok.mp h
      exact hTrans (hTurn a List.mem_cons_self b c hFirst)
        (ih (fun a hMem => hTurn a (List.mem_cons_of_mem _ hMem)) hRest)

/-! ## Evaluation rules -/

theorem reject_of_not {c : Prop} [Decidable c] {e : ε} (h : ¬ c) :
    reject c e = .ok () := reject_eq_ok.mpr h

/-- The value of a computation that accepts. -/
theorem eq_ok_of_isOk {x : Except ε α} {a : α} (h : x.isOk = true) : x = .ok (x.toOption.getD a) := by
  cases x with
  | error e => cases h
  | ok b => rfl

theorem toOption_eq_some {x : Except ε α} {a : α} : x.toOption = some a ↔ x = .ok a := by
  cases x with
  | error e => exact ⟨nofun, nofun⟩
  | ok b => exact ⟨fun h => congrArg _ (Option.some.inj h), fun h => congrArg _ (Except.ok.inj h)⟩

theorem exists_error_of_isOk {x : Except ε α} (h : x.isOk = false) : ∃ e, x = .error e := by
  cases x with
  | error e => exact ⟨e, rfl⟩
  | ok a => cases h

theorem demand_some (a : α) (e : ε) : demand (some a) e = .ok a := rfl

end Nexus.Lib.Checked
