import Mathlib.Data.List.Nodup
import Mathlib.Logic.Function.Iterate

/-!
# Lists hashed in pairs

The level above a list joins its elements two by two, and an odd last element with
itself.  For a join without collisions the step is injective on lists without
repetitions and keeps them without repetitions, so that lists of elements that are
no joins are known from any level above them.
-/

namespace Nexus.Lib.Levels

section

variable {H : Type} (join : H → H → H)

/-- The level above a list. -/
def above : List H → List H
  | [] => []
  | [x] => [join x x]
  | x :: y :: xs => join x y :: above xs

theorem length_above (xs : List H) : (above join xs).length = (xs.length + 1) / 2 := by
  induction xs using above.induct with
  | case1 => simp [above]
  | case2 x => simp [above]
  | case3 x y xs ih =>
      simp only [above, List.length_cons, ih]
      omega

/-- An element above is the join of two, the second of which is the first where none is left. -/
theorem above_get {xs : List H} {k : Nat} (h : 2 * k < xs.length) :
    ∃ a b, xs[2 * k]? = some a ∧ xs[min (2 * k + 1) (xs.length - 1)]? = some b ∧
      (above join xs)[k]? = some (join a b) := by
  induction xs using above.induct generalizing k with
  | case1 => cases h
  | case2 x =>
      have hk : k = 0 := by simp at h; omega
      subst hk
      exact ⟨x, x, by simp, by simp, by simp [above]⟩
  | case3 x y xs ih =>
      cases k with
      | zero => exact ⟨x, y, by simp, by simp, by simp [above]⟩
      | succ k =>
          simp only [List.length_cons] at h
          obtain ⟨a, b, hA, hB, hAbove⟩ := ih (k := k) (by omega)
          have hFirst : 2 * (k + 1) = 2 * k + 2 := by omega
          have hSecond : min (2 * (k + 1) + 1) ((x :: y :: xs).length - 1) =
              min (2 * k + 1) (xs.length - 1) + 2 := by
            simp only [List.length_cons]
            omega
          refine ⟨a, b, ?_, ?_, ?_⟩
          · rw [hFirst]
            simpa using hA
          · rw [hSecond]
            simpa using hB
          · simpa [above] using hAbove

theorem mem_above {xs : List H} {z : H} (h : z ∈ above join xs) :
    ∃ a ∈ xs, ∃ b ∈ xs, z = join a b := by
  induction xs using above.induct with
  | case1 => cases h
  | case2 x => exact ⟨x, by simp, x, by simp, by simpa [above] using h⟩
  | case3 x y xs ih =>
      rw [above] at h
      rcases List.mem_cons.mp h with rfl | h
      · exact ⟨x, by simp, y, by simp, rfl⟩
      · obtain ⟨a, hA, b, hB, hz⟩ := ih h
        exact ⟨a, by simp [hA], b, by simp [hB], hz⟩

end

section Injective

variable {H : Type} {join : H → H → H}
variable (hJoin : ∀ a b a' b', join a b = join a' b' → a = a' ∧ b = b')

include hJoin

theorem nodup_above {xs : List H} (h : xs.Nodup) : (above join xs).Nodup := by
  induction xs using above.induct with
  | case1 => exact List.nodup_nil
  | case2 x => exact List.nodup_singleton _
  | case3 x y xs ih =>
      obtain ⟨hx, hRest⟩ := List.nodup_cons.mp h
      obtain ⟨hy, hxs⟩ := List.nodup_cons.mp hRest
      refine List.nodup_cons.mpr ⟨?_, ih hxs⟩
      intro hMem
      obtain ⟨a, hA, b, hB, hEq⟩ := mem_above join hMem
      have hHead : x = a := (hJoin _ _ _ _ hEq).1
      exact hx (List.mem_cons_of_mem y (hHead ▸ hA))

theorem above_inj {xs ys : List H} (hxs : xs.Nodup) (hys : ys.Nodup)
    (h : above join xs = above join ys) : xs = ys := by
  induction xs using above.induct generalizing ys with
  | case1 =>
      cases ys using above.induct with
      | case1 => rfl
      | case2 y => simp [above] at h
      | case3 y y' ys => simp [above] at h
  | case2 x =>
      cases ys using above.induct with
      | case1 => simp [above] at h
      | case2 y =>
          have hEq : join x x = join y y := by simpa [above] using h
          rw [(hJoin _ _ _ _ hEq).1]
      | case3 y y' ys =>
          -- the element joined with itself would stand twice in the other list
          have hEq : join x x = join y y' := (List.cons.inj h).1
          obtain ⟨hFirst, hSecond⟩ := hJoin _ _ _ _ hEq
          exact absurd (hFirst.symm.trans hSecond) (by simp at hys; tauto)
  | case3 x x' xs ih =>
      cases ys using above.induct with
      | case1 => simp [above] at h
      | case2 y =>
          have hEq : join x x' = join y y := (List.cons.inj h).1
          obtain ⟨hFirst, hSecond⟩ := hJoin _ _ _ _ hEq
          exact absurd (hFirst.trans hSecond.symm) (by simp at hxs; tauto)
      | case3 y y' ys =>
          obtain ⟨hHead, hTail⟩ := List.cons.inj h
          obtain ⟨hFirst, hSecond⟩ := hJoin _ _ _ _ hHead
          have hRest := ih (List.nodup_cons.mp (List.nodup_cons.mp hxs).2).2
            (List.nodup_cons.mp (List.nodup_cons.mp hys).2).2 hTail
          rw [hFirst, hSecond, hRest]

theorem nodup_levels {xs : List H} (h : xs.Nodup) (d : Nat) : ((above join)^[d] xs).Nodup := by
  induction d with
  | zero => exact h
  | succ d ih =>
      rw [Function.iterate_succ_apply']
      exact nodup_above hJoin ih

theorem levels_inj {xs ys : List H} (hxs : xs.Nodup) (hys : ys.Nodup) {d : Nat}
    (h : (above join)^[d] xs = (above join)^[d] ys) : xs = ys := by
  induction d with
  | zero => exact h
  | succ d ih =>
      rw [Function.iterate_succ_apply', Function.iterate_succ_apply'] at h
      exact ih (above_inj hJoin (nodup_levels hJoin hxs d) (nodup_levels hJoin hys d) h)

/-- Lists of elements that are no joins are equal if a level above one is a level above the
other. -/
theorem levels_bind {xs ys : List H} (hxs : xs.Nodup) (hys : ys.Nodup) (hNil : xs ≠ [])
    (hLeaf : ∀ x ∈ xs, ∀ a b, x ≠ join a b) {d e : Nat} (hDepth : d ≤ e)
    (h : (above join)^[d] xs = (above join)^[e] ys) : xs = ys := by
  obtain ⟨k, rfl⟩ := Nat.exists_eq_add_of_le hDepth
  rw [Function.iterate_add_apply] at h
  have hBelow := levels_inj hJoin hxs (nodup_levels hJoin hys k) h
  cases k with
  | zero => exact hBelow
  | succ k =>
      -- the first list would be a level of joins
      rw [Function.iterate_succ_apply'] at hBelow
      obtain ⟨x, hx⟩ := List.exists_mem_of_ne_nil xs hNil
      obtain ⟨a, -, b, -, hEq⟩ := mem_above join (hBelow ▸ hx)
      exact absurd hEq (hLeaf x hx a b)

end Injective

end Nexus.Lib.Levels
