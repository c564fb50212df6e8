import Mathlib.Data.Nat.Bitwise
import Mathlib.Data.Nat.Pairing
import Nexus.Ledger.Merkle
import Nexus.Lib.Levels

/-!
# Merkle branches and roots

The flattened tree is its levels one behind the other, by induction over them, and a
branch climbs these levels at the offsets that the tree was built with.  The root is
what the levels end in, so that roots bind leaves where the levels do.
-/

namespace Nexus.Safety

open Nexus.Ledger.Merkle
open Nexus.Lib.Levels

namespace Merkles

section

variable {H : Type} (SK512 : H → H → H)

theorem getLastD_append {α : Type} (xs : List α) {ys : List α} (h : ys ≠ []) (d : α) :
    (xs ++ ys).getLastD d = ys.getLastD d := by
  obtain ⟨zs, z, rfl⟩ := List.eq_nil_or_concat ys |>.resolve_left h
  rw [List.concat_eq_append, ← List.append_assoc, List.getLastD_concat, List.getLastD_concat]

/-- The levels of a list, one behind the other. -/
def stack : Nat → List H → List H
  | 0, xs => xs
  | fuel + 1, xs => if 1 < xs.length then xs ++ stack fuel (above SK512 xs) else xs

theorem stack_eq_nil {fuel : Nat} {xs : List H} : stack SK512 fuel xs = [] ↔ xs = [] := by
  cases fuel with
  | zero => exact Iff.rfl
  | succ fuel =>
      rw [stack]
      split
      · rename_i h
        have hNe : xs ≠ [] := by
          rintro rfl
          cases h
        simp [hNe]
      · exact Iff.rfl

/-- What the levels end in is a level of one element. -/
theorem stack_last {fuel : Nat} {xs : List H} (hNil : xs ≠ []) (h : xs.length ≤ fuel) (d : H) :
    ∃ k, (above SK512)^[k] xs = [(stack SK512 fuel xs).getLastD d] := by
  induction fuel generalizing xs with
  | zero => exact absurd (List.length_eq_zero_iff.mp (Nat.le_zero.mp h)) hNil
  | succ fuel ih =>
      rw [stack]
      split
      · rename_i hLong
        have hLength := length_above SK512 xs
        have hAbove : above SK512 xs ≠ [] := by
          intro hEmpty
          rw [hEmpty, List.length_nil] at hLength
          omega
        obtain ⟨k, hk⟩ := ih hAbove (by omega)
        refine ⟨k + 1, ?_⟩
        have hStack : stack SK512 fuel (above SK512 xs) ≠ [] := (stack_eq_nil SK512).not.mpr hAbove
        rw [Function.iterate_succ_apply, hk, getLastD_append _ hStack]
      · rename_i hShort
        have hPos := List.length_pos_iff.mpr hNil
        obtain ⟨x, rfl⟩ := List.length_eq_one_iff.mp (show xs.length = 1 by omega)
        exact ⟨0, rfl⟩

end

section

variable {H : Type} [Zero H] (SK512 : H → H → H)

/-- The inner loop appends the level above. -/
theorem pushLevel_eq (pre xs : List H) :
    pushLevel SK512 pre.length xs.length (pre ++ xs) = pre ++ xs ++ above SK512 xs := by
  -- after `m` turns the first `m` joins are there
  have hTurns : ∀ m ≤ (xs.length + 1) / 2,
      (List.range m).foldl (fun vMerkleTree k =>
        vMerkleTree ++ [SK512 (vMerkleTree.getD (pre.length + 2 * k) 0)
          (vMerkleTree.getD (pre.length + min (2 * k + 1) (xs.length - 1)) 0)]) (pre ++ xs) =
        pre ++ xs ++ (above SK512 xs).take m := by
    intro m hm
    induction m with
    | zero => simp
    | succ m ih =>
        obtain ⟨a, b, hA, hB, hAbove⟩ := @above_get _ SK512 xs m (by omega)
        have hLeft : ∀ i x rest, xs[i]? = some x →
            (pre ++ xs ++ rest).getD (pre.length + i) 0 = x := by
          intro i x rest hx
          obtain ⟨hi, -⟩ := List.getElem?_eq_some_iff.mp hx
          rw [List.getD_eq_getElem?_getD, List.append_assoc, List.getElem?_append_right (by omega),
            Nat.add_sub_cancel_left, List.getElem?_append_left hi, hx]
          rfl
        rw [List.range_succ, List.foldl_append, ih (by omega), List.foldl_cons, List.foldl_nil,
          hLeft _ _ _ hA, hLeft _ _ _ hB, List.append_assoc (pre ++ xs), List.take_add_one, hAbove]
        rfl
  show (List.range ((xs.length + 1) / 2)).foldl _ _ = _
  rw [hTurns _ (le_refl _), List.take_of_length_le (by rw [length_above])]

theorem pushLevels_eq {fuel : Nat} (pre xs : List H) :
    pushLevels SK512 fuel pre.length xs.length (pre ++ xs) = pre ++ stack SK512 fuel xs := by
  induction fuel generalizing pre xs with
  | zero => rfl
  | succ fuel ih =>
      rw [pushLevels, stack]
      split
      · have hNext := ih (pre ++ xs) (above SK512 xs)
        rw [List.length_append, length_above] at hNext
        rw [pushLevel_eq, hNext, List.append_assoc]
      · rfl

theorem BuildMerkleTree_eq (block : Block H) (vtx : List H) :
    BuildMerkleTree SK512 block vtx =
      (⟨stack SK512 vtx.length vtx⟩, (stack SK512 vtx.length vtx).getLastD 0) := by
  have hTree := @pushLevels_eq _ _ SK512 vtx.length [] vtx
  simp only [List.length_nil, List.nil_append] at hTree
  rw [BuildMerkleTree, hTree]

/-- The branch of an element climbs to the root, through the levels that follow its own. -/
theorem branch_climbs {fuel : Nat} (pre xs : List H) {i : Nat} {x : H} (hx : xs[i]? = some x)
    (h : xs.length ≤ fuel) :
    ∃ vMerkleBranch,
      branchFrom (pre ++ stack SK512 fuel xs) fuel pre.length xs.length i = some vMerkleBranch ∧
      CheckMerkleBranch SK512 x vMerkleBranch i = (stack SK512 fuel xs).getLastD 0 := by
  obtain ⟨hi, hx'⟩ := List.getElem?_eq_some_iff.mp hx
  induction fuel generalizing pre xs i x with
  | zero => omega
  | succ fuel ih =>
      rw [stack, branchFrom]
      by_cases hLong : 1 < xs.length
      · obtain ⟨a, b, hA, hB, hAbove⟩ := @above_get _ SK512 xs (i / 2) (by omega)
        have hLength := length_above SK512 xs
        obtain ⟨hUp, hUp'⟩ := List.getElem?_eq_some_iff.mp hAbove
        obtain ⟨rest, hRest, hRoot⟩ := ih (pre ++ xs) (above SK512 xs) hAbove (by omega) hUp hUp'
        have hStack : stack SK512 fuel (above SK512 xs) ≠ [] := by
          rw [Ne, stack_eq_nil]
          rintro hEmpty
          rw [hEmpty] at hUp
          cases hUp
        rw [List.append_assoc, List.length_append, hLength] at hRest
        -- the two that are joined are the element and its sibling
        have hSibling : ∃ y, xs[min (i ^^^ 1) (xs.length - 1)]? = some y ∧
            (if i % 2 = 1 then SK512 y x else SK512 x y) = SK512 a b := by
          rcases Nat.even_or_odd i with hEven | hOdd
          · have hMod := Nat.even_iff.mp hEven
            have hTwice : 2 * (i / 2) = i := by omega
            rw [hTwice] at hA hB
            refine ⟨b, by rw [Nat.xor_one_of_even hEven, hB], ?_⟩
            rw [if_neg (by omega), Option.some.inj (hA.symm.trans hx)]
          · have hMod := Nat.odd_iff.mp hOdd
            have hTwice : 2 * (i / 2) = i - 1 := by omega
            have hSelf : min (i - 1 + 1) (xs.length - 1) = i := by omega
            have hLess : min (i - 1) (xs.length - 1) = i - 1 := by omega
            rw [hTwice] at hA hB
            rw [hSelf] at hB
            refine ⟨a, by rw [Nat.xor_one_of_odd hOdd, hLess, hA], ?_⟩
            rw [if_pos hMod, Option.some.inj (hB.symm.trans hx)]
        obtain ⟨y, hy, hJoin⟩ := hSibling
        have hBound := (List.getElem?_eq_some_iff.mp hy).1
        have hRead : (pre ++ (xs ++ stack SK512 fuel (above SK512 xs)))[pre.length +
            min (i ^^^ 1) (xs.length - 1)]? = some y := by
          rw [List.getElem?_append_right (by omega), Nat.add_sub_cancel_left,
            List.getElem?_append_left hBound, hy]
        refine ⟨y :: rest, ?_, ?_⟩
        · simp only [if_pos hLong, hRead, hRest, Option.bind_eq_bind, Option.bind_some]
          rfl
        · rw [CheckMerkleBranch, hJoin, hRoot, if_pos hLong,
            getLastD_append _ hStack]
      · rw [if_neg hLong, if_neg hLong]
        obtain ⟨z, rfl⟩ := List.length_eq_one_iff.mp (show xs.length = 1 by omega)
        have hZero : i = 0 := by simp at hi; omega
        subst hZero
        exact ⟨[], rfl, (Option.some.inj hx).symm⟩

/-! ## Runs -/

/-- After any calls a block holds the tree of the leaves that it was built from last. -/
theorem runCalls_tree (calls : List (Call H)) :
    (runCalls SK512 calls).vMerkleTree =
      stack SK512 (builtLeaves calls).length (builtLeaves calls) := by
  have hStep : ∀ (calls : List (Call H)) (block : Block H) (built : List H),
      block.vMerkleTree = stack SK512 built.length built →
      (calls.foldl (Call.step SK512) block).vMerkleTree =
        stack SK512 (calls.foldl Call.leaves built).length (calls.foldl Call.leaves built) := by
    intro calls
    induction calls with
    | nil => exact fun _ _ h => h
    | cons call calls ih =>
        intro block built h
        refine ih _ _ ?_
        cases call with
        | build vtx => rw [Call.step, BuildMerkleTree_eq, Call.leaves]
        | branch vtx nIndex =>
            have hEmpty : block.vMerkleTree.isEmpty = built.isEmpty := by
              rw [h, Bool.eq_iff_iff, List.isEmpty_iff, List.isEmpty_iff, stack_eq_nil]
            rw [Call.step, GetMerkleBranch, Call.leaves, hEmpty]
            cases hBuilt : built.isEmpty with
            | true => simp [BuildMerkleTree_eq]
            | false => simpa using h
  exact hStep calls {} [] rfl

/-- The tree of a block that built none, or built it from these leaves. -/
theorem GetMerkleBranch_run (calls : List (Call H)) {vtx : List H} (nIndex : Nat)
    (h : builtLeaves calls = [] ∨ builtLeaves calls = vtx) :
    (GetMerkleBranch SK512 (runCalls SK512 calls) vtx nIndex).2 =
      branchFrom (stack SK512 vtx.length vtx) vtx.length 0 vtx.length nIndex := by
  have hTree := runCalls_tree SK512 calls
  rw [GetMerkleBranch]
  cases hEmpty : (runCalls SK512 calls).vMerkleTree.isEmpty with
  | true => simp [BuildMerkleTree_eq]
  | false =>
      -- a tree that is there is the one of these leaves
      have hSame : builtLeaves calls = vtx := by
        apply h.resolve_left
        intro hNone
        rw [hTree, hNone] at hEmpty
        cases hEmpty
      rw [hSame] at hTree
      simp [hTree]

end

end Merkles

open Merkles

/-- On a block that built no tree, or built its last one from these leaves, the branch of a leaf
leads to their root; and roots bind leaves, none of which is a hash of two. -/
theorem merkle_trees {H : Type} [Zero H] (SK512 : H → H → H) (calls : List (Call H)) :
    (∀ (vtx : List H) (i : Nat) (hash : H), builtLeaves calls = [] ∨ builtLeaves calls = vtx →
      vtx[i]? = some hash → ∃ vMerkleBranch,
        (GetMerkleBranch SK512 (runCalls SK512 calls) vtx i).2 = some vMerkleBranch ∧
        CheckMerkleBranch SK512 hash vMerkleBranch i =
          (BuildMerkleTree SK512 (runCalls SK512 calls) vtx).2) ∧
    ((∀ a b a' b', SK512 a b = SK512 a' b' → a = a' ∧ b = b') →
      ∀ xs ys : List H, xs ≠ [] → ys ≠ [] → xs.Nodup → ys.Nodup →
        (∀ x ∈ xs, ∀ a b, x ≠ SK512 a b) → (∀ y ∈ ys, ∀ a b, y ≠ SK512 a b) →
        (BuildMerkleTree SK512 (runCalls SK512 calls) xs).2 =
          (BuildMerkleTree SK512 (runCalls SK512 calls) ys).2 → xs = ys) := by
  constructor
  · intro vtx i hash hBuilt hLeaf
    obtain ⟨vMerkleBranch, hBranch, hRoot⟩ :=
      branch_climbs SK512 [] vtx hLeaf (le_refl vtx.length)
    refine ⟨vMerkleBranch, ?_, ?_⟩
    · rw [GetMerkleBranch_run SK512 calls i hBuilt]
      exact hBranch
    · rw [hRoot, BuildMerkleTree_eq]
  · intro hJoin xs ys hXs hYs hXsNodup hYsNodup hXsLeaf hYsLeaf hRoot
    rw [BuildMerkleTree_eq, BuildMerkleTree_eq] at hRoot
    obtain ⟨d, hD⟩ := stack_last SK512 hXs (le_refl xs.length) 0
    obtain ⟨e, hE⟩ := stack_last SK512 hYs (le_refl ys.length) 0
    have hLevels : (above SK512)^[d] xs = (above SK512)^[e] ys := by
      rw [hD, hE]
      exact congrArg (fun root => [root]) hRoot
    rcases Nat.le_total d e with hLe | hLe
    · exact levels_bind hJoin hXsNodup hYsNodup hXs hXsLeaf hLe hLevels
    · exact (levels_bind hJoin hYsNodup hXsNodup hYs hYsLeaf hLe hLevels.symm).symm

/-- A hash of two numbers that is odd. -/
theorem merkle_trees_pair :
    (∃ vMerkleBranch, (GetMerkleBranch (fun a b => 2 * Nat.pair a b + 1)
      (runCalls (fun a b => 2 * Nat.pair a b + 1) [.build [2, 4, 6]]) [2, 4, 6] 2).2 =
        some vMerkleBranch ∧ CheckMerkleBranch (fun a b => 2 * Nat.pair a b + 1) 6 vMerkleBranch 2 =
          (BuildMerkleTree (fun a b => 2 * Nat.pair a b + 1)
            (runCalls (fun a b => 2 * Nat.pair a b + 1) [.build [2, 4, 6]]) [2, 4, 6]).2) ∧
    ([2, 4, 6] : List Nat) = [2, 4, 6] :=
  have hTrees := merkle_trees (fun a b => 2 * Nat.pair a b + 1) [.build [2, 4, 6]]
  have hLeaves : ∀ x ∈ [2, 4, 6], ∀ a b, x ≠ 2 * Nat.pair a b + 1 := by
    intro x hx a b
    simp only [List.mem_cons, List.not_mem_nil, or_false] at hx
    omega
  ⟨hTrees.1 [2, 4, 6] 2 6 (.inr rfl) rfl, hTrees.2
    (fun a b a' b' h => Nat.pair_eq_pair.mp (by omega)) [2, 4, 6] [2, 4, 6] (by simp) (by simp)
    (by decide) (by decide) hLeaves hLeaves rfl⟩

/-- A block that built its tree from other leaves gives a branch of these, and the root of no
leaves is that of the leaf 0. -/
theorem branch_of_cached :
    (∃ vMerkleBranch, (GetMerkleBranch (fun a b => 2 * Nat.pair a b + 1)
      (runCalls (fun a b => 2 * Nat.pair a b + 1) [.build [2, 4]]) [6, 8] 0).2 = some vMerkleBranch ∧
        CheckMerkleBranch (fun a b => 2 * Nat.pair a b + 1) 6 vMerkleBranch 0 ≠
          (BuildMerkleTree (fun a b => 2 * Nat.pair a b + 1) {} [6, 8]).2) ∧
    (BuildMerkleTree (fun a b => 2 * Nat.pair a b + 1) {} []).2 =
      (BuildMerkleTree (fun a b => 2 * Nat.pair a b + 1) {} [0]).2 :=
  ⟨⟨[4], by decide, by decide⟩, by decide⟩

end Nexus.Safety
