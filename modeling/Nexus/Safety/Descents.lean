import Nexus.Ledger.Steps
import Nexus.Safety.Forks

/-!
# Descent

A stored block descends from the blocks behind it, and names itself as the pending checkpoint, or
the one that its parent names.  So pending checkpoints descend from each other along a chain, and
the walk of `SetBest` disconnects no block that the new one descends from.

## Main results

* `Labelled.mono`: the pending checkpoints of a chain descend from each other.
* `branch_not_descends`: no block that the new one descends from is disconnected.
-/

namespace Nexus.Safety

open Nexus.Lib
open Nexus.Lib.Checked
open Nexus.Util
open Nexus.LLD
open Nexus.Ledger

variable {rt : LedgerRuntime} {db db' : Records} {hashFirst h a b : Uint1024}
  {state state' prev check : BlockState}

/-! ## Descent -/

/-- A stored block descends from another, or is that block. -/
inductive Descends (db : Records) : Uint1024 → Uint1024 → Prop
  | refl {h : Uint1024} {state : BlockState} (hRead : db.ReadBlock h = some state) : Descends db h h
  | step {h a : Uint1024} {state : BlockState} (hRead : db.ReadBlock h = some state)
      (hPrev : state.hashPrevBlock ≠ 0) (hBefore : Descends db state.hashPrevBlock a) :
      Descends db h a

namespace Descends

theorem read (hDescends : Descends db h a) : ∃ state, db.ReadBlock h = some state := by
  cases hDescends with
  | refl hRead => exact ⟨_, hRead⟩
  | step hRead _ _ => exact ⟨_, hRead⟩

theorem read_ancestor (hDescends : Descends db h a) : ∃ state, db.ReadBlock a = some state := by
  induction hDescends with
  | refl hRead => exact ⟨_, hRead⟩
  | step _ _ _ ih => exact ih

theorem trans (hDescends : Descends db h a) (hDescends' : Descends db a b) : Descends db h b := by
  induction hDescends with
  | refl _ => exact hDescends'
  | step hRead hPrev _ ih => exact .step hRead hPrev (ih hDescends')

/-- A block that descends from another is that block, or its parent descends from it. -/
theorem parent (hDescends : Descends db h a)
    (hPrev : (db.ReadBlock h).map (·.hashPrevBlock) = some b) :
    h = a ∨ (b ≠ 0 ∧ Descends db b a) := by
  cases hDescends with
  | refl _ => exact .inl rfl
  | step hRead hNot hBefore =>
      rw [hRead, Option.map_some] at hPrev
      obtain rfl := Option.some.inj hPrev
      exact .inr ⟨hNot, hBefore⟩

end Descends

/-- Every block of the one is in the other, as it was indexed. -/
def ExtendsBlocks (db db' : Records) : Prop :=
  ∀ hash state, db.ReadBlock hash = some state →
    ∃ state', db'.ReadBlock hash = some state' ∧ state'.frozen = state.frozen

theorem ExtendsBlocks.refl (db : Records) : ExtendsBlocks db db := fun _ state hRead => ⟨state, hRead, rfl⟩

theorem ExtendsBlocks.trans {db'' : Records} (hFirst : ExtendsBlocks db db') (hSecond : ExtendsBlocks db' db'') :
    ExtendsBlocks db db'' := by
  intro hash state hRead
  obtain ⟨state', hRead', hFrozen⟩ := hFirst hash state hRead
  obtain ⟨state'', hRead'', hFrozen'⟩ := hSecond hash state' hRead'
  exact ⟨state'', hRead'', hFrozen'.trans hFrozen⟩

theorem extends_of_same (hSame : SameView db db') : ExtendsBlocks db db' := fun _ _ => hSame.read

theorem prev_frozen (hFrozen : state'.frozen = state.frozen) :
    state'.hashPrevBlock = state.hashPrevBlock := congrArg (·.hashPrevBlock) hFrozen

theorem check_frozen (hFrozen : state'.frozen = state.frozen) :
    state'.hashCheckpoint = state.hashCheckpoint := congrArg (·.hashCheckpoint) hFrozen

theorem height_frozen (hFrozen : state'.frozen = state.frozen) :
    state'.nHeight = state.nHeight := congrArg (·.nHeight) hFrozen

theorem Descends.mono (hExtends : ExtendsBlocks db db') (hDescends : Descends db h a) :
    Descends db' h a := by
  induction hDescends with
  | refl hRead =>
      obtain ⟨state', hRead', -⟩ := hExtends _ _ hRead
      exact .refl hRead'
  | step hRead hPrev _ ih =>
      obtain ⟨state', hRead', hFrozen⟩ := hExtends _ _ hRead
      refine .step hRead' ?_ ?_
      · rw [prev_frozen hFrozen]
        exact hPrev
      · rw [prev_frozen hFrozen]
        exact ih

/-! ## Pending checkpoints -/

/-- A stored block names itself as the pending checkpoint, or the one of the block before. -/
def Labelled (db : Records) : Prop :=
  ∀ hash state, db.ReadBlock hash = some state →
    state.hashCheckpoint = hash ∨ state.hashPrevBlock ≠ 0 ∧
      ∃ prev, db.ReadBlock state.hashPrevBlock = some prev ∧
        state.hashCheckpoint = prev.hashCheckpoint

/-- The pending checkpoint of a block is one of the blocks that it descends from. -/
theorem Labelled.descends (hLabels : Labelled db) (tree : Tree rt db hashFirst)
    (hRead : db.ReadBlock h = some state) : Descends db h state.hashCheckpoint := by
  generalize hHeight : state.nHeight.toNat = n
  induction n generalizing h state with
  | zero =>
      cases hLabels h state hRead with
      | inl hSelf =>
          rw [hSelf]
          exact .refl hRead
      | inr hPrev =>
          cases tree.parent hRead with
          | inl hFirst => exact absurd hFirst.2.1 hPrev.1
          | inr hNext =>
              obtain ⟨-, prev, -, hAbove⟩ := hNext
              omega
  | succ n ih =>
      cases hLabels h state hRead with
      | inl hSelf =>
          rw [hSelf]
          exact .refl hRead
      | inr hLabel =>
          obtain ⟨hPrev, prev, hPrevRead, hSame⟩ := hLabel
          cases tree.parent hRead with
          | inl hFirst => exact absurd hFirst.2.1 hPrev
          | inr hNext =>
              obtain ⟨-, prev', hPrevRead', hAbove⟩ := hNext
              rw [hPrevRead] at hPrevRead'
              obtain rfl := Option.some.inj hPrevRead'
              rw [hSame]
              exact .step hRead hPrev (ih hPrevRead (by omega))

/-- The pending checkpoints of a chain descend from each other. -/
theorem Labelled.mono (hLabels : Labelled db) (tree : Tree rt db hashFirst)
    (hDescends : Descends db h a) (hRead : db.ReadBlock h = some state)
    (hReadA : db.ReadBlock a = some check) :
    Descends db state.hashCheckpoint check.hashCheckpoint := by
  induction hDescends generalizing state with
  | refl _ =>
      rw [hReadA] at hRead
      obtain rfl := Option.some.inj hRead
      obtain ⟨stateCheck, hCheck⟩ := (hLabels.descends tree hReadA).read_ancestor
      exact .refl hCheck
  | @step h a state' hRead' hPrev hBefore ih =>
      rw [hRead'] at hRead
      obtain rfl := Option.some.inj hRead
      cases hLabels h state' hRead' with
      | inl hSelf =>
          rw [hSelf]
          exact (Descends.step hRead' hPrev hBefore).trans (hLabels.descends tree hReadA)
      | inr hLabel =>
          obtain ⟨-, prev, hPrevRead, hSame⟩ := hLabel
          rw [hSame]
          exact ih hPrevRead hReadA

/-! ## The same blocks -/

theorem equal_frozen (hFrozen : state'.frozen = state.frozen) : state'.Equal state := by
  unfold BlockState.Equal
  have hField {α : Type} (f : BlockState → α) : f state'.frozen = f state.frozen := by rw [hFrozen]
  exact ⟨hField (·.nVersion), hField (·.hashPrevBlock), hField (·.hashMerkleRoot),
    hField (·.nChannel), hField (·.nHeight), hField (·.nBits), hField (·.nNonce), hField (·.nTime)⟩

theorem hash_frozen (hFrozen : state'.frozen = state.frozen) :
    state'.GetHash rt = state.GetHash rt := by
  have hHash : state'.frozen.GetHash rt = state.frozen.GetHash rt := by rw [hFrozen]
  exact hHash

theorem Tree.same (tree : Tree rt db hashFirst) (hSame : SameView db db') :
    Tree rt db' hashFirst where
  key := by
    intro hash state hRead
    obtain ⟨state', hRead', hFrozen⟩ := hSame.symm.read hRead
    rw [← tree.key hRead']
    exact (hash_frozen hFrozen).symm
  notNull := by
    intro hash state hRead
    obtain ⟨state', hRead', hFrozen⟩ := hSame.symm.read hRead
    have hBits : state'.nBits = state.nBits := congrArg (·.nBits) hFrozen
    have hNot := tree.notNull hRead'
    unfold Block.IsNull at hNot ⊢
    rwa [← hBits]
  parent := by
    intro hash state hRead
    obtain ⟨state', hRead', hFrozen⟩ := hSame.symm.read hRead
    have hPrev := prev_frozen hFrozen
    have hHeight := height_frozen hFrozen
    cases tree.parent hRead' with
    | inl hFirst =>
        left
        exact ⟨hFirst.1, hPrev ▸ hFirst.2.1, hHeight ▸ hFirst.2.2⟩
    | inr hNext =>
        right
        obtain ⟨hNot, prev, hPrevRead, hAbove⟩ := hNext
        obtain ⟨prev', hPrevRead', hPrevFrozen⟩ := hSame.read hPrevRead
        refine ⟨hPrev ▸ hNot, prev', ?_, ?_⟩
        · rw [← hPrev]
          exact hPrevRead'
        · rw [← hHeight, height_frozen hPrevFrozen]
          exact hAbove

theorem Labelled.same (hLabels : Labelled db) (hSame : SameView db db') : Labelled db' := by
  intro hash state hRead
  obtain ⟨state', hRead', hFrozen⟩ := hSame.symm.read hRead
  rw [← check_frozen hFrozen, ← prev_frozen hFrozen]
  cases hLabels hash state' hRead' with
  | inl hSelf => exact .inl hSelf
  | inr hLabel =>
      right
      obtain ⟨hPrev, prev, hPrevRead, hCheck⟩ := hLabel
      obtain ⟨prev', hPrevRead', hPrevFrozen⟩ := hSame.read hPrevRead
      exact ⟨hPrev, prev', hPrevRead', hCheck.trans (check_frozen hPrevFrozen).symm⟩

theorem Stored.same (hStored : Stored rt db state) (hSame : SameView db db') :
    Stored rt db' state := by
  obtain ⟨record, hRead, hEqual⟩ := hStored
  obtain ⟨record', hRead', hFrozen⟩ := hSame.read hRead
  exact ⟨record', hRead', equal_trans (equal_frozen hFrozen) hEqual⟩

/-! ## The walk back -/

theorem walkLonger_mono {fork longer : BlockState} {n nFuel : Nat} {vConnect : List BlockState}
    {r : BlockState × List BlockState} (hLe : n ≤ nFuel)
    (hWalk : BlockState.walkLonger db fork n longer vConnect = .ok r) :
    BlockState.walkLonger db fork nFuel longer vConnect = .ok r := by
  induction n generalizing longer vConnect nFuel with
  | zero => cases hWalk
  | succ n ih =>
      cases nFuel with
      | zero => omega
      | succ nFuel =>
          rw [BlockState.walkLonger] at hWalk ⊢
          split at hWalk
          · simp only [bind_eq_ok] at hWalk
            obtain ⟨prev, hPrev, u, hReject, hWalk⟩ := hWalk
            rw [if_pos ‹_›, hPrev, ok_bind, hReject, ok_bind]
            exact ih (by omega) hWalk
          · rw [if_neg ‹_›]
            exact hWalk

theorem findFork_mono {fork longer : BlockState} {n nFuel : Nat}
    {vDisconnect vConnect : List BlockState} {r : List BlockState × List BlockState}
    (hLe : n ≤ nFuel)
    (hFind : BlockState.findFork db n fork longer vDisconnect vConnect = .ok r) :
    BlockState.findFork db nFuel fork longer vDisconnect vConnect = .ok r := by
  induction n generalizing fork longer vDisconnect vConnect nFuel with
  | zero => cases hFind
  | succ n ih =>
      cases nFuel with
      | zero => omega
      | succ nFuel =>
          rw [BlockState.findFork] at hFind ⊢
          split at hFind
          · rw [if_pos ‹_›]
            exact hFind
          · rw [if_neg ‹_›]
            simp only [bind_eq_ok] at hFind
            obtain ⟨⟨longer', vConnect'⟩, hWalk, hFind⟩ := hFind
            rw [walkLonger_mono (by omega) hWalk, ok_bind]
            dsimp only at hFind ⊢
            split at hFind
            · rw [if_pos ‹_›]
              exact hFind
            · rw [if_neg ‹_›]
              simp only [bind_eq_ok] at hFind
              obtain ⟨prev, hPrev, u, hReject, hFind⟩ := hFind
              rw [hPrev, ok_bind, hReject, ok_bind]
              exact ih (by omega) hFind

/-- What the walk finds, however far it may go back. -/
theorem findFork_ok (tree : Tree rt db hashFirst) {fork longer : BlockState} {nFuel : Nat}
    {vDisconnect vConnect : List BlockState} (hFork : Stored rt db fork)
    (hLonger : Stored rt db longer)
    (hFind : BlockState.findFork db nFuel fork longer [] [] = .ok (vDisconnect, vConnect)) :
    vDisconnect = (blockForest db).branch BlockState.Equal fork longer ∧
      vConnect = (blockForest db).branch BlockState.Equal longer fork := by
  have hMore := findFork_mono
    (Nat.le_add_right nFuel (fork.nHeight.toNat + longer.nHeight.toNat + 2)) hFind
  rw [findFork_eq tree hFork hLonger (by omega), List.nil_append, List.nil_append] at hMore
  have hLists := Prod.mk.inj (Except.ok.inj hMore)
  exact ⟨hLists.1.symm, hLists.2.symm⟩

/-- The blocks behind a block are read. -/
theorem lineage_read (tree : Tree rt db hashFirst) (hStored : Stored rt db state)
    {x : BlockState} (hMem : x ∈ (blockForest db).lineage state) :
    x = state ∨ ∃ hash, db.ReadBlock hash = some x := by
  have hRooted := hStored.rooted tree
  induction hRooted with
  | root hParent _ =>
      rw [Forest.lineage_of_none hParent, List.mem_singleton] at hMem
      exact .inl hMem
  | child hParent hRank _ ih =>
      rw [Forest.lineage_of_some hParent hRank, List.mem_cons] at hMem
      cases hMem with
      | inl hSelf => exact .inl hSelf
      | inr hMem =>
          right
          have hRead := (read_of_parent hParent).2
          cases ih (Stored.parent tree hParent) hMem with
          | inl hSelf => exact ⟨_, hSelf ▸ hRead⟩
          | inr hOther => exact hOther

/-- A block that another descends from is behind it. -/
theorem Descends.mem_lineage (hDescends : Descends db h a) (tree : Tree rt db hashFirst)
    (hRead : db.ReadBlock h = some state) :
    ∃ x ∈ (blockForest db).lineage state, db.ReadBlock a = some x := by
  induction hDescends generalizing state with
  | refl hRead' => exact ⟨state, Forest.mem_lineage_self, hRead⟩
  | @step h a state' hRead' hPrev hBefore ih =>
      rw [hRead'] at hRead
      obtain rfl := Option.some.inj hRead
      cases tree.parent hRead' with
      | inl hFirst => exact absurd hFirst.2.1 hPrev
      | inr hNext =>
          obtain ⟨-, prev, hPrevRead, hAbove⟩ := hNext
          obtain ⟨x, hMem, hReadX⟩ := ih hPrevRead
          refine ⟨x, ?_, hReadX⟩
          rw [Forest.lineage_of_some ((if_neg hPrev).trans hPrevRead) hAbove]
          exact List.mem_cons_of_mem _ hMem

/-- No block that the new one descends from is disconnected. -/
theorem branch_not_descends (tree : Tree rt db hashFirst) {best x : BlockState}
    (hBest : Stored rt db best) (hStored : Stored rt db state)
    (hMem : x ∈ (blockForest db).branch BlockState.Equal best state)
    (hDescends : Descends db (state.GetHash rt) h) : x.GetHash rt ≠ h := by
  intro hHash
  rw [Forest.branch, List.mem_filter] at hMem
  obtain ⟨hLineage, hApart⟩ := hMem
  obtain ⟨record, hRead, hEqual⟩ := hStored
  obtain ⟨y, hY, hReadY⟩ := hDescends.mem_lineage tree hRead
  obtain ⟨record', hRead', hEqual'⟩ := hBest.lineage tree hLineage
  rw [hHash, hReadY] at hRead'
  obtain rfl := Option.some.inj hRead'
  apply of_decide_eq_true hApart
  have hParent := (@equal_tells db).parent hEqual
  have hRank := (@equal_tells db).rank hEqual
  have hRooted := rooted_of_read tree hRead
  -- The record and the block in memory differ in the tip of their lineages only.
  cases hRooted with
  | root hNone _ =>
      rw [Forest.lineage_of_none hNone, List.mem_singleton] at hY
      subst hY
      exact ⟨state, Forest.mem_lineage_self, equal_trans (equal_symm hEqual') hEqual⟩
  | child hSome hAbove _ =>
      rw [Forest.lineage_of_some hSome hAbove, List.mem_cons] at hY
      cases hY with
      | inl hSelf =>
          subst hSelf
          exact ⟨state, Forest.mem_lineage_self, equal_trans (equal_symm hEqual') hEqual⟩
      | inr hY =>
          refine ⟨y, ?_, equal_symm hEqual'⟩
          rw [Forest.lineage_of_some (hParent.symm.trans hSome) (hRank.symm.trans hAbove)]
          exact List.mem_cons_of_mem _ hY

end Nexus.Safety
