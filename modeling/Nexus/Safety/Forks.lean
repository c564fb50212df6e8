import Nexus.Ledger.State
import Nexus.Lib.Forest
import Nexus.Safety.Claims

/-!
# The fork of two blocks

`SetBest` goes back from the best block and from the new one until it reads
blocks that `operator==` takes for the same.  It compares less than a hash does,
so that the walk may stop one block too early, at two blocks that differ in their
prime offsets only.
-/

namespace Nexus.Safety

open Nexus.Lib
open Nexus.Lib.Bytes
open Nexus.Lib.Checked
open Nexus.Util
open Nexus.LLD
open Nexus.Ledger

/-- The stored blocks by their parents and heights. -/
def blockForest (db : Records) : Forest BlockState where
  parent state := if state.hashPrevBlock = 0 then none else db.ReadBlock state.hashPrevBlock
  rank state := state.nHeight.toNat

/-- A stored block tree: each block under its hash, with bits, and either the first block or one
above a stored block. -/
structure Tree (rt : LedgerRuntime) (db : Records) (hashGenesis : Uint1024) : Prop where
  key : ∀ {hash state}, db.ReadBlock hash = some state → state.GetHash rt = hash
  notNull : ∀ {hash state}, db.ReadBlock hash = some state → ¬ state.IsNull
  parent : ∀ {hash state}, db.ReadBlock hash = some state →
    (hash = hashGenesis ∧ state.hashPrevBlock = 0 ∧ state.nHeight = 0) ∨
      (state.hashPrevBlock ≠ 0 ∧ ∃ prev, db.ReadBlock state.hashPrevBlock = some prev ∧
        state.nHeight.toNat = prev.nHeight.toNat + 1)

/-- A block as it is in memory, of which there is a record. -/
def Stored (rt : LedgerRuntime) (db : Records) (state : BlockState) : Prop :=
  ∃ record, db.ReadBlock (state.GetHash rt) = some record ∧ record.Equal state

/-- Blocks with one hash. -/
def SameHash (rt : LedgerRuntime) (state state' : BlockState) : Prop :=
  state.GetHash rt = state'.GetHash rt

instance (rt : LedgerRuntime) : DecidableRel (SameHash rt) := fun state state' => by
  unfold SameHash
  infer_instance

variable {rt : LedgerRuntime} {db : Records} {hashGenesis hash : Uint1024}
variable {state prev fork longer best : BlockState}

theorem equal_symm {state state' : BlockState} (h : state.Equal state') : state'.Equal state := by
  unfold BlockState.Equal at h ⊢
  simp only [h, and_self]

theorem equal_trans {state state' state'' : BlockState} (h : state.Equal state')
    (h' : state'.Equal state'') : state.Equal state'' := by
  unfold BlockState.Equal at h h' ⊢
  simp only [h, h', and_self]

/-- Blocks that compare equal have one parent and one height. -/
theorem equal_tells : (blockForest db).Tells BlockState.Equal where
  refl state := by
    unfold BlockState.Equal
    simp only [and_self]
  symm := equal_symm
  parent h := by
    show (if _ then _ else _) = (if _ then _ else _)
    rw [h.2.1]
  rank h := congrArg UInt32.toNat h.2.2.2.2.1

/-! ## Reading back along a tree -/

theorem stored_of_read (tree : Tree rt db hashGenesis) (h : db.ReadBlock hash = some state) :
    Stored rt db state := by
  refine ⟨state, ?_, (@equal_tells db).refl state⟩
  rw [tree.key h, h]

theorem read_of_parent (h : (blockForest db).parent state = some prev) :
    state.hashPrevBlock ≠ 0 ∧ db.ReadBlock state.hashPrevBlock = some prev := by
  unfold blockForest at h
  by_cases hFirst : state.hashPrevBlock = 0
  · simp [hFirst] at h
  · simpa [hFirst] using h

theorem rooted_of_read (tree : Tree rt db hashGenesis) (h : db.ReadBlock hash = some state) :
    (blockForest db).Rooted state := by
  generalize hHeight : state.nHeight.toNat = n
  induction n generalizing hash state with
  | zero =>
      cases tree.parent h with
      | inl hFirst => exact .root (if_pos hFirst.2.1) hHeight
      | inr hNext =>
          obtain ⟨-, prev, -, hAbove⟩ := hNext
          omega
  | succ n ih =>
      cases tree.parent h with
      | inl hFirst =>
          rw [hFirst.2.2] at hHeight
          cases hHeight
      | inr hNext =>
          obtain ⟨hPrev, prev, hRead, hAbove⟩ := hNext
          exact .child ((if_neg hPrev).trans hRead) hAbove (ih hRead (by omega))

namespace Stored

theorem rooted (h : Stored rt db state) (tree : Tree rt db hashGenesis) :
    (blockForest db).Rooted state := by
  obtain ⟨record, hRead, hEqual⟩ := h
  exact (rooted_of_read tree hRead).of_rel equal_tells hEqual

theorem notNull (h : Stored rt db state) (tree : Tree rt db hashGenesis) : ¬ state.IsNull := by
  obtain ⟨record, hRead, hEqual⟩ := h
  have hBits : record.nBits = state.nBits := hEqual.2.2.2.2.2.1
  have hNot := tree.notNull hRead
  unfold Block.IsNull at hNot ⊢
  rwa [← hBits]

theorem parent (tree : Tree rt db hashGenesis) (h : (blockForest db).parent state = some prev) :
    Stored rt db prev :=
  stored_of_read tree (read_of_parent h).2

theorem prev_eq (tree : Tree rt db hashGenesis) (h : (blockForest db).parent state = some prev) :
    state.Prev db = .ok prev ∧ ¬ prev.IsNull := by
  obtain ⟨hPrev, hRead⟩ := read_of_parent h
  refine ⟨?_, tree.notNull hRead⟩
  unfold BlockState.Prev
  rw [if_neg hPrev, hRead, demand_some]

/-- Every block of a lineage is stored. -/
theorem lineage (h : Stored rt db state) (tree : Tree rt db hashGenesis) {x : BlockState}
    (hMem : x ∈ (blockForest db).lineage state) : Stored rt db x := by
  have hRooted := h.rooted tree
  induction hRooted with
  | root hParent _ =>
      rw [Forest.lineage_of_none hParent, List.mem_singleton] at hMem
      rwa [hMem]
  | child hParent hRank _ ih =>
      rw [Forest.lineage_of_some hParent hRank, List.mem_cons] at hMem
      cases hMem with
      | inl hSelf => rwa [hSelf]
      | inr hMem => exact ih (parent tree hParent) hMem

/-- A lineage ends with the first block. -/
theorem exists_first (h : Stored rt db state) (tree : Tree rt db hashGenesis) :
    ∃ x ∈ (blockForest db).lineage state, ∃ first, db.ReadBlock hashGenesis = some first ∧
      first.Equal x := by
  have hRooted := h.rooted tree
  induction hRooted with
  | @root state hParent _ =>
      obtain ⟨record, hRead, hEqual⟩ := h
      refine ⟨state, Forest.mem_lineage_self, record, ?_, hEqual⟩
      cases tree.parent hRead with
      | inl hFirst => rw [← hFirst.1, hRead]
      | inr hNext =>
          obtain ⟨hPrev, prev, hPrevRead, -⟩ := hNext
          have hRecord : (blockForest db).parent record = some prev :=
            (if_neg hPrev).trans hPrevRead
          rw [equal_tells.parent hEqual, hParent] at hRecord
          cases hRecord
  | child hParent hRank _ ih =>
      obtain ⟨x, hx, hFirst⟩ := ih (parent tree hParent)
      refine ⟨x, ?_, hFirst⟩
      rw [Forest.lineage_of_some hParent hRank]
      exact List.mem_cons_of_mem _ hx

theorem meets (h : Stored rt db fork) (h' : Stored rt db longer) (tree : Tree rt db hashGenesis) :
    (blockForest db).Meets BlockState.Equal fork longer := by
  obtain ⟨x, hx, first, hRead, hEqual⟩ := h.exists_first tree
  obtain ⟨y, hy, first', hRead', hEqual'⟩ := h'.exists_first tree
  rw [hRead] at hRead'
  cases hRead'
  exact ⟨x, hx, y, hy, equal_trans (equal_symm hEqual) hEqual'⟩

/-- Stored blocks with one hash compare equal. -/
theorem equal_of_hash (h : Stored rt db fork) (h' : Stored rt db longer)
    (hHash : SameHash rt fork longer) : fork.Equal longer := by
  obtain ⟨record, hRead, hEqual⟩ := h
  obtain ⟨record', hRead', hEqual'⟩ := h'
  rw [hHash, hRead'] at hRead
  cases hRead
  exact equal_trans (equal_symm hEqual) hEqual'

end Stored

/-! ## The walk -/

/-- The longer branch is walked back to the height of the other, and what is left to walk over
stays the same. -/
theorem walkLonger_eq (tree : Tree rt db hashGenesis) (hFork : Stored rt db fork) {nFuel : Nat}
    {vConnect : List BlockState} (hLonger : Stored rt db longer)
    (hFuel : longer.nHeight.toNat - fork.nHeight.toNat < nFuel) :
    ∃ longer' vConnect', BlockState.walkLonger db fork nFuel longer vConnect =
        .ok (longer', vConnect') ∧
      Stored rt db longer' ∧ longer'.nHeight.toNat ≤ fork.nHeight.toNat ∧
      longer'.nHeight.toNat ≤ longer.nHeight.toNat ∧
      vConnect' ++ (blockForest db).branch BlockState.Equal longer' fork =
        vConnect ++ (blockForest db).branch BlockState.Equal longer fork ∧
      (blockForest db).branch BlockState.Equal fork longer' =
        (blockForest db).branch BlockState.Equal fork longer := by
  induction nFuel generalizing longer vConnect with
  | zero => omega
  | succ nFuel ih =>
      unfold BlockState.walkLonger
      by_cases hHigher : fork.nHeight < longer.nHeight
      · have hLt : fork.nHeight.toNat < longer.nHeight.toNat := hHigher
        have hNot : ¬ longer.Equal fork := by
          intro hEqual
          have hRank : longer.nHeight.toNat = fork.nHeight.toNat :=
            (@equal_tells db).rank hEqual
          omega
        have hApart := (hFork.rooted tree).apart equal_tells (Nat.le_of_lt hLt) hNot
        obtain ⟨prev, hParent, hRank, -, -⟩ := (hLonger.rooted tree).parent_of_apart hApart
          (hLonger.meets hFork tree)
        have hHeight : longer.nHeight.toNat = prev.nHeight.toNat + 1 := hRank
        obtain ⟨hPrev, hNull⟩ := Stored.prev_eq tree hParent
        obtain ⟨longer', vConnect', hWalk, hStored, hLe, hBelow, hLeft, hRight⟩ :=
          @ih _ (vConnect ++ [longer]) (Stored.parent tree hParent) (by omega)
        refine ⟨longer', vConnect', ?_, hStored, hLe, by omega, ?_, ?_⟩
        · rw [if_pos hHigher, hPrev, ok_bind, reject_of_not hNull, ok_bind, hWalk]
        · rw [hLeft, Forest.branch_of_apart hParent hRank hApart, List.append_assoc]
          rfl
        · rw [hRight, Forest.branch_apart equal_tells hParent hRank hApart]
      · rw [if_neg hHigher]
        have hLe : longer.nHeight.toNat ≤ fork.nHeight.toNat := Nat.le_of_not_lt hHigher
        exact ⟨longer, vConnect, rfl, hLonger, hLe, Nat.le_refl _, rfl, rfl⟩

/-- The walk finds the branches of the two blocks, as `operator==` compares them. -/
theorem findFork_eq (tree : Tree rt db hashGenesis) {nFuel : Nat}
    {vDisconnect vConnect : List BlockState} (hFork : Stored rt db fork)
    (hLonger : Stored rt db longer)
    (hFuel : fork.nHeight.toNat + longer.nHeight.toNat + 1 < nFuel) :
    BlockState.findFork db nFuel fork longer vDisconnect vConnect =
      .ok (vDisconnect ++ (blockForest db).branch BlockState.Equal fork longer,
        vConnect ++ (blockForest db).branch BlockState.Equal longer fork) := by
  induction nFuel generalizing fork longer vDisconnect vConnect with
  | zero => omega
  | succ nFuel ih =>
      unfold BlockState.findFork
      by_cases hEqual : fork.Equal longer
      · rw [if_pos hEqual, Forest.branch_of_rel (hFork.rooted tree) equal_tells hEqual,
          Forest.branch_of_rel (hLonger.rooted tree) equal_tells (equal_symm hEqual),
          List.append_nil, List.append_nil]
      · obtain ⟨longer', vConnect', hWalk, hStored, hLe, hBelow, hLeft, hRight⟩ :=
          @walkLonger_eq _ _ _ _ _ tree hFork nFuel vConnect hLonger (by omega)
        rw [if_neg hEqual, hWalk, ok_bind]
        show (if fork.Equal longer' then _ else _) = _
        by_cases hMet : fork.Equal longer'
        · rw [if_pos hMet, ← hLeft, ← hRight,
            Forest.branch_of_rel (hFork.rooted tree) equal_tells hMet,
            Forest.branch_of_rel (hStored.rooted tree) equal_tells (equal_symm hMet),
            List.append_nil, List.append_nil]
          rfl
        · have hApart := (hStored.rooted tree).apart equal_tells hLe hMet
          obtain ⟨prev, hParent, hRank, -, -⟩ := (hFork.rooted tree).parent_of_apart hApart
            (hFork.meets hStored tree)
          have hHeight : fork.nHeight.toNat = prev.nHeight.toNat + 1 := hRank
          obtain ⟨hPrev, hNull⟩ := Stored.prev_eq tree hParent
          rw [if_neg hMet, hPrev, ok_bind, reject_of_not hNull, ok_bind,
            ih (Stored.parent tree hParent) hStored (by omega), ← hLeft, ← hRight,
            Forest.branch_of_apart hParent hRank hApart,
            Forest.branch_apart equal_tells hParent hRank hApart, List.append_assoc]
          rfl

/-- `SetBest` finds what the two blocks do not have in common if and only if no two blocks of
theirs compare equal without having one hash. -/
theorem fork_exact_iff (tree : Tree rt db hashGenesis) {state : BlockState}
    (hBest : Stored rt db best) (hState : Stored rt db state) :
    (∃ n, ∀ nFuel, n ≤ nFuel → BlockState.findFork db nFuel best state [] [] =
        .ok ((blockForest db).branch (SameHash rt) best state,
          (blockForest db).branch (SameHash rt) state best)) ↔
      ∀ x ∈ (blockForest db).lineage best, ∀ y ∈ (blockForest db).lineage state,
        x.Equal y → SameHash rt x y := by
  have hDisconnect := Forest.branch_eq_iff (a := best) (K := SameHash rt) (hState.rooted tree)
    equal_tells fun x hx y hy => (hBest.lineage tree hx).equal_of_hash (hState.lineage tree hy)
  have hConnect := Forest.branch_eq_iff (a := state) (K := SameHash rt) (hBest.rooted tree)
    equal_tells fun x hx y hy => (hState.lineage tree hx).equal_of_hash (hBest.lineage tree hy)
  constructor
  · intro hFinds
    obtain ⟨n, hFinds⟩ := hFinds
    have hFound := hFinds (n + (best.nHeight.toNat + state.nHeight.toNat + 2)) (Nat.le_add_right _ _)
    rw [findFork_eq tree hBest hState (by omega), List.nil_append, List.nil_append] at hFound
    have hLists := Prod.mk.inj (Except.ok.inj hFound)
    exact hDisconnect.mp hLists.1
  · intro hSame
    refine ⟨best.nHeight.toNat + state.nHeight.toNat + 2, fun nFuel hFuel => ?_⟩
    rw [findFork_eq tree hBest hState (by omega), List.nil_append, List.nil_append,
      hDisconnect.mpr hSame]
    rw [hConnect.mpr fun x hx y hy hEqual => (hSame y hy x hx (equal_symm hEqual)).symm]

/-! ## Two blocks with different prime offsets -/

/-- The environment of a ledger with a toy hash. -/
def exampleLedger : LedgerRuntime :=
  { exampleRuntime with
    SK1024 := fun bytes => BitVec.ofNat 1024 (leNat bytes % (2 ^ 1024 - 105))
    hashGenesis := 0
    fPrivate := false
    CurrentBlockVersion := 9
    StartBlockTimelock := fun _ => 0
    Ambassador := fun _ => []
    Developer := fun _ => []
    DEVELOPER := []
    GetCoinstakeReward := fun _ _ _ _ => 0 }

def firstBlock : BlockState := { nVersion := 9, nBits := 1 }

/-- A prime block on the first one. -/
def primeBlock (nNonce : UInt64) (vOffsets : List UInt8) : BlockState :=
  { nVersion := 9, hashPrevBlock := firstBlock.GetHash exampleLedger, nChannel := CHANNEL.PRIME,
    nHeight := 1, nBits := 1, nNonce, vOffsets }

def primeBlocks : List BlockState :=
  [firstBlock, primeBlock 1 [2, 0], primeBlock 1 [2, 1], primeBlock 2 [2, 0]]

/-- The records of some blocks. -/
def blockRecords (rt : LedgerRuntime) (vStates : List BlockState) : Records :=
  { blocks := fun hash => vStates.find? fun state => state.GetHash rt = hash }

theorem of_blockRecords {vStates : List BlockState}
    (h : (blockRecords rt vStates).ReadBlock hash = some state) :
    state ∈ vStates ∧ state.GetHash rt = hash := by
  have hFind : vStates.find? (fun state => state.GetHash rt = hash) = some state := h
  exact ⟨List.mem_of_find?_eq_some hFind, by simpa using List.find?_some hFind⟩

/-- The records of blocks that name each other are a tree. -/
theorem blockRecords_tree {vStates : List BlockState}
    (hNull : ∀ state ∈ vStates, ¬ state.IsNull)
    (hParent : ∀ state ∈ vStates,
      (state.GetHash rt = hashGenesis ∧ state.hashPrevBlock = 0 ∧ state.nHeight = 0) ∨
        (state.hashPrevBlock ≠ 0 ∧
          ∃ prev ∈ (blockRecords rt vStates).ReadBlock state.hashPrevBlock,
            state.nHeight.toNat = prev.nHeight.toNat + 1)) :
    Tree rt (blockRecords rt vStates) hashGenesis where
  key h := (of_blockRecords h).2
  notNull h := hNull _ (of_blockRecords h).1
  parent {hash state} h := by
    obtain ⟨hMem, hHash⟩ := of_blockRecords h
    rw [← hHash]
    exact hParent state hMem

/-- The first block, and three prime blocks on it. -/
def primeRecords : Records := blockRecords exampleLedger primeBlocks

theorem primeRecords_tree :
    Tree exampleLedger primeRecords (firstBlock.GetHash exampleLedger) :=
  blockRecords_tree (by decide +kernel) (by decide +kernel)

theorem primeBlock_stored (nNonce : UInt64) (vOffsets : List UInt8)
    (h : primeRecords.ReadBlock ((primeBlock nNonce vOffsets).GetHash exampleLedger) =
      some (primeBlock nNonce vOffsets)) :
    Stored exampleLedger primeRecords (primeBlock nNonce vOffsets) :=
  ⟨_, h, (@equal_tells primeRecords).refl _⟩

theorem fork_exact_siblings :
    ∃ n, ∀ nFuel, n ≤ nFuel →
      BlockState.findFork primeRecords nFuel (primeBlock 1 [2, 0]) (primeBlock 2 [2, 0]) [] [] =
        .ok ((blockForest primeRecords).branch (SameHash exampleLedger) (primeBlock 1 [2, 0])
            (primeBlock 2 [2, 0]),
          (blockForest primeRecords).branch (SameHash exampleLedger) (primeBlock 2 [2, 0])
            (primeBlock 1 [2, 0])) :=
  (fork_exact_iff primeRecords_tree (primeBlock_stored 1 [2, 0] (by decide +kernel))
    (primeBlock_stored 2 [2, 0] (by decide +kernel))).mpr (by decide +kernel)

/-- The walk takes two blocks that differ in their offsets for one: neither is disconnected, and
neither connected. -/
theorem fork_misses_twin :
    Tree exampleLedger primeRecords (firstBlock.GetHash exampleLedger) ∧
      Stored exampleLedger primeRecords (primeBlock 1 [2, 0]) ∧
      Stored exampleLedger primeRecords (primeBlock 1 [2, 1]) ∧
      ¬ ∃ n, ∀ nFuel, n ≤ nFuel → BlockState.findFork primeRecords nFuel (primeBlock 1 [2, 0])
          (primeBlock 1 [2, 1]) [] [] =
        .ok ((blockForest primeRecords).branch (SameHash exampleLedger) (primeBlock 1 [2, 0])
            (primeBlock 1 [2, 1]),
          (blockForest primeRecords).branch (SameHash exampleLedger) (primeBlock 1 [2, 1])
            (primeBlock 1 [2, 0])) := by
  refine ⟨primeRecords_tree, primeBlock_stored 1 [2, 0] (by decide +kernel),
    primeBlock_stored 1 [2, 1] (by decide +kernel), ?_⟩
  intro hFinds
  obtain ⟨n, hFinds⟩ := hFinds
  have hFound := hFinds (n + 1) (Nat.le_succ n)
  have hEqual : (primeBlock 1 [2, 0]).Equal (primeBlock 1 [2, 1]) := by decide +kernel
  have hBranch : (blockForest primeRecords).branch (SameHash exampleLedger) (primeBlock 1 [2, 0])
      (primeBlock 1 [2, 1]) ≠ [] := by decide +kernel
  unfold BlockState.findFork at hFound
  rw [if_pos hEqual] at hFound
  exact hBranch (Prod.mk.inj (Except.ok.inj hFound)).1.symm

end Nexus.Safety
