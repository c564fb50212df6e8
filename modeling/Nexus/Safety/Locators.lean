import Nexus.Ledger.Locator
import Nexus.Safety.Forks

/-!
# Locators and the start of the chain

The walk of a locator takes 22 turns of growing steps.  Over a chain that is longer
than these steps together every entry is a block of the chain.  On a shorter chain the
walk runs over the first block into the null state, and the hash of the null state is
listed like that of a block.
-/

namespace Nexus.Safety

open Nexus.Lib.Checked
open Nexus.Ledger
open Nexus.LLD
open Nexus.Util

namespace Locators

/-- A chain of `n + 1` stored blocks back to the genesis block: `anc d` is the block that lies
`d` blocks before the last one.  The null state is never stored, and no block has the hash of the one
that a walk at the time makes. -/
structure StoredChain (rt : LedgerRuntime) (nTime : UInt64) (db : LLD.Records) (n : Nat)
    (anc : Nat → BlockState) : Prop where
  read : ∀ d, d ≤ n → db.ReadBlock ((anc d).GetHash rt) = some (anc d)
  notNull : ∀ d, d ≤ n → ¬ (anc d).IsNull
  link : ∀ d, d < n → (anc d).hashPrevBlock = (anc (d + 1)).GetHash rt
  hashed : ∀ d, d ≤ n → (anc d).GetHash rt ≠ 0
  height : ∀ d, d < n → (anc d).nHeight.toNat = (anc (d + 1)).nHeight.toNat + 1
  first : (anc n).hashPrevBlock = 0
  genesis : (anc n).GetHash rt = rt.hashGenesis
  nullHash : ∀ d, d ≤ n → (anc d).GetHash rt ≠ (Locator.nullState rt nTime).GetHash rt

/-- The step with which a list of `size` entries is extended. -/
def stepAt (size : Nat) : Nat := if size ≤ 11 then 1 else 2 ^ (size - 11)

/-- What a locator lists: blocks of the chain by their distances, which begin at the block, end
at the genesis block, and grow by no more than the step between blocks before the genesis. -/
def Lists (rt : LedgerRuntime) (n : Nat) (anc : Nat → BlockState) (vHave : List Uint1024) : Prop :=
  ∃ ds : List Nat, vHave = ds.map (fun d => (anc d).GetHash rt) ∧ (∀ d ∈ ds, d ≤ n) ∧
    ds.head? = some 0 ∧ ds.getLast? = some n ∧
    (ds.map fun d => (anc d).nHeight.toNat).Pairwise (· > ·) ∧
    ∀ k d e, ds[k]? = some d → ds[k + 1]? = some e → e ≠ n → e ≤ d + stepAt (k + 1)

variable {rt : LedgerRuntime} {nTime : UInt64} {db : LLD.Records} {n : Nat} {anc : Nat → BlockState}

section Chain

variable (h : StoredChain rt nTime db n anc)
include h

theorem prev_eq {d : Nat} (hd : d < n) : Locator.prev rt nTime db (anc d) = .ok (anc (d + 1)) := by
  have hLink := h.link d hd
  have hHash := h.hashed (d + 1) hd
  rw [Locator.prev, BlockState.Prev, hLink, if_neg hHash, if_neg hHash, h.read (d + 1) hd]
  rfl

theorem prev_first : Locator.prev rt nTime db (anc n) = .ok (Locator.nullState rt nTime) := by
  rw [Locator.prev, if_pos h.first]

/-- Inside of the chain the steps lead to the block at their end. -/
theorem stepBack_inside {i d : Nat} (hd : d + i ≤ n) :
    Locator.stepBack rt nTime db i (anc d) = .ok (anc (d + i)) := by
  induction i generalizing d with
  | zero => rfl
  | succ i ih =>
      have hNext : d + (i + 1) = d + 1 + i := by omega
      rw [Locator.stepBack, if_neg (h.notNull d (by omega)), prev_eq h (by omega), hNext]
      exact ih (by omega)

/-- Over its end they lead to the null state. -/
theorem stepBack_outside {i d : Nat} (hd : d ≤ n) (hi : n < d + i) :
    Locator.stepBack rt nTime db i (anc d) = .ok (Locator.nullState rt nTime) := by
  induction i generalizing d with
  | zero => omega
  | succ i ih =>
      rw [Locator.stepBack, if_neg (h.notNull d hd)]
      by_cases hEnd : d = n
      · subst hEnd
        rw [prev_first h]
        show Locator.stepBack rt nTime db i (Locator.nullState rt nTime) = .ok (Locator.nullState rt nTime)
        cases i with
        | zero => rfl
        | succ i =>
            rw [Locator.stepBack]
            exact if_pos rfl
      · rw [prev_eq h (by omega)]
        exact ih (by omega) (by omega)

theorem height_eq {d : Nat} (hd : d ≤ n) :
    (anc d).nHeight.toNat = (anc n).nHeight.toNat + (n - d) := by
  induction i : n - d generalizing d with
  | zero =>
      obtain rfl : d = n := by omega
      rfl
  | succ i ih =>
      have hStep := h.height d (by omega)
      have hNext := ih (d := d + 1) (by omega) (by omega)
      omega

/-- No two blocks of the chain have one hash. -/
theorem hash_inj {d e : Nat} (hd : d ≤ n) (he : e ≤ n)
    (hEq : (anc d).GetHash rt = (anc e).GetHash rt) : d = e := by
  have hRead := h.read d hd
  rw [hEq, h.read e he] at hRead
  have hHeight := congrArg (fun state => state.nHeight.toNat) (Option.some.inj hRead)
  have hD := height_eq h hd
  have hE := height_eq h he
  omega

end Chain

/-! ## The walk -/

/-- The distance after `k` turns. -/
def dist : Nat → Nat
  | 0 => 0
  | k + 1 => dist k + stepAt (k + 1)

theorem dist_all : dist 22 = 4105 := by decide +kernel

theorem stepAt_pos (size : Nat) : 0 < stepAt size := by
  rw [stepAt]
  split
  · norm_num
  · positivity

theorem dist_strictMono : StrictMono dist :=
  strictMono_nat_of_lt_succ fun k => Nat.lt_add_of_pos_right (stepAt_pos (k + 1))

/-- The entries after `k` turns. -/
def entries (rt : LedgerRuntime) (anc : Nat → BlockState) (k : Nat) : List Uint1024 :=
  (List.range (k + 1)).map fun i => (anc (dist i)).GetHash rt

theorem entries_length (k : Nat) : (entries rt anc k).length = k + 1 := by simp [entries]

theorem entries_succ (k : Nat) :
    entries rt anc (k + 1) = entries rt anc k ++ [(anc (dist (k + 1))).GetHash rt] := by
  rw [entries, List.range_succ, List.map_append]
  rfl

/-- The step grows as the code doubles it. -/
theorem stepAt_next (k : Nat) :
    (if 10 < k + 1 then stepAt (k + 1) * 2 else stepAt (k + 1)) = stepAt (k + 2) := by
  by_cases hk : 10 < k + 1
  · rw [if_pos hk]
    by_cases hAt : k + 1 ≤ 11
    · obtain rfl : k = 10 := by omega
      rfl
    · have hNext : ¬ k + 2 ≤ 11 := by omega
      have hExp : k + 2 - 11 = k + 1 - 11 + 1 := by omega
      rw [stepAt, if_neg hAt, stepAt, if_neg hNext, hExp, Nat.pow_succ]
  · have hAt : k + 1 ≤ 11 := by omega
    have hNext : k + 2 ≤ 11 := by omega
    rw [if_neg hk, stepAt, if_pos hAt, stepAt, if_pos hNext]

/-- One turn inside of the chain. -/
theorem setLoop_inside (h : StoredChain rt nTime db n anc) {left k : Nat} (hk : dist (k + 1) ≤ n) :
    Locator.setLoop rt nTime db (left + 1) (entries rt anc k) (stepAt (k + 1)) (anc (dist k)) =
      Locator.setLoop rt nTime db left (entries rt anc (k + 1)) (stepAt (k + 2)) (anc (dist (k + 1))) := by
  have hLess : dist k < dist (k + 1) := dist_strictMono (Nat.lt_succ_self k)
  rw [Locator.setLoop, if_neg (h.notNull _ (by omega)), stepBack_inside h (by exact hk), entries_length]
  show Locator.setLoop rt nTime db left (entries rt anc k ++ [_]) _ _ = _
  rw [stepAt_next, entries_succ]
  rfl

/-- A chain beyond the steps is walked to the last turn. -/
theorem setLoop_long (h : StoredChain rt nTime db n anc) (hn : dist 22 ≤ n) {left k : Nat} (hk : k + left = 22) :
    Locator.setLoop rt nTime db left (entries rt anc k) (stepAt (k + 1)) (anc (dist k)) =
      .ok (entries rt anc 22) := by
  induction left generalizing k with
  | zero =>
      obtain rfl : k = 22 := by omega
      rfl
  | succ left ih =>
      have hDist : dist (k + 1) ≤ dist 22 := dist_strictMono.monotone (by omega)
      rw [setLoop_inside h (by omega)]
      exact ih (by omega)

/-- On a shorter chain the hash of the null state is pushed, and the walk ends. -/
theorem setLoop_short (h : StoredChain rt nTime db n anc) (hn : n < dist 22) (left : Nat) {k : Nat}
    (hk : k + left = 22) (hDist : dist k ≤ n) : ∃ vHave,
      Locator.setLoop rt nTime db left (entries rt anc k) (stepAt (k + 1)) (anc (dist k)) =
        .ok (vHave ++ [(Locator.nullState rt nTime).GetHash rt]) := by
  induction left generalizing k with
  | zero =>
      obtain rfl : k = 22 := by omega
      omega
  | succ left ih =>
      by_cases hIn : dist (k + 1) ≤ n
      · rw [setLoop_inside h hIn]
        exact ih (by omega) hIn
      · rw [Locator.setLoop, if_neg (h.notNull _ hDist),
          stepBack_outside h hDist (Nat.lt_of_not_le hIn)]
        refine ⟨entries rt anc k, ?_⟩
        show Locator.setLoop rt nTime db left (entries rt anc k ++ [_]) _ (Locator.nullState rt nTime) = _
        cases left with
        | zero => rfl
        | succ left =>
            rw [Locator.setLoop]
            exact if_pos rfl

/-- The locator of a block that is not the genesis block. -/
theorem ofHash_eq (h : StoredChain rt nTime db n anc) (hn : 0 < n) :
    Locator.ofHash rt nTime db ((anc 0).GetHash rt) = (do
      let vHave ← Locator.setLoop rt nTime db 22 (entries rt anc 0) (stepAt 1) (anc (dist 0))
      return vHave ++ [rt.hashGenesis]) := by
  have hGenesis : (anc 0).GetHash rt ≠ rt.hashGenesis := by
    rw [← h.genesis]
    intro hEq
    have hZero := hash_inj h (Nat.zero_le n) le_rfl hEq
    omega
  rw [Locator.ofHash, if_neg hGenesis, h.read 0 (Nat.zero_le n)]
  rfl

theorem ofHash_genesis (h : StoredChain rt nTime db 0 anc) :
    Locator.ofHash rt nTime db ((anc 0).GetHash rt) = .ok [(anc 0).GetHash rt] := by
  rw [Locator.ofHash, if_pos h.genesis]

/-! ## What is listed -/

theorem lists_genesis : Lists rt 0 anc [(anc 0).GetHash rt] :=
  ⟨[0], rfl, by simp, rfl, rfl, by simp, by intro k d e hd he; simp at he⟩

/-- Over a chain that is longer than the steps the locator is as it should be. -/
theorem lists_long (h : StoredChain rt nTime db n anc) (hn : dist 22 < n) :
    Lists rt n anc (entries rt anc 22 ++ [rt.hashGenesis]) := by
  have hBound : ∀ d ∈ (List.range 23).map dist ++ [n], d ≤ n := by
    intro d hd
    rcases List.mem_append.mp hd with hd | hd
    · obtain ⟨i, hi, rfl⟩ := List.mem_map.mp hd
      have hLe : dist i ≤ dist 22 :=
        dist_strictMono.monotone (Nat.le_of_lt_succ (List.mem_range.mp hi))
      omega
    · rw [List.mem_singleton.mp hd]
  refine ⟨(List.range 23).map dist ++ [n], ?_, hBound, rfl, List.getLast?_concat, ?_, ?_⟩
  · rw [entries, List.map_append, List.map_map, List.map_singleton, h.genesis]
    rfl
  · -- the distances grow, so the heights fall
    have hGrow : ((List.range 23).map dist ++ [n]).Pairwise (· < ·) := by
      rw [List.pairwise_append]
      refine ⟨?_, by simp, ?_⟩
      · rw [List.pairwise_map]
        exact List.pairwise_lt_range.imp fun hij => dist_strictMono hij
      · intro d hd e he
        obtain ⟨i, hi, rfl⟩ := List.mem_map.mp hd
        obtain rfl := List.mem_singleton.mp he
        have hLe : dist i ≤ dist 22 :=
          dist_strictMono.monotone (Nat.le_of_lt_succ (List.mem_range.mp hi))
        omega
    rw [List.pairwise_map]
    apply hGrow.imp_of_mem
    intro d e hd he hLess
    have hD := height_eq h (hBound d hd)
    have hE := height_eq h (hBound e he)
    have hE' := hBound e he
    omega
  · intro k d e hd he hNot
    have hLength : ((List.range 23).map dist).length = 23 := by simp
    by_cases hk : k + 1 < 23
    · rw [List.getElem?_append_left (by omega), List.getElem?_map, List.getElem?_range (by omega)] at hd
      rw [List.getElem?_append_left (by omega), List.getElem?_map, List.getElem?_range hk] at he
      obtain rfl := Option.some.inj hd
      obtain rfl := Option.some.inj he
      exact le_rfl
    · rw [List.getElem?_append_right (by omega), hLength] at he
      by_cases hAt : k + 1 - 23 = 0
      · rw [hAt] at he
        exact absurd (Option.some.inj he).symm hNot
      · rw [List.getElem?_eq_none (by simpa using by omega)] at he
        exact absurd he (by simp)

/-- Heights that fall do not list a block twice. -/
theorem not_lists_twice (h : StoredChain rt nTime db n anc) {vHave : List Uint1024} :
    ¬ Lists rt n anc (vHave ++ [rt.hashGenesis] ++ [rt.hashGenesis]) := by
  rintro ⟨ds, hMap, hBound, -, -, hHeights, -⟩
  obtain ⟨ds', last, rfl, hMap', hLast⟩ := List.map_eq_append_iff.mp hMap.symm
  obtain ⟨d, rfl, hD⟩ := List.map_eq_singleton_iff.mp hLast
  obtain ⟨ds'', last', rfl, -, hLast'⟩ := List.map_eq_append_iff.mp hMap'
  obtain ⟨e, rfl, hE⟩ := List.map_eq_singleton_iff.mp hLast'
  obtain rfl : e = d := hash_inj h (hBound e (by simp)) (hBound d (by simp)) (hE.trans hD.symm)
  rw [List.map_append, List.pairwise_append] at hHeights
  exact absurd (hHeights.2.2 (anc e).nHeight.toNat (by simp) (anc e).nHeight.toNat (by simp))
    (lt_irrefl _)

/-- The hash of the null state is not that of a block. -/
theorem not_lists_null (h : StoredChain rt nTime db n anc) {vHave : List Uint1024}
    (hNull : (Locator.nullState rt nTime).GetHash rt ∈ vHave) : ¬ Lists rt n anc vHave := by
  rintro ⟨ds, rfl, hBound, -⟩
  obtain ⟨d, hd, hHash⟩ := List.mem_map.mp hNull
  exact h.nullHash d (hBound d hd) hHash

theorem lists_iff (h : StoredChain rt nTime db n anc) :
    (∃ vHave, Locator.ofHash rt nTime db ((anc 0).GetHash rt) = .ok vHave ∧ Lists rt n anc vHave) ↔
      n = 0 ∨ 4105 < n := by
  by_cases h0 : n = 0
  · subst h0
    exact ⟨fun _ => .inl rfl, fun _ => ⟨_, ofHash_genesis h, lists_genesis⟩⟩
  rw [ofHash_eq h (Nat.pos_of_ne_zero h0), ← dist_all]
  constructor
  · rintro ⟨vHave, hRun, hLists⟩
    by_contra hShort
    by_cases hAt : n = dist 22
    · -- the last turn ends on the genesis block, which is pushed once more
      rw [setLoop_long h (le_of_eq hAt.symm) (by norm_num)] at hRun
      have hTwice : vHave = entries rt anc 21 ++ [rt.hashGenesis] ++ [rt.hashGenesis] := by
        rw [← Except.ok.inj hRun, entries_succ, ← h.genesis, hAt]
      rw [hTwice] at hLists
      exact not_lists_twice h hLists
    · obtain ⟨vHave', hLoop⟩ := setLoop_short h (by omega) 22 (k := 0) (by norm_num)
        (Nat.zero_le n)
      rw [hLoop] at hRun
      have hNull : (Locator.nullState rt nTime).GetHash rt ∈ vHave := by
        rw [← Except.ok.inj hRun]
        simp
      exact not_lists_null h hNull hLists
  · rintro (hZero | hLong)
    · exact absurd hZero h0
    · rw [setLoop_long h hLong.le (by norm_num)]
      exact ⟨_, rfl, lists_long h hLong⟩

end Locators

open Locators

/-- The locator of a block lists blocks of its chain, each once and back to the genesis block, for
the genesis block itself and for the blocks that more than 4105 blocks lie before. -/
theorem locator_lists {rt : LedgerRuntime} {nTime : UInt64} {db : LLD.Records} {n : Nat}
    {anc : Nat → BlockState}
    (h : StoredChain rt nTime db n anc) :
    (∃ vHave, Locator.ofHash rt nTime db ((anc 0).GetHash rt) = .ok vHave ∧ Lists rt n anc vHave) ↔
      n = 0 ∨ 4105 < n :=
  lists_iff h

/-! ## A chain of two blocks -/

/-- The environment whose genesis block is the first block. -/
def locatorLedger : LedgerRuntime :=
  { exampleLedger with hashGenesis := firstBlock.GetHash exampleLedger }

/-- A block on the first one. -/
def secondBlock : BlockState := primeBlock 1 [2, 0]

/-- A block and the one before it. -/
def twoOf (state first : BlockState) (d : Nat) : BlockState := if d = 0 then state else first

/-- Two blocks are a chain when the second names the first. -/
theorem two_stored {rt : LedgerRuntime} {nTime : UInt64} {state first : BlockState}
    (hNe : state.GetHash rt ≠ first.GetHash rt)
    (hBlocks : ∀ block ∈ [state, first], ¬ block.IsNull ∧ block.GetHash rt ≠ 0 ∧
      block.GetHash rt ≠ (Locator.nullState rt nTime).GetHash rt)
    (hLink : state.hashPrevBlock = first.GetHash rt)
    (hHeight : state.nHeight.toNat = first.nHeight.toNat + 1)
    (hFirst : first.hashPrevBlock = 0) (hGenesis : first.GetHash rt = rt.hashGenesis) :
    StoredChain rt nTime (blockRecords rt [state, first]) 1 (twoOf state first) := by
  have hMem : ∀ d, twoOf state first d ∈ [state, first] := by
    intro d
    by_cases hd : d = 0 <;> simp [twoOf, hd]
  have hZero : ∀ d, d < 1 → d = 0 := fun d hd => by omega
  constructor
  · intro d _
    by_cases hd : d = 0
    · simp [twoOf, hd, LLD.Records.ReadBlock, blockRecords]
    · simp [twoOf, hd, LLD.Records.ReadBlock, blockRecords, hNe]
  · exact fun d _ => (hBlocks _ (hMem d)).1
  · intro d hd
    rw [hZero d hd]
    exact hLink
  · exact fun d _ => (hBlocks _ (hMem d)).2.1
  · intro d hd
    rw [hZero d hd]
    exact hHeight
  · exact hFirst
  · exact hGenesis
  · exact fun d _ => (hBlocks _ (hMem d)).2.2

theorem hash_withGenesis (rt : LedgerRuntime) (hashGenesis : Uint1024) (state : BlockState) :
    state.GetHash { rt with hashGenesis } = state.GetHash rt := rfl

theorem hash_locatorLedger (state : BlockState) :
    state.GetHash locatorLedger = state.GetHash exampleLedger := by
  rw [locatorLedger]
  exact hash_withGenesis exampleLedger _ state

theorem twoBlocks_stored :
    StoredChain locatorLedger 100 (blockRecords locatorLedger [secondBlock, firstBlock]) 1
      (twoOf secondBlock firstBlock) := by
  apply two_stored
  · decide +kernel
  · decide +kernel
  · rw [hash_locatorLedger, secondBlock, primeBlock]
  · decide
  · decide +kernel
  · rw [hash_locatorLedger, locatorLedger]

theorem firstBlock_stored :
    StoredChain locatorLedger 100 (blockRecords locatorLedger [firstBlock]) 0 fun _ => firstBlock := by
  constructor
  · intro d _
    simp [LLD.Records.ReadBlock, blockRecords]
  · exact fun _ _ => by decide +kernel
  · exact fun _ hd => absurd hd (Nat.not_lt_zero _)
  · exact fun _ _ => by decide +kernel
  · exact fun _ hd => absurd hd (Nat.not_lt_zero _)
  · decide +kernel
  · rw [hash_locatorLedger, locatorLedger]
  · exact fun _ _ => by decide +kernel

/-- The locator of the first block lists it. -/
theorem locator_lists_first :
    ∃ vHave, Locator.ofHash locatorLedger 100 (blockRecords locatorLedger [firstBlock])
        (firstBlock.GetHash locatorLedger) = .ok vHave ∧
      Lists locatorLedger 0 (fun _ => firstBlock) vHave :=
  (locator_lists firstBlock_stored).mpr (.inl rfl)

/-- The locator of the second block lists the hash of the null state. -/
theorem locator_of_second :
    StoredChain locatorLedger 100 (blockRecords locatorLedger [secondBlock, firstBlock]) 1
      (twoOf secondBlock firstBlock) ∧
    ¬ ∃ vHave, Locator.ofHash locatorLedger 100
      (blockRecords locatorLedger [secondBlock, firstBlock])
        ((twoOf secondBlock firstBlock 0).GetHash locatorLedger) = .ok vHave ∧
      Lists locatorLedger 1 (twoOf secondBlock firstBlock) vHave := by
  refine ⟨twoBlocks_stored, ?_⟩
  intro hLists
  have hCases := (lists_iff twoBlocks_stored).mp hLists
  omega

end Nexus.Safety
