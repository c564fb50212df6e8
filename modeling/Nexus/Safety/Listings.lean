import Mathlib.Data.List.Chain
import Mathlib.Data.List.TakeWhile
import Nexus.Ledger.Listing
import Nexus.Safety.Consistency

/-!
# What the memory pool lists

The list is the runs of the chains up to the first chain that is not listed, or is cut
where the count is used up.  A run that reaches the end of its chain counts one less
than it has, so that a list is cut at the right length only where no chain before the
cut is whole.
-/

namespace Nexus.Safety

open Nexus.Util
open Nexus.Ledger

namespace Listings

section

variable (rt : Runtime)

/-- The hashes of the longest run at the start of a chain. -/
def hashes (vtx : List Transaction) : List Uint512 :=
  (Mempool.sequenced rt vtx).map (·.GetHash rt)

/-- All transactions of a chain are in its run. -/
def Whole (vtx : List Transaction) : Prop := (Mempool.sequenced rt vtx).length = vtx.length

instance (vtx : List Transaction) : Decidable (Whole rt vtx) :=
  inferInstanceAs (Decidable (_ = _))

/-- What a run counts: the last transaction of a chain is not counted. -/
def counted (vtx : List Transaction) : Nat :=
  if Whole rt vtx then (hashes rt vtx).length - 1 else (hashes rt vtx).length

variable {rt}

theorem hashes_pos (rt : Runtime) {vtx : List Transaction} (h : vtx ≠ []) : 0 < (hashes rt vtx).length := by
  cases vtx with
  | nil => exact absurd rfl h
  | cons tx vtx =>
      obtain ⟨vtx', hHead⟩ := sequenced_head rt tx vtx
      simp [hashes, hHead]

theorem counted_whole {vtx : List Transaction} (hNil : vtx ≠ []) (h : Whole rt vtx) :
    (hashes rt vtx).length = counted rt vtx + 1 := by
  have hPos := hashes_pos rt hNil
  rw [counted, if_pos h]
  omega

theorem counted_orphan {vtx : List Transaction} (h : ¬ Whole rt vtx) :
    (hashes rt vtx).length = counted rt vtx := by
  rw [counted, if_neg h]

theorem counted_le (rt : Runtime) (vtx : List Transaction) : counted rt vtx ≤ (hashes rt vtx).length := by
  rw [counted]
  split <;> omega

theorem hashes_follows {tx txNext : Transaction} {vtx : List Transaction}
    (h : Follows rt tx txNext) :
    hashes rt (tx :: txNext :: vtx) = tx.GetHash rt :: hashes rt (txNext :: vtx) := by
  rw [hashes, sequenced_cons_cons, if_pos h]
  rfl

theorem counted_follows {tx txNext : Transaction} {vtx : List Transaction}
    (h : Follows rt tx txNext) :
    counted rt (tx :: txNext :: vtx) = counted rt (txNext :: vtx) + 1 := by
  have hWhole : Whole rt (tx :: txNext :: vtx) ↔ Whole rt (txNext :: vtx) := by
    rw [Whole, Whole, sequenced_cons_cons, if_pos h, List.length_cons, List.length_cons]
    exact Nat.succ_inj
  have hPos := hashes_pos rt (List.cons_ne_nil txNext vtx)
  rw [counted, counted, hashes_follows h, List.length_cons]
  by_cases hRest : Whole rt (txNext :: vtx)
  · rw [if_pos (hWhole.mpr hRest), if_pos hRest]
    omega
  · rw [if_neg (hWhole.not.mpr hRest), if_neg hRest]

theorem hashes_orphan {tx txNext : Transaction} {vtx : List Transaction}
    (h : ¬ Follows rt tx txNext) : hashes rt (tx :: txNext :: vtx) = [tx.GetHash rt] := by
  rw [hashes, sequenced_cons_cons, if_neg h]
  rfl

theorem counted_orphans {tx txNext : Transaction} {vtx : List Transaction}
    (h : ¬ Follows rt tx txNext) : counted rt (tx :: txNext :: vtx) = 1 := by
  have hNot : ¬ Whole rt (tx :: txNext :: vtx) := by
    rw [Whole, sequenced_cons_cons, if_neg h]
    simp
  rw [← counted_orphan hNot, hashes_orphan h]
  rfl

/-! ## What the loops list -/

/-- A chain is listed up to the count, or its run is listed and counted. -/
theorem listSequence_eq {vtx : List Transaction} (hNil : vtx ≠ []) {nCount : Nat}
    (hCount : 0 < nCount) :
    Node.listSequence rt vtx nCount =
      if nCount ≤ counted rt vtx then ((hashes rt vtx).take nCount, none)
      else (hashes rt vtx, some (nCount - counted rt vtx)) := by
  induction vtx generalizing nCount with
  | nil => exact absurd rfl hNil
  | cons tx vtx ih =>
      cases vtx with
      | nil =>
          have hZero : counted rt [tx] = 0 := rfl
          rw [hZero, if_neg (by omega)]
          rfl
      | cons txNext vtx =>
          rw [Node.listSequence]
          by_cases hFollows : Follows rt tx txNext
          · have hPrev : txNext.hashPrevTx = tx.GetHash rt := hFollows
            rw [counted_follows hFollows, hashes_follows hFollows]
            by_cases hLast : nCount - 1 = 0
            · rw [if_pos hLast, if_pos (by omega), show nCount = 1 by omega]
              rfl
            · rw [if_neg hLast, if_pos hPrev, ih (List.cons_ne_nil _ _) (by omega)]
              by_cases hCut : nCount - 1 ≤ counted rt (txNext :: vtx)
              · obtain ⟨n, rfl⟩ : ∃ n, nCount = n + 1 := ⟨nCount - 1, by omega⟩
                rw [if_pos hCut, if_pos (by omega)]
                rfl
              · rw [if_neg hCut, if_neg (by omega)]
                simp only [Prod.mk.injEq, Option.some.injEq, true_and]
                omega
          · have hPrev : txNext.hashPrevTx ≠ tx.GetHash rt := hFollows
            rw [counted_orphans hFollows, hashes_orphan hFollows]
            by_cases hLast : nCount - 1 = 0
            · rw [if_pos hLast, if_pos (by omega), show nCount = 1 by omega]
              rfl
            · rw [if_neg hLast, if_neg hPrev, if_neg (by omega)]

end

section

variable {rt : Runtime} {db : LLD.Records}

theorem listed_nonempty {chain : Uint256 × List Transaction} (h : Node.listed db chain = true) :
    chain.2 ≠ [] := by
  intro hNil
  rw [Node.listed, hNil] at h
  cases h

/-- The hashes of the runs of some chains. -/
def total (rt : Runtime) (chains : List (Uint256 × List Transaction)) : Nat :=
  (chains.map fun chain => (hashes rt chain.2).length).sum

/-- What these runs count. -/
def totalCounted (rt : Runtime) (chains : List (Uint256 × List Transaction)) : Nat :=
  (chains.map fun chain => counted rt chain.2).sum

theorem totalCounted_le (rt : Runtime) (chains : List (Uint256 × List Transaction)) :
    totalCounted rt chains ≤ total rt chains := by
  induction chains with
  | nil => exact le_refl 0
  | cons chain chains ih => exact Nat.add_le_add (counted_le rt chain.2) ih

theorem total_eq_iff (rt : Runtime) {chains : List (Uint256 × List Transaction)}
    (h : ∀ chain ∈ chains, chain.2 ≠ []) :
    total rt chains ≤ totalCounted rt chains ↔ ∀ chain ∈ chains, ¬ Whole rt chain.2 := by
  induction chains with
  | nil => simp [total, totalCounted]
  | cons chain chains ih =>
      obtain ⟨hHead, hRest⟩ := List.forall_mem_cons.mp h
      have hLe := totalCounted_le rt chains
      have hTotal : total rt (chain :: chains) = (hashes rt chain.2).length + total rt chains := rfl
      have hCounted : totalCounted rt (chain :: chains) =
        counted rt chain.2 + totalCounted rt chains := rfl
      rw [List.forall_mem_cons, ← ih hRest, hTotal, hCounted]
      by_cases hWhole : Whole rt chain.2
      · have hLength := counted_whole hHead hWhole
        simp only [hWhole, not_true_eq_false, false_and, iff_false]
        omega
      · have hLength := counted_orphan hWhole
        simp only [hWhole, not_false_eq_true, true_and]
        omega

theorem total_append (chains chains' : List (Uint256 × List Transaction)) :
    total rt (chains ++ chains') = total rt chains + total rt chains' := by
  simp [total]

theorem length_runs (rt : Runtime) (chains : List (Uint256 × List Transaction)) :
    (chains.flatMap fun chain => hashes rt chain.2).length = total rt chains := by
  rw [List.length_flatMap]
  rfl

/-- Where the count is not used up, the runs up to the first chain that is not listed. -/
theorem listChains_all {chains : List (Uint256 × List Transaction)} {nCount : Nat}
    (h : totalCounted rt (chains.takeWhile (Node.listed db)) < nCount) :
    Node.listChains rt db chains nCount =
      (chains.takeWhile (Node.listed db)).flatMap fun chain => hashes rt chain.2 := by
  induction chains generalizing nCount with
  | nil => rfl
  | cons chain chains ih =>
      rw [Node.listChains]
      by_cases hListed : Node.listed db chain = true
      · rw [List.takeWhile_cons, if_pos hListed] at h
        have hSplit : counted rt chain.2 +
            totalCounted rt (chains.takeWhile (Node.listed db)) < nCount := h
        rw [if_pos hListed, List.takeWhile_cons, if_pos hListed,
          listSequence_eq (listed_nonempty hListed) (by omega), if_neg (by omega)]
        exact congrArg (hashes rt chain.2 ++ ·) (ih (by omega))
      · rw [if_neg hListed, List.takeWhile_cons, if_neg hListed]
        rfl

/-- Where it is used up in a chain, the list is cut there. -/
theorem listChains_cut {before : List (Uint256 × List Transaction)}
    (behind : List (Uint256 × List Transaction)) {chain : Uint256 × List Transaction} {nCount : Nat}
    (hBefore : ∀ x ∈ before, Node.listed db x = true) (hListed : Node.listed db chain = true)
    (hMore : totalCounted rt before < nCount)
    (hCut : nCount ≤ totalCounted rt before + counted rt chain.2) :
    Node.listChains rt db (before ++ chain :: behind) nCount =
      (before.flatMap fun chain => hashes rt chain.2) ++
        (hashes rt chain.2).take (nCount - totalCounted rt before) := by
  induction before generalizing nCount with
  | nil =>
      have hZero : totalCounted rt [] = 0 := rfl
      rw [hZero] at hMore hCut ⊢
      rw [List.nil_append, Node.listChains, if_pos hListed,
        listSequence_eq (listed_nonempty hListed) hMore, if_pos (by omega)]
      rfl
  | cons x before ih =>
      obtain ⟨hHead, hRest⟩ := List.forall_mem_cons.mp hBefore
      have hSum : totalCounted rt (x :: before) = counted rt x.2 + totalCounted rt before := rfl
      rw [hSum] at hMore hCut ⊢
      rw [List.cons_append, Node.listChains, if_pos hHead,
        listSequence_eq (listed_nonempty hHead) (by omega), if_neg (by omega)]
      dsimp only
      rw [ih hRest (by omega) (by omega), List.flatMap_cons, List.append_assoc, Nat.sub_sub]

/-- A count that is used up is used up in some chain. -/
theorem exists_cut (rt : Runtime) {chains : List (Uint256 × List Transaction)} {nCount : Nat}
    (hCount : 0 < nCount) (h : nCount ≤ totalCounted rt chains) :
    ∃ before chain behind, chains = before ++ chain :: behind ∧ totalCounted rt before < nCount ∧
      nCount ≤ totalCounted rt before + counted rt chain.2 := by
  induction chains generalizing nCount with
  | nil => exact absurd h (by simp [totalCounted]; omega)
  | cons chain chains ih =>
      have hSum : totalCounted rt (chain :: chains) =
        counted rt chain.2 + totalCounted rt chains := rfl
      by_cases hHere : nCount ≤ counted rt chain.2
      · exact ⟨[], chain, chains, rfl, hCount, by simpa [totalCounted] using hHere⟩
      · obtain ⟨before, other, behind, rfl, hMore, hCut⟩ :=
          @ih (nCount - counted rt chain.2) (by omega) (by omega)
        have hSum' : totalCounted rt (chain :: before) =
          counted rt chain.2 + totalCounted rt before := rfl
        exact ⟨chain :: before, other, behind, rfl, by omega, by omega⟩

/-! ## Usable lists -/

/-- A transaction that a block body may start with for its chain. -/
def Extends (db : LLD.Records) (hashGenesis : Uint256) (tx : Transaction) : Prop :=
  tx.IsFirst ∨ db.ReadLast hashGenesis = some tx.hashPrevTx

/-- A contiguous run of the transactions of a chain, from one that extends the ledger. -/
structure IsRun (rt : Runtime) (db : LLD.Records) (chain : Uint256 × List Transaction)
    (vtx : List Transaction) : Prop where
  contiguous : vtx <:+: chain.2
  follows : vtx.IsChain (Follows rt)
  starts : ∀ tx ∈ vtx.head?, Extends db chain.1 tx

/-- A list of hashes without duplicates and of at most `nCount`: a run of each chain; and a
longest one of each chain if there is room left. -/
structure Usable (rt : Runtime) (db : LLD.Records) (chains : List (Uint256 × List Transaction))
    (nCount : Nat) (vHashes : List Uint512) : Prop where
  nodup : vHashes.Nodup
  length : vHashes.length ≤ nCount
  runs : ∃ parts : List (List Uint512), vHashes = parts.flatten ∧
    List.Forall₂ (fun part chain =>
      (∃ vtx, IsRun rt db chain vtx ∧ part = vtx.map (·.GetHash rt)) ∧
      (vHashes.length < nCount → ∀ vtx, IsRun rt db chain vtx → vtx.length ≤ part.length))
      parts chains

/-- The runs of the chains up to the first one that is not listed are no more than `nCount`, and
either as many, or longest runs with no chain behind them that extends the ledger; or the count is
used up before the last transaction of a chain, and each chain before it has an orphan. -/
def Counts (rt : Runtime) (db : LLD.Records) (chains : List (Uint256 × List Transaction))
    (nCount : Nat) : Prop :=
  (total rt (chains.takeWhile (Node.listed db)) ≤ nCount ∧
    (total rt (chains.takeWhile (Node.listed db)) = nCount ∨
      (∀ chain ∈ chains.takeWhile (Node.listed db), ∀ vtx, IsRun rt db chain vtx →
        vtx.length ≤ (hashes rt chain.2).length) ∧
      ∀ chain ∈ chains.dropWhile (Node.listed db), ∀ tx ∈ chain.2, ¬ Extends db chain.1 tx)) ∨
  ∃ before chain behind, chains.takeWhile (Node.listed db) = before ++ chain :: behind ∧
    (∀ x ∈ before, ¬ Whole rt x.2) ∧ total rt before < nCount ∧
    nCount ≤ total rt before + counted rt chain.2

theorem isRun_nil (chain : Uint256 × List Transaction) : IsRun rt db chain [] :=
  ⟨List.nil_infix, .nil, fun _ h => by cases h⟩

/-- The beginnings of the run of a listed chain are runs. -/
theorem isRun_take {chain : Uint256 × List Transaction} (h : Node.listed db chain = true)
    (n : Nat) : IsRun rt db chain ((Mempool.sequenced rt chain.2).take n) := by
  have hPrefix : (Mempool.sequenced rt chain.2).take n <+: chain.2 :=
    (List.take_prefix _ _).trans (sequenced_begins rt chain.2)
  refine ⟨hPrefix.isInfix, (sequenced_chain chain.2).take n, ?_⟩
  intro tx hHead
  have hSame : chain.2.head? = some tx := by
    obtain ⟨rest, hRest⟩ := hPrefix
    rw [← hRest, List.head?_append, hHead]
    rfl
  rw [Node.listed, hSame] at h
  have hExtends := of_decide_eq_true h
  exact hExtends

theorem isRun_sequenced {chain : Uint256 × List Transaction} (h : Node.listed db chain = true) :
    IsRun rt db chain (Mempool.sequenced rt chain.2) := by
  have hTake := @isRun_take rt _ _ h (Mempool.sequenced rt chain.2).length
  rwa [List.take_length] at hTake

/-- A chain has a run other than the empty one exactly if a transaction extends the ledger. -/
theorem isRun_empty_iff {chain : Uint256 × List Transaction} :
    (∀ vtx, IsRun rt db chain vtx → vtx.length ≤ 0) ↔ ∀ tx ∈ chain.2, ¬ Extends db chain.1 tx := by
  constructor
  · intro h tx hMem hExtends
    obtain ⟨before, behind, hSplit⟩ := List.append_of_mem hMem
    have hOne := h [tx] ⟨⟨before, behind, by rw [hSplit]; simp⟩, .singleton tx, fun other hOther => by
      rw [← Option.some.inj hOther]
      exact hExtends⟩
    exact absurd hOne (by simp)
  · intro h vtx hRun
    cases vtx with
    | nil => exact le_refl 0
    | cons tx vtx =>
        have hMem : tx ∈ chain.2 := hRun.contiguous.subset List.mem_cons_self
        exact absurd (hRun.starts tx rfl) (h tx hMem)

theorem runs_sublist {parts : List (List Uint512)} {chains : List (Uint256 × List Transaction)}
    (h : List.Forall₂ (fun part chain =>
      ∃ vtx, IsRun rt db chain vtx ∧ part = vtx.map (·.GetHash rt)) parts chains) :
    parts.flatten.Sublist ((all chains).map (·.GetHash rt)) := by
  induction h with
  | nil => exact List.Sublist.refl []
  | cons hPart _ ih =>
      obtain ⟨vtx, hRun, rfl⟩ := hPart
      have hSub := (hRun.contiguous.sublist.map (·.GetHash rt)).append ih
      simpa [all] using hSub

/-- Parts that are at least as long as all runs are as long as any length that they are to have
in sum. -/
theorem longest_tight {parts : List (List Uint512)} {chains : List (Uint256 × List Transaction)}
    (length : Uint256 × List Transaction → Nat)
    (hLength : ∀ chain ∈ chains, ∃ vtx, IsRun rt db chain vtx ∧ vtx.length = length chain)
    (h : List.Forall₂ (fun part chain =>
      ∀ vtx, IsRun rt db chain vtx → vtx.length ≤ part.length) parts chains) :
    (chains.map length).sum ≤ parts.flatten.length ∧
      (parts.flatten.length ≤ (chains.map length).sum →
        ∀ chain ∈ chains, ∀ vtx, IsRun rt db chain vtx → vtx.length ≤ length chain) := by
  induction h with
  | nil => exact ⟨le_refl 0, fun _ _ hMem => (List.not_mem_nil hMem).elim⟩
  | cons hPart _ ih =>
      rename_i part chain parts chains
      obtain ⟨hHead, hRest⟩ := List.forall_mem_cons.mp hLength
      obtain ⟨hSum, hTight⟩ := ih hRest
      obtain ⟨vtx, hRun, hEq⟩ := hHead
      have hLe := hPart vtx hRun
      rw [List.map_cons, List.sum_cons, List.flatten_cons, List.length_append]
      refine ⟨by omega, fun hAll => ?_⟩
      rw [List.forall_mem_cons]
      refine ⟨fun vtx' hRun' => ?_, hTight (by omega)⟩
      have hLe' := hPart vtx' hRun'
      omega

theorem mem_takeWhile_listed {chains : List (Uint256 × List Transaction)}
    {chain : Uint256 × List Transaction} (h : chain ∈ chains.takeWhile (Node.listed db)) :
    Node.listed db chain = true :=
  List.mem_takeWhile_imp h

variable {chains : List (Uint256 × List Transaction)} {nCount : Nat}

theorem usable_all (hDistinct : Distinct rt (all chains))
    (hMore : totalCounted rt (chains.takeWhile (Node.listed db)) < nCount)
    (hFits : total rt (chains.takeWhile (Node.listed db)) ≤ nCount)
    (hBehind : total rt (chains.takeWhile (Node.listed db)) = nCount ∨
      (∀ chain ∈ chains.takeWhile (Node.listed db), ∀ vtx, IsRun rt db chain vtx →
        vtx.length ≤ (hashes rt chain.2).length) ∧
      ∀ chain ∈ chains.dropWhile (Node.listed db), ∀ tx ∈ chain.2, ¬ Extends db chain.1 tx) :
    Usable rt db chains nCount (Node.listChains rt db chains nCount) := by
  have hLength : (Node.listChains rt db chains nCount).length =
      total rt (chains.takeWhile (Node.listed db)) := by
    rw [listChains_all hMore, length_runs]
  have hParts : List.Forall₂ (fun part chain =>
      (∃ vtx, IsRun rt db chain vtx ∧ part = vtx.map (·.GetHash rt)) ∧
      ((Node.listChains rt db chains nCount).length < nCount →
        ∀ vtx, IsRun rt db chain vtx → vtx.length ≤ part.length))
      ((chains.takeWhile (Node.listed db)).map (fun chain => hashes rt chain.2) ++
        (chains.dropWhile (Node.listed db)).map fun _ => []) chains := by
    conv => rhs; rw [← List.takeWhile_append_dropWhile (p := Node.listed db) (l := chains)]
    refine List.rel_append (List.forall₂_map_left_iff.mpr (List.forall₂_same.mpr ?_))
      (List.forall₂_map_left_iff.mpr (List.forall₂_same.mpr ?_))
    · intro chain hMem
      refine ⟨⟨_, isRun_sequenced (mem_takeWhile_listed hMem), rfl⟩, fun hLess => ?_⟩
      exact (hBehind.resolve_left (by omega)).1 chain hMem
    · intro chain hMem
      refine ⟨⟨[], isRun_nil chain, rfl⟩, fun hLess => ?_⟩
      exact isRun_empty_iff.mpr ((hBehind.resolve_left (by omega)).2 chain hMem)
  have hFlatten : Node.listChains rt db chains nCount =
      ((chains.takeWhile (Node.listed db)).map (fun chain : Uint256 × List Transaction => hashes rt chain.2) ++
        (chains.dropWhile (Node.listed db)).map fun _ => []).flatten := by
    rw [listChains_all hMore]
    simp [List.flatMap]
  refine ⟨?_, by omega, _, hFlatten, hParts⟩
  rw [hFlatten]
  exact hDistinct.sublist (runs_sublist (hParts.imp fun _ _ h => h.1))

theorem usable_cut (hDistinct : Distinct rt (all chains))
    {before behind : List (Uint256 × List Transaction)} {chain : Uint256 × List Transaction}
    (hSplit : chains.takeWhile (Node.listed db) = before ++ chain :: behind)
    (hMore : totalCounted rt before < nCount)
    (hCut : nCount ≤ totalCounted rt before + counted rt chain.2)
    (hOrphans : total rt before ≤ totalCounted rt before) :
    Usable rt db chains nCount (Node.listChains rt db chains nCount) := by
  have hListed : ∀ x ∈ before ++ chain :: behind, Node.listed db x = true := by
    intro x hx
    rw [← hSplit] at hx
    exact mem_takeWhile_listed hx
  have hChains : chains = before ++ chain :: (behind ++ chains.dropWhile (Node.listed db)) := by
    conv => lhs; rw [← List.takeWhile_append_dropWhile (p := Node.listed db) (l := chains), hSplit]
    simp
  have hList := listChains_cut (behind ++ chains.dropWhile (Node.listed db))
    (fun x hx => hListed x (List.mem_append_left _ hx)) (hListed chain (by simp)) hMore hCut
  rw [← hChains] at hList
  have hLe := totalCounted_le rt before
  have hRun := counted_le rt chain.2
  have hLength : (Node.listChains rt db chains nCount).length = nCount := by
    rw [hList, List.length_append, length_runs, List.length_take]
    omega
  have hParts : List.Forall₂ (fun part chain =>
      (∃ vtx, IsRun rt db chain vtx ∧ part = vtx.map (·.GetHash rt)) ∧
      ((Node.listChains rt db chains nCount).length < nCount →
        ∀ vtx, IsRun rt db chain vtx → vtx.length ≤ part.length))
      (before.map (fun chain => hashes rt chain.2) ++
        (hashes rt chain.2).take (nCount - totalCounted rt before) ::
          (behind ++ chains.dropWhile (Node.listed db)).map fun _ => []) chains := by
    conv => rhs; rw [hChains]
    refine List.rel_append (List.forall₂_map_left_iff.mpr (List.forall₂_same.mpr ?_))
      (.cons ?_ (List.forall₂_map_left_iff.mpr (List.forall₂_same.mpr ?_)))
    · intro x hx
      exact ⟨⟨_, isRun_sequenced (hListed x (List.mem_append_left _ hx)), rfl⟩,
        fun hLess => by omega⟩
    · exact ⟨⟨_, isRun_take (hListed chain (by simp)) _, List.map_take.symm⟩,
        fun hLess => by omega⟩
    · intro x hx
      exact ⟨⟨[], isRun_nil x, rfl⟩, fun hLess => by omega⟩
  have hFlatten : Node.listChains rt db chains nCount =
      (before.map (fun chain => hashes rt chain.2) ++
        (hashes rt chain.2).take (nCount - totalCounted rt before) ::
          (behind ++ chains.dropWhile (Node.listed db)).map fun _ => []).flatten := by
    rw [hList]
    simp [List.flatMap]
  refine ⟨?_, hLength.le, _, hFlatten, hParts⟩
  rw [hFlatten]
  exact hDistinct.sublist (runs_sublist (hParts.imp fun _ _ h => h.1))

theorem usable_iff (hCount : 0 < nCount) (hDistinct : Distinct rt (all chains)) :
    Usable rt db chains nCount (Node.listChains rt db chains nCount) ↔ Counts rt db chains nCount := by
  have hNonempty : ∀ chain ∈ chains.takeWhile (Node.listed db), chain.2 ≠ [] :=
    fun chain hMem => listed_nonempty (mem_takeWhile_listed hMem)
  constructor
  · intro hUsable
    by_cases hMore : totalCounted rt (chains.takeWhile (Node.listed db)) < nCount
    · -- the runs are listed as a whole, so a chain behind them would be missing
      left
      have hLength := hUsable.length
      obtain ⟨parts, hFlatten, hParts⟩ := hUsable.runs
      rw [listChains_all hMore] at hLength hFlatten hParts
      rw [length_runs] at hLength hParts
      refine ⟨hLength, ?_⟩
      by_cases hFull : total rt (chains.takeWhile (Node.listed db)) = nCount
      · exact .inl hFull
      · -- the parts are no longer than the runs, as their sum is not
        right
        have hLongest : List.Forall₂ (fun part chain =>
            ∀ vtx, IsRun rt db chain vtx → vtx.length ≤ part.length) parts
              (chains.takeWhile (Node.listed db) ++ chains.dropWhile (Node.listed db)) := by
          rw [List.takeWhile_append_dropWhile]
          exact hParts.imp fun _ _ h => h.2 (by omega)
        obtain ⟨hFresh, hFresh'⟩ := longest_tight
          (fun chain => (hashes rt chain.2).length) (fun chain hMem => ⟨_, isRun_sequenced (mem_takeWhile_listed hMem),
            (List.length_map _).symm⟩) (List.forall₂_take_append _ _ _ hLongest)
        obtain ⟨hBehind, hBehind'⟩ := longest_tight (fun _ => 0)
          (fun chain _ => ⟨[], isRun_nil chain, rfl⟩) (List.forall₂_drop_append _ _ _ hLongest)
        have hParted := congrArg (fun parts => parts.flatten.length)
          (List.take_append_drop (chains.takeWhile (Node.listed db)).length parts)
        simp only [List.flatten_append, List.length_append] at hParted
        have hSum := congrArg List.length hFlatten
        rw [length_runs] at hSum
        unfold total at hSum
        refine ⟨hFresh' (by omega), fun chain hMem => ?_⟩
        exact isRun_empty_iff.mp (hBehind' (by omega) chain hMem)
    · right
      obtain ⟨before, chain, behind, hSplit, hBefore, hCut⟩ :=
        exists_cut rt hCount (Nat.le_of_not_lt hMore)
      have hListed : ∀ x ∈ before ++ chain :: behind, Node.listed db x = true := by
        intro x hx
        rw [← hSplit] at hx
        exact mem_takeWhile_listed hx
      have hChains : chains = before ++ chain :: (behind ++ chains.dropWhile (Node.listed db)) := by
        conv => lhs; rw [← List.takeWhile_append_dropWhile (p := Node.listed db) (l := chains), hSplit]
        simp
      have hList := listChains_cut (behind ++ chains.dropWhile (Node.listed db))
        (fun x hx => hListed x (List.mem_append_left _ hx)) (hListed chain (by simp)) hBefore hCut
      rw [← hChains] at hList
      have hLength := hUsable.length
      rw [hList, List.length_append, length_runs, List.length_take] at hLength
      have hRun := counted_le rt chain.2
      have hCounted := totalCounted_le rt before
      have hOrphans : total rt before ≤ totalCounted rt before := by omega
      refine ⟨before, chain, behind, hSplit, ?_, by omega, by omega⟩
      exact (total_eq_iff rt fun x hx => listed_nonempty (hListed x (List.mem_append_left _ hx))).mp
        hOrphans
  · rintro (⟨hFits, hBehind⟩ | ⟨before, chain, behind, hSplit, hOrphans, hBefore, hCut⟩)
    · by_cases hMore : totalCounted rt (chains.takeWhile (Node.listed db)) < nCount
      · exact usable_all hDistinct hMore hFits hBehind
      · obtain ⟨before, chain, behind, hSplit, hBefore, hCut⟩ :=
          exists_cut rt hCount (Nat.le_of_not_lt hMore)
        rw [hSplit, total_append] at hFits
        have hRun := counted_le rt chain.2
        have hCons : total rt (chain :: behind) = (hashes rt chain.2).length + total rt behind := rfl
        exact usable_cut hDistinct hSplit hBefore hCut (by omega)
    · have hListed : ∀ x ∈ before, x.2 ≠ [] := by
        intro x hx
        apply hNonempty x
        rw [hSplit]
        exact List.mem_append_left _ hx
      have hTotal := (total_eq_iff rt hListed).mpr hOrphans
      have hCounted := totalCounted_le rt before
      exact usable_cut hDistinct hSplit (by omega) (by omega) hTotal

end

end Listings

open Listings

/-- What the pool lists is usable exactly where the runs of the chains come out at the count. -/
theorem list_usable {σ : Type} {rt : Runtime} (side : Periphery σ) (node : Node σ) (nCount : Nat)
    (hCount : 0 < nCount) (hKeyed : Keyed rt node.pool) :
    Usable rt node.db (node.chains side) nCount (node.list rt side nCount) ↔
      Counts rt node.db (node.chains side) nCount :=
  usable_iff hCount (distinct_chains side hKeyed)

/-- The same two chains, of one transaction each, that both follow the disk. -/
def listedNode : Node LLD.Memory := { strayNode with db := { last _ := some 8 } }

/-- Both are asked for, and both are listed. -/
theorem list_usable_both :
    Usable exampleRuntime listedNode.db (listedNode.chains exampleOverlays.toPeriphery) 2
      (listedNode.list exampleRuntime exampleOverlays.toPeriphery 2) := by
  have hTotal : total exampleRuntime ((listedNode.chains exampleOverlays.toPeriphery).takeWhile
      (Node.listed listedNode.db)) = 2 := by decide +kernel
  exact (list_usable exampleOverlays.toPeriphery listedNode 2 (by decide) strayNode_keyed).mpr
    (.inl ⟨hTotal.le, .inl hTotal⟩)

/-- One hash is asked for, and the last transaction of the first chain is not counted. -/
theorem list_two_for_one : Keyed exampleRuntime listedNode.pool ∧
    ¬ Usable exampleRuntime listedNode.db (listedNode.chains exampleOverlays.toPeriphery) 1
      (listedNode.list exampleRuntime exampleOverlays.toPeriphery 1) := by
  have hLength : (listedNode.list exampleRuntime exampleOverlays.toPeriphery 1).length = 2 := by
    decide +kernel
  refine ⟨strayNode_keyed, fun h => ?_⟩
  have hCount := h.length
  omega

end Nexus.Safety
