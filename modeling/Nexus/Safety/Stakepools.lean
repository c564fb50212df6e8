import Mathlib.Data.UInt
import Nexus.Ledger.Stakepool

/-!
# Runs of the stake pool

The map of geneses and the entries of the pool say the same after every call, and a
selection is drawn from the entries without the remembered local coinstake.  That no
local coinstake is drawn needs that none enters the pool by the way of the pending
ones: only the direct way remembers it.
-/

namespace Nexus.Safety

open Nexus.Util.Serial
open Nexus.Ledger.Pooled

namespace Stakepools

/-! ## Maps by hash -/

section

variable {β : Type}

theorem mem_insertElement_iff {x z : Nat × β} {ys : List (Nat × β)} (h : ∀ y ∈ ys, y.1 ≠ x.1) :
    z ∈ insertElement byHash Prod.fst x ys ↔ z = x ∨ z ∈ ys := by
  induction ys with
  | nil => simp [insertElement]
  | cons y ys ih =>
      obtain ⟨hy, hys⟩ := List.forall_mem_cons.mp h
      rw [insertElement]
      split
      · rw [List.mem_cons, ih hys, List.mem_cons, or_left_comm]
      · rename_i hLess
        split
        · exact List.mem_cons
        · rename_i hMore
          simp only [byHash, decide_eq_true_eq] at hLess hMore
          omega

theorem length_insertElement (x : Nat × β) (ys : List (Nat × β)) :
    (insertElement byHash Prod.fst x ys).length ≤ ys.length + 1 := by
  induction ys with
  | nil => simp [insertElement]
  | cons y ys ih =>
      rw [insertElement]
      split
      · simpa using ih
      · split <;> simp

theorem mem_erase {m : HashMap β} {hash : Nat} {x : Nat × β} :
    x ∈ (HashMap.erase m hash).elements ↔ x ∈ m.elements ∧ x.1 ≠ hash := by
  simp [HashMap.erase]

theorem mem_assign {m : HashMap β} {hash : Nat} {value : β} {x : Nat × β} :
    x ∈ (HashMap.assign m hash value).elements ↔
      x = (hash, value) ∨ (x ∈ m.elements ∧ x.1 ≠ hash) := by
  rw [← mem_erase]
  exact mem_insertElement_iff fun y hy => (mem_erase.mp hy).2

theorem size_erase (m : HashMap β) (hash : Nat) : (HashMap.erase m hash).size ≤ m.size :=
  List.length_filter_le _ _

theorem size_assign (m : HashMap β) (hash : Nat) (value : β) :
    (HashMap.assign m hash value).size ≤ m.size + 1 :=
  le_trans (length_insertElement _ _) (Nat.succ_le_succ (size_erase m hash))

theorem keys_nodup (m : HashMap β) : (m.elements.map Prod.fst).Nodup := by
  refine List.pairwise_map.mpr (m.sorted.imp ?_)
  intro x y hLess
  exact Nat.ne_of_lt (of_decide_eq_true hLess)

theorem find?_mem {m : HashMap β} {hash : Nat} {value : β} (h : m.find? hash = some value) :
    (hash, value) ∈ m.elements := by
  obtain ⟨x, hx, hValue⟩ := Option.map_eq_some_iff.mp h
  have hKey : x.1 = hash := by simpa using List.find?_some hx
  have hPair : (hash, value) = x := Prod.ext hKey.symm hValue.symm
  rw [hPair]
  exact List.mem_of_find?_eq_some hx

/-- A hash has one entry. -/
theorem value_unique {m : HashMap β} {hash : Nat} {v w : β} (hv : (hash, v) ∈ m.elements)
    (hw : (hash, w) ∈ m.elements) : v = w :=
  congrArg Prod.snd (List.inj_on_of_nodup_map (keys_nodup m) hv hw rfl)

theorem find?_of_mem {m : HashMap β} {hash : Nat} {value : β} (h : (hash, value) ∈ m.elements) :
    m.find? hash = some value := by
  cases hFind : m.find? hash with
  | none =>
      have hNone := List.find?_eq_none.mp (Option.map_eq_none_iff.mp hFind) _ h
      simp at hNone
  | some w => rw [value_unique (find?_mem hFind) h]

end

/-! ## What a call can do -/

section

variable {GetHash : Transaction → Nat} {pool : Stakepool} {env : Env} {tx : Transaction}

/-- The pool with a new entry. -/
def entered (GetHash : Transaction → Nat) (pool : Stakepool) (entry : Entry) : Stakepool :=
  setGenesis { pool with mapPool := HashMap.assign pool.mapPool (GetHash entry.tx) entry }
    entry.tx.hashGenesis (GetHash entry.tx)

theorem AddToPool_some {added : Stakepool} (h : AddToPool GetHash pool env tx = some added) :
    ∃ entry : Entry, entry.tx = tx ∧
      added = { pool with mapPool := HashMap.assign pool.mapPool (GetHash tx) entry } := by
  obtain ⟨⟨account, fTrust⟩, -, h⟩ := Option.bind_eq_some_iff.mp h
  obtain ⟨⟨nBlockAge, nBalance, nReward⟩, -, h⟩ := Option.bind_eq_some_iff.mp h
  dsimp only at h
  split at h
  · cases h
  · split at h
    · cases h
    · exact ⟨_, rfl, (Option.some.inj h).symm⟩

theorem Accept_cases (GetHash : Transaction → Nat) (pool : Stakepool) (env : Env)
    (tx : Transaction) (fLocal : Bool) :
    (Accept GetHash pool env tx fLocal).1 = pool ∨
    (admits pool env tx = true ∧ pool.hashLastBlock ≠ env.hashBestChain ∧
      (Accept GetHash pool env tx fLocal).1 =
        { pool with mapPending := HashMap.assign pool.mapPending (GetHash tx) tx }) ∨
    (admits pool env tx = true ∧ pool.hashLastBlock = env.hashBestChain ∧
      pool.mapGenesis tx.hashGenesis = none ∧ pool.mapPool.size < pool.nSizeMax ∧
      ∃ entry : Entry, entry.tx = tx ∧ (Accept GetHash pool env tx fLocal).1 =
        if fLocal then { entered GetHash pool entry with hashLocal := GetHash tx }
        else entered GetHash pool entry) := by
  by_cases hAdmits : admits pool env tx = true
  · have hParts := hAdmits
    simp only [admits, Bool.and_eq_true, Option.isNone_iff_eq_none] at hParts
    obtain ⟨⟨⟨⟨⟨⟨hOp, hCheck⟩, hPrev⟩, hVerify⟩, hNone⟩, hPooled⟩, hStarted⟩ := hParts
    simp only [Accept, hOp, hCheck, hPrev, hVerify, hNone, hPooled, hStarted, not_true_eq_false,
      if_false, Option.isSome_none, Bool.false_eq_true, Bool.and_self, if_true]
    split
    · rename_i hStale
      exact .inr (.inl ⟨hAdmits, hStale, rfl⟩)
    · rename_i hCurrent
      split
      · rename_i hRoom
        obtain ⟨-, hSize⟩ := Bool.and_eq_true_iff.mp hRoom
        split
        · exact .inl rfl
        · rename_i added hAdded
          obtain ⟨entry, rfl, rfl⟩ := AddToPool_some hAdded
          refine .inr (.inr ⟨hAdmits, not_not.mp hCurrent, trivial, of_decide_eq_true hSize,
            entry, rfl, ?_⟩)
          cases fLocal <;> rfl
      · exact .inl rfl
  · -- one of the checks fails, and each of them leaves the pool as it is
    left
    simp only [admits, Bool.and_eq_true, Option.isNone_iff_eq_none] at hAdmits
    simp only [Accept]
    split
    · rfl
    · split
      · rfl
      · split
        · rfl
        · split
          · rfl
          · split
            · rfl
            · split
              · exact absurd hAdmits (by simp_all)
              · rfl

theorem addPending_cases (GetHash : Transaction → Nat) (pool : Stakepool) (env : Env)
    (tx : Transaction) :
    addPending GetHash pool env tx = pool ∨
    (pool.mapGenesis tx.hashGenesis = none ∧ pool.mapPool.size < pool.nSizeMax ∧
      ∃ entry : Entry, entry.tx = tx ∧ addPending GetHash pool env tx = entered GetHash pool entry) := by
  rw [addPending]
  split
  · rename_i hRoom
    simp only [Bool.and_eq_true, Option.isNone_iff_eq_none, decide_eq_true_eq] at hRoom
    split
    · exact .inl rfl
    · rename_i added hAdded
      obtain ⟨entry, rfl, rfl⟩ := AddToPool_some hAdded
      exact .inr ⟨hRoom.1.1, hRoom.2, entry, rfl, rfl⟩
  · exact .inl rfl

end

/-! ## Geneses and entries -/

/-- `mapGenesis` and the entries say the same, and there are not too many of them. -/
structure Consistent (GetHash : Transaction → Nat) (pool : Stakepool) : Prop where
  keys : ∀ x ∈ pool.mapPool.elements, GetHash x.2.tx = x.1
  parked : ∀ x ∈ pool.mapPending.elements, GetHash x.2 = x.1
  genesis : ∀ hashGenesis hashTx, pool.mapGenesis hashGenesis = some hashTx ↔
    ∃ entry : Entry, (hashTx, entry) ∈ pool.mapPool.elements ∧ entry.tx.hashGenesis = hashGenesis
  size : pool.mapPool.size ≤ pool.nSizeMax

section

variable {GetHash : Transaction → Nat}
variable (hHash : ∀ tx tx', GetHash tx = GetHash tx' → tx.hashGenesis = tx'.hashGenesis)
variable {pool : Stakepool} (h : Consistent GetHash pool)

include h

theorem Consistent.park (tx : Transaction) :
    Consistent GetHash
      { pool with mapPending := HashMap.assign pool.mapPending (GetHash tx) tx } := by
  refine ⟨h.keys, ?_, h.genesis, h.size⟩
  intro x hx
  rcases mem_assign.mp hx with rfl | hx
  · rfl
  · exact h.parked x hx.1

theorem Consistent.remove (hashTx : Nat) : Consistent GetHash (Remove pool hashTx).1 := by
  rw [Remove]
  split
  · rename_i entry hFind
    have hEntry := find?_mem hFind
    have hGenesis := (h.genesis entry.tx.hashGenesis hashTx).mpr ⟨entry, hEntry, rfl⟩
    refine ⟨fun x hx => h.keys x (mem_erase.mp hx).1, h.parked, ?_,
      le_trans (size_erase _ _) h.size⟩
    intro g t
    by_cases hSame : g = entry.tx.hashGenesis
    · subst hSame
      simp only [Function.update_self, reduceCtorEq, false_iff]
      rintro ⟨other, hOther, hEq⟩
      obtain ⟨hMem, hNe⟩ := mem_erase.mp hOther
      have hOld := (h.genesis entry.tx.hashGenesis t).mpr ⟨other, hMem, hEq⟩
      exact hNe (Option.some.inj (hOld.symm.trans hGenesis))
    · simp only [Function.update_of_ne hSame, h.genesis g t, mem_erase]
      refine exists_congr fun other => ⟨?_, fun hOther => ⟨hOther.1.1, hOther.2⟩⟩
      rintro ⟨hMem, hEq⟩
      refine ⟨⟨hMem, ?_⟩, hEq⟩
      rintro rfl
      exact hSame (by rw [← hEq, value_unique hMem hEntry])
  · exact h

omit h in
theorem consistent_clear : Consistent GetHash (Clear pool) :=
  ⟨fun _ hx => (List.not_mem_nil hx).elim, fun _ hx => (List.not_mem_nil hx).elim,
    fun _ _ => by simp [Clear, Ordered.empty], Nat.zero_le _⟩

include hHash

theorem Consistent.enter {entry : Entry} (hNone : pool.mapGenesis entry.tx.hashGenesis = none)
    (hRoom : pool.mapPool.size < pool.nSizeMax) : Consistent GetHash (entered GetHash pool entry) := by
  -- no entry of this genesis is there, so none of this hash is
  have hNew : ∀ x ∈ pool.mapPool.elements, x.1 ≠ GetHash entry.tx := by
    intro x hx hEq
    have hGenesis := hHash _ _ ((h.keys x hx).trans hEq)
    have hSome := (h.genesis x.2.tx.hashGenesis x.1).mpr ⟨x.2, hx, rfl⟩
    rw [hGenesis, hNone] at hSome
    cases hSome
  refine ⟨?_, h.parked, ?_, le_trans (size_assign _ _ _) hRoom⟩
  · intro x hx
    rcases mem_assign.mp hx with rfl | hx
    · rfl
    · exact h.keys x hx.1
  · intro g t
    by_cases hSame : g = entry.tx.hashGenesis
    · subst hSame
      simp only [entered, setGenesis, Function.update_self, Option.some.injEq, mem_assign]
      constructor
      · rintro rfl
        exact ⟨entry, .inl rfl, rfl⟩
      · rintro ⟨other, hOther | hOther, hEq⟩
        · exact (congrArg Prod.fst hOther).symm
        · have hSome := (h.genesis _ t).mpr ⟨other, hOther.1, hEq⟩
          rw [hNone] at hSome
          cases hSome
    · simp only [entered, setGenesis, Function.update_of_ne hSame, h.genesis g t, mem_assign]
      refine exists_congr fun other => and_congr_left fun hEq => ?_
      constructor
      · exact fun hMem => .inr ⟨hMem, hNew _ hMem⟩
      · rintro (hOther | hOther)
        · obtain ⟨-, rfl⟩ := Prod.mk.inj hOther
          exact absurd hEq.symm hSame
        · exact hOther.1

theorem Consistent.accept (env : Env) (tx : Transaction) (fLocal : Bool) :
    Consistent GetHash (Accept GetHash pool env tx fLocal).1 := by
  rcases Accept_cases GetHash pool env tx fLocal with hSame | ⟨-, -, hPark⟩ |
    ⟨-, -, hNone, hRoom, entry, rfl, hEnter⟩
  · rw [hSame]
    exact h
  · rw [hPark]
    exact h.park tx
  · have hEntered := h.enter hHash hNone hRoom
    rw [hEnter]
    cases fLocal with
    | true => exact ⟨hEntered.keys, hEntered.parked, hEntered.genesis, hEntered.size⟩
    | false => exact hEntered

theorem Consistent.addPending (env : Env) (tx : Transaction) :
    Consistent GetHash (addPending GetHash pool env tx) := by
  rcases addPending_cases GetHash pool env tx with hSame | ⟨hNone, hRoom, entry, rfl, hEnter⟩
  · rw [hSame]
    exact h
  · rw [hEnter]
    exact h.enter hHash hNone hRoom

theorem Consistent.setProofs (env : Env) (hashLastBlock hashProof : Nat)
    (nTimeBegin nTimeEnd : UInt64) :
    Consistent GetHash (SetProofs GetHash pool env hashLastBlock hashProof nTimeBegin nTimeEnd) := by
  have hLoop : ∀ (items : List (Nat × Transaction)) (started : Stakepool),
      Consistent GetHash started → Consistent GetHash
        (items.foldl (fun pool item => Ledger.Pooled.addPending GetHash pool env item.2) started) := by
    intro items
    induction items with
    | nil => exact fun _ hStart => hStart
    | cons item items ih => exact fun _ hStart => ih _ (hStart.addPending hHash env item.2)
  have hAdded := hLoop pool.mapPending.elements
    { pool with hashLastBlock, hashProof, nTimeBegin, nTimeEnd }
    ⟨h.keys, h.parked, h.genesis, h.size⟩
  exact ⟨hAdded.keys, fun _ hx => (List.not_mem_nil hx).elim, hAdded.genesis, hAdded.size⟩

theorem Consistent.step (call : Call) : Consistent GetHash (call.step GetHash pool) := by
  cases call with
  | accept env tx fLocal => exact h.accept hHash env tx fLocal
  | setProofs env hashLastBlock hashProof nTimeBegin nTimeEnd =>
      exact h.setProofs hHash env hashLastBlock hashProof nTimeBegin nTimeEnd
  | remove hashTx => exact h.remove hashTx
  | clear => exact consistent_clear

end

/-! ## Selections -/

section

variable {pool : Stakepool}

/-- A selection that leaves out `rest`, so far. -/
structure Drawn (pool : Stakepool) (rest : List Nat) (sel : Selection) : Prop where
  nodup : sel.vHashes.Nodup
  apart : ∀ hash ∈ sel.vHashes, hash ∉ rest
  held : ∀ hash ∈ sel.vHashes, ∃ entry, (hash, entry) ∈ pool.mapPool.elements
  local_out : pool.hashLocal ∉ sel.vHashes
  genesis : (sel.vHashes.filter fun hash => !IsTrust pool hash).length =
    if sel.fGenesisAdded then 1 else 0
  balance : sel.nBalanceTotal = (sel.vHashes.map fun hash => (entryValues pool hash).1).sum
  fee : sel.nFeeTotal = (sel.vHashes.map fun hash => (entryValues pool hash).2).sum

theorem Drawn.empty (rest : List Nat) : Drawn pool rest {} :=
  ⟨List.nodup_nil, fun _ h => (List.not_mem_nil h).elim, fun _ h => (List.not_mem_nil h).elim,
    List.not_mem_nil, rfl, rfl, rfl⟩

theorem Drawn.mono {rest rest' : List Nat} {sel : Selection} (h : Drawn pool rest sel)
    (hRest : ∀ hash ∈ rest', hash ∈ rest) : Drawn pool rest' sel :=
  ⟨h.nodup, fun hash hMem hIn => h.apart hash hMem (hRest hash hIn), h.held, h.local_out,
    h.genesis, h.balance, h.fee⟩

theorem Drawn.add {rest rest' : List Nat} {sel : Selection} (h : Drawn pool rest sel) {hash : Nat}
    {entry : Entry} (hEntry : (hash, entry) ∈ pool.mapPool.elements) (hLocal : hash ≠ pool.hashLocal)
    (hIn : hash ∈ rest) (hRest : ∀ other ∈ rest', other ∈ rest) (hOut : hash ∉ rest') :
    Drawn pool rest'
      (sel.add (IsTrust pool hash) hash (entryValues pool hash).1 (entryValues pool hash).2) := by
  have hMono := h.mono hRest
  have hNew : hash ∉ sel.vHashes := fun hMem => h.apart hash hMem hIn
  rw [Selection.add]
  split
  · rename_i hTaken
    refine ⟨?_, ?_, ?_, ?_, ?_, ?_, ?_⟩
    · rw [List.nodup_append]
      exact ⟨h.nodup, List.nodup_singleton _, fun a ha b hb => by
        rw [List.mem_singleton.mp hb]
        rintro rfl
        exact hNew ha⟩
    · intro other hMem
      rcases List.mem_append.mp hMem with hMem | hMem
      · exact hMono.apart other hMem
      · rw [List.mem_singleton.mp hMem]
        exact hOut
    · intro other hMem
      rcases List.mem_append.mp hMem with hMem | hMem
      · exact h.held other hMem
      · rw [List.mem_singleton.mp hMem]
        exact ⟨entry, hEntry⟩
    · simp [h.local_out, hLocal.symm]
    · have hGenesis := h.genesis
      cases hTrust : IsTrust pool hash with
      | true => simpa [List.filter_append, hTrust] using hGenesis
      | false =>
          have hFirst : sel.fGenesisAdded = false := by simpa [hTrust] using hTaken
          simpa [List.filter_append, hTrust, hFirst] using hGenesis
    · simp [h.balance]
    · simp [h.fee]
  · exact hMono

theorem selectAll_drawn (pool : Stakepool) : Drawn pool [] (selectAll pool) := by
  have hLoop : ∀ (items : List (Nat × Entry)) (sel : Selection),
      (∀ x ∈ items, x ∈ pool.mapPool.elements) → (items.map Prod.fst).Nodup →
      Drawn pool (items.map Prod.fst) sel →
      Drawn pool [] (items.foldl (fun sel item =>
        if item.1 = pool.hashLocal then sel
        else sel.add (IsTrust pool item.1) item.1 item.2.nBalance item.2.nFee) sel) := by
    intro items
    induction items with
    | nil => exact fun sel _ _ hSel => hSel
    | cons item items ih =>
        intro sel hItems hNodup hSel
        obtain ⟨hItem, hRest⟩ := List.forall_mem_cons.mp hItems
        rw [List.map_cons, List.nodup_cons] at hNodup
        refine ih _ hRest hNodup.2 ?_
        dsimp only
        split
        · exact hSel.mono fun hash hMem => List.mem_cons_of_mem _ hMem
        · rename_i hOther
          have hEntry : (item.1, item.2) ∈ pool.mapPool.elements := hItem
          have hValues : entryValues pool item.1 = (item.2.nBalance, item.2.nFee) := by
            rw [entryValues, find?_of_mem hEntry]
          have hAdd : Drawn pool (items.map Prod.fst) (sel.add (IsTrust pool item.1) item.1
              (entryValues pool item.1).1 (entryValues pool item.1).2) :=
            hSel.add hEntry hOther (List.mem_cons_self ..)
              (fun hash hMem => List.mem_cons_of_mem _ hMem) hNodup.1
          rw [hValues] at hAdd
          exact hAdd
  exact hLoop _ {} (fun _ hx => hx) (keys_nodup _) (.empty _)

theorem selectSome_drawn {nCount : Nat} {dist : Nat → Nat} {fuel : Nat} {sel : Selection}
    {vAvailable : List Nat} (hNodup : vAvailable.Nodup)
    (hAvailable : ∀ hash ∈ vAvailable, hash ≠ pool.hashLocal ∧
      ∃ entry, (hash, entry) ∈ pool.mapPool.elements)
    (hSel : Drawn pool vAvailable sel) (hCount : sel.vHashes.length ≤ nCount) :
    Drawn pool [] (selectSome pool nCount dist fuel sel vAvailable) ∧
      (selectSome pool nCount dist fuel sel vAvailable).vHashes.length ≤ nCount := by
  have hDone : Drawn pool [] sel := hSel.mono fun _ hMem => (List.not_mem_nil hMem).elim
  induction fuel generalizing sel vAvailable with
  | zero => exact ⟨hDone, hCount⟩
  | succ fuel ih =>
      rw [selectSome]
      split
      · rename_i hMore
        have hBound : dist fuel % vAvailable.length < vAvailable.length := Nat.mod_lt _ hMore.2.2
        have hChosen : vAvailable.getD (dist fuel % vAvailable.length) 0 =
            vAvailable[dist fuel % vAvailable.length] := by
          rw [List.getD_eq_getElem?_getD, List.getElem?_eq_getElem hBound, Option.getD_some]
        dsimp only
        rw [hChosen]
        have hMem := List.getElem_mem hBound
        obtain ⟨hLocal, entry, hEntry⟩ := hAvailable _ hMem
        have hSub : ∀ other ∈ vAvailable.eraseIdx (dist fuel % vAvailable.length),
            other ∈ vAvailable := fun other hOther => List.mem_of_mem_eraseIdx hOther
        have hOut : vAvailable[dist fuel % vAvailable.length] ∉
            vAvailable.eraseIdx (dist fuel % vAvailable.length) := by
          rw [← hNodup.erase_getElem]
          exact hNodup.not_mem_erase
        have hAdd := hSel.add hEntry hLocal hMem hSub hOut
        refine ih (hNodup.sublist (List.eraseIdx_sublist ..)) (fun hash hHash => hAvailable hash (hSub hash hHash))
          hAdd ?_ (hAdd.mono fun _ hMem => (List.not_mem_nil hMem).elim)
        rw [Selection.add]
        split
        · rw [List.length_append]
          exact hMore.1
        · exact hCount
      · exact ⟨hDone, hCount⟩

/-- A selection has entries of the pool only, and no entry twice. -/
theorem Drawn.length_le {rest : List Nat} {sel : Selection} (h : Drawn pool rest sel) :
    sel.vHashes.length ≤ pool.mapPool.size := by
  have hSub : sel.vHashes ⊆ pool.mapPool.elements.map Prod.fst := by
    intro hash hMem
    obtain ⟨entry, hEntry⟩ := h.held hash hMem
    exact List.mem_map_of_mem (f := Prod.fst) hEntry
  have hLength := (h.nodup.subperm hSub).length_le
  rwa [List.length_map] at hLength

theorem Select_drawn (pool : Stakepool) (nCount : Nat) (dist : Nat → Nat) :
    Drawn pool [] (Select pool nCount dist) ∧ (Select pool nCount dist).vHashes.length ≤ nCount := by
  rw [Select]
  split
  · rename_i hAll
    have hDrawn := selectAll_drawn pool
    exact ⟨hDrawn, le_trans hDrawn.length_le hAll⟩
  · refine selectSome_drawn ((keys_nodup _).filter _) ?_ (.empty _) (Nat.zero_le _)
    intro hash hMem
    obtain ⟨hKey, hLocal⟩ := List.mem_filter.mp hMem
    obtain ⟨x, hx, rfl⟩ := List.mem_map.mp hKey
    exact ⟨of_decide_eq_true hLocal, x.2, hx⟩

end

/-! ## Local coinstakes -/

/-- A hash is in the pool or among the pending ones. -/
def Held (pool : Stakepool) (hashTx : Nat) : Prop :=
  (∃ entry, (hashTx, entry) ∈ pool.mapPool.elements) ∨ ∃ tx, (hashTx, tx) ∈ pool.mapPending.elements

/-- No coinstake that the local node has produced is held, but for the one that is remembered. -/
def Remembered (pool : Stakepool) (produced : List Nat) : Prop :=
  ∀ hashTx ∈ produced, Held pool hashTx → hashTx = pool.hashLocal

/-- A local coinstake comes as the first one that is held, and not while the proofs are stale;
and a peer brings none that is not remembered. -/
def Orderly (GetHash : Transaction → Nat) (pool : Stakepool) (produced : List Nat) : Call → Prop
  | .accept env tx true =>
      GetHash tx = pool.hashLocal ∨
      (¬ Held pool (GetHash tx) ∧ (admits pool env tx = true →
        pool.hashLastBlock = env.hashBestChain ∧ ∀ hashTx ∈ produced, ¬ Held pool hashTx))
  | .accept env tx false =>
      admits pool env tx = true → GetHash tx ∈ produced → GetHash tx = pool.hashLocal
  | _ => True

section

variable {GetHash : Transaction → Nat} {pool : Stakepool} {produced : List Nat}

theorem held_park {tx : Transaction} {hashTx : Nat}
    (h : Held { pool with mapPending := HashMap.assign pool.mapPending (GetHash tx) tx } hashTx) :
    hashTx = GetHash tx ∨ Held pool hashTx := by
  rcases h with hPool | ⟨other, hOther⟩
  · exact .inr (.inl hPool)
  · rcases mem_assign.mp hOther with hNew | hOld
    · exact .inl (congrArg Prod.fst hNew)
    · exact .inr (.inr ⟨other, hOld.1⟩)

theorem held_entered {entry : Entry} {hashTx : Nat} (h : Held (entered GetHash pool entry) hashTx) :
    hashTx = GetHash entry.tx ∨ Held pool hashTx := by
  rcases h with ⟨other, hOther⟩ | hPending
  · rcases mem_assign.mp hOther with hNew | hOld
    · exact .inl (congrArg Prod.fst hNew)
    · exact .inr (.inl ⟨other, hOld.1⟩)
  · exact .inr (.inr hPending)

theorem Remembered.accept {env : Env} {tx : Transaction} {fLocal : Bool}
    (h : Remembered pool produced) (hCall : Orderly GetHash pool produced (.accept env tx fLocal)) :
    Remembered (Accept GetHash pool env tx fLocal).1
      (Call.produced GetHash produced (.accept env tx fLocal)) := by
  cases fLocal with
  | false =>
      rcases Accept_cases GetHash pool env tx false with hSame | ⟨hAdmits, -, hPark⟩ |
        ⟨hAdmits, -, -, -, entry, rfl, hEnter⟩
      · rw [hSame]
        exact h
      · rw [hPark]
        intro hashTx hMem hHeld
        rcases held_park hHeld with rfl | hOld
        · exact hCall hAdmits hMem
        · exact h hashTx hMem hOld
      · rw [hEnter]
        intro hashTx hMem hHeld
        rcases held_entered hHeld with rfl | hOld
        · exact hCall hAdmits hMem
        · exact h hashTx hMem hOld
  | true =>
      show Remembered _ (GetHash tx :: produced)
      rcases Accept_cases GetHash pool env tx true with hSame | ⟨hAdmits, hStale, hPark⟩ |
        ⟨hAdmits, -, -, -, entry, rfl, hEnter⟩
      · rw [hSame]
        intro hashTx hMem hHeld
        rcases List.mem_cons.mp hMem with rfl | hMem
        · exact hCall.elim id fun hNew => absurd hHeld hNew.1
        · exact h hashTx hMem hHeld
      · rw [hPark]
        -- only the remembered coinstake may be parked
        have hLocal : GetHash tx = pool.hashLocal :=
          hCall.elim id fun hNew => absurd (hNew.2 hAdmits).1 hStale
        intro hashTx hMem hHeld
        rcases held_park hHeld with rfl | hOld
        · exact hLocal
        · rcases List.mem_cons.mp hMem with rfl | hMem
          · exact hLocal
          · exact h hashTx hMem hOld
      · rw [hEnter]
        intro hashTx hMem hHeld
        show hashTx = GetHash entry.tx
        rcases held_entered hHeld with hNew | hOld
        · exact hNew
        · rcases List.mem_cons.mp hMem with hNew | hMem
          · exact hNew
          · rcases hCall with hLocal | hOthers
            · rw [hLocal]
              exact h hashTx hMem hOld
            · exact absurd hOld ((hOthers.2 hAdmits).2 hashTx hMem)

theorem Remembered.addPending {env : Env} {tx : Transaction} (h : Remembered pool produced)
    (hHeld : Held pool (GetHash tx)) :
    Remembered (addPending GetHash pool env tx) produced ∧
      (addPending GetHash pool env tx).mapPending = pool.mapPending := by
  rcases addPending_cases GetHash pool env tx with hSame | ⟨-, -, entry, rfl, hEnter⟩
  · rw [hSame]
    exact ⟨h, rfl⟩
  · rw [hEnter]
    refine ⟨?_, rfl⟩
    intro hashTx hMem hNow
    rcases held_entered hNow with rfl | hOld
    · exact h _ hMem hHeld
    · exact h hashTx hMem hOld

theorem Remembered.setProofs {env : Env} {hashLastBlock hashProof : Nat}
    {nTimeBegin nTimeEnd : UInt64} (hPool : Consistent GetHash pool) (h : Remembered pool produced) :
    Remembered (SetProofs GetHash pool env hashLastBlock hashProof nTimeBegin nTimeEnd)
      produced := by
  have hLoop : ∀ (items : List (Nat × Transaction)) (started : Stakepool),
      (∀ x ∈ items, x ∈ started.mapPending.elements ∧ GetHash x.2 = x.1) →
      Remembered started produced → Remembered
        (items.foldl (fun pool item => Ledger.Pooled.addPending GetHash pool env item.2) started)
        produced := by
    intro items
    induction items with
    | nil => exact fun _ _ hStart => hStart
    | cons item items ih =>
        intro started hItems hStart
        obtain ⟨⟨hItem, hKey⟩, hRest⟩ := List.forall_mem_cons.mp hItems
        have hHeld : Held started (GetHash item.2) := by
          rw [hKey]
          exact .inr ⟨item.2, hItem⟩
        obtain ⟨hNext, hPending⟩ := Remembered.addPending hStart hHeld
        refine ih _ ?_ hNext
        rw [hPending]
        exact hRest
  have hAdded := hLoop pool.mapPending.elements
    { pool with hashLastBlock, hashProof, nTimeBegin, nTimeEnd }
    (fun x hx => ⟨hx, hPool.parked x hx⟩) h
  intro hashTx hMem hHeld
  rcases hHeld with hEntry | ⟨tx, hTx⟩
  · exact hAdded hashTx hMem (.inl hEntry)
  · cases hTx

theorem Remembered.step {call : Call} (hPool : Consistent GetHash pool) (h : Remembered pool produced)
    (hCall : Orderly GetHash pool produced call) :
    Remembered (call.step GetHash pool) (call.produced GetHash produced) := by
  cases call with
  | accept env tx fLocal => exact h.accept hCall
  | setProofs env hashLastBlock hashProof nTimeBegin nTimeEnd => exact h.setProofs hPool
  | remove hashTx =>
      show Remembered (Remove pool hashTx).1 produced
      rw [Remove]
      split
      · intro other hMem hHeld
        apply h other hMem
        exact hHeld.imp_left fun ⟨entry, hEntry⟩ => ⟨entry, (mem_erase.mp hEntry).1⟩
      · exact h
  | clear =>
      intro hashTx hMem hHeld
      rcases hHeld with ⟨entry, hEntry⟩ | ⟨tx, hTx⟩
      · cases hEntry
      · cases hTx

end

/-! ## Runs -/

section

variable (GetHash : Transaction → Nat)

/-- The pool and the produced hashes after some calls. -/
def after (pool : Stakepool) (produced : List Nat) : List Call → Stakepool × List Nat
  | [] => (pool, produced)
  | call :: calls => after (call.step GetHash pool) (call.produced GetHash produced) calls

def AllOrderly (pool : Stakepool) (produced : List Nat) : List Call → Prop
  | [] => True
  | call :: calls => Orderly GetHash pool produced call ∧
      AllOrderly (call.step GetHash pool) (call.produced GetHash produced) calls

/-- The step of the size limit: no call changes it. -/
theorem nSizeMax_step (pool : Stakepool) (call : Call) :
    (call.step GetHash pool).nSizeMax = pool.nSizeMax := by
  cases call with
  | accept env tx fLocal =>
      show (Accept GetHash pool env tx fLocal).1.nSizeMax = _
      rcases Accept_cases GetHash pool env tx fLocal with hSame | ⟨-, -, hPark⟩ |
        ⟨-, -, -, -, entry, -, hEnter⟩
      · rw [hSame]
      · rw [hPark]
      · rw [hEnter]
        cases fLocal <;> rfl
  | setProofs env hashLastBlock hashProof nTimeBegin nTimeEnd =>
      have hLoop : ∀ (items : List (Nat × Transaction)) (started : Stakepool),
          (items.foldl (fun pool item => Ledger.Pooled.addPending GetHash pool env item.2)
            started).nSizeMax = started.nSizeMax := by
        intro items
        induction items with
        | nil => exact fun _ => rfl
        | cons item items ih =>
            intro started
            have hTurn : (Ledger.Pooled.addPending GetHash started env item.2).nSizeMax =
                started.nSizeMax := by
              rcases addPending_cases GetHash started env item.2 with hSame | ⟨-, -, entry, -, hEnter⟩
              · rw [hSame]
              · rw [hEnter]
                rfl
            exact (ih _).trans hTurn
      exact hLoop pool.mapPending.elements _
  | remove hashTx =>
      show (Remove pool hashTx).1.nSizeMax = _
      rw [Remove]
      split <;> rfl
  | clear => rfl

variable {GetHash}

theorem after_consistent
    (hHash : ∀ tx tx', GetHash tx = GetHash tx' → tx.hashGenesis = tx'.hashGenesis)
    {calls : List Call} {pool : Stakepool} {produced : List Nat} (h : Consistent GetHash pool) :
    Consistent GetHash (after GetHash pool produced calls).1 ∧
      (after GetHash pool produced calls).1.nSizeMax = pool.nSizeMax := by
  induction calls generalizing pool produced with
  | nil => exact ⟨h, rfl⟩
  | cons call calls ih =>
      obtain ⟨hAfter, hSize⟩ := @ih _ (call.produced GetHash produced) (h.step hHash call)
      exact ⟨hAfter, hSize.trans (nSizeMax_step GetHash pool call)⟩

theorem after_remembered
    (hHash : ∀ tx tx', GetHash tx = GetHash tx' → tx.hashGenesis = tx'.hashGenesis)
    {calls : List Call} {pool : Stakepool} {produced : List Nat} (hPool : Consistent GetHash pool)
    (h : Remembered pool produced) (hCalls : AllOrderly GetHash pool produced calls) :
    Remembered (after GetHash pool produced calls).1 (after GetHash pool produced calls).2 := by
  induction calls generalizing pool produced with
  | nil => exact h
  | cons call calls ih => exact ih (hPool.step hHash call) (h.step hPool hCalls.1) hCalls.2

theorem consistent_empty (nSizeMax : Nat) : Consistent GetHash { nSizeMax } :=
  ⟨fun _ hx => (List.not_mem_nil hx).elim, fun _ hx => (List.not_mem_nil hx).elim,
    fun _ _ => by simp [Ordered.empty], Nat.zero_le _⟩

end

end Stakepools

open Stakepools

/-- After any calls the pool agrees with its geneses and is not too large, and what is selected
is what was asked for; and no coinstake of the local node is selected in runs in which the node's
coinstakes come one at a time and not to stale proofs. -/
theorem stakepool_runs (GetHash : Transaction → Nat)
    (hHash : ∀ tx tx', GetHash tx = GetHash tx' → tx.hashGenesis = tx'.hashGenesis)
    (nSizeMax : Nat) (calls : List Call) (pool : Stakepool) (produced : List Nat)
    (hAfter : after GetHash { nSizeMax } [] calls = (pool, produced)) :
    (∀ hashGenesis hashTx, pool.mapGenesis hashGenesis = some hashTx ↔
      ∃ entry : Entry, (hashTx, entry) ∈ pool.mapPool.elements ∧
        entry.tx.hashGenesis = hashGenesis) ∧
    pool.mapPool.size ≤ nSizeMax ∧
    ∀ (nCount : Nat) (dist : Nat → Nat) (sel : Selection), Select pool nCount dist = sel →
      (sel.vHashes.length ≤ nCount ∧ sel.vHashes.Nodup ∧
        (∀ hash ∈ sel.vHashes, ∃ entry, (hash, entry) ∈ pool.mapPool.elements) ∧
        (sel.vHashes.filter fun hash => !IsTrust pool hash).length ≤ 1 ∧
        sel.nBalanceTotal = (sel.vHashes.map fun hash => (entryValues pool hash).1).sum ∧
        sel.nFeeTotal = (sel.vHashes.map fun hash => (entryValues pool hash).2).sum) ∧
      (AllOrderly GetHash { nSizeMax } [] calls → ∀ hash ∈ produced, hash ∉ sel.vHashes) := by
  obtain ⟨hPool, hSize⟩ :=
    @after_consistent GetHash hHash calls { nSizeMax } [] (consistent_empty nSizeMax)
  rw [hAfter] at hPool hSize
  refine ⟨hPool.genesis, le_trans hPool.size (le_of_eq hSize), ?_⟩
  rintro nCount dist sel rfl
  obtain ⟨hDrawn, hCount⟩ := Select_drawn pool nCount dist
  refine ⟨⟨hCount, hDrawn.nodup, hDrawn.held, ?_, hDrawn.balance, hDrawn.fee⟩, ?_⟩
  · rw [hDrawn.genesis]
    split <;> omega
  · intro hCalls hash hMem hSelected
    have hRemembered := after_remembered hHash (consistent_empty nSizeMax)
      (fun _ hNone => (List.not_mem_nil hNone).elim) hCalls
    rw [hAfter] at hRemembered
    have hLocal := hRemembered hash hMem (.inl (hDrawn.held hash hSelected))
    exact hDrawn.local_out (hLocal ▸ hSelected)

namespace Stakepools

/-- A genesis coinstake of 2 NXS for the proof 3. -/
def coinstake : Transaction := ⟨5, 1, .GENESISPOOL, 3, 0, 9, 0, 0⟩

/-- A ledger with the best block 7, in which accounts hold 2 NXS and earn nothing. -/
def ledger : Env where
  Check _ := true
  HasTx _ := true
  Verify _ := true
  FindTrustAccount _ := some (⟨0, 2000000, 0⟩, false)
  ReadStake _ := none
  FindLastStake _ := none
  ReadBlock _ := none
  stateBest := ⟨1, 300000⟩
  hashBestChain := 7
  MinStakeInterval _ := 0
  GetCoinstakeReward _ _ _ _ := 0
  GetPoolStakeFee _ := 0
  fPoolStaking := true
  IsStarted := true
  fTestNet := false

end Stakepools

/-- A local coinstake for current proofs, and one of a peer, which is all that is selected. -/
theorem stakepool_runs_peer :
    (Select (after (fun tx => tx.hashGenesis) { nSizeMax := 50 } []
      [.setProofs ledger 7 3 0 9, .accept ledger coinstake true,
        .accept ledger { coinstake with hashGenesis := 6 } false]).1 10 id).vHashes = [6] ∧
    (5 : Nat) ∉ (Select (after (fun tx => tx.hashGenesis) { nSizeMax := 50 } []
      [.setProofs ledger 7 3 0 9, .accept ledger coinstake true,
        .accept ledger { coinstake with hashGenesis := 6 } false]).1 10 id).vHashes :=
  ⟨by decide, ((stakepool_runs (fun tx => tx.hashGenesis) (fun _ _ h => h) 50
    [.setProofs ledger 7 3 0 9, .accept ledger coinstake true,
      .accept ledger { coinstake with hashGenesis := 6 } false] _ _ rfl).2.2 10 id _ rfl).2
    ⟨trivial, .inr ⟨by simp [Held, Call.step, SetProofs, Ordered.empty],
      fun _ => ⟨rfl, fun _ hNone => (List.not_mem_nil hNone).elim⟩⟩,
      fun _ hMem => absurd hMem (by decide), trivial⟩
    5 (by decide)⟩

/-- A local coinstake that is pending until its proofs are set is selected. -/
theorem pending_selected :
    5 ∈ (after (fun tx => tx.hashGenesis) { nSizeMax := 50 } []
      [.accept ledger coinstake true, .setProofs ledger 7 3 0 9]).2 ∧
    5 ∈ (Select (after (fun tx => tx.hashGenesis) { nSizeMax := 50 } []
      [.accept ledger coinstake true, .setProofs ledger 7 3 0 9]).1 10 id).vHashes := by
  decide

end Nexus.Safety
