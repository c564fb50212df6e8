import Nexus.Lib.Overflow
import Nexus.Ledger.Supply
import Nexus.Safety.Reconnects
import Nexus.Safety.Reorganisations

/-!
# Reserves

A block releases the subsidies of the minutes since the last block of its channel,
so what the blocks of a channel release between two of them is the subsidies of the
minutes between them, whatever blocks of other channels stand there.  `Index` adds
the release to the reserve of the last block and takes the coinbase from it.  The
field is signed and the sum unsigned, so a reserve that is below zero passes the
test that is to keep it above.

## Main results

* `reserves_telescope`: what is released between two blocks, and the reserve that
  indexing a chain leaves.
* `reserve_below_zero`: a block of version 3 that takes from a negative reserve.
-/

namespace Nexus.Safety

open Nexus.Lib.Checked
open Nexus.Lib.Overflow
open Nexus.Util
open Nexus.LLD
open Nexus.Ledger

/-- A stored block is the block that was indexed, as far as reserves go. -/
structure SameReserves (stored block : BlockState) : Prop where
  nTime : stored.nTime = block.nTime
  nChannel : stored.nChannel = block.nChannel
  nHeight : stored.nHeight = block.nHeight
  nBits : stored.nBits = block.nBits
  nReleasedReserve : stored.nReleasedReserve = block.nReleasedReserve

/-- The records lead from a stored block back through the blocks of a chain, the newest first. -/
inductive HoldsChain (db : Records) : BlockState → List BlockState → Prop
  | last {stored block : BlockState} (hAgree : SameReserves stored block) : HoldsChain db stored [block]
  | next {stored prev block : BlockState} {chain : List BlockState} (hAgree : SameReserves stored block)
      (hPrev : stored.Prev db = .ok prev) (hRest : HoldsChain db prev chain) :
      HoldsChain db stored (block :: chain)

/-- The newest block of a channel in a chain that stands on the block `a`. -/
def lastOf (nChannel : UInt32) (a : BlockState) : List BlockState → BlockState
  | [] => a
  | block :: chain => if block.nChannel = nChannel then block else lastOf nChannel a chain

/-- The search for a channel stops at no block but one of the channel. -/
def Searchable (block : BlockState) : Prop := block.nHeight ≠ 0 ∧ ¬ block.IsNull

/-- Stored blocks, the newest first, each the one before the other, with times that strictly
increase. -/
structure LinkedChain (db : Records) (chain : List BlockState) : Prop where
  prev : chain.IsChain fun block prev => block.Prev db = .ok prev
  times : chain.Pairwise fun block prev => prev.nTime < block.nTime
  searchable : ∀ block ∈ chain, Searchable block

variable {supply : SupplyRuntime} {db : Records} {nChannel : UInt32} {nFuel : Nat} {nType : Fin 3}
  {a block stored : BlockState} {chain : List BlockState}

/-! ## The last block of a channel -/

theorem lastOf_mem (nChannel : UInt32) (a : BlockState) (chain : List BlockState) :
    lastOf nChannel a chain ∈ chain ++ [a] := by
  induction chain with
  | nil => exact List.mem_singleton_self a
  | cons block chain ih =>
      rw [lastOf]
      split
      · exact List.mem_cons_self ..
      · exact List.mem_cons_of_mem _ ih

/-- No block of a chain is older than the block it stands on. -/
theorem le_lastOf (hTimes : (chain ++ [a]).Pairwise fun block prev => prev.nTime < block.nTime) :
    a.nTime ≤ (lastOf nChannel a chain).nTime := by
  have hMem := lastOf_mem nChannel a chain
  rw [List.mem_append, List.mem_singleton] at hMem
  rcases hMem with hMem | hMem
  · have hLt := (List.pairwise_append.mp hTimes).2.2 _ hMem a (List.mem_singleton_self a)
    exact UInt64.le_of_lt hLt
  · rw [hMem]
    exact UInt64.le_refl _

theorem SameReserves.refl (block : BlockState) : SameReserves block block := ⟨rfl, rfl, rfl, rfl, rfl⟩

theorem SameReserves.searchable (h : SameReserves stored block) (hBlock : Searchable block) :
    Searchable stored := by
  unfold Searchable Block.IsNull at *
  rw [h.nHeight, h.nBits]
  exact hBlock

theorem HoldsChain.head (h : HoldsChain db stored (block :: chain)) : SameReserves stored block := by
  cases h with
  | last hAgree => exact hAgree
  | next hAgree _ _ => exact hAgree

/-- One turn of the search, at a block that does not stop it. -/
theorem GetLastState_step {s : BlockState} (h : Searchable s) (nFuel : Nat) :
    BlockState.GetLastState db nChannel (nFuel + 1) s =
      if s.nChannel = nChannel then .ok (s, true)
      else (do
        let prev ← s.Prev db
        if prev.IsNull then return (prev, false)
        else BlockState.GetLastState db nChannel nFuel prev) := by
  rw [BlockState.GetLastState, if_neg h.1]

/-- The search finds the newest block of the channel. -/
theorem HoldsChain.getLastState (h : HoldsChain db stored (chain ++ [a])) (ha : a.nChannel = nChannel)
    (hReal : ∀ block ∈ chain ++ [a], Searchable block) (hFuel : chain.length < nFuel) :
    ∃ found, BlockState.GetLastState db nChannel nFuel stored = .ok (found, true) ∧
      SameReserves found (lastOf nChannel a chain) := by
  induction chain generalizing stored nFuel with
  | nil =>
      obtain ⟨n, rfl⟩ : ∃ n, nFuel = n + 1 := ⟨nFuel - 1, by omega⟩
      have hAgree := HoldsChain.head h
      have hSearch := hAgree.searchable (hReal a (List.mem_singleton_self a))
      refine ⟨stored, ?_, hAgree⟩
      rw [GetLastState_step hSearch, if_pos (hAgree.nChannel.trans ha)]
  | cons block chain ih =>
      obtain ⟨n, rfl⟩ : ∃ n, nFuel = n + 1 := ⟨nFuel - 1, by omega⟩
      have hAgree := HoldsChain.head h
      have hSearch := hAgree.searchable (hReal block (List.mem_cons_self ..))
      rw [GetLastState_step hSearch, hAgree.nChannel, lastOf]
      by_cases hChannel : block.nChannel = nChannel
      · rw [if_pos hChannel, if_pos hChannel]
        exact ⟨stored, rfl, hAgree⟩
      · rw [if_neg hChannel, if_neg hChannel]
        cases hChain : chain ++ [a] with
        | nil => exact absurd (congrArg List.length hChain) (by simp)
        | cons next rest =>
            rw [List.cons_append, hChain] at h
            cases h with
            | next _ hPrev hRest =>
                have hNext : Searchable next := by
                  apply hReal next
                  rw [List.cons_append, hChain]
                  exact List.mem_cons_of_mem _ (List.mem_cons_self ..)
                have hNull := (hRest.head.searchable hNext).2
                rw [← hChain] at hRest
                rw [hPrev, ok_bind, if_neg hNull]
                apply ih hRest
                · intro block hMem
                  exact hReal block (List.mem_cons_of_mem _ hMem)
                · rw [List.length_cons] at hFuel
                  omega

/-! ## What a block releases -/

/-- What is released from the time of one block to the time of another. -/
def released (supply : SupplyRuntime) (nType : Fin 3) (last block : BlockState) : UInt64 :=
  supply.ReleaseRewards (supply.GetChainAge block.nTime - supply.GetChainAge last.nTime)
    (supply.GetChainAge last.nTime) nType

/-- The subsidies of the minutes from the time of one block to the time of another. -/
def subsidiesOf (supply : SupplyRuntime) (nType : Fin 3) (last block : BlockState) : Nat :=
  supply.subsidies nType (supply.GetChainAge last.nTime).toNat (supply.GetChainAge block.nTime).toNat

theorem released_eq (supply : SupplyRuntime) (nType : Fin 3) (last block : BlockState) :
    released supply nType last block = UInt64.ofNat (subsidiesOf supply nType last block) :=
  SupplyRuntime.releaseRewards_eq ..

theorem released_self (last : BlockState) : released supply nType last last = 0 :=
  SupplyRuntime.releaseRewards_self _

/-- The age of the chain does not decrease. -/
def Ages (supply : SupplyRuntime) : Prop :=
  ∀ nTime nTime', nTime ≤ nTime' → supply.GetChainAge nTime ≤ supply.GetChainAge nTime'

theorem subsidiesOf_append (nType : Fin 3) {first last : BlockState} (hAges : Ages supply)
    (hFirst : first.nTime ≤ last.nTime) (hLast : last.nTime ≤ block.nTime) :
    subsidiesOf supply nType first block =
      subsidiesOf supply nType first last + subsidiesOf supply nType last block :=
  SupplyRuntime.subsidies_append (hAges _ _ hFirst) (hAges _ _ hLast)

theorem released_append (nType : Fin 3) {first last : BlockState} (hAges : Ages supply)
    (hFirst : first.nTime ≤ last.nTime) (hLast : last.nTime ≤ block.nTime) :
    released supply nType first block =
      released supply nType first last + released supply nType last block := by
  rw [released_eq, released_eq, released_eq, subsidiesOf_append nType hAges hFirst hLast, UInt64.ofNat_add]

/-- A block releases the subsidies since the newest block of its channel that is behind it. -/
theorem getReleasedReserve_eq (supply : SupplyRuntime) (nType : Fin 3)
    (hChannel : block.nChannel = nChannel) (hSearch : Searchable block)
    (hPrev : block.Prev db = .ok stored) (h : HoldsChain db stored (chain ++ [a]))
    (ha : a.nChannel = nChannel) (hReal : ∀ block ∈ chain ++ [a], Searchable block)
    (hFuel : chain.length < nFuel) :
    supply.GetReleasedReserve db nFuel block nChannel nType =
      .ok (released supply nType (lastOf nChannel a chain) block) := by
  obtain ⟨last, hLast, hAgree⟩ := h.getLastState ha hReal hFuel
  have hFirst : BlockState.GetLastState db nChannel nFuel block = .ok (block, true) := by
    obtain ⟨n, rfl⟩ : ∃ n, nFuel = n + 1 := ⟨nFuel - 1, by omega⟩
    rw [GetLastState_step hSearch, if_pos hChannel]
  rw [SupplyRuntime.GetReleasedReserve, hFirst, ok_bind]
  show (if true = false then _ else _) = _
  rw [if_neg (by decide), hPrev, ok_bind, hLast, ok_bind]
  show (if true = false then _ else _) = _
  rw [if_neg (by decide), released, ← hAgree.nTime]
  by_cases hSame : supply.GetChainAge block.nTime = supply.GetChainAge last.nTime
  · rw [if_pos hSame, hSame, SupplyRuntime.releaseRewards_self]
    rfl
  · rw [if_neg hSame]
    rfl

/-! ## Stored chains -/

/-- What the blocks of a channel release. -/
def releasesOf (supply : SupplyRuntime) (db : Records) (nFuel : Nat) (nChannel : UInt32) (nType : Fin 3)
    (chain : List BlockState) : Result (List UInt64) :=
  (chain.filter fun block => block.nChannel = nChannel).mapM fun block =>
    supply.GetReleasedReserve db nFuel block nChannel nType

theorem LinkedChain.tail (h : LinkedChain db (block :: chain)) : LinkedChain db chain :=
  ⟨h.prev.of_cons, (List.pairwise_cons.mp h.times).2,
    fun x hx => h.searchable x (List.mem_cons_of_mem _ hx)⟩

theorem LinkedChain.holds (h : LinkedChain db (block :: chain)) : HoldsChain db block (block :: chain) := by
  induction chain generalizing block with
  | nil => exact .last (.refl block)
  | cons prev chain ih =>
      have hPrev := (List.isChain_cons_cons.mp h.prev).1
      exact .next (.refl block) hPrev (ih h.tail)

/-- The block behind the head of a chain, and that the records hold the chain from there. -/
theorem LinkedChain.behind (h : LinkedChain db (block :: (chain ++ [a]))) :
    ∃ prev, block.Prev db = .ok prev ∧ HoldsChain db prev (chain ++ [a]) := by
  have hTail := h.tail
  cases hChain : chain ++ [a] with
  | nil => exact absurd (congrArg List.length hChain) (by simp)
  | cons prev rest =>
      rw [hChain] at h hTail
      exact ⟨prev, (List.isChain_cons_cons.mp h.prev).1, hTail.holds⟩

/-- What the blocks of a channel above `a` release adds up to the release from `a` to the newest
of them. -/
theorem LinkedChain.releasesOf (h : LinkedChain db (chain ++ [a])) (hAges : Ages supply)
    (ha : a.nChannel = nChannel) (hFuel : chain.length ≤ nFuel) :
    ∃ vReleased, releasesOf supply db nFuel nChannel nType chain = .ok vReleased ∧
      vReleased.sum = released supply nType a (lastOf nChannel a chain) := by
  induction chain with
  | nil => exact ⟨[], rfl, (released_self a).symm⟩
  | cons block chain ih =>
      rw [List.cons_append] at h
      rw [List.length_cons] at hFuel
      obtain ⟨vReleased, hReleased, hSum⟩ := ih h.tail (by omega)
      rw [Safety.releasesOf, List.filter_cons, lastOf]
      by_cases hChannel : block.nChannel = nChannel
      · obtain ⟨prev, hPrev, hHolds⟩ := h.behind
        have hReserve := getReleasedReserve_eq supply nType hChannel
          (h.searchable block (List.mem_cons_self ..)) hPrev hHolds ha h.tail.searchable
          (show chain.length < nFuel by omega)
        have hBlock := (List.pairwise_cons.mp h.times).1 _ (lastOf_mem nChannel a chain)
        rw [if_pos (decide_eq_true hChannel), if_pos hChannel, List.mapM_cons, hReserve, ok_bind]
        rw [Safety.releasesOf] at hReleased
        rw [hReleased, ok_bind]
        refine ⟨_, rfl, ?_⟩
        rw [List.sum_cons, hSum,
          released_append nType hAges (le_lastOf h.tail.times) (UInt64.le_of_lt hBlock),
          UInt64.add_comm]
      · rw [if_neg (by simpa using hChannel), if_neg hChannel]
        exact ⟨vReleased, hReleased, hSum⟩

/-! ## Indexing a block -/

section Index

variable {σ : Type} {rt : ChainRuntime} {readLegacy : σ → Uint512 → Option Legacy.Transaction}
  {node : Node σ} {state state' statePrev stateLast : BlockState} {nRewards nReleased : Fin 3 → UInt64}

/-- The header and the time of a block, which indexing does not change. -/
def SameHeader (state state' : BlockState) : Prop :=
  state'.toBlock = state.toBlock ∧ state'.nTime = state.nTime

theorem SameHeader.trans {state'' : BlockState} (h : SameHeader state state')
    (h' : SameHeader state' state'') :
    SameHeader state state'' :=
  ⟨h'.1.trans h.1, h'.2.trans h.2⟩

/-- One type of reserve: what is in it, and what the release and the coinbase make of it. -/
theorem release_reserve (h : BlockState.release rt db stateLast nRewards state nType = .ok state')
    (hReleased : rt.GetReleasedReserve db state state.nChannel nType = nReleased nType) :
    (state.nVersion ≠ 2 →
      nRewards nType < (stateLast.nReleasedReserve nType).toUInt64 + nReleased nType) ∧
      state'.nReleasedReserve = Function.update state.nReleasedReserve nType
        ((stateLast.nReleasedReserve nType).toUInt64 + nReleased nType - nRewards nType).toInt64 ∧
      SameHeader state state' := by
  simp only [BlockState.release, bind_eq_ok, reject_eq_ok, pure_eq_ok, hReleased] at h
  obtain ⟨u, hCheck, rfl⟩ := h
  refine ⟨fun hVersion => ?_, rfl, rfl, rfl⟩
  exact UInt64.not_le.mp fun hLe => hCheck ⟨hVersion, hLe⟩

/-- The three reserves are independent of each other. -/
theorem releaseAll_reserves
    (h : BlockState.releaseAll rt readLegacy node statePrev stateLast state = .ok state')
    (hWork : state.IsProofOfWork)
    (hPaid : BlockState.rewards rt readLegacy node state statePrev stateLast = .ok nRewards)
    (hReleased : ∀ s nType, SameHeader state s →
      rt.GetReleasedReserve node.db s s.nChannel nType = nReleased nType) :
    SameHeader state state' ∧ ∀ nType,
      (state.nVersion ≠ 2 →
        nRewards nType < (stateLast.nReleasedReserve nType).toUInt64 + nReleased nType) ∧
      state'.nReleasedReserve nType =
        ((stateLast.nReleasedReserve nType).toUInt64 + nReleased nType - nRewards nType).toInt64 := by
  rw [BlockState.releaseAll, if_pos hWork, hPaid, ok_bind] at h
  simp only [List.foldlM_cons, List.foldlM_nil, bind_eq_ok, pure_eq_ok] at h
  obtain ⟨s₀, h₀, s₁, h₁, s₂, h₂, rfl⟩ := h
  obtain ⟨hCheck₀, hUpdate₀, hSame₀⟩ := release_reserve h₀ (hReleased state 0 ⟨rfl, rfl⟩)
  obtain ⟨hCheck₁, hUpdate₁, hSame₁⟩ := release_reserve h₁ (hReleased s₀ 1 hSame₀)
  have hSame₁ := hSame₀.trans hSame₁
  obtain ⟨hCheck₂, hUpdate₂, hSame₂⟩ := release_reserve h₂ (hReleased s₁ 2 hSame₁)
  have hVersion₀ : s₀.nVersion = state.nVersion := congrArg Block.nVersion hSame₀.1
  have hVersion₁ : s₁.nVersion = state.nVersion := congrArg Block.nVersion hSame₁.1
  rw [hVersion₀] at hCheck₁
  rw [hVersion₁] at hCheck₂
  refine ⟨hSame₁.trans hSame₂, fun nType => ?_⟩
  rw [hUpdate₂, hUpdate₁, hUpdate₀]
  match nType with
  | 0 => exact ⟨hCheck₀, rfl⟩
  | 1 => exact ⟨hCheck₁, rfl⟩
  | 2 => exact ⟨hCheck₂, rfl⟩

/-- The block with its place in its channel. -/
def placed (state statePrev stateLast : BlockState) : BlockState :=
  { state with
    nChannelWeight := statePrev.nChannelWeight
    nChannelHeight := stateLast.nChannelHeight + 1
    nFeeReserve := stateLast.nFeeReserve }

/-- Of what `Index` calculates, the reserves are what `releaseAll` leaves. -/
theorem indexed_reserves {fLast : Bool} (h : BlockState.indexed rt readLegacy nFuel node state = .ok state')
    (hPrev : state.Prev node.db = .ok statePrev)
    (hLast : BlockState.GetLastState node.db state.nChannel nFuel statePrev = .ok (stateLast, fLast)) :
    ∃ s, BlockState.releaseAll rt readLegacy node statePrev stateLast
        (placed state statePrev stateLast) = .ok s ∧
      SameHeader s state' ∧ state'.nReleasedReserve = s.nReleasedReserve := by
  rw [BlockState.indexed, hPrev, ok_bind] at h
  simp only [bind_eq_ok, reject_eq_ok, pure_eq_ok, hLast, Except.ok.injEq] at h
  obtain ⟨-, -, x, rfl, s, hRelease, s', hWeight, nTrust, -, rfl⟩ := h
  obtain ⟨nChannelWeight, rfl⟩ := BlockState.addWeight_eq hWeight
  exact ⟨s, hRelease, ⟨rfl, rfl⟩, rfl⟩

end Index

/-! ## Reserves as integers -/

section Integers

variable {nReserve : Int64} {nSubsidies : Nat} {nReward : UInt64}

/-- The new reserve is that of the integers but for a multiple of the words. -/
theorem reserve_emod (nReserve : Int64) (nSubsidies : Nat) (nReward : UInt64) :
    (nReserve.toUInt64 + UInt64.ofNat nSubsidies - nReward).toInt64.toInt % 2 ^ 64 =
      (nReserve.toInt + nSubsidies - nReward.toNat) % 2 ^ 64 := by
  have hReserve := toInt_emod nReserve
  have hReward := nReward.toNat_lt
  rw [toInt_emod, UInt64.toUInt64_toInt64, UInt64.toNat_sub, UInt64.toNat_add, UInt64.toNat_ofNat']
  push_cast
  omega

theorem reserve_eq_iff :
    (nReserve.toUInt64 + UInt64.ofNat nSubsidies - nReward).toInt64.toInt =
        nReserve.toInt + nSubsidies - nReward.toNat ↔
      -2 ^ 63 ≤ nReserve.toInt + nSubsidies - nReward.toNat ∧
        nReserve.toInt + nSubsidies - nReward.toNat < 2 ^ 63 := by
  have hMod := reserve_emod nReserve nSubsidies nReward
  have hLe := (nReserve.toUInt64 + UInt64.ofNat nSubsidies - nReward).toInt64.le_toInt
  have hLt := (nReserve.toUInt64 + UInt64.ofNat nSubsidies - nReward).toInt64.toInt_lt
  omega

/-- The test of `Index`, where what it tests is not below zero. -/
theorem reward_lt (hCheck : nReward < nReserve.toUInt64 + UInt64.ofNat nSubsidies)
    (hDue : 0 ≤ nReserve.toInt + nSubsidies) : (nReward.toNat : Int) < nReserve.toInt + nSubsidies := by
  have hReserve := toInt_emod nReserve
  rw [UInt64.lt_iff_toNat_lt, UInt64.toNat_add, UInt64.toNat_ofNat'] at hCheck
  omega

end Integers

/-! ## Chains that are indexed block by block -/

/-- A block as `Index` left it, with the rewards of its coinbase by type of reserve. -/
structure Mined where
  state : BlockState
  nRewards : Fin 3 → UInt64

/-- A chain grows on the block `a`: each block is later than all before it, and is indexed on some
node that holds the chain, whatever else has changed there. -/
inductive Grown {σ : Type} (supply : SupplyRuntime) (rt : ChainRuntime)
    (readLegacy : σ → Uint512 → Option Legacy.Transaction) (nFuel : Nat) (a : BlockState) :
    List Mined → Prop
  | nil : Grown supply rt readLegacy nFuel a []
  | cons {blocks : List Mined} {x : Mined} {node : Node σ} {state statePrev : BlockState}
      (hGrown : Grown supply rt readLegacy nFuel a blocks)
      (hPrev : state.Prev node.db = .ok statePrev)
      (hHolds : HoldsChain node.db statePrev (blocks.map Mined.state ++ [a]))
      (hTime : ∀ y ∈ blocks.map Mined.state ++ [a], y.nTime < state.nTime)
      (hSearch : Searchable state) (hFuel : blocks.length < nFuel)
      (hIndex : BlockState.indexed (supply.chainRuntime nFuel rt) readLegacy nFuel node state = .ok x.state)
      (hPaid : ∀ stateLast fLast,
        BlockState.GetLastState node.db state.nChannel nFuel statePrev = .ok (stateLast, fLast) →
        state.IsProofOfWork →
        BlockState.rewards (supply.chainRuntime nFuel rt) readLegacy node state statePrev stateLast =
          .ok x.nRewards) :
      Grown supply rt readLegacy nFuel a (x :: blocks)

/-- The newest block of a channel in a grown chain. -/
def newestOf (nChannel : UInt32) (a : BlockState) (blocks : List Mined) : BlockState :=
  lastOf nChannel a (blocks.map Mined.state)

/-- The rewards that the blocks of a channel paid from a reserve. -/
def paidBy (nChannel : UInt32) (nType : Fin 3) (blocks : List Mined) : List UInt64 :=
  (blocks.filter fun x => x.state.nChannel = nChannel).map fun x => x.nRewards nType

/-- Something is true of each block of a channel and the block of the channel before it. -/
def EveryStep (P : BlockState → Mined → Prop) (nChannel : UInt32) (a : BlockState) : List Mined → Prop
  | [] => True
  | x :: blocks => (x.state.nChannel = nChannel → P (newestOf nChannel a blocks) x) ∧
      EveryStep P nChannel a blocks

/-- What the reserve of a block is to be, as an integer. -/
def dueReserve (supply : SupplyRuntime) (nType : Fin 3) (last : BlockState) (x : Mined) : Int :=
  (last.nReleasedReserve nType).toInt + subsidiesOf supply nType last x.state -
    (x.nRewards nType).toNat

/-- The reserve of a block is what it is to be, and but for version 2 it is above zero. -/
def ExactReserve (supply : SupplyRuntime) (nType : Fin 3) (last : BlockState) (x : Mined) : Prop :=
  (x.state.nReleasedReserve nType).toInt = dueReserve supply nType last x ∧
    (x.state.nVersion ≠ 2 → 0 < (x.state.nReleasedReserve nType).toInt)

/-- The release lifts the reserve to zero or above, but for version 2, and what the coinbase leaves
fits the signed field. -/
def FitsReserve (supply : SupplyRuntime) (nType : Fin 3) (last : BlockState) (x : Mined) : Prop :=
  (x.state.nVersion ≠ 2 →
    0 ≤ (last.nReleasedReserve nType).toInt + subsidiesOf supply nType last x.state) ∧
    -2 ^ 63 ≤ dueReserve supply nType last x ∧ dueReserve supply nType last x < 2 ^ 63

section Grown

variable {σ : Type} {rt : ChainRuntime} {readLegacy : σ → Uint512 → Option Legacy.Transaction}
  {blocks : List Mined} {x : Mined}

theorem sameHeader_searchable {state state' : BlockState} (h : SameHeader state state')
    (hSearch : Searchable state) : Searchable state' := by
  unfold Searchable at *
  rw [h.1]
  exact hSearch

theorem indexed_same {node : Node σ} {state state' : BlockState}
    (h : BlockState.indexed rt readLegacy nFuel node state = .ok state') : SameHeader state state' := by
  obtain ⟨prev, -, -, hBlock, hTime, -⟩ := indexed_ok h
  exact ⟨hBlock, hTime⟩

/-- The newest block of a grown chain is later than the others, and does not stop the search. -/
theorem Grown.head (h : Grown supply rt readLegacy nFuel a (x :: blocks)) :
    Grown supply rt readLegacy nFuel a blocks ∧ Searchable x.state ∧
      ∀ y ∈ blocks.map Mined.state ++ [a], y.nTime < x.state.nTime := by
  cases h with
  | cons hGrown hPrev hHolds hTime hSearch hFuel hIndex hPaid =>
      have hSame := indexed_same hIndex
      refine ⟨hGrown, sameHeader_searchable hSame hSearch, ?_⟩
      rw [hSame.2]
      exact hTime

theorem Grown.ordered (h : Grown supply rt readLegacy nFuel a blocks) (ha : Searchable a) :
    (∀ block ∈ blocks.map Mined.state ++ [a], Searchable block) ∧
      (blocks.map Mined.state ++ [a]).Pairwise fun block prev => prev.nTime < block.nTime := by
  induction blocks with
  | nil => exact ⟨by simpa using ha, List.pairwise_singleton ..⟩
  | cons x blocks ih =>
      obtain ⟨hRest, hSearch, hTime⟩ := h.head
      obtain ⟨hReal, hTimes⟩ := ih hRest
      rw [List.map_cons, List.cons_append]
      constructor
      · intro block hMem
        rcases List.mem_cons.mp hMem with rfl | hMem
        · exact hSearch
        · exact hReal block hMem
      · exact List.pairwise_cons.mpr ⟨hTime, hTimes⟩

/-- The reserves of a block of the channel. -/
theorem Grown.step (h : Grown supply rt readLegacy nFuel a (x :: blocks)) (ha : Searchable a)
    (hStart : a.nChannel = nChannel) (hChannel : x.state.nChannel = nChannel)
    (hWork : x.state.IsProofOfWork) (nType : Fin 3) :
    (x.state.nVersion ≠ 2 → x.nRewards nType <
      ((newestOf nChannel a blocks).nReleasedReserve nType).toUInt64 +
        released supply nType (newestOf nChannel a blocks) x.state) ∧
      x.state.nReleasedReserve nType =
        (((newestOf nChannel a blocks).nReleasedReserve nType).toUInt64 +
          released supply nType (newestOf nChannel a blocks) x.state - x.nRewards nType).toInt64 := by
  cases h with
  | @cons _ _ node state statePrev hGrown hPrev hHolds hTime hSearch hFuel hIndex hPaid =>
      have hSame := indexed_same hIndex
      have hReal := (hGrown.ordered ha).1
      have hState : state.nChannel = nChannel := by rw [← hChannel, hSame.1]
      have hLength : (blocks.map Mined.state).length < nFuel := by rw [List.length_map]; exact hFuel
      obtain ⟨stateLast, hLast, hAgree⟩ := hHolds.getLastState hStart hReal hLength
      rw [← hState] at hLast
      obtain ⟨s, hRelease, hSame', hReserve⟩ := indexed_reserves hIndex hPrev hLast
      have hWork' : state.IsProofOfWork := by
        unfold Block.IsProofOfWork at *
        rw [← hSame.1]
        exact hWork
      have hReleased : ∀ s' nType', SameHeader (placed state statePrev stateLast) s' →
          (supply.chainRuntime nFuel rt).GetReleasedReserve node.db s' s'.nChannel nType' =
            released supply nType' (newestOf nChannel a blocks) x.state := by
        intro s' nType' hSame''
        have hHeader : SameHeader state s' := hSame''
        have hChannel' : s'.nChannel = nChannel := by rw [hHeader.1]; exact hState
        have hPrev' : s'.Prev node.db = .ok statePrev := by
          unfold BlockState.Prev at *
          rw [hHeader.1]
          exact hPrev
        have hGet := getReleasedReserve_eq supply nType' hChannel'
          (sameHeader_searchable hHeader hSearch) hPrev' hHolds hStart hReal hLength
        show ((supply.GetReleasedReserve node.db nFuel s' s'.nChannel nType').toOption).getD 0 = _
        rw [hChannel', hGet]
        show released supply nType' _ s' = _
        rw [released, hHeader.2, ← hSame.2]
        rfl
      obtain ⟨-, hAll⟩ := releaseAll_reserves hRelease hWork' (hPaid _ _ hLast hWork') hReleased
      have hVersion : (placed state statePrev stateLast).nVersion = x.state.nVersion :=
        congrArg Block.nVersion hSame.1.symm
      have hStored : stateLast.nReleasedReserve = (newestOf nChannel a blocks).nReleasedReserve :=
        hAgree.nReleasedReserve
      have hStep := hAll nType
      rw [hVersion, hStored] at hStep
      rw [hReserve]
      exact hStep

theorem proofOfWork_of_channel (hWork : nChannel = CHANNEL.PRIME ∨ nChannel = CHANNEL.HASH)
    (hChannel : block.nChannel = nChannel) : block.IsProofOfWork := by
  unfold Block.IsProofOfWork
  rw [hChannel]
  exact hWork

theorem newestOf_cons (nChannel : UInt32) (a : BlockState) (x : Mined) (blocks : List Mined) :
    newestOf nChannel a (x :: blocks) =
      if x.state.nChannel = nChannel then x.state else newestOf nChannel a blocks := rfl

theorem paidBy_cons (nChannel : UInt32) (nType : Fin 3) (x : Mined) (blocks : List Mined) :
    paidBy nChannel nType (x :: blocks) =
      if x.state.nChannel = nChannel then x.nRewards nType :: paidBy nChannel nType blocks
      else paidBy nChannel nType blocks := by
  rw [paidBy, List.filter_cons]
  by_cases hChannel : x.state.nChannel = nChannel
  · rw [if_pos (decide_eq_true hChannel), if_pos hChannel]
    rfl
  · rw [if_neg (by simpa using hChannel), if_neg hChannel]
    rfl

/-- Where the newest block of the channel is in time. -/
theorem Grown.newest_time (nChannel : UInt32)
    (h : Grown supply rt readLegacy nFuel a (x :: blocks)) (ha : Searchable a) :
    a.nTime ≤ (newestOf nChannel a blocks).nTime ∧
      (newestOf nChannel a blocks).nTime ≤ x.state.nTime := by
  obtain ⟨hRest, -, hTime⟩ := h.head
  have hTimes := (hRest.ordered ha).2
  exact ⟨le_lastOf hTimes, UInt64.le_of_lt (hTime _ (lastOf_mem ..))⟩

/-- The reserve of the newest block, in 64 bits. -/
theorem Grown.reserve_word (h : Grown supply rt readLegacy nFuel a blocks) (hAges : Ages supply)
    (ha : Searchable a) (hStart : a.nChannel = nChannel)
    (hWork : nChannel = CHANNEL.PRIME ∨ nChannel = CHANNEL.HASH) (nType : Fin 3) :
    ((newestOf nChannel a blocks).nReleasedReserve nType).toUInt64 =
      (a.nReleasedReserve nType).toUInt64 + released supply nType a (newestOf nChannel a blocks) -
        (paidBy nChannel nType blocks).sum := by
  induction blocks with
  | nil =>
      show (a.nReleasedReserve nType).toUInt64 =
        (a.nReleasedReserve nType).toUInt64 + released supply nType a a - 0
      rw [released_self]
      grind
  | cons x blocks ih =>
      have hRest := ih h.head.1
      rw [newestOf_cons, paidBy_cons]
      by_cases hChannel : x.state.nChannel = nChannel
      · obtain ⟨hFirst, hLast⟩ := h.newest_time nChannel ha
        have hStep := (h.step ha hStart hChannel (proofOfWork_of_channel hWork hChannel) nType).2
        have hAppend := released_append nType hAges hFirst hLast
        rw [if_pos hChannel, if_pos hChannel, hStep, UInt64.toUInt64_toInt64, hRest, hAppend,
          List.sum_cons]
        grind
      · rw [if_neg hChannel, if_neg hChannel]
        exact hRest

/-- A reserve is exact when it fits, and not otherwise. -/
theorem Grown.fits_iff (h : Grown supply rt readLegacy nFuel a (x :: blocks)) (ha : Searchable a)
    (hStart : a.nChannel = nChannel) (hWork : nChannel = CHANNEL.PRIME ∨ nChannel = CHANNEL.HASH)
    (hChannel : x.state.nChannel = nChannel) (nType : Fin 3) :
    FitsReserve supply nType (newestOf nChannel a blocks) x ↔
      ExactReserve supply nType (newestOf nChannel a blocks) x := by
  obtain ⟨hCheck, hStep⟩ := h.step ha hStart hChannel (proofOfWork_of_channel hWork hChannel) nType
  rw [released_eq] at hCheck hStep
  unfold FitsReserve ExactReserve dueReserve
  rw [hStep, reserve_eq_iff]
  constructor
  · intro hFits
    obtain ⟨hDue, hRange⟩ := hFits
    refine ⟨hRange, fun hVersion => ?_⟩
    have hLt := reward_lt (hCheck hVersion) (hDue hVersion)
    rw [reserve_eq_iff.mpr hRange]
    omega
  · intro hExact
    obtain ⟨hRange, hPositive⟩ := hExact
    refine ⟨fun hVersion => ?_, hRange⟩
    have hPos := hPositive hVersion
    rw [reserve_eq_iff.mpr hRange] at hPos
    omega

theorem Grown.everyStep_iff (h : Grown supply rt readLegacy nFuel a blocks) (ha : Searchable a)
    (hStart : a.nChannel = nChannel) (hWork : nChannel = CHANNEL.PRIME ∨ nChannel = CHANNEL.HASH)
    (nType : Fin 3) :
    EveryStep (FitsReserve supply nType) nChannel a blocks ↔
      EveryStep (ExactReserve supply nType) nChannel a blocks := by
  induction blocks with
  | nil => exact Iff.rfl
  | cons x blocks ih =>
      have hRest := ih h.head.1
      rw [EveryStep, EveryStep, hRest]
      have hHead := fun hChannel => h.fits_iff ha hStart hWork hChannel nType
      exact and_congr_left' (forall_congr' hHead)

/-- The reserve of the newest block, as an integer. -/
theorem Grown.reserve_int (h : Grown supply rt readLegacy nFuel a blocks) (hAges : Ages supply)
    (ha : Searchable a) (nType : Fin 3)
    (hExact : EveryStep (ExactReserve supply nType) nChannel a blocks) :
    ((newestOf nChannel a blocks).nReleasedReserve nType).toInt =
      (a.nReleasedReserve nType).toInt + subsidiesOf supply nType a (newestOf nChannel a blocks) -
        (((paidBy nChannel nType blocks).map UInt64.toNat).sum : Nat) := by
  induction blocks with
  | nil =>
      show (a.nReleasedReserve nType).toInt =
        (a.nReleasedReserve nType).toInt + subsidiesOf supply nType a a - ((0 : Nat) : Int)
      have hSelf : subsidiesOf supply nType a a = 0 := SupplyRuntime.subsidies_self _
      omega
  | cons x blocks ih =>
      have hRest := ih h.head.1 hExact.2
      rw [newestOf_cons, paidBy_cons]
      by_cases hChannel : x.state.nChannel = nChannel
      · obtain ⟨hFirst, hLast⟩ := h.newest_time nChannel ha
        have hStep := (hExact.1 hChannel).1
        have hAppend := subsidiesOf_append nType hAges hFirst hLast
        rw [if_pos hChannel, if_pos hChannel, hStep, dueReserve, hRest, hAppend, List.map_cons,
          List.sum_cons]
        omega
      · rw [if_neg hChannel, if_neg hChannel]
        exact hRest

end Grown

/-- What the blocks of a channel release between two of them is released from the one to the other.
The reserve that a grown chain leaves is the reserve it began with, and the release, less the
rewards: in 64 bits always, and as integers, without a step below zero but for version 2, exactly
when every step fits. -/
theorem reserves_telescope (supply : SupplyRuntime) (hAges : Ages supply) (nChannel : UInt32)
    (nType : Fin 3) (a : BlockState) (ha : Searchable a) (hStart : a.nChannel = nChannel) :
    (∀ (db : Records) (nFuel : Nat) (chain : List BlockState), LinkedChain db (chain ++ [a]) →
      chain.length ≤ nFuel →
      ∃ vReleased, releasesOf supply db nFuel nChannel nType chain = .ok vReleased ∧
        vReleased.sum = supply.ReleaseRewards
          (supply.GetChainAge (lastOf nChannel a chain).nTime - supply.GetChainAge a.nTime)
          (supply.GetChainAge a.nTime) nType) ∧
    ∀ (σ : Type) (rt : ChainRuntime) (readLegacy : σ → Uint512 → Option Legacy.Transaction)
      (nFuel : Nat) (blocks : List Mined), Grown supply rt readLegacy nFuel a blocks →
      nChannel = CHANNEL.PRIME ∨ nChannel = CHANNEL.HASH →
      ((newestOf nChannel a blocks).nReleasedReserve nType).toUInt64 =
          (a.nReleasedReserve nType).toUInt64 +
            supply.ReleaseRewards
              (supply.GetChainAge (newestOf nChannel a blocks).nTime - supply.GetChainAge a.nTime)
              (supply.GetChainAge a.nTime) nType -
            (paidBy nChannel nType blocks).sum ∧
        (EveryStep (FitsReserve supply nType) nChannel a blocks ↔
          EveryStep (ExactReserve supply nType) nChannel a blocks) ∧
        (EveryStep (FitsReserve supply nType) nChannel a blocks →
          ((newestOf nChannel a blocks).nReleasedReserve nType).toInt =
            (a.nReleasedReserve nType).toInt + subsidiesOf supply nType a (newestOf nChannel a blocks) -
              (((paidBy nChannel nType blocks).map UInt64.toNat).sum : Nat)) := by
  constructor
  · intro db nFuel chain hLinked hFuel
    exact hLinked.releasesOf hAges hStart hFuel
  · intro σ rt readLegacy nFuel blocks hGrown hWork
    have hIff := hGrown.everyStep_iff ha hStart hWork nType
    refine ⟨hGrown.reserve_word hAges ha hStart hWork nType, hIff, fun hFits => ?_⟩
    exact hGrown.reserve_int hAges ha nType (hIff.mp hFits)

/-! ## A negative reserve -/

/-- One unit is released each minute. -/
def exampleSupply : SupplyRuntime where
  GetSubsidy _ _ := 1
  GetChainAge nTime := UInt32.ofNat (min (nTime.toNat / 60) 4294967295)

theorem exampleSupply_ages : Ages exampleSupply := by
  intro nTime nTime' hLe
  rw [UInt64.le_iff_toNat_le] at hLe
  have hAge : ∀ n : UInt64, (exampleSupply.GetChainAge n).toNat = min (n.toNat / 60) 4294967295 :=
    fun n => UInt32.toNat_ofNat_of_lt' (by rw [UInt32.size]; omega)
  rw [UInt32.le_iff_toNat_le, hAge, hAge]
  omega

/-- A block of version 2, with as much in each reserve. -/
def reserveStart (nReserve : Int64) : BlockState :=
  { nVersion := 2, nChannel := CHANNEL.HASH, nHeight := 1, nBits := 1, nTime := 60
    nReleasedReserve := fun _ => nReserve }

/-- The block after it, of version 3 and three minutes later. -/
def reserveBlock : BlockState :=
  { nVersion := 3, hashPrevBlock := 5, nChannel := CHANNEL.HASH, nHeight := 2, nBits := 1
    nTime := 240, vtx := [(TRANSACTION.LEGACY, 7)] }

/-- Its coinbase pays ten units to the miner. -/
def reserveCoinbase : Legacy.Transaction :=
  { vin := [{ prevout := ⟨0, 0xffffffff⟩ }], vout := [⟨10, []⟩, ⟨0, []⟩, ⟨0, []⟩] }

def reserveNode (nReserve : Int64) : Node Unit where
  db := { blocks := fun _ => some (reserveStart nReserve) }
  side := ()

/-- `Index` of a block. -/
def reserveIndex (node : Node Unit) (state : BlockState) : Result BlockState :=
  BlockState.indexed (exampleSupply.chainRuntime 4 exampleChain) (fun _ _ => some reserveCoinbase) 4
    node state

def minedOn (node : Node Unit) (state : BlockState) : Mined where
  state := (reserveIndex node state).toOption.getD {}
  nRewards := ![10, 0, 0]

def reserveMined (nReserve : Int64) : Mined := minedOn (reserveNode nReserve) reserveBlock

theorem reserveStart_searchable (nReserve : Int64) : Searchable (reserveStart nReserve) := by
  constructor
  · show (1 : UInt32) ≠ 0
    decide
  · show ¬ (1 : UInt32) = 0
    decide

theorem prev_of_read {hash : Uint1024} (hHash : block.hashPrevBlock = hash) (hNe : hash ≠ 0)
    (hRead : db.ReadBlock hash = some stored) : block.Prev db = .ok stored := by
  rw [BlockState.Prev, hHash, if_neg hNe, hRead]
  rfl

theorem minedOn_state {node : Node Unit} {state : BlockState}
    (hOk : (reserveIndex node state).isOk = true) :
    reserveIndex node state = .ok (minedOn node state).state := by
  simp only [minedOn]
  exact eq_ok_of_isOk hOk

/-- A chain grows by a block that is indexed, which pays what its legacy coinbase pays. -/
theorem minedOn_grown {blocks : List Mined} {node : Node Unit} {state statePrev : BlockState}
    (hGrown : Grown exampleSupply exampleChain (fun (_ : Unit) _ => some reserveCoinbase) 4 a blocks)
    (hPrev : state.Prev node.db = .ok statePrev)
    (hHolds : HoldsChain node.db statePrev (blocks.map Mined.state ++ [a]))
    (hTime : ∀ y ∈ blocks.map Mined.state ++ [a], y.nTime < state.nTime) (hSearch : Searchable state)
    (hFuel : blocks.length < 4) (hVersion : state.nVersion < 7) (hTx : state.vtx ≠ [])
    (hOk : (reserveIndex node state).isOk = true) :
    Grown exampleSupply exampleChain (fun (_ : Unit) _ => some reserveCoinbase) 4 a
      (minedOn node state :: blocks) := by
  have hIndex := minedOn_state hOk
  unfold reserveIndex at hIndex
  refine .cons hGrown hPrev hHolds hTime hSearch hFuel hIndex fun stateLast fLast hLast hWork => ?_
  have hCoinBase : reserveCoinbase.IsCoinBase := by decide +kernel
  simp only [BlockState.rewards, if_pos hVersion, bind_eq_ok, demand_eq_ok, reject_eq_ok, not_not]
  exact ⟨_, List.head?_eq_some_head hTx, reserveCoinbase, rfl, (), hCoinBase, rfl⟩

theorem reserveMined_grown (nReserve : Int64)
    (hOk : (reserveIndex (reserveNode nReserve) reserveBlock).isOk = true) :
    Grown exampleSupply exampleChain (fun (_ : Unit) _ => some reserveCoinbase) 4
      (reserveStart nReserve) [reserveMined nReserve] := by
  have hPrev : reserveBlock.Prev (reserveNode nReserve).db = .ok (reserveStart nReserve) :=
    prev_of_read rfl (by decide +kernel) rfl
  have hTime : ∀ y ∈ [reserveStart nReserve], y.nTime < reserveBlock.nTime := by
    intro y hMem
    rw [List.mem_singleton.mp hMem]
    show (60 : UInt64) < 240
    decide
  have hSearch : Searchable reserveBlock := by
    constructor
    · show (2 : UInt32) ≠ 0
      decide
    · show ¬ (1 : UInt32) = 0
      decide
  exact minedOn_grown .nil hPrev (.last (.refl _)) hTime hSearch (by decide) (by decide) (by decide) hOk

/-- A block of another channel stands on the block. -/
def stakeBlock : BlockState :=
  { nVersion := 3, hashPrevBlock := 6, nChannel := CHANNEL.STAKE, nHeight := 3, nBits := 1, nTime := 300
    vtx := [(TRANSACTION.LEGACY, 8)] }

/-- The next block of the channel, eleven minutes after the last. -/
def laterBlock : BlockState :=
  { reserveBlock with hashPrevBlock := 7, nHeight := 4, nTime := 900 }

/-- The records with another block. -/
def stacked (db : Records) (hash : Uint1024) (block : BlockState) : Records :=
  { db with blocks := Function.update db.blocks hash (some block) }

theorem stacked_self (db : Records) (hash : Uint1024) (block : BlockState) :
    (stacked db hash block).ReadBlock hash = some block :=
  Function.update_self ..

theorem stacked_of_ne {hash hash' : Uint1024} (hNe : hash' ≠ hash) :
    (stacked db hash block).ReadBlock hash' = db.ReadBlock hash' :=
  Function.update_of_ne hNe ..

def stakeNode : Node Unit where
  db := stacked (reserveNode 20).db 6 (reserveMined 20).state
  side := ()

def stakeMined : Mined := minedOn stakeNode stakeBlock

def laterNode : Node Unit where
  db := stacked stakeNode.db 7 stakeMined.state
  side := ()

def laterMined : Mined := minedOn laterNode laterBlock

theorem laterMined_grown :
    Grown exampleSupply exampleChain (fun (_ : Unit) _ => some reserveCoinbase) 4 (reserveStart 20)
      [laterMined, stakeMined, reserveMined 20] := by
  have hFirst := reserveMined_grown 20 (by decide +kernel)
  have hRoot : (reserveMined 20).state.Prev stakeNode.db = .ok (reserveStart 20) := by
    have hNe : (5 : Uint1024) ≠ 6 := by decide +kernel
    have hRead : stakeNode.db.ReadBlock 5 = some (reserveStart 20) := stacked_of_ne hNe
    exact prev_of_read (by decide +kernel) (by decide +kernel) hRead
  have hStake : Grown exampleSupply exampleChain (fun (_ : Unit) _ => some reserveCoinbase) 4
      (reserveStart 20) [stakeMined, reserveMined 20] := by
    have hPrev : stakeBlock.Prev stakeNode.db = .ok (reserveMined 20).state :=
      prev_of_read rfl (by decide +kernel) (stacked_self ..)
    have hTime : ∀ y ∈ [(reserveMined 20).state, reserveStart 20], y.nTime < stakeBlock.nTime :=
      List.forall_mem_cons.mpr
        ⟨by decide +kernel, List.forall_mem_singleton.mpr (by decide +kernel)⟩
    have hSearch : Searchable stakeBlock := ⟨by decide +kernel, by unfold Block.IsNull; decide +kernel⟩
    exact minedOn_grown hFirst hPrev (.next (.refl _) hRoot (.last (.refl _))) hTime hSearch (by decide)
      (by decide) (by decide) (by decide +kernel)
  have hPrev : laterBlock.Prev laterNode.db = .ok stakeMined.state :=
    prev_of_read rfl (by decide +kernel) (stacked_self ..)
  have hBelow : stakeMined.state.Prev laterNode.db = .ok (reserveMined 20).state := by
    have hNe : (6 : Uint1024) ≠ 7 := by decide +kernel
    have hRead : laterNode.db.ReadBlock 6 = some (reserveMined 20).state :=
      (stacked_of_ne hNe).trans (stacked_self ..)
    exact prev_of_read (by decide +kernel) (by decide +kernel) hRead
  have hRoot' : (reserveMined 20).state.Prev laterNode.db = .ok (reserveStart 20) := by
    have hNe : (5 : Uint1024) ≠ 6 := by decide +kernel
    have hNe' : (5 : Uint1024) ≠ 7 := by decide +kernel
    have hRead : laterNode.db.ReadBlock 5 = some (reserveStart 20) :=
      (stacked_of_ne hNe').trans (stacked_of_ne hNe)
    exact prev_of_read (by decide +kernel) (by decide +kernel) hRead
  have hTime : ∀ y ∈ [stakeMined.state, (reserveMined 20).state, reserveStart 20],
      y.nTime < laterBlock.nTime :=
    List.forall_mem_cons.mpr ⟨by decide +kernel, List.forall_mem_cons.mpr
      ⟨by decide +kernel, List.forall_mem_singleton.mpr (by decide +kernel)⟩⟩
  have hSearch : Searchable laterBlock := ⟨by decide +kernel, by unfold Block.IsNull; decide +kernel⟩
  exact minedOn_grown hStake hPrev
    (.next (.refl _) hBelow (.next (.refl _) hRoot' (.last (.refl _)))) hTime hSearch (by decide)
    (by decide) (by decide) (by decide +kernel)

/-- A reserve of 20 is 13 after a release of 3 and a reward of 10, and 14 after 11 more and another
reward; the block between is of another channel. -/
theorem reserves_telescope_two :
    ((newestOf CHANNEL.HASH (reserveStart 20) [laterMined, stakeMined, reserveMined 20]).nReleasedReserve
      0).toInt = 20 + (3 + 11) - (10 + 10) := by
  have hLaw := ((reserves_telescope exampleSupply exampleSupply_ages CHANNEL.HASH 0 (reserveStart 20)
    (reserveStart_searchable 20) rfl).2 Unit exampleChain (fun _ _ => some reserveCoinbase) 4 _
    laterMined_grown (.inr rfl)).2.2
  have hFirst : FitsReserve exampleSupply 0 (reserveStart 20) (reserveMined 20) := by
    unfold FitsReserve
    exact ⟨fun _ => by decide +kernel, by decide +kernel, by decide +kernel⟩
  have hLater : FitsReserve exampleSupply 0 (reserveMined 20).state laterMined := by
    unfold FitsReserve
    exact ⟨fun _ => by decide +kernel, by decide +kernel, by decide +kernel⟩
  have hFits : EveryStep (FitsReserve exampleSupply 0) CHANNEL.HASH (reserveStart 20)
      [laterMined, stakeMined, reserveMined 20] := by
    have hChannel : stakeMined.state.nChannel ≠ CHANNEL.HASH := by decide +kernel
    have hChannel' : (reserveMined 20).state.nChannel = CHANNEL.HASH := by decide +kernel
    have hLast : newestOf CHANNEL.HASH (reserveStart 20) [stakeMined, reserveMined 20] =
        (reserveMined 20).state := by
      rw [newestOf_cons, if_neg hChannel, newestOf_cons, if_pos hChannel']
    rw [EveryStep, EveryStep, EveryStep, hLast]
    exact ⟨fun _ => hLater, fun hStake => absurd hStake hChannel, fun _ => hFirst, trivial⟩
  rw [hLaw hFits]
  decide +kernel

/-- A block of version 3 is indexed on a reserve of -5, takes 10 more than the 3 that it releases can
pay, and leaves -12. -/
theorem reserve_below_zero :
    Grown exampleSupply exampleChain (fun (_ : Unit) _ => some reserveCoinbase) 4 (reserveStart (-5))
        [reserveMined (-5)] ∧
      (reserveMined (-5)).state.nVersion = 3 ∧
      ((reserveMined (-5)).state.nReleasedReserve 0).toInt = -12 ∧
      ¬ EveryStep (ExactReserve exampleSupply 0) CHANNEL.HASH (reserveStart (-5)) [reserveMined (-5)] := by
  have hVersion : (reserveMined (-5)).state.nVersion = 3 := by decide +kernel
  have hReserve : ((reserveMined (-5)).state.nReleasedReserve 0).toInt = -12 := by decide +kernel
  have hChannel : (reserveMined (-5)).state.nChannel = CHANNEL.HASH := by decide +kernel
  refine ⟨reserveMined_grown _ (by decide +kernel), hVersion, hReserve, fun hExact => ?_⟩
  have hPositive := (hExact.1 hChannel).2 (by rw [hVersion]; decide)
  rw [hReserve] at hPositive
  omega

end Nexus.Safety
