import Nexus.Lib.Averages
import Nexus.Ledger.Retarget
import Nexus.Safety.Reserves

/-!
# Weighted block times

The weighted block time against the times between the last blocks of a channel, in a chain that is
stored down to its first block.

## Main results

* `getWeightedTimes_average` — as long as the weighed times stay below `2 ^ 64` and the weights
  below `2 ^ 31`, nothing is divided by zero, and the result is between two of the last times.
* `getWeightedTimes_extreme` — what becomes of greater times and depths.
* `retargetTime_ok` — the time from which a next target is calculated.
-/

namespace Nexus.Safety

open Nexus.Lib.Averages
open Nexus.Lib.Checked
open Nexus.Util
open Nexus.LLD
open Nexus.Ledger
open Nexus.Ledger.BlockState

/-- A stored chain, the newest block first, down to the block that stands on the genesis block. -/
structure WholeChain (db : Records) (chain : List BlockState) : Prop extends LinkedChain db chain where
  start : ∀ a ∈ chain.getLast?, ∃ genesis, a.Prev db = .ok genesis ∧ genesis.nHeight = 0

/-- The blocks of a channel. -/
def ofChannel (nChannel : UInt32) (chain : List BlockState) : List BlockState :=
  chain.filter fun block => block.nChannel = nChannel

/-- The times between consecutive blocks. -/
def intervals : List BlockState → List Nat
  | block :: prev :: chain => (block.nTime.toNat - prev.nTime.toNat) :: intervals (prev :: chain)
  | _ => []

variable {db : Records} {nFuel : Nat} {nChannel : UInt32} {first last : BlockState}
variable {chain : List BlockState}

/-! ## The search -/

theorem WholeChain.tail {block prev : BlockState} (h : WholeChain db (block :: prev :: chain)) :
    WholeChain db (prev :: chain) :=
  ⟨h.toLinkedChain.tail, fun a ha => h.start a (by rwa [List.getLast?_cons_cons])⟩

/-- The search stops at a block without height. -/
theorem getLastState_genesis {genesis : BlockState} (h : genesis.nHeight = 0) (nFuel : Nat) :
    GetLastState db nChannel (nFuel + 1) genesis = .ok (genesis, false) := by
  rw [GetLastState, if_pos h]

/-- The search from the block before another one is the search from there. -/
theorem getLastState_prev {s prev : BlockState} (hSearch : Searchable s)
    (hChannel : s.nChannel ≠ nChannel) (hPrev : s.Prev db = .ok prev)
    (hReal : Searchable prev ∨ prev.nHeight = 0) (nFuel : Nat) :
    GetLastState db nChannel (nFuel + 2) s = GetLastState db nChannel (nFuel + 1) prev := by
  rw [GetLastState_step hSearch, if_neg hChannel, hPrev, ok_bind]
  rcases hReal with hSearch' | hGenesis
  · rw [if_neg hSearch'.2]
  · rw [getLastState_genesis hGenesis]
    split <;> rfl

/-- The blocks of a channel, without the first of them. -/
theorem ofChannel_cons (hChannel : first.nChannel = nChannel) :
    ofChannel nChannel (first :: chain) = first :: ofChannel nChannel chain :=
  List.filter_cons_of_pos (decide_eq_true hChannel)

theorem ofChannel_cons_of_ne (hChannel : first.nChannel ≠ nChannel) :
    ofChannel nChannel (first :: chain) = ofChannel nChannel chain :=
  List.filter_cons_of_neg (by simpa using hChannel)

/-- Behind a block stands the rest of a chain: its blocks, or the genesis block. -/
theorem WholeChain.prev_eq (h : WholeChain db (first :: chain)) : ∃ prev, first.Prev db = .ok prev ∧
    ((chain = [] ∧ prev.nHeight = 0) ∨
      ∃ rest, chain = prev :: rest ∧ Searchable prev ∧ WholeChain db (prev :: rest)) := by
  cases chain with
  | nil =>
      obtain ⟨genesis, hPrev, hHeight⟩ := h.start first rfl
      exact ⟨genesis, hPrev, .inl ⟨rfl, hHeight⟩⟩
  | cons prev rest =>
      refine ⟨prev, (List.isChain_cons_cons.mp h.prev).1, .inr ⟨rest, rfl, ?_, h.tail⟩⟩
      exact h.searchable prev (by simp)

/-- The block of the channel before a block is the next one in the chain, if there is one. -/
theorem WholeChain.lastBefore (h : WholeChain db (first :: chain)) (nChannel : UInt32)
    (hFuel : chain.length < nFuel) :
    (ofChannel nChannel chain = [] ∧
      ∃ last, first.LastBefore db nFuel nChannel = .ok (last, false)) ∨
    ∃ last rest, first.LastBefore db nFuel nChannel = .ok (last, true) ∧
      WholeChain db (last :: rest) ∧ last.nChannel = nChannel ∧ rest.length < chain.length ∧
      ofChannel nChannel chain = last :: ofChannel nChannel rest ∧ last.nTime < first.nTime := by
  induction chain generalizing first nFuel with
  | nil =>
      obtain ⟨genesis, hPrev, hRest⟩ := h.prev_eq
      obtain ⟨n, rfl⟩ : ∃ n, nFuel = n + 1 := ⟨nFuel - 1, by omega⟩
      left
      have hHeight : genesis.nHeight = 0 := by
        rcases hRest with ⟨-, hHeight⟩ | ⟨rest, hCons, -⟩
        · exact hHeight
        · cases hCons
      refine ⟨rfl, genesis, ?_⟩
      rw [LastBefore, hPrev, ok_bind, getLastState_genesis hHeight]
  | cons block chain ih =>
      have hPrev : first.Prev db = .ok block := (List.isChain_cons_cons.mp h.prev).1
      have hTime : block.nTime < first.nTime :=
        (List.pairwise_cons.mp h.times).1 block List.mem_cons_self
      have hSearch : Searchable block := h.searchable block (by simp)
      obtain ⟨n, rfl⟩ : ∃ n, nFuel = n + 1 := ⟨nFuel - 1, by omega⟩
      rw [LastBefore, hPrev, ok_bind]
      by_cases hChannel : block.nChannel = nChannel
      · right
        refine ⟨block, chain, ?_, h.tail, hChannel, by simp, ofChannel_cons hChannel, hTime⟩
        rw [GetLastState_step hSearch, if_pos hChannel]
      · obtain ⟨m, rfl⟩ : ∃ m, n = m + 1 := ⟨n - 1, by rw [List.length_cons] at hFuel; omega⟩
        obtain ⟨prev, hBefore, hRest⟩ := h.tail.prev_eq
        have hReal : Searchable prev ∨ prev.nHeight = 0 := by
          rcases hRest with ⟨-, hHeight⟩ | ⟨rest, -, hReal, -⟩
          · exact .inr hHeight
          · exact .inl hReal
        rw [getLastState_prev hSearch hChannel hBefore hReal, ofChannel_cons_of_ne hChannel]
        have hSame : block.LastBefore db (m + 1) nChannel = GetLastState db nChannel (m + 1) prev := by
          rw [LastBefore, hBefore, ok_bind]
        rw [List.length_cons] at hFuel
        have hFound := ih h.tail (show chain.length < m + 1 by omega)
        rw [hSame] at hFound
        rcases hFound with hNone | ⟨last, rest, hLast, hWhole, hOf, hLess, hRestEq, hOlder⟩
        · exact .inl hNone
        · refine .inr ⟨last, rest, hLast, hWhole, hOf, ?_, hRestEq, UInt64.lt_trans hOlder hTime⟩
          rw [List.length_cons]
          omega

/-! ## The sums -/

/-- The times between the last blocks of a channel, with the weights of a depth. -/
def weighed (nDepth : Nat) (nChannel : UInt32) (chain : List BlockState) : List (Nat × Nat) :=
  falling 3 nDepth (intervals (ofChannel nChannel chain))

/-- The time between two blocks of which one is older. -/
theorem timeBetween_eq (hTime : last.nTime < first.nTime) : max (first.nTime - last.nTime) 1 =
    UInt64.ofNat (first.nTime.toNat - last.nTime.toNat) := by
  have hLess : last.nTime.toNat < first.nTime.toNat := hTime
  have hSub : first.nTime - last.nTime = UInt64.ofNat (first.nTime.toNat - last.nTime.toNat) := by
    rw [UInt64.ofNat_sub hLess.le, UInt64.ofNat_toNat, UInt64.ofNat_toNat]
  have hOne : (1 : UInt64) ≤ first.nTime - last.nTime := by
    rw [UInt64.le_iff_toNat_le, UInt64.toNat_sub_of_le _ _ (UInt64.le_of_lt hTime)]
    show 1 ≤ first.nTime.toNat - last.nTime.toNat
    omega
  rw [← hSub]
  show (if first.nTime - last.nTime ≤ 1 then 1 else first.nTime - last.nTime) = _
  split
  · rename_i hLe
    exact UInt64.le_antisymm hOne hLe
  · rfl

/-- The time between two blocks, weighed. -/
theorem weighedTime_eq {nIndex : Nat} (hTime : last.nTime < first.nTime) :
    max (first.nTime - last.nTime) 1 * UInt64.ofNat nIndex * 3 =
      UInt64.ofNat (3 * nIndex * (first.nTime.toNat - last.nTime.toNat)) := by
  rw [timeBetween_eq hTime, UInt64.ofNat_mul, UInt64.ofNat_mul]
  show _ * _ * UInt64.ofNat 3 = UInt64.ofNat 3 * _ * _
  ac_rfl

/-- The loop adds up the weights and the weighed times of the last blocks. -/
theorem weighTimes_eq (h : WholeChain db (first :: chain)) (hChannel : first.nChannel = nChannel)
    (hFuel : chain.length < nFuel) {nIndex : Nat} (hIndex : 3 * nIndex < 2 ^ 31)
    (sums : UInt64 × UInt64) : weighTimes db nFuel nChannel nIndex first sums =
      .ok (sums.1 + UInt64.ofNat (weight (weighed nIndex nChannel (first :: chain))),
        sums.2 + UInt64.ofNat (weighedSum (weighed nIndex nChannel (first :: chain)))) := by
  induction nIndex generalizing first chain sums with
  | zero =>
      rw [weighTimes, weighed, falling]
      · simp [weight, weighedSum]
      · simp
  | succ n ih =>
      obtain ⟨nIterator, nWeightedAverage⟩ := sums
      rw [weighTimes, weighed, ofChannel_cons hChannel]
      rcases h.lastBefore nChannel hFuel with ⟨hNone, last, hLast⟩ |
        ⟨last, rest, hLast, hWhole, hLastChannel, hLess, hRest, hTime⟩
      · rw [hLast, ok_bind, hNone, intervals, falling]
        · simp [weight, weighedSum, pure, Except.pure]
        · simp
        · simp
      · rw [hLast, ok_bind, hRest, intervals, falling]
        have hSmall : ¬ 2 ^ 31 ≤ (n + 1) * 3 := by omega
        have hBound : rest.length < nFuel := by omega
        have hTail : weighed n nChannel (last :: rest) =
            falling 3 n (intervals (last :: ofChannel nChannel rest)) := by
          rw [weighed, ofChannel_cons hLastChannel]
        have hRun := ih hWhole hLastChannel hBound (by omega)
          (nIterator + UInt64.ofNat ((n + 1) * 3),
            nWeightedAverage + max (first.nTime - last.nTime) 1 * UInt64.ofNat (n + 1) * 3)
        show (do
          reject (2 ^ 31 ≤ (n + 1) * 3) (Fault.exception "signed overflow")
          weighTimes db nFuel nChannel n last
            (nIterator + UInt64.ofNat ((n + 1) * 3),
              nWeightedAverage + max (first.nTime - last.nTime) 1 * UInt64.ofNat (n + 1) * 3)) = _
        rw [reject_of_not hSmall, ok_bind, hRun, hTail, weighedTime_eq hTime]
        simp only [weight, weighedSum, List.map_cons, List.sum_cons, UInt64.ofNat_add,
          UInt64.add_assoc, Nat.mul_comm (n + 1) 3]

/-- No two blocks have one time. -/
theorem intervals_pos (hTimes : chain.Pairwise fun block prev => prev.nTime < block.nTime) :
    ∀ x ∈ intervals chain, 1 ≤ x := by
  induction chain with
  | nil => simp [intervals]
  | cons block chain ih =>
      cases chain with
      | nil => simp [intervals]
      | cons prev chain =>
          obtain ⟨hHead, hRest⟩ := List.pairwise_cons.mp hTimes
          have hLess : prev.nTime.toNat < block.nTime.toNat := hHead prev List.mem_cons_self
          intro x hx
          rcases List.mem_cons.mp hx with hSame | hMem
          · omega
          · exact ih hRest x hMem

theorem LinkedChain.intervals_pos (h : LinkedChain db chain) (nChannel : UInt32) :
    ∀ x ∈ intervals (ofChannel nChannel chain), 1 ≤ x :=
  Safety.intervals_pos (h.times.sublist List.filter_sublist)

/-- The quotient of the two sums. -/
theorem average_between {pairs : List (Nat × Nat)} {values : List Nat}
    (hValues : pairs.map Prod.snd = values) (hNe : pairs ≠ []) (hPos : ∀ e ∈ pairs, 0 < e.1)
    (hWeight : weight pairs ≤ weighedSum pairs) (hFits : weighedSum pairs < 2 ^ 64) :
    UInt64.ofNat (weight pairs) ≠ 0 ∧
      (∃ x ∈ values,
        x ≤ (UInt64.ofNat (weighedSum pairs) / UInt64.ofNat (weight pairs)).toNat) ∧
      ∃ y ∈ values,
        (UInt64.ofNat (weighedSum pairs) / UInt64.ofNat (weight pairs)).toNat ≤ y := by
  have hSome : 0 < weight pairs := by
    obtain ⟨e, pairs, rfl⟩ := List.exists_cons_of_ne_nil hNe
    have hFirst := hPos e List.mem_cons_self
    simp only [weight, List.map_cons, List.sum_cons]
    omega
  have hSumNat : (UInt64.ofNat (weighedSum pairs)).toNat = weighedSum pairs :=
    UInt64.toNat_ofNat_of_lt' hFits
  have hWeightNat : (UInt64.ofNat (weight pairs)).toNat = weight pairs :=
    UInt64.toNat_ofNat_of_lt' (Nat.lt_of_le_of_lt hWeight hFits)
  rw [UInt64.toNat_div, hSumNat, hWeightNat, ← hValues]
  refine ⟨?_, ?_, ?_⟩
  · intro hZero
    rw [hZero] at hWeightNat
    exact absurd hWeightNat.symm hSome.ne'
  · obtain ⟨e, hMem, hLe⟩ := exists_le_average hSome
    exact ⟨e.2, List.mem_map_of_mem hMem, hLe⟩
  · obtain ⟨e, hMem, hLe⟩ := exists_average_le hNe hPos
    exact ⟨e.2, List.mem_map_of_mem hMem, hLe⟩

theorem toNatClampNeg_of_small {nDepth : UInt32} (h : 3 * nDepth.toNat < 2 ^ 31) :
    nDepth.toInt32.toNatClampNeg = nDepth.toNat := by
  have hInt : nDepth.toBitVec.toInt = nDepth.toBitVec.toNat := by
    apply BitVec.toInt_eq_toNat_of_lt
    show 2 * nDepth.toNat < 2 ^ 32
    omega
  show nDepth.toBitVec.toInt.toNat = _
  rw [hInt]
  rfl

theorem length_intervals : (intervals chain).length = chain.length - 1 := by
  induction chain with
  | nil => rfl
  | cons block chain ih =>
      cases chain with
      | nil => rfl
      | cons prev chain =>
          rw [intervals, List.length_cons, ih]
          rfl

theorem map_snd_weighed {nDepth : Nat} : (weighed nDepth nChannel chain).map Prod.snd =
    (intervals (ofChannel nChannel chain)).take nDepth :=
  map_snd_falling

/-- The weighted block time is between two of the times between the last blocks of the channel. -/
theorem getWeightedTimes_average {state : BlockState} (h : WholeChain db (state :: chain))
    (hTwo : 2 ≤ (ofChannel state.nChannel (state :: chain)).length) (hFuel : chain.length < nFuel)
    (nDepth : UInt32) (hDepth : 1 ≤ nDepth) (hWeights : 3 * nDepth.toNat < 2 ^ 31)
    (hFits : weighedSum (weighed nDepth.toNat state.nChannel (state :: chain)) < 2 ^ 64) :
    ∃ nAverage, state.GetWeightedTimes db nFuel nDepth = .ok nAverage ∧
      (∃ x ∈ (intervals (ofChannel state.nChannel (state :: chain))).take nDepth.toNat,
        x ≤ nAverage.toNat) ∧
      ∃ y ∈ (intervals (ofChannel state.nChannel (state :: chain))).take nDepth.toNat,
        nAverage.toNat ≤ y := by
  have hPos : 1 ≤ nDepth.toNat := hDepth
  have hNe : weighed nDepth.toNat state.nChannel (state :: chain) ≠ [] := by
    intro hNil
    have hValues := @map_snd_weighed state.nChannel (state :: chain) nDepth.toNat
    have hLength := congrArg List.length hValues
    rw [hNil, List.length_take, length_intervals, List.map_nil, List.length_nil] at hLength
    omega
  obtain ⟨hDivisor, hBelow, hAbove⟩ := average_between map_snd_weighed hNe
    (falling_pos (by decide)) (weight_le (h.intervals_pos state.nChannel)) hFits
  refine ⟨_, ?_, hBelow, hAbove⟩
  rw [GetWeightedTimes]
  simp only [toNatClampNeg_of_small hWeights]
  rw [weighTimes_eq h rfl hFuel hWeights, ok_bind]
  simp only [UInt64.zero_add]
  rw [reject_of_not hDivisor]
  rfl

/-! ## The time for a next target -/

/-- The last block of a channel in a chain, if there is one. -/
theorem WholeChain.getLastState (h : WholeChain db (first :: chain)) (nChannel : UInt32)
    (hFuel : chain.length + 1 < nFuel) :
    (ofChannel nChannel (first :: chain) = [] ∧
      ∃ last, GetLastState db nChannel nFuel first = .ok (last, false)) ∨
    ∃ last rest, GetLastState db nChannel nFuel first = .ok (last, true) ∧
      WholeChain db (last :: rest) ∧ last.nChannel = nChannel ∧ rest.length ≤ chain.length ∧
      ofChannel nChannel (first :: chain) = last :: ofChannel nChannel rest := by
  have hSearch : Searchable first := h.searchable first List.mem_cons_self
  obtain ⟨n, rfl⟩ : ∃ n, nFuel = n + 2 := ⟨nFuel - 2, by omega⟩
  by_cases hChannel : first.nChannel = nChannel
  · right
    refine ⟨first, chain, ?_, h, hChannel, Nat.le_refl _, ofChannel_cons hChannel⟩
    rw [GetLastState_step hSearch, if_pos hChannel]
  · obtain ⟨prev, hPrev, hRest⟩ := h.prev_eq
    have hReal : Searchable prev ∨ prev.nHeight = 0 := by
      rcases hRest with ⟨-, hHeight⟩ | ⟨rest, -, hReal, -⟩
      · exact .inr hHeight
      · exact .inl hReal
    have hBefore := h.lastBefore nChannel (show chain.length < n + 1 by omega)
    rw [LastBefore, hPrev, ok_bind, ← getLastState_prev hSearch hChannel hPrev hReal] at hBefore
    rw [ofChannel_cons_of_ne hChannel]
    rcases hBefore with hNone | ⟨last, rest, hLast, hWhole, hOf, hLess, hEq, -⟩
    · exact .inl hNone
    · exact .inr ⟨last, rest, hLast, hWhole, hOf, hLess.le, hEq⟩

/-- The depth of the average, by the version of the block. -/
def retargetDepth (state : BlockState) : UInt32 := if 7 ≤ state.nVersion then 2 else 5

/-- The time for a next target is between two of the times between the last blocks of the channel,
if there are two. -/
theorem retargetTime_ok {state : BlockState} (h : WholeChain db (state :: chain))
    (hFuel : chain.length + 1 < nFuel) (nChannel : UInt32)
    (hFits : weighedSum (weighed (retargetDepth state).toNat nChannel (state :: chain)) < 2 ^ 64) :
    if (ofChannel nChannel (state :: chain)).length < 2 then
      state.RetargetTime db nFuel nChannel = .ok none
    else ∃ nBlockTime, state.RetargetTime db nFuel nChannel = .ok (some nBlockTime) ∧
      (∃ x ∈ (intervals (ofChannel nChannel (state :: chain))).take (retargetDepth state).toNat,
        x ≤ nBlockTime.toNat) ∧
      ∃ y ∈ (intervals (ofChannel nChannel (state :: chain))).take (retargetDepth state).toNat,
        nBlockTime.toNat ≤ y := by
  rw [RetargetTime]
  rcases h.getLastState nChannel hFuel with ⟨hNone, last, hLast⟩ |
    ⟨first, rest, hFirst, hWhole, hChannel, hLess, hFirstEq⟩
  · rw [hLast, ok_bind, hNone]
    rfl
  · have hBound : rest.length < nFuel := by omega
    rw [hFirst, ok_bind, hFirstEq]
    rw [weighed, hFirstEq] at hFits
    rcases hWhole.lastBefore nChannel hBound with ⟨hNone, last, hLast⟩ |
      ⟨last, older, hLast, -, -, -, hRest, hTime⟩
    · rw [hNone, if_pos (by simp)]
      simp only [Bool.not_true, Bool.false_eq_true, if_false, hLast, ok_bind, Bool.not_false, if_true]
      rfl
    · have hTwo : ¬ (first :: ofChannel nChannel rest).length < 2 := by
        rw [hRest]
        simp
      rw [if_neg hTwo]
      simp only [Bool.not_true, Bool.false_eq_true, if_false, hLast, ok_bind]
      split
      · subst hChannel
        have hDepth : 1 ≤ retargetDepth state ∧ 3 * (retargetDepth state).toNat < 2 ^ 31 := by
          rw [retargetDepth]
          split
          · decide
          · decide
        have hOf := @ofChannel_cons _ first rest rfl
        obtain ⟨nAverage, hAverage, hBetween⟩ := getWeightedTimes_average hWhole
          (by rw [hOf]; omega) hBound (retargetDepth state) hDepth.1 hDepth.2
          (by rw [weighed, hOf]; exact hFits)
        rw [hOf] at hBetween
        rw [show (if 7 ≤ state.nVersion then 2 else 5 : UInt32) = retargetDepth state from rfl,
          hAverage]
        exact ⟨nAverage, rfl, hBetween⟩
      · have hTimes : (max (first.nTime - last.nTime) 1).toNat =
            first.nTime.toNat - last.nTime.toNat := by
          rw [timeBetween_eq hTime]
          apply UInt64.toNat_ofNat_of_lt'
          exact Nat.lt_of_le_of_lt (Nat.sub_le _ _) first.nTime.toNat_lt
        have hHead : first.nTime.toNat - last.nTime.toNat ∈
            (intervals (first :: last :: ofChannel nChannel older)).take
              (retargetDepth state).toNat := by
          obtain ⟨n, hSucc⟩ : ∃ n, (retargetDepth state).toNat = n + 1 := by
            rw [retargetDepth]
            split
            · exact ⟨1, rfl⟩
            · exact ⟨4, rfl⟩
          rw [hSucc, intervals, List.take_succ_cons]
          exact List.mem_cons_self
        rw [hRest]
        exact ⟨_, rfl, ⟨_, hHead, hTimes.ge⟩, ⟨_, hHead, hTimes.le⟩⟩

/-! ## Other depths and times -/

/-- A depth that is negative as an index has no loop and no divisor. -/
theorem getWeightedTimes_negative (state : BlockState) {nDepth : UInt32}
    (h : nDepth.toInt32.toNatClampNeg = 0) :
    state.GetWeightedTimes db nFuel nDepth = .error (.exception "division by zero") := by
  rw [GetWeightedTimes]
  simp only [h]
  rw [weighTimes]
  rfl

/-- A weight that does not fit into 32 bits with a sign. -/
theorem weighTimes_overflow {nIndex : Nat} (hIndex : 2 ^ 31 ≤ 3 * nIndex) {sums : UInt64 × UInt64}
    (hLast : first.LastBefore db nFuel nChannel = .ok (last, true)) :
    weighTimes db nFuel nChannel nIndex first sums = .error (.exception "signed overflow") := by
  obtain ⟨n, rfl⟩ : ∃ n, nIndex = n + 1 := ⟨nIndex - 1, by omega⟩
  rw [weighTimes, hLast, ok_bind]
  have hLarge : 2 ^ 31 ≤ (n + 1) * 3 := by omega
  show (reject (2 ^ 31 ≤ (n + 1) * 3) (Fault.exception "signed overflow") >>= _) = _
  rw [reject, if_pos hLarge]
  rfl

/-- The first block of a chain. -/
def timedStart : BlockState :=
  { nVersion := 7, nChannel := CHANNEL.HASH, nHeight := 1, nBits := 1, nTime := 1 }

/-- The block after it. -/
def timedBlock (nTime : UInt64) : BlockState :=
  { nVersion := 7, hashPrevBlock := 5, nChannel := CHANNEL.HASH, nHeight := 2, nBits := 1, nTime }

def timedRecords : Records := { blocks := fun _ => some timedStart }

theorem timedBlock_prev (nTime : UInt64) : (timedBlock nTime).Prev timedRecords = .ok timedStart := by
  have hPrev : (timedBlock nTime).hashPrevBlock ≠ 0 := by
    show (5 : Uint1024) ≠ 0
    decide +kernel
  rw [BlockState.Prev, if_neg hPrev]
  rfl

theorem timedStart_prev : timedStart.Prev db = .ok {} := by
  rw [BlockState.Prev]
  exact if_pos rfl

theorem timed_whole {nTime : UInt64} (h : 1 < nTime) :
    WholeChain timedRecords [timedBlock nTime, timedStart] := by
  refine ⟨⟨?_, ?_, ?_⟩, ?_⟩
  · exact List.isChain_cons_cons.mpr ⟨timedBlock_prev nTime, List.IsChain.singleton _⟩
  · rw [List.pairwise_pair]
    exact h
  · intro block hMem
    simp only [List.mem_cons, List.not_mem_nil, or_false] at hMem
    rcases hMem with rfl | rfl
    · exact ⟨show (2 : UInt32) ≠ 0 by decide, show ¬ (1 : UInt32) = 0 by decide⟩
    · exact ⟨show (1 : UInt32) ≠ 0 by decide, show ¬ (1 : UInt32) = 0 by decide⟩
  · intro a ha
    rw [Option.mem_def, List.getLast?_cons_cons, List.getLast?_singleton, Option.some_inj] at ha
    subst ha
    exact ⟨{}, timedStart_prev, rfl⟩

theorem timed_lastBefore (nTime : UInt64) :
    (timedBlock nTime).LastBefore timedRecords 2 CHANNEL.HASH = .ok (timedStart, true) := by
  rw [LastBefore, timedBlock_prev, ok_bind, GetLastState_step]
  · exact if_pos rfl
  · exact ⟨show (1 : UInt32) ≠ 0 by decide, show ¬ (1 : UInt32) = 0 by decide⟩

theorem timed_channel (nTime : UInt64) :
    ofChannel CHANNEL.HASH [timedBlock nTime, timedStart] = [timedBlock nTime, timedStart] := by
  apply List.filter_eq_self.mpr
  intro block hMem
  simp only [List.mem_cons, List.not_mem_nil, or_false] at hMem
  rcases hMem with rfl | rfl
  · rfl
  · rfl

/-- A third block, twenty seconds after the second. -/
def timedTip : BlockState :=
  { nVersion := 7, hashPrevBlock := 6, nChannel := CHANNEL.HASH, nHeight := 3, nBits := 1, nTime := 31 }

def timedThree : Records :=
  { blocks := fun hash => some (if hash = 6 then timedBlock 11 else timedStart) }

theorem timedTip_prev : timedTip.Prev timedThree = .ok (timedBlock 11) := by
  have hPrev : timedTip.hashPrevBlock ≠ 0 := by
    show (6 : Uint1024) ≠ 0
    decide +kernel
  have hRead : timedThree.ReadBlock timedTip.hashPrevBlock = some (timedBlock 11) := by
    show some (if (6 : Uint1024) = 6 then timedBlock 11 else timedStart) = some (timedBlock 11)
    rw [if_pos rfl]
  rw [BlockState.Prev, if_neg hPrev, hRead, demand_some]

theorem timedBlock_prev_three : (timedBlock 11).Prev timedThree = .ok timedStart := by
  have hPrev : (timedBlock 11).hashPrevBlock ≠ 0 := by
    show (5 : Uint1024) ≠ 0
    decide +kernel
  have hRead : timedThree.ReadBlock (timedBlock 11).hashPrevBlock = some timedStart := by
    show some (if (5 : Uint1024) = 6 then timedBlock 11 else timedStart) = some timedStart
    rw [if_neg (by decide +kernel)]
  rw [BlockState.Prev, if_neg hPrev, hRead, demand_some]

theorem timed_whole_three : WholeChain timedThree [timedTip, timedBlock 11, timedStart] := by
  refine ⟨⟨?_, ?_, ?_⟩, ?_⟩
  · exact List.isChain_cons_cons.mpr
      ⟨timedTip_prev, List.isChain_cons_cons.mpr ⟨timedBlock_prev_three, List.IsChain.singleton _⟩⟩
  · decide
  · intro block hMem
    simp only [List.mem_cons, List.not_mem_nil, or_false] at hMem
    rcases hMem with rfl | rfl | rfl
    · exact ⟨show (3 : UInt32) ≠ 0 by decide, show ¬ (1 : UInt32) = 0 by decide⟩
    · exact ⟨show (2 : UInt32) ≠ 0 by decide, show ¬ (1 : UInt32) = 0 by decide⟩
    · exact ⟨show (1 : UInt32) ≠ 0 by decide, show ¬ (1 : UInt32) = 0 by decide⟩
  · intro a ha
    rw [Option.mem_def, List.getLast?_cons_cons, List.getLast?_cons_cons, List.getLast?_singleton,
      Option.some_inj] at ha
    subst ha
    exact ⟨{}, timedStart_prev, rfl⟩

theorem timed_channel_three :
    ofChannel CHANNEL.HASH [timedTip, timedBlock 11, timedStart] = [timedTip, timedBlock 11, timedStart] := by
  apply List.filter_eq_self.mpr
  intro block hMem
  simp only [List.mem_cons, List.not_mem_nil, or_false] at hMem
  rcases hMem with rfl | rfl | rfl
  · rfl
  · rfl
  · rfl

/-- The average of twenty and ten seconds between three blocks. -/
theorem getWeightedTimes_average_three :
    intervals (ofChannel CHANNEL.HASH [timedTip, timedBlock 11, timedStart]) = [20, 10] ∧
    ∃ nAverage, timedTip.GetWeightedTimes timedThree 3 5 = .ok nAverage ∧
      (∃ x ∈ (intervals (ofChannel CHANNEL.HASH [timedTip, timedBlock 11, timedStart])).take 5,
        x ≤ nAverage.toNat) ∧
      ∃ y ∈ (intervals (ofChannel CHANNEL.HASH [timedTip, timedBlock 11, timedStart])).take 5,
        nAverage.toNat ≤ y := by
  refine ⟨by rw [timed_channel_three]; decide, ?_⟩
  apply getWeightedTimes_average timed_whole_three
  · rw [show timedTip.nChannel = CHANNEL.HASH from rfl, timed_channel_three]
    decide
  · decide
  · decide
  · decide
  · rw [show timedTip.nChannel = CHANNEL.HASH from rfl, weighed, timed_channel_three]
    decide

/-- A depth of 2^31 divides by zero, one of 2^30 has a weight that does not fit, and a time of 2^63
wraps around when it is weighed. -/
theorem getWeightedTimes_extreme :
    WholeChain timedRecords [timedBlock 0x8000000000000001, timedStart] ∧
      (timedBlock 0x8000000000000001).GetWeightedTimes timedRecords 2 0x80000000 =
        .error (.exception "division by zero") ∧
      (timedBlock 0x8000000000000001).GetWeightedTimes timedRecords 2 0x40000000 =
        .error (.exception "signed overflow") ∧
      intervals (ofChannel CHANNEL.HASH [timedBlock 0x8000000000000001, timedStart]) = [2 ^ 63] ∧
      (timedBlock 0x8000000000000001).GetWeightedTimes timedRecords 2 5 =
        .ok (0x8000000000000000 / 15) ∧
      (0x8000000000000000 / 15 : UInt64).toNat < 2 ^ 63 := by
  have hWhole := timed_whole (show (1 : UInt64) < 0x8000000000000001 by decide +kernel)
  have hIntervals : intervals (ofChannel CHANNEL.HASH [timedBlock 0x8000000000000001, timedStart]) =
      [2 ^ 63] := by
    rw [timed_channel]
    decide +kernel
  refine ⟨hWhole, getWeightedTimes_negative _ (by decide +kernel), ?_, hIntervals, ?_, by decide +kernel⟩
  · have hDepth : (0x40000000 : UInt32).toInt32.toNatClampNeg = 2 ^ 30 := by decide +kernel
    rw [GetWeightedTimes]
    simp only [hDepth]
    rw [show (timedBlock 0x8000000000000001).nChannel = CHANNEL.HASH from rfl,
      weighTimes_overflow (by decide) (timed_lastBefore _)]
    rfl
  · have hDepth : (5 : UInt32).toInt32.toNatClampNeg = 5 := by decide
    rw [GetWeightedTimes]
    simp only [hDepth]
    rw [weighTimes_eq hWhole rfl (by decide) (by decide), ok_bind, weighed,
      show (timedBlock 0x8000000000000001).nChannel = CHANNEL.HASH from rfl, hIntervals]
    decide +kernel

end Nexus.Safety
