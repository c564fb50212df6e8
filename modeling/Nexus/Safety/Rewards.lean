import Mathlib.Algebra.Order.BigOperators.Group.List
import Nexus.Ledger.Index
import Nexus.Safety.Reconnects

/-!
# What a producer is paid

`Index` reads every contract of a producer: those of the developers from the
end, those of the ambassadors before them, and the rest for the miner.  The
amounts for the miner are added in 64 bits and only the sum is compared with the
reward.

## Main results

* `coinbaseRewards_ok`: the amounts that are read, and the sums of them.
* `coinbase_exact_iff`: the producers that are paid the reward.
-/

namespace Nexus.Safety

open Nexus.Lib.Bytes
open Nexus.Lib.Checked
open Nexus.Util
open Nexus.Operation
open Nexus.LLD
open Nexus.Ledger

variable {σ : Type} {rt : ChainRuntime} {readLegacy : σ → Uint512 → Option Legacy.Transaction}
  {node : Node σ} {db : Records} {tx : Transaction} {reserve : Reserve}
  {state state' statePrev stateLast : BlockState} {vAmounts vAmounts' : List UInt64}
  {vDue : List Payout} {k n nSize nContract nContract' : UInt32} {nSum nSum' nValue : UInt64}

/-! ## Amounts -/

/-- The contracts from `k` on have the amounts. -/
def Amounts (rt : ChainRuntime) (tx : Transaction) (k : Nat) (vAmounts : List UInt64) : Prop :=
  ∀ i nValue, vAmounts[i]? = some nValue →
    tx.coinbaseValue rt (UInt32.ofNat (k + i)) = .ok nValue

/-- A sum over the natural numbers. -/
def total (vAmounts : List UInt64) : Nat := (vAmounts.map UInt64.toNat).sum

@[simp] theorem total_nil : total [] = 0 := rfl

@[simp] theorem total_cons : total (nValue :: vAmounts) = nValue.toNat + total vAmounts := by
  simp [total]

@[simp] theorem total_append :
    total (vAmounts ++ vAmounts') = total vAmounts + total vAmounts' := by
  simp [total]

theorem le_total (h : nValue ∈ vAmounts) : nValue.toNat ≤ total vAmounts :=
  List.le_sum_of_mem (List.mem_map_of_mem h)

theorem amounts_nil (k : Nat) : Amounts rt tx k [] := by
  intro i nValue h
  simp at h

theorem amounts_append {k : Nat} (h : Amounts rt tx k vAmounts)
    (h' : Amounts rt tx (k + vAmounts.length) vAmounts') :
    Amounts rt tx k (vAmounts ++ vAmounts') := by
  intro i nValue hAt
  by_cases hLow : i < vAmounts.length
  · rw [List.getElem?_append_left hLow] at hAt
    exact h i nValue hAt
  · rw [List.getElem?_append_right (by omega)] at hAt
    have hValue := h' (i - vAmounts.length) nValue hAt
    rwa [show k + vAmounts.length + (i - vAmounts.length) = k + i by omega] at hValue

theorem amounts_cons {k : Nat} (h : tx.coinbaseValue rt (UInt32.ofNat k) = .ok nValue)
    (h' : Amounts rt tx (k + 1) vAmounts) : Amounts rt tx k (nValue :: vAmounts) := by
  have hFirst : Amounts rt tx k [nValue] := by
    intro i a hAt
    rw [List.getElem?_singleton] at hAt
    split at hAt
    next hZero =>
      cases hAt
      rw [hZero]
      exact h
    next => cases hAt
  exact amounts_append hFirst h'

/-- A contract that is read is one of the transaction. -/
theorem index_of_value (h : tx.coinbaseValue rt n = .ok nValue) :
    n.toNat < tx.vContracts.length := by
  simp only [Transaction.coinbaseValue, Transaction.coinbaseGenesis, Transaction.contract,
    bind_eq_ok, demand_eq_ok] at h
  obtain ⟨_, ⟨_, ⟨contract, hContract, -⟩, -⟩, -⟩ := h
  exact (List.getElem?_eq_some_iff.mp hContract).choose

theorem minerRewards_ok (h : tx.minerRewards rt nSize = .ok nSum) :
    ∃ vAmounts, vAmounts.length = nSize.toNat ∧ Amounts rt tx 0 vAmounts ∧
      nSum.toNat = total vAmounts % 2 ^ 64 := by
  unfold Transaction.minerRewards at h
  generalize nSize.toNat = m at h ⊢
  induction m generalizing nSum with
  | zero =>
      rw [List.range_zero, foldlM_nil_eq_ok] at h
      exact ⟨[], rfl, amounts_nil 0, by rw [← h]; rfl⟩
  | succ m ih =>
      rw [List.range_succ, List.foldlM_append, bind_eq_ok] at h
      obtain ⟨nBefore, hBefore, hLast⟩ := h
      obtain ⟨vAmounts, hLength, hAmounts, hSum⟩ := ih hBefore
      rw [foldlM_cons_eq_ok] at hLast
      obtain ⟨nAfter, hLast, hEnd⟩ := hLast
      rw [foldlM_nil_eq_ok] at hEnd
      subst hEnd
      rw [map_eq_ok] at hLast
      obtain ⟨nValue, hValue, rfl⟩ := hLast
      refine ⟨vAmounts ++ [nValue], by simp [hLength], amounts_append hAmounts ?_, ?_⟩
      · refine amounts_cons ?_ (amounts_nil _)
        rw [Nat.zero_add, hLength]
        exact hValue
      · rw [UInt64.toNat_add, hSum]
        simp

/-! ## Payouts -/

theorem coinbaseGenesis_name {strName strName' : String} {r : Uint256 × Stream}
    (h : tx.coinbaseGenesis rt strName n = .ok r) : tx.coinbaseGenesis rt strName' n = .ok r := by
  simp only [Transaction.coinbaseGenesis, bind_eq_ok, reject_eq_ok] at h ⊢
  exact h

theorem payChain_ok {payout : Payout}
    (h : tx.payChain rt reserve stateLast (k, nSum) payout = .ok (nContract, nSum')) :
    tx.coinbaseValue rt k = .ok (reserve.nCredit stateLast payout) ∧ nContract = k + 1 ∧
      nSum' = nSum + reserve.nCredit stateLast payout := by
  simp only [Transaction.payChain, bind_eq_ok, Prod.exists, reject_eq_ok, pure_eq_ok, Prod.mk.injEq,
    not_not] at h
  obtain ⟨genesis, ss, hGenesis, -, -, nValue, ss', hValue, -, rfl, rfl, rfl⟩ := h
  refine ⟨?_, rfl, rfl⟩
  rw [Transaction.coinbaseValue, coinbaseGenesis_name hGenesis]
  simp only [ok_bind, hValue]
  rfl

theorem payChains_ok (hSize : tx.vContracts.length < 2 ^ 32)
    (h : vDue.foldlM (tx.payChain rt reserve stateLast) (k, nSum) = .ok (nContract, nSum')) :
    (vDue ≠ [] → k.toNat + vDue.length ≤ tx.vContracts.length) ∧
      nContract.toNat = (k.toNat + vDue.length) % 2 ^ 32 ∧
      Amounts rt tx k.toNat (vDue.map (reserve.nCredit stateLast)) ∧
      nSum'.toNat = (nSum.toNat + total (vDue.map (reserve.nCredit stateLast))) % 2 ^ 64 := by
  induction vDue generalizing k nSum with
  | nil =>
      have hContract := k.toNat_lt
      have hSum := nSum.toNat_lt
      rw [foldlM_nil_eq_ok] at h
      cases h
      refine ⟨fun hNone => absurd rfl hNone, ?_, amounts_nil _, ?_⟩
      · rw [List.length_nil]
        omega
      · rw [List.map_nil, total_nil]
        omega
  | cons payout vDue ih =>
      obtain ⟨⟨k₁, nSum₁⟩, hFirst, hRest⟩ := foldlM_cons_eq_ok.mp h
      obtain ⟨hValue, rfl, rfl⟩ := payChain_ok hFirst
      obtain ⟨hBound, hContract, hAmounts, hSum⟩ := ih hRest
      have hIndex := index_of_value hValue
      have hNext : (k + 1).toNat = k.toNat + 1 := by
        rw [UInt32.toNat_add]
        show (k.toNat + 1) % 2 ^ 32 = k.toNat + 1
        omega
      rw [hNext] at hBound hContract hAmounts
      refine ⟨fun _ => ?_, ?_, ?_, ?_⟩
      · rw [List.length_cons]
        by_cases hNone : vDue = []
        · rw [hNone, List.length_nil]
          omega
        · have hMore := hBound hNone
          omega
      · rw [hContract, List.length_cons]
        congr 1
        omega
      · refine amounts_cons ?_ hAmounts
        rw [UInt32.ofNat_toNat]
        exact hValue
      · rw [hSum, UInt64.toNat_add, List.map_cons, total_cons]
        omega

/-! ## Producers -/

/-- What is due to the chains that are paid from a reserve. -/
def payouts (reserve : Reserve) (stateLast : BlockState) : List UInt64 :=
  (reserve.due stateLast).map (reserve.nCredit stateLast)

/-- The contracts of a producer that pay the miner. -/
def minerSize (rt : ChainRuntime) (tx : Transaction) (state stateLast : BlockState) : Nat :=
  tx.vContracts.length - (payouts (Ambassador rt.toLedgerRuntime state.nVersion) stateLast).length -
    (payouts (Developer rt.toLedgerRuntime state.nVersion) stateLast).length

/-- The tables of the chains that are paid have less entries than a 32-bit number counts. -/
def Bounded (rt : ChainRuntime) (nVersion : UInt32) : Prop :=
  (rt.Ambassador nVersion).length + (rt.Developer nVersion).length < 2 ^ 32

theorem due_length : (reserve.due stateLast).length ≤ reserve.table.length := by
  unfold Reserve.due
  split
  · exact Nat.le_refl _
  · exact Nat.zero_le _

/-- The contracts for the miner are the ones before the payouts, which are all there. -/
theorem minerSize_ok {k₁ : UInt32} {a d len : Nat} (hSize : len < 2 ^ 32)
    (hTables : a + d < 2 ^ 32)
    (hStart : k.toNat = (2 ^ 32 - d + (2 ^ 32 - a + len) % 2 ^ 32) % 2 ^ 32)
    (hBound₁ : a ≠ 0 → k.toNat + a ≤ len) (hNext : k₁.toNat = (k.toNat + a) % 2 ^ 32)
    (hBound₂ : d ≠ 0 → k₁.toNat + d ≤ len) :
    k.toNat = len - a - d ∧ k₁.toNat = k.toNat + a ∧ k.toNat + a + d = len := by
  omega

/-- The amounts of a producer: the miner's, whose sum is the reward modulo 2^64, and the
payouts. -/
theorem coinbaseRewards_ok {r : Fin 3 → UInt64} (hSize : tx.vContracts.length < 2 ^ 32)
    (hTables : Bounded rt state.nVersion)
    (h : tx.coinbaseRewards rt db state statePrev stateLast = .ok r) :
    ∃ vMiner, vMiner.length = minerSize rt tx state stateLast ∧
      total vMiner % 2 ^ 64 = (rt.GetCoinbaseReward db statePrev state.nChannel 0).toNat ∧
      (r 0).toNat = total vMiner % 2 ^ 64 ∧
      (r 1).toNat =
        total (payouts (Ambassador rt.toLedgerRuntime state.nVersion) stateLast) % 2 ^ 64 ∧
      (r 2).toNat =
        total (payouts (Developer rt.toLedgerRuntime state.nVersion) stateLast) % 2 ^ 64 ∧
      vMiner.length + (payouts (Ambassador rt.toLedgerRuntime state.nVersion) stateLast).length +
        (payouts (Developer rt.toLedgerRuntime state.nVersion) stateLast).length =
          tx.vContracts.length ∧
      Amounts rt tx 0 (vMiner ++ payouts (Ambassador rt.toLedgerRuntime state.nVersion) stateLast ++
        payouts (Developer rt.toLedgerRuntime state.nVersion) stateLast) := by
  simp only [Transaction.coinbaseRewards, Transaction.payReserve, bind_eq_ok, Prod.exists,
    reject_eq_ok, pure_eq_ok, not_not] at h
  obtain ⟨k₁, _, hAmbassador, _, _, hDeveloper, nMiner, hMiner, -, hReward, rfl⟩ := h
  obtain ⟨hBound₁, hNext₁, hAmounts₁, hSum₁⟩ := payChains_ok hSize hAmbassador
  obtain ⟨hBound₂, -, hAmounts₂, hSum₂⟩ := payChains_ok hSize hDeveloper
  obtain ⟨vMiner, hLength, hAmounts, hSum⟩ := minerRewards_ok hMiner
  have hA := @due_length (Ambassador rt.toLedgerRuntime state.nVersion) stateLast
  have hD := @due_length (Developer rt.toLedgerRuntime state.nVersion) stateLast
  have hBoth : (rt.Ambassador state.nVersion).length + (rt.Developer state.nVersion).length <
      2 ^ 32 := hTables
  have hDue : ((Ambassador rt.toLedgerRuntime state.nVersion).due stateLast).length +
      ((Developer rt.toLedgerRuntime state.nVersion).due stateLast).length < 2 ^ 32 :=
    Nat.lt_of_le_of_lt (Nat.add_le_add hA hD) hBoth
  have hFirst : ((Ambassador rt.toLedgerRuntime state.nVersion).due stateLast).length < 2 ^ 32 :=
    Nat.lt_of_le_of_lt (Nat.le_add_right _ _) hDue
  have hSecond : ((Developer rt.toLedgerRuntime state.nVersion).due stateLast).length < 2 ^ 32 :=
    Nat.lt_of_le_of_lt (Nat.le_add_left _ _) hDue
  have hPlaces := minerSize_ok hSize hDue (by
    rw [UInt32.toNat_sub, UInt32.toNat_sub, UInt32.toNat_ofNat', UInt32.toNat_ofNat',
      UInt32.toNat_ofNat', Nat.mod_eq_of_lt hSize, Nat.mod_eq_of_lt hFirst,
      Nat.mod_eq_of_lt hSecond])
    (fun hSome => hBound₁ (List.ne_nil_of_length_pos (Nat.pos_of_ne_zero hSome))) hNext₁
    (fun hSome => hBound₂ (List.ne_nil_of_length_pos (Nat.pos_of_ne_zero hSome)))
  refine ⟨vMiner, ?_, ?_, hSum, ?_, ?_, ?_, ?_⟩
  · rw [hLength, hPlaces.1, minerSize, payouts, payouts, List.length_map, List.length_map]
  · rw [← hSum, hReward]
  · exact hSum₁.trans (by rw [UInt64.toNat_zero, Nat.zero_add]; rfl)
  · exact hSum₂.trans (by rw [UInt64.toNat_zero, Nat.zero_add]; rfl)
  · rw [hLength, payouts, payouts, List.length_map, List.length_map]
    exact hPlaces.2.2
  · apply amounts_append (amounts_append hAmounts ?_) ?_
    · rw [Nat.zero_add, hLength]
      exact hAmounts₁
    · rw [Nat.zero_add, List.length_append, hLength, payouts, List.length_map, ← hPlaces.2.1]
      exact hAmounts₂

/-- A contract that begins with its operation is read where its value is. -/
theorem value_of_coinbase {contract : Contract} (h : tx.coinbaseValue rt n = .ok nValue)
    (hContract : tx.vContracts[n.toNat]? = some contract)
    (hPlain : contract.ssOperation.vchData.head? = some OP.COINBASE) :
    contract.Value = .ok nValue := by
  obtain ⟨vch, hData⟩ := List.head?_eq_some_iff.mp hPlain
  simp only [Transaction.coinbaseValue, Transaction.coinbaseGenesis, Transaction.contract,
    hContract, demand_some, ok_bind, bind_eq_ok, reject_eq_ok, pure_eq_ok, Prod.exists,
    Prod.mk.injEq, Stream.extract_eq_ok, Stream.seekBegin, ite_eq_ok, Except.ok.injEq, reduceCtorEq,
    and_false, or_false] at h
  obtain ⟨_, _, ⟨_, rfl, _, ⟨-, rfl⟩, _, _, ⟨-, rfl, rfl⟩, _, -, rfl, rfl⟩, _, _,
    ⟨hFits, rfl, rfl⟩, rfl⟩ := h
  have hEnd : 33 + 8 ≤ contract.ssOperation.vchData.length := hFits
  have hFirst : contract.ssOperation.get 0 = .ok OP.COINBASE := by
    rw [Stream.get, hData]
    rfl
  have hSome : ¬ contract.ssOperation.size = 0 := by
    show ¬ contract.ssOperation.vchData.length = 0
    omega
  have hPrimitive : contract.seekToPrimitive = .ok contract.resetOperations := by
    simp only [Contract.seekToPrimitive, reject_of_not hSome, hFirst, ok_bind]
    rfl
  have hOP : contract.resetOperations.extract UInt8 =
      .ok (OP.COINBASE, contract.resetOperations.skip 1) := by
    refine Contract.extract_eq_ok.mpr ⟨?_, ?_, rfl⟩
    · show 0 + 1 ≤ contract.ssOperation.vchData.length
      omega
    · show OP.COINBASE = FixedWidth.decode ((contract.ssOperation.vchData.drop 0).take 1)
      rw [hData]
      rfl
  have hSeek : (contract.resetOperations.skip 1).seek 32 =
      .ok (contract.resetOperations.skip 33) := by
    refine Contract.seek_eq_ok.mpr ⟨?_, rfl⟩
    show 0 + 1 + 32 ≤ contract.ssOperation.vchData.length
    omega
  have hValue : (contract.resetOperations.skip 33).extract UInt64 =
      .ok ((contract.resetOperations.skip 33).peek UInt64 0,
        contract.resetOperations.skip 41) := by
    refine Contract.extract_eq_ok.mpr ⟨?_, rfl, rfl⟩
    show 0 + 33 + 8 ≤ contract.ssOperation.vchData.length
    omega
  rw [Contract.Value, hPrimitive, ok_bind, hOP, ok_bind]
  show (do
    let contract ← (contract.resetOperations.skip 1).seek 32
    let read ← contract.extract UInt64
    return read.1) = _
  rw [hSeek, ok_bind, hValue]
  rfl

/-- The value of each contract of a producer. -/
theorem values_of_amounts (h : Amounts rt tx 0 vAmounts)
    (hLength : vAmounts.length = tx.vContracts.length) (hSize : tx.vContracts.length < 2 ^ 32)
    (hPlain : ∀ contract ∈ tx.vContracts,
      contract.ssOperation.vchData.head? = some OP.COINBASE) :
    List.Forall₂ (fun contract nValue => contract.Value = .ok nValue) tx.vContracts vAmounts := by
  rw [List.forall₂_iff_get]
  refine ⟨hLength.symm, fun i hContract hAmount => ?_⟩
  have hRead := h i _ (List.getElem?_eq_getElem hAmount)
  rw [Nat.zero_add] at hRead
  have hIndex : (UInt32.ofNat i).toNat = i := by
    rw [UInt32.toNat_ofNat']
    exact Nat.mod_eq_of_lt (by omega)
  apply value_of_coinbase hRead ?_ (hPlain _ (List.get_mem ..))
  rw [hIndex]
  exact List.getElem?_eq_getElem hContract

/-- The amounts add up to a total, and none is more than it. -/
def Exact (vAmounts : List UInt64) (nTotal : Nat) : Prop :=
  total vAmounts = nTotal ∧ ∀ nValue ∈ vAmounts, nValue.toNat ≤ nTotal

instance (vAmounts : List UInt64) (nTotal : Nat) : Decidable (Exact vAmounts nTotal) :=
  haveI : Decidable (∀ nValue ∈ vAmounts, nValue.toNat ≤ nTotal) := List.decidableBAll _ _
  inferInstanceAs (Decidable (_ ∧ _))

theorem neZero_rewards : NeZero 3 := ⟨by decide⟩

/-- The reward of the miner and the payouts that are due. -/
def rewardTotal (rt : ChainRuntime) (db : Records) (state statePrev stateLast : BlockState) : Nat :=
  haveI : NeZero 3 := neZero_rewards
  (rt.GetCoinbaseReward db statePrev state.nChannel 0).toNat +
    total (payouts (Ambassador rt.toLedgerRuntime state.nVersion) stateLast) +
    total (payouts (Developer rt.toLedgerRuntime state.nVersion) stateLast)

/-- The amounts of a producer that `Index` lets through are the reward and the payouts exactly
if and only if those of the miner do not wrap. -/
theorem coinbase_exact_iff {proof : UInt8 × Uint512} (hWork : state.IsProofOfWork)
    (hVersion : 7 ≤ state.nVersion) (hLast : state.vtx.getLast? = some proof)
    (hTx : BlockState.readPool node proof.2 = some tx) (hSize : tx.vContracts.length < 2 ^ 32)
    (hTables : Bounded rt state.nVersion)
    (hPlain : ∀ contract ∈ tx.vContracts, contract.ssOperation.vchData.head? = some OP.COINBASE)
    (h : BlockState.releaseAll rt readLegacy node statePrev stateLast state = .ok state') :
    ∃ vAmounts,
      List.Forall₂ (fun contract nValue => contract.Value = .ok nValue) tx.vContracts vAmounts ∧
      (Exact vAmounts (rewardTotal rt node.db state statePrev stateLast) ↔
        total (vAmounts.take (minerSize rt tx state stateLast)) < 2 ^ 64) := by
  have hNew : ¬ state.nVersion < 7 := by
    rw [UInt32.not_lt]
    exact hVersion
  simp only [BlockState.releaseAll, hWork, if_true, BlockState.rewards, hNew, if_false, hLast,
    demand_some, ok_bind, hTx, bind_eq_ok] at h
  obtain ⟨r, ⟨_, -, _, -, hRewards⟩, -⟩ := h
  obtain ⟨vMiner, hMiner, hSum, -, -, -, hLength, hAmounts⟩ := coinbaseRewards_ok hSize hTables hRewards
  have hValues := values_of_amounts hAmounts (by
    rw [List.length_append, List.length_append, hLength]) hSize hPlain
  refine ⟨_, hValues, ?_⟩
  have hTake : (vMiner ++ payouts (Ambassador rt.toLedgerRuntime state.nVersion) stateLast ++
      payouts (Developer rt.toLedgerRuntime state.nVersion) stateLast).take
        (minerSize rt tx state stateLast) = vMiner := by
    rw [List.append_assoc, ← hMiner, List.take_left]
  have hReward := (rt.GetCoinbaseReward node.db statePrev state.nChannel 0).toNat_lt
  rw [hTake]
  unfold Exact rewardTotal
  constructor
  · intro hExact
    have hTotal := hExact.1
    rw [total_append, total_append] at hTotal
    omega
  · intro hSmall
    have hTotal : total (vMiner ++ payouts (Ambassador rt.toLedgerRuntime state.nVersion)
        stateLast ++ payouts (Developer rt.toLedgerRuntime state.nVersion) stateLast) =
        (rt.GetCoinbaseReward node.db statePrev state.nChannel 0).toNat +
          total (payouts (Ambassador rt.toLedgerRuntime state.nVersion) stateLast) +
          total (payouts (Developer rt.toLedgerRuntime state.nVersion) stateLast) := by
      rw [total_append, total_append]
      omega
    refine ⟨hTotal, fun nValue hMem => ?_⟩
    rw [← hTotal]
    exact le_total hMem

/-! ## Two amounts that wrap -/

/-- The reward of the miner is 50. -/
def producerChain : ChainRuntime :=
  { exampleChain with
    GetCoinbaseReward := fun _ _ _ _ => 50
    GetReleasedReserve := fun _ _ _ _ => 100 }

/-- A contract that pays an amount to Alice. -/
def coinbaseContract (nValue : UInt64) : Contract :=
  { ssOperation :=
      { vchData := FixedWidth.encode OP.COINBASE ++ FixedWidth.encode alice ++
          FixedWidth.encode nValue ++ FixedWidth.encode (0 : UInt64) } }

def producerTx (vAmounts : List UInt64) : Transaction :=
  { hashGenesis := alice, vContracts := vAmounts.map coinbaseContract }

def producerNode (vAmounts : List UInt64) : Node Unit where
  db := ({} : Records).WriteTx 7 (producerTx vAmounts)
  side := ()

def producerBlock : BlockState :=
  { nVersion := 9, nChannel := CHANNEL.HASH, nHeight := 1, nBits := 1
    vtx := [(TRANSACTION.TRITIUM, 7)] }

/-- Whether `Index` lets the amounts through. -/
def paid (vAmounts : List UInt64) : Result BlockState :=
  BlockState.releaseAll producerChain (fun _ _ => none) (producerNode vAmounts) {} {} producerBlock

theorem coinbase_exact_fifty :
    ∃ vAmounts,
      List.Forall₂ (fun contract nValue => contract.Value = .ok nValue)
        (producerTx [20, 30]).vContracts vAmounts ∧
      (Exact vAmounts (rewardTotal producerChain (producerNode [20, 30]).db producerBlock {} {}) ↔
        total (vAmounts.take (minerSize producerChain (producerTx [20, 30]) producerBlock {})) <
          2 ^ 64) := by
  have hOk : (paid [20, 30]).isOk = true := by decide +kernel
  have hPaid := @eq_ok_of_isOk _ _ _ producerBlock hOk
  have hLast : producerBlock.vtx.getLast? = some (TRANSACTION.TRITIUM, 7) := rfl
  have hTables : Bounded producerChain producerBlock.nVersion := by
    unfold Bounded
    decide
  have hTx : BlockState.readPool (producerNode [20, 30]) 7 = some (producerTx [20, 30]) := by
    decide +kernel
  exact coinbase_exact_iff (by decide) (by decide) hLast hTx (by decide +kernel)
    hTables (by decide +kernel) hPaid

/-- Two amounts that add up to 50 more than 2^64. -/
def wrapping : List UInt64 := [9223372036854775808, 9223372036854775858]

/-- Two amounts of at least 2^63 are let through as the reward of 50. -/
theorem coinbase_wraps :
    (paid wrapping).isOk ∧ (producerTx wrapping).vContracts.mapM Contract.Value = .ok wrapping ∧
      ¬ Exact wrapping
        (rewardTotal producerChain (producerNode wrapping).db producerBlock {} {}) := by
  refine ⟨by decide +kernel, by decide +kernel, by decide +kernel⟩

end Nexus.Safety
