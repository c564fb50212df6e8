import Mathlib.Algebra.Order.BigOperators.Group.List
import Nexus.Ledger.Connected
import Nexus.Ledger.Pools
import Nexus.Lib.Overflow
import Nexus.Lib.Words
import Nexus.Safety.Reconnects
import Nexus.Safety.Staking

/-!
# The fees of a pool

The producers of a pooled stake are connected one after the other, and the fees of
those so far are threaded through.  Each but the last loses its fee, and the last
gets all of them.  So the rewards add up to the gross rewards; but they are added
to the mint of the block, which has 32 bits.

## Main results

* `pool_rewards_exact_iff`: when the rewards of the producers are those of the
  naturals, and when the mint takes them.
* `pool_reward_wraps`: a reward of 2^31 that takes as much from the mint.
-/

namespace Nexus.Safety

open Nexus.Lib.Bytes
open Nexus.Lib.Checked
open Nexus.Lib.Overflow
open Nexus.Lib.Words
open Nexus.Util
open Nexus.Register
open Nexus.Operation
open Nexus.LLD
open Nexus.Ledger

variable {σ : Type} {rt : ChainRuntime} {side : Periphery σ} {hashBlock : Uint1024}
  {hashFinder : Uint512} {node node' : Node σ} {x x' x₁ : BlockState.Connecting σ} {db : LLD.Records}
  {tx : Transaction} {block statePrev : BlockState} {contract : Contract} {account : Object}
  {nReward nTotal nTotal' : UInt64} {fPool fBlockFinder : Bool}

/-! ## One coinstake -/

/-- The reward of a pooled coinstake and the fees after it, from its gross reward. -/
def poolCredit (fBlockFinder : Bool) (nGross nTotal : UInt64) : UInt64 × UInt64 :=
  if fBlockFinder then (nGross + nTotal, nTotal) else Transaction.poolReward nGross nTotal

theorem checkTrustReward_pool
    (h : tx.checkTrustReward rt db block contract account statePrev nTotal true fBlockFinder =
      .ok (nReward, nTotal')) :
    ∃ nGross, Transaction.grossTrustReward rt db block contract account statePrev true fBlockFinder =
        .ok nGross ∧ (nReward, nTotal') = poolCredit fBlockFinder nGross nTotal := by
  simp only [Transaction.checkTrustReward, bind_eq_ok, Prod.exists, reject_eq_ok, pure_eq_ok, not_not,
    demand_eq_ok] at h
  obtain ⟨hash, nTrust, nChange, nClaimed, hOperands, hashLast, -, -, hLast, nTrustPrev, -, nStake, hStake,
    stateLast, hStateLast, nScore, -, -, hScore, -, -, -, -, hReward⟩ := h
  simp only [Transaction.grossTrustReward, hOperands, ok_bind, hStake, hStateLast, demand_some]
  refine ⟨_, rfl, ?_⟩
  rw [← hReward, hScore]
  cases fBlockFinder with
  | true => rfl
  | false => rfl

theorem checkGenesisReward_pool
    (h : Transaction.checkGenesisReward rt block contract account statePrev nTotal true =
      .ok (nReward, nTotal')) :
    ∃ nGross, Transaction.grossGenesisReward rt block account statePrev true = .ok nGross ∧
      (nReward, nTotal') = poolCredit false nGross nTotal := by
  simp only [Transaction.checkGenesisReward, bind_eq_ok, reject_eq_ok, pure_eq_ok, not_not] at h
  obtain ⟨nClaimed, -, nStake, hStake, -, -, hReward⟩ := h
  simp only [Transaction.grossGenesisReward, hStake, ok_bind]
  exact ⟨_, rfl, hReward.symm⟩

/-- A pooled coinstake is a coinstake. -/
theorem isCoinStake_of_isPool {fCoinStake : Bool} (hPool : tx.isPool = .ok true)
    (h : tx.IsCoinStake = .ok fCoinStake) : fCoinStake = true := by
  simp only [Transaction.isPool, bind_eq_ok, ite_eq_ok, pure_eq_ok] at hPool
  simp only [Transaction.IsCoinStake, bind_eq_ok, ite_eq_ok, pure_eq_ok] at h
  obtain ⟨f, hTrust, hPool⟩ := hPool
  obtain ⟨g, hTrust', h⟩ := h
  rw [hTrust] at hTrust'
  rw [← Except.ok.inj hTrust'] at h
  grind

/-- The finder has a stake before. -/
theorem isTrustStake_of_isTrustPool {fTrust : Bool} (hPool : tx.IsTrustPool = .ok true)
    (h : tx.isTrustStake = .ok fTrust) : fTrust = true := by
  simp only [Transaction.isTrustStake, bind_eq_ok, ite_eq_ok, pure_eq_ok] at h
  grind

/-- What `CheckTrust` credits to a pooled coinstake. -/
theorem checkTrust_pool (h : tx.CheckTrust rt db block nTotal fBlockFinder = .ok (nReward, nTotal'))
    (hPool : tx.isPool = .ok true) (hFinder : fBlockFinder = true → tx.IsTrustPool = .ok true) :
    ∃ nGross, tx.grossReward rt db block fBlockFinder = .ok nGross ∧
      (nReward, nTotal') = poolCredit fBlockFinder nGross nTotal := by
  simp only [Transaction.CheckTrust, bind_eq_ok, demand_eq_ok, reject_eq_ok, hPool, Except.ok.injEq] at h
  obtain ⟨fCoinStake, -, -, -, fPool, rfl, contract, hContract, account, hAccount, statePrev, hPrev, fTrust,
    hTrust, h⟩ := h
  simp only [Transaction.grossReward, hPool, ok_bind, hContract, demand_some, hAccount, hPrev, hTrust]
  cases fTrust with
  | true =>
      rw [if_pos rfl] at h ⊢
      exact checkTrustReward_pool h
  | false =>
      rw [if_neg Bool.false_ne_true] at h ⊢
      have hNot : fBlockFinder = false := by
        cases fBlockFinder with
        | true => exact absurd (isTrustStake_of_isTrustPool (hFinder rfl) hTrust) Bool.false_ne_true
        | false => rfl
      simp only [bind_eq_ok, ite_eq_ok, reduceCtorEq, and_false, or_false] at h
      obtain ⟨fGenesis, -, -, h⟩ := h
      rw [hNot]
      exact checkGenesisReward_pool h

/-! ## The producers, one after the other -/

/-- A producer: its gross reward, what it is credited, and the mint of the block before and
after. -/
structure PoolCredit where
  nGross : UInt64
  nReward : UInt64
  nMint : Int32
  nMintAfter : Int32

/-- The fee of a gross reward, as a natural number. -/
def PoolCredit.fee (c : PoolCredit) : Nat := 16 * c.nGross.toNat / 100

/-- Connecting a producer credits it, on the records that its transaction left. -/
def CreditOf (rt : ChainRuntime) (hashFinder : Uint512) (x : BlockState.Connecting σ) (tx : Transaction)
    (c : PoolCredit) (x₁ : BlockState.Connecting σ) : Prop :=
  ∃ db nFees, tx.Connect rt.toLedgerRuntime .BLOCK x.node.chain x.node.db x.state = .ok db ∧
    tx.grossReward rt db { x.state with nFees := x.state.nFees + nFees }
        (tx.GetHash rt.toRuntime = hashFinder) = .ok c.nGross ∧
    tx.CheckTrust rt db { x.state with nFees := x.state.nFees + nFees } x.nPoolFeeTotal
        (tx.GetHash rt.toRuntime = hashFinder) = .ok (c.nReward, x₁.nPoolFeeTotal) ∧
    c.nMint = x.state.nMint ∧ c.nMintAfter = x₁.state.nMint

/-- Producers are connected and credited one after the other. -/
inductive Credited (rt : ChainRuntime) (side : Periphery σ) (hashBlock : Uint1024)
    (hashFinder : Uint512) :
    BlockState.Connecting σ → List Transaction → List PoolCredit → BlockState.Connecting σ → Prop
  | nil (x : BlockState.Connecting σ) : Credited rt side hashBlock hashFinder x [] [] x
  | cons {x x₁ x' : BlockState.Connecting σ} {tx : Transaction} {txs : List Transaction} {c : PoolCredit}
      {credits : List PoolCredit}
      (hConnect : BlockState.connectTx rt side hashBlock hashFinder x
        (TRANSACTION.TRITIUM, tx.GetHash rt.toRuntime) = .ok x₁)
      (hCredit : CreditOf rt hashFinder x tx c x₁)
      (hRest : Credited rt side hashBlock hashFinder x₁ txs credits x') :
      Credited rt side hashBlock hashFinder x (tx :: txs) (c :: credits) x'

/-- The transactions on disk are not written while a block is connected. -/
theorem connectTx_txs {proof : UInt8 × Uint512}
    (h : BlockState.connectTx rt side hashBlock hashFinder x proof = .ok x₁) (hash : Uint512) :
    x₁.node.db.ledger.ReadTx hash = x.node.db.ledger.ReadTx hash := by
  have hStart : BlockState.Connects x.node x.state ⟨x.state.nFees, .add 0⟩ x := by
    refine ⟨?_, Kept.refl _, rfl, rfl⟩
    simp only [Tally.onto, Mint.apply_zero]
  obtain ⟨t, -, hConnects⟩ := BlockState.connectTx_ok hStart h
  have hTxs : x₁.node.db.ledger.txs = x.node.db.ledger.txs := hConnects.kept.txs
  rw [LedgerDB.ReadTx, LedgerDB.ReadTx, hTxs]

/-- A producer that is connected is credited from its gross reward. -/
theorem connectTx_credit
    (h : BlockState.connectTx rt side hashBlock hashFinder x
      (TRANSACTION.TRITIUM, tx.GetHash rt.toRuntime) = .ok x₁)
    (hRead : x.node.db.ledger.ReadTx (tx.GetHash rt.toRuntime) = some tx)
    (hPool : tx.isPool = .ok true)
    (hFinder : tx.GetHash rt.toRuntime = hashFinder → tx.IsTrustPool = .ok true) :
    ∃ c, CreditOf rt hashFinder x tx c x₁ ∧
      (c.nReward, x₁.nPoolFeeTotal) =
        poolCredit (tx.GetHash rt.toRuntime = hashFinder) c.nGross x.nPoolFeeTotal ∧
      c.nMintAfter = addMint c.nMint c.nReward := by
  simp only [BlockState.connectTx, if_true, bind_eq_ok, pure_eq_ok] at h
  obtain ⟨x₂, h, rfl⟩ := h
  simp only [BlockState.connectTritium, bind_eq_ok, demand_eq_ok, hRead, Option.some.injEq] at h
  obtain ⟨-, -, tx', rfl, -, -, -, -, db, hConnect, nFees, -, hStake⟩ := h
  simp only [BlockState.connectStake, bind_eq_ok] at hStake
  obtain ⟨fCoinStake, hCoinStake, hStake⟩ := hStake
  rw [isCoinStake_of_isPool hPool hCoinStake, if_pos rfl, bind_eq_ok] at hStake
  obtain ⟨⟨nReward, nTotal⟩, hTrust, hStake⟩ := hStake
  rw [← Except.ok.inj hStake]
  obtain ⟨nGross, hGross, hCredit⟩ := checkTrust_pool hTrust hPool
    fun hFlag => hFinder (of_decide_eq_true hFlag)
  exact ⟨⟨nGross, nReward, x.state.nMint, addMint x.state.nMint nReward⟩,
    ⟨db, nFees, hConnect, hGross, hTrust, rfl, rfl⟩, hCredit, rfl⟩

/-! ## The other transactions -/

/-- A transaction that is no producer leaves the fees of the pool, as those of legacy do. -/
theorem connectTx_other {read : Uint512 → Option Transaction} {proof : UInt8 × Uint512}
    (h : BlockState.connectTx rt side hashBlock hashFinder x proof = .ok x₁)
    (hCheck : TritiumBlock.checkOther read proof = .ok ())
    (hRead : x.node.db.ledger.ReadTx proof.2 = read proof.2) : x₁.nPoolFeeTotal = x.nPoolFeeTotal := by
  rw [BlockState.connectTx] at h
  by_cases hTritium : proof.1 = TRANSACTION.TRITIUM
  · rw [if_pos hTritium] at h
    simp only [bind_eq_ok, pure_eq_ok] at h
    obtain ⟨x₂, h, rfl⟩ := h
    simp only [TritiumBlock.checkOther, if_pos hTritium, bind_eq_ok, demand_eq_ok, reject_eq_ok] at hCheck
    obtain ⟨tx, hTx, fProducer, hProducer, hNot⟩ := hCheck
    simp only [BlockState.connectTritium, bind_eq_ok, demand_eq_ok, hRead, hTx, Option.some.injEq] at h
    obtain ⟨-, -, tx', rfl, -, -, -, -, db, -, nFees, -, hStake⟩ := h
    simp only [BlockState.connectStake, bind_eq_ok] at hStake
    obtain ⟨fCoinStake, hCoinStake, hStake⟩ := hStake
    have hFalse : fCoinStake = false := by
      simp only [TritiumBlock.isProducer, hCoinStake, bind_eq_ok, ite_eq_ok, pure_eq_ok, ok_bind] at hProducer
      grind
    rw [hFalse, if_neg Bool.false_ne_true, pure_eq_ok] at hStake
    rw [← hStake]
  · rw [if_neg hTritium] at h
    by_cases hLegacy : proof.1 = TRANSACTION.LEGACY
    · rw [if_pos hLegacy] at h
      simp only [BlockState.connectLegacy, bind_eq_ok, pure_eq_ok] at h
      obtain ⟨x₂, ⟨-, -, s, -, rfl⟩, rfl⟩ := h
      rfl
    · rw [if_neg hLegacy] at h
      cases h

/-- The transactions before the producers leave the fees of the pool and the transactions on
disk. -/
theorem connectTxs_others {read : Uint512 → Option Transaction} {vtx : List (UInt8 × Uint512)}
    (h : vtx.foldlM (BlockState.connectTx rt side hashBlock hashFinder) x = .ok x')
    (hCheck : vtx.forM (TritiumBlock.checkOther read) = .ok ())
    (hRead : ∀ proof ∈ vtx, x.node.db.ledger.ReadTx proof.2 = read proof.2) :
    x'.nPoolFeeTotal = x.nPoolFeeTotal ∧
      ∀ hash, x'.node.db.ledger.ReadTx hash = x.node.db.ledger.ReadTx hash := by
  induction vtx generalizing x with
  | nil =>
      rw [foldlM_nil_eq_ok] at h
      rw [h]
      exact ⟨rfl, fun _ => rfl⟩
  | cons proof vtx ih =>
      obtain ⟨x₁, hFirst, hRest⟩ := foldlM_cons_eq_ok.mp h
      simp only [List.forM_eq_forM, List.forM_cons, bind_eq_ok] at hCheck
      obtain ⟨_, hCheck, hCheckRest⟩ := hCheck
      have hTxs := connectTx_txs hFirst
      have hStep := connectTx_other hFirst hCheck (hRead proof List.mem_cons_self)
      obtain ⟨hTotal, hKept⟩ := ih hRest hCheckRest fun other hMem => by
        rw [hTxs, hRead other (List.mem_cons_of_mem _ hMem)]
      exact ⟨hTotal.trans hStep, fun hash => (hKept hash).trans (hTxs hash)⟩

/-! ## The mint -/

/-- The producers are minted one after the other, in 32 bits. -/
def Mints : Int32 → List PoolCredit → Prop
  | _, [] => True
  | nMint, c :: credits =>
      c.nMint = nMint ∧ c.nMintAfter = addMint c.nMint c.nReward ∧ Mints c.nMintAfter credits

theorem addMint_exact_iff {nMint : Int32} :
    (addMint nMint nReward).toInt = nMint.toInt + nReward.toNat ↔ nMint.toInt + nReward.toNat < 2 ^ 31 := by
  have hLow : addMint nMint nReward = Int32.ofInt (nMint.toInt + nReward.toNat) := by
    rw [addMint, ← low, low_eq, Int32.ofInt_add, Int32.ofInt_toInt]
  have hMin : -2 ^ 31 ≤ nMint.toInt := nMint.le_toInt
  rw [hLow, toInt_ofInt_iff]
  omega

/-- Each addition to the mint is that of the integers exactly when the last sum fits. -/
theorem mints_exact_iff {credits : List PoolCredit} {nMint : Int32} (h : Mints nMint credits) :
    (∀ c ∈ credits, c.nMintAfter.toInt = c.nMint.toInt + c.nReward.toNat) ↔
      nMint.toInt + (credits.map fun c => c.nReward.toNat).sum < 2 ^ 31 := by
  induction credits generalizing nMint with
  | nil =>
      have hMax : nMint.toInt < 2 ^ 31 := nMint.toInt_lt
      simp only [List.not_mem_nil, List.map_nil, List.sum_nil, false_implies, implies_true, true_iff]
      omega
  | cons c credits ih =>
      obtain ⟨hMint, hAfter, hRest⟩ := h
      have ih := ih hRest
      rw [List.forall_mem_cons, ih, List.map_cons, List.sum_cons, hAfter, hMint, addMint_exact_iff]
      constructor
      · intro hFits
        have hExact := addMint_exact_iff.mpr hFits.1
        omega
      · intro hFits
        have hStep : nMint.toInt + c.nReward.toNat < 2 ^ 31 := by omega
        have hExact := addMint_exact_iff.mpr hStep
        exact ⟨hStep, by omega⟩

/-! ## The credits of a block -/

/-- The gross rewards of producers, as natural numbers. -/
def grosses (credits : List PoolCredit) : Nat := (credits.map fun c => c.nGross.toNat).sum

/-- The rewards of producers, as natural numbers. -/
def rewards (credits : List PoolCredit) : Nat := (credits.map fun c => c.nReward.toNat).sum

/-- The fees of producers, as natural numbers. -/
def fees (credits : List PoolCredit) : Nat := (credits.map PoolCredit.fee).sum

/-- No fee is created or lost: the rewards of the others are theirs less the fee, and the finder
has its own and the fees of the others. -/
structure ExactRewards (vOthers : List PoolCredit) (cFinder : PoolCredit) : Prop where
  sum : rewards (vOthers ++ [cFinder]) = grosses (vOthers ++ [cFinder])
  others : ∀ c ∈ vOthers, c.nReward.toNat + c.fee = c.nGross.toNat
  finder : cFinder.nReward.toNat = cFinder.nGross.toNat + fees vOthers

/-- The mint takes each reward. -/
def ExactMint (credits : List PoolCredit) : Prop :=
  ∀ c ∈ credits, c.nMintAfter.toInt = c.nMint.toInt + c.nReward.toNat

/-- A producer that is not the finder. -/
structure Charged (c : PoolCredit) : Prop where
  reward : c.nReward = c.nGross - GetPoolStakeFee c.nGross
  mint : c.nMintAfter = addMint c.nMint c.nReward

theorem poolFee_toNat {nGross : UInt64} (h : 100 * nGross.toNat < 2 ^ 64) :
    (GetPoolStakeFee nGross).toNat = 16 * nGross.toNat / 100 := by
  have hProduct : (POOL_FEE_PCT * nGross).toNat = POOL_FEE_PCT.toNat * nGross.toNat :=
    toNat_mul_of_lt (by
      show 16 * nGross.toNat < 2 ^ 64
      omega)
  rw [GetPoolStakeFee, UInt64.toNat_div, hProduct]
  rfl

/-- A fee is less than its reward, so the reward does not wrap. -/
theorem Charged.exact {c : PoolCredit} (h : Charged c) (hBound : 100 * c.nGross.toNat < 2 ^ 64) :
    c.nReward.toNat + c.fee = c.nGross.toNat := by
  have hFee := poolFee_toNat hBound
  have hLe : GetPoolStakeFee c.nGross ≤ c.nGross := by
    rw [UInt64.le_iff_toNat_le, hFee]
    omega
  rw [h.reward, UInt64.toNat_sub_of_le _ _ hLe, hFee, PoolCredit.fee]
  omega

theorem Credited.append {txs txs' : List Transaction} {credits credits' : List PoolCredit}
    (h : Credited rt side hashBlock hashFinder x txs credits x₁)
    (hRest : Credited rt side hashBlock hashFinder x₁ txs' credits' x') :
    Credited rt side hashBlock hashFinder x (txs ++ txs') (credits ++ credits') x' := by
  induction h with
  | nil => exact hRest
  | cons hConnect hCredit _ ih => exact .cons hConnect hCredit (ih hRest)

/-- The mint goes from one producer to the next. -/
theorem Credited.mints {txs : List Transaction} {credits : List PoolCredit}
    (h : Credited rt side hashBlock hashFinder x txs credits x')
    (hMint : ∀ c ∈ credits, c.nMintAfter = addMint c.nMint c.nReward) : Mints x.state.nMint credits := by
  induction h with
  | nil => trivial
  | cons hConnect hCredit _ ih =>
      obtain ⟨-, -, -, -, -, hBefore, hAfter⟩ := hCredit
      rw [List.forall_mem_cons] at hMint
      have ih := ih hMint.2
      rw [← hAfter] at ih
      exact ⟨hBefore, hMint.1, ih⟩

/-- A gross reward is a value of `GetCoinstakeReward`. -/
theorem grossReward_value {P : UInt64 → Prop} {nGross : UInt64}
    (hP : ∀ nStake nTime nTrust fGenesis, P (rt.GetCoinstakeReward nStake nTime nTrust fGenesis))
    (h : tx.grossReward rt db block fBlockFinder = .ok nGross) : P nGross := by
  simp only [Transaction.grossReward, bind_eq_ok] at h
  obtain ⟨fPool, -, contract, -, account, -, statePrev, -, fTrust, -, h⟩ := h
  cases fTrust with
  | true =>
      simp only [if_true, Transaction.grossTrustReward, bind_eq_ok, pure_eq_ok] at h
      obtain ⟨operands, -, nStake, -, stateLast, -, h⟩ := h
      rw [← h]
      exact hP ..
  | false =>
      simp only [Bool.false_eq_true, if_false, Transaction.grossGenesisReward, bind_eq_ok, pure_eq_ok] at h
      obtain ⟨nStake, -, h⟩ := h
      rw [← h]
      exact hP ..

theorem Credited.gross {P : UInt64 → Prop} {txs : List Transaction} {credits : List PoolCredit}
    (h : Credited rt side hashBlock hashFinder x txs credits x')
    (hP : ∀ nStake nTime nTrust fGenesis, P (rt.GetCoinstakeReward nStake nTime nTrust fGenesis)) :
    ∀ c ∈ credits, P c.nGross := by
  induction h with
  | nil => nofun
  | cons hConnect hCredit _ ih =>
      obtain ⟨db, nFees, -, hGross, -⟩ := hCredit
      rw [List.forall_mem_cons]
      exact ⟨grossReward_value hP hGross, ih⟩

/-- A producer is credited what it claims. -/
theorem Credited.claimed {txs : List Transaction} {credits : List PoolCredit}
    (h : Credited rt side hashBlock hashFinder x txs credits x') :
    List.Forall₂ (fun tx c => tx.claimedReward = .ok c.nReward) txs credits := by
  induction h with
  | nil => exact .nil
  | cons hConnect hCredit _ ih =>
      obtain ⟨db, nFees, -, -, hReward, -⟩ := hCredit
      exact .cons (CheckTrust_reward hReward) ih

/-- Producers that are not the finder pay their fees into the total. -/
theorem connectTxs_charged {txs : List Transaction}
    (h : (txs.map fun tx => (TRANSACTION.TRITIUM, tx.GetHash rt.toRuntime)).foldlM
      (BlockState.connectTx rt side hashBlock hashFinder) x = .ok x')
    (hRead : ∀ tx ∈ txs, x.node.db.ledger.ReadTx (tx.GetHash rt.toRuntime) = some tx)
    (hPool : ∀ tx ∈ txs, tx.isPool = .ok true)
    (hNot : ∀ tx ∈ txs, tx.GetHash rt.toRuntime ≠ hashFinder) :
    ∃ credits, Credited rt side hashBlock hashFinder x txs credits x' ∧ (∀ c ∈ credits, Charged c) ∧
      x'.nPoolFeeTotal = x.nPoolFeeTotal + (credits.map fun c => GetPoolStakeFee c.nGross).sum ∧
      ∀ hash, x'.node.db.ledger.ReadTx hash = x.node.db.ledger.ReadTx hash := by
  induction txs generalizing x with
  | nil =>
      rw [List.map_nil, foldlM_nil_eq_ok] at h
      rw [h]
      exact ⟨[], .nil _, nofun, (UInt64.add_zero _).symm, fun _ => rfl⟩
  | cons tx txs ih =>
      rw [List.map_cons, foldlM_cons_eq_ok] at h
      obtain ⟨x₁, hFirst, hRest⟩ := h
      rw [List.forall_mem_cons] at hRead hPool hNot
      have hTxs := connectTx_txs hFirst
      obtain ⟨c, hCredit, hReward, hMint⟩ :=
        connectTx_credit hFirst hRead.1 hPool.1 fun hHash => absurd hHash hNot.1
      rw [decide_eq_false hNot.1] at hReward
      have hPair := Prod.mk.inj (hReward.trans (by rfl : _ = Transaction.poolReward c.nGross x.nPoolFeeTotal))
      have hRead' : ∀ tx ∈ txs, x₁.node.db.ledger.ReadTx (tx.GetHash rt.toRuntime) = some tx := by
        intro tx hMem
        rw [hTxs, hRead.2 tx hMem]
      obtain ⟨credits, hCredited, hCharged, hTotal, hKept⟩ := ih hRest hRead' hPool.2 hNot.2
      have hFirstCharged : Charged c := ⟨hPair.1, hMint⟩
      have hTotal' : x'.nPoolFeeTotal = x.nPoolFeeTotal +
          ((c :: credits).map fun c => GetPoolStakeFee c.nGross).sum := by
        rw [hTotal, hPair.2, List.map_cons, List.sum_cons, UInt64.add_assoc]
      exact ⟨c :: credits, .cons hFirst hCredit hCredited,
        List.forall_mem_cons.mpr ⟨hFirstCharged, hCharged⟩, hTotal',
        fun hash => (hKept hash).trans (hTxs hash)⟩

/-- A loop accepts exactly when each of its turns does. -/
theorem forM_eq_ok {α ε : Type} {f : α → Except ε Unit} {as : List α} :
    as.forM f = .ok () ↔ ∀ a ∈ as, f a = .ok () := by
  induction as with
  | nil => exact ⟨fun _ => nofun, fun _ => rfl⟩
  | cons a as ih =>
      simp only [List.forM_eq_forM, List.forM_cons, bind_eq_ok, List.forall_mem_cons] at ih ⊢
      rw [ih]
      exact ⟨fun h => ⟨h.choose_spec.1, h.choose_spec.2⟩, fun h => ⟨(), h⟩⟩

/-- What `Check` says of a block whose finder is no solo coinstake. -/
theorem checkTransactions_pool {read : Uint512 → Option Transaction} {tritium : TritiumBlock}
    {txFinder : Transaction} (hLast : tritium.vProducer.getLast? = some txFinder)
    (hSolo : TritiumBlock.isSolo txFinder = .ok false)
    (h : tritium.checkTransactions rt.toLedgerRuntime read = .ok ()) :
    txFinder.IsTrustPool = .ok true ∧ (∀ tx ∈ tritium.vProducer, tx.isPool = .ok true) ∧
      tritium.vtx.forM (TritiumBlock.checkOther read) = .ok () ∧
      (tritium.vHashes rt.toLedgerRuntime).Nodup := by
  simp only [TritiumBlock.checkTransactions, TritiumBlock.checkStakeProducers, bind_eq_ok, demand_eq_ok,
    reject_eq_ok, hLast, Option.some.injEq, not_not] at h
  obtain ⟨_, ⟨tx, rfl, fCoinStake, hCoinStake, _, -, fSolo, hSolo', h⟩, _, hOthers, hNodup⟩ := h
  rw [hSolo] at hSolo'
  rw [← Except.ok.inj hSolo', if_neg Bool.false_ne_true] at h
  simp only [bind_eq_ok, reject_eq_ok] at h
  obtain ⟨fTrust, hTrust, _, hNot, hProducers⟩ := h
  have hTrustPool : txFinder.IsTrustPool = .ok true := by
    rw [Bool.not_eq_false] at hNot
    rw [hTrust, hNot]
  refine ⟨hTrustPool, fun txPool hMem => ?_, hOthers, hNodup⟩
  have hProducer := forM_eq_ok.mp hProducers txPool hMem
  simp only [TritiumBlock.checkPoolProducer, bind_eq_ok, reject_eq_ok, Bool.not_eq_false] at hProducer
  obtain ⟨fPool, hPool, _, rfl, -⟩ := hProducer
  exact hPool

theorem rewards_concat (credits : List PoolCredit) (c : PoolCredit) :
    rewards (credits ++ [c]) = rewards credits + c.nReward.toNat := by
  rw [rewards, List.map_append, List.sum_append, List.map_singleton, List.sum_singleton, rewards]

theorem grosses_concat (credits : List PoolCredit) (c : PoolCredit) :
    grosses (credits ++ [c]) = grosses credits + c.nGross.toNat := by
  rw [grosses, List.map_append, List.sum_append, List.map_singleton, List.sum_singleton, grosses]

/-- The rewards of the others and their fees are their gross rewards. -/
theorem rewards_fees {credits : List PoolCredit}
    (h : ∀ c ∈ credits, c.nReward.toNat + c.fee = c.nGross.toNat) :
    rewards credits + fees credits = grosses credits := by
  rw [rewards, fees, grosses, ← List.sum_map_add]
  exact congrArg List.sum (List.map_congr_left h)

/-- The rewards are those of the naturals when the reward of the finder is a word. -/
theorem exactRewards_iff {vOthers : List PoolCredit} {cFinder : PoolCredit}
    (hBound : ∀ c ∈ vOthers, 100 * c.nGross.toNat < 2 ^ 64) (hCharged : ∀ c ∈ vOthers, Charged c)
    (hFinder : cFinder.nReward =
      cFinder.nGross + (vOthers.map fun c => GetPoolStakeFee c.nGross).sum) :
    ExactRewards vOthers cFinder ↔ cFinder.nGross.toNat + fees vOthers < 2 ^ 64 := by
  have hOthers : ∀ c ∈ vOthers, c.nReward.toNat + c.fee = c.nGross.toNat := fun c hMem =>
    (hCharged c hMem).exact (hBound c hMem)
  have hSum := rewards_fees hOthers
  have hFees : ((vOthers.map fun c => GetPoolStakeFee c.nGross).map UInt64.toNat).sum = fees vOthers := by
    rw [List.map_map, fees]
    exact congrArg List.sum (List.map_congr_left fun c hMem => poolFee_toNat (hBound c hMem))
  have hReward : cFinder.nReward.toNat = (cFinder.nGross.toNat + fees vOthers) % 2 ^ 64 := by
    rw [hFinder, UInt64.toNat_add, toNat_sum, hFees, Nat.add_mod_mod]
  constructor
  · intro hExact
    have hLt := cFinder.nReward.toNat_lt
    rw [hExact.finder] at hLt
    exact hLt
  · intro hFits
    rw [Nat.mod_eq_of_lt hFits] at hReward
    refine ⟨?_, hOthers, hReward⟩
    rw [rewards_concat, grosses_concat, hReward]
    omega

/-- The rewards and the mint are those of the integers when the mint has room. -/
theorem exactPool_iff {vOthers : List PoolCredit} {cFinder : PoolCredit} {nMint : Int32}
    (hMints : Mints nMint (vOthers ++ [cFinder]))
    (hBound : ∀ c ∈ vOthers, 100 * c.nGross.toNat < 2 ^ 64) (hCharged : ∀ c ∈ vOthers, Charged c)
    (hFinder : cFinder.nReward =
      cFinder.nGross + (vOthers.map fun c => GetPoolStakeFee c.nGross).sum) :
    ExactRewards vOthers cFinder ∧ ExactMint (vOthers ++ [cFinder]) ↔
      nMint.toInt + grosses (vOthers ++ [cFinder]) < 2 ^ 31 := by
  have hRewards := exactRewards_iff hBound hCharged hFinder
  have hMint : ExactMint (vOthers ++ [cFinder]) ↔ nMint.toInt + rewards (vOthers ++ [cFinder]) < 2 ^ 31 :=
    mints_exact_iff hMints
  constructor
  · intro hExact
    rw [← hExact.1.sum]
    exact hMint.mp hExact.2
  · intro hFits
    have hMin : -2 ^ 31 ≤ nMint.toInt := nMint.le_toInt
    have hSum := rewards_fees fun c hMem => (hCharged c hMem).exact (hBound c hMem)
    have hConcat := grosses_concat vOthers cFinder
    -- the gross rewards are below 2^32, so no sum of them leaves 64 bits
    have hExact := hRewards.mpr (by omega)
    rw [← hExact.sum] at hFits
    exact ⟨hExact, hMint.mpr hFits⟩

/-- The rewards of a pool are those of the naturals exactly when that of the finder is a word, and
the mint takes them exactly when with their gross rewards it is less than 2^31. -/
theorem pool_rewards_exact_iff {read : Uint512 → Option Transaction} {tritium : TritiumBlock}
    {state state' : BlockState} {txFinder : Transaction} (hVersion : ¬ tritium.nVersion < 9)
    (hCheck : tritium.checkTransactions rt.toLedgerRuntime read = .ok ())
    (hLast : tritium.vProducer.getLast? = some txFinder)
    (hSolo : TritiumBlock.isSolo txFinder = .ok false)
    (hOthers : ∀ proof ∈ tritium.vtx, node.db.ledger.ReadTx proof.2 = read proof.2)
    (hProducers : ∀ tx ∈ tritium.vProducer, node.db.ledger.ReadTx (tx.GetHash rt.toRuntime) = some tx)
    (hBound : ∀ nStake nTime nTrust fGenesis,
      100 * (rt.GetCoinstakeReward nStake nTime nTrust fGenesis).toNat < 2 ^ 64)
    (hState : state.vtx = (tritium.state rt.toRuntime).vtx)
    (h : BlockState.Connect rt side node state = .ok (state', node')) :
    ∃ x₁ x₂ vOthers cFinder,
      tritium.vtx.foldlM (BlockState.connectTx rt side (state.GetHash rt.toLedgerRuntime)
        (txFinder.GetHash rt.toRuntime)) ⟨{ state with nFees := 0 }, node, 0⟩ = .ok x₁ ∧
      Credited rt side (state.GetHash rt.toLedgerRuntime) (txFinder.GetHash rt.toRuntime) x₁
        tritium.vProducer (vOthers ++ [cFinder]) x₂ ∧
      state'.nMint = x₂.state.nMint ∧
      (ExactRewards vOthers cFinder ↔ cFinder.nGross.toNat + fees vOthers < 2 ^ 64) ∧
      (ExactRewards vOthers cFinder ∧ ExactMint (vOthers ++ [cFinder]) ↔
        x₁.state.nMint.toInt + grosses (vOthers ++ [cFinder]) < 2 ^ 31) := by
  obtain ⟨hTrustPool, hPool, hCheckOthers, hNodup⟩ := checkTransactions_pool hLast hSolo hCheck
  have hSplit : tritium.vProducer = tritium.vProducer.dropLast ++ [txFinder] :=
    (List.dropLast_append_getLast? _ hLast).symm
  have hVtx : state.vtx = tritium.vtx ++
      ((tritium.vProducer.dropLast.map fun tx => (TRANSACTION.TRITIUM, tx.GetHash rt.toRuntime)) ++
        [(TRANSACTION.TRITIUM, txFinder.GetHash rt.toRuntime)]) := by
    rw [hState, TritiumBlock.state, TritiumBlock.producers, if_neg hVersion]
    show tritium.vtx ++ tritium.vProducer.map _ = _
    conv => lhs; rw [hSplit]
    rw [List.map_append, List.map_singleton]
  have hFinder : state.vtx.getLast? = some (TRANSACTION.TRITIUM, txFinder.GetHash rt.toRuntime) := by
    rw [hVtx, ← List.append_assoc, List.getLast?_concat]
  -- the hashes are distinct, so no other producer is taken for the finder
  have hNot : ∀ tx ∈ tritium.vProducer.dropLast, tx.GetHash rt.toRuntime ≠ txFinder.GetHash rt.toRuntime := by
    have hNodup' := (List.nodup_append.mp hNodup).2.1
    rw [hSplit, List.map_append, List.nodup_append] at hNodup'
    intro tx hMem
    exact hNodup'.2.2 _ (List.mem_map_of_mem hMem) _ List.mem_cons_self
  simp only [BlockState.Connect, hFinder, demand_some, ok_bind, bind_eq_ok, pure_eq_ok, Prod.mk.injEq] at h
  obtain ⟨x₂, hFold, prev, -, hState', -⟩ := h
  -- the others, the producers that are not the finder, and the finder
  rw [congrArg (List.foldlM _ _) hVtx, List.foldlM_append, bind_eq_ok] at hFold
  obtain ⟨x₁, hFirst, hFold⟩ := hFold
  rw [List.foldlM_append, bind_eq_ok] at hFold
  obtain ⟨x₀, hCharge, hFold⟩ := hFold
  rw [foldlM_cons_eq_ok] at hFold
  obtain ⟨x₃, hFold, hEnd⟩ := hFold
  rw [foldlM_nil_eq_ok] at hEnd
  rw [hEnd] at hFold
  obtain ⟨hTotal, hTxs⟩ := connectTxs_others hFirst hCheckOthers hOthers
  have hOnDisk : ∀ tx ∈ tritium.vProducer, x₁.node.db.ledger.ReadTx (tx.GetHash rt.toRuntime) = some tx := by
    intro tx hMem
    rw [hTxs]
    exact hProducers tx hMem
  obtain ⟨vOthers, hCredited, hCharged, hFees, hTxs'⟩ := connectTxs_charged hCharge
    (fun tx hMem => hOnDisk tx (List.mem_of_mem_dropLast hMem))
    (fun tx hMem => hPool tx (List.mem_of_mem_dropLast hMem)) hNot
  have hMem : txFinder ∈ tritium.vProducer := List.mem_of_getLast? hLast
  have hFinderRead : x₀.node.db.ledger.ReadTx (txFinder.GetHash rt.toRuntime) = some txFinder := by
    rw [hTxs']
    exact hOnDisk txFinder hMem
  obtain ⟨cFinder, hCredit, hReward, hMint⟩ :=
    connectTx_credit hFold hFinderRead (hPool txFinder hMem) fun _ => hTrustPool
  have hAll : Credited rt side (state.GetHash rt.toLedgerRuntime) (txFinder.GetHash rt.toRuntime) x₁
      tritium.vProducer (vOthers ++ [cFinder]) x₂ := by
    rw [hSplit]
    exact hCredited.append (.cons hFold hCredit (.nil _))
  have hMints : Mints x₁.state.nMint (vOthers ++ [cFinder]) := hAll.mints fun c hMem => by
    rcases List.mem_append.mp hMem with hOther | hSelf
    · exact (hCharged c hOther).mint
    · rw [List.mem_singleton.mp hSelf]
      exact hMint
  have hFinderReward : cFinder.nReward =
      cFinder.nGross + (vOthers.map fun c => GetPoolStakeFee c.nGross).sum := by
    rw [decide_eq_true rfl] at hReward
    have hPair := (Prod.mk.inj hReward).1
    rw [hPair, hFees, hTotal, UInt64.zero_add]
  have hBound' : ∀ c ∈ vOthers, 100 * c.nGross.toNat < 2 ^ 64 := hCredited.gross (P := fun nGross => 100 * nGross.toNat < 2 ^ 64) hBound
  have hMint' : state'.nMint = x₂.state.nMint := by rw [← hState']
  exact ⟨x₁, x₂, vOthers, cFinder, hFirst, hAll, hMint', exactRewards_iff hBound' hCharged hFinderReward,
    exactPool_iff hMints hBound' hCharged hFinderReward⟩

/-! ## Pools of one and of two -/

/-- The environment of a chain on which each coinstake has the same reward. -/
def stakeChain (nReward : UInt64) : ChainRuntime :=
  { exampleChain with GetCoinstakeReward := fun _ _ _ _ => nReward }

/-- The last stake of a user. -/
def stakedTx (hashGenesis : Uint256) : Transaction := { hashGenesis }

/-- The trust account of a user, with a stake of 100 coins. -/
def poolState (hashGenesis : Uint256) (nModified nBalance nTrust : UInt64) : State :=
  objectState hashGenesis 10 nModified (trustData nBalance nTrust 100)

/-- A pooled coinstake, with a score of 9 that is 600 seconds older. -/
def poolContract (hashGenesis : Uint256) (nReward : UInt64) : Contract where
  ssOperation :=
    { vchData := FixedWidth.encode OP.TRUSTPOOL ++
        FixedWidth.encode ((stakedTx hashGenesis).GetHash exampleRuntime) ++ List.replicate 48 0 ++
        FixedWidth.encode (609 : UInt64) ++ FixedWidth.encode (0 : Int64) ++ FixedWidth.encode nReward }
  ssRegister :=
    { vchData := FixedWidth.encode STATES.PRESTATE ++ (poolState hashGenesis 20 5 9).serialize ++
        FixedWidth.encode STATES.POSTSTATE ++
        FixedWidth.encode ((poolState hashGenesis 650 (5 + nReward) 609).GetHash exampleRuntime) }

def poolTx (hashGenesis : Uint256) (nReward : UInt64) : Transaction :=
  { hashGenesis, nSequence := 1, nTimestamp := 650
    hashPrevTx := (stakedTx hashGenesis).GetHash exampleRuntime
    vContracts := [poolContract hashGenesis nReward] }

/-- The block before. -/
def settledBlock : BlockState := { nVersion := 9, nHeight := 99, nBits := 1, nTime := 600 }

/-- A block of pooled stake. -/
def pooledBlock (vProducer : List Transaction) : TritiumBlock :=
  { nVersion := 9, hashPrevBlock := settledBlock.GetHash exampleLedger, nChannel := CHANNEL.STAKE,
    nHeight := 100, nBits := 1, nTime := 660, vProducer }

def stakers : List Uint256 := [alice, bob]

def pooledRecords (vProducer : List Transaction) : LLD.Records :=
  { blockRecords exampleLedger [firstBlock, settledBlock] with
    register := {
      states := fun hashAddress =>
        (stakers.find? fun hashGenesis => RegisterDB.trustAddress exampleRuntime hashGenesis = hashAddress).map
          fun hashGenesis => poolState hashGenesis 20 5 9
      trust := fun hashGenesis =>
        if stakers.any fun hash => hash = hashGenesis then
          some (RegisterDB.trustAddress exampleRuntime hashGenesis)
        else none }
    ledger := {
      txs := fun hash =>
        (stakers.map stakedTx ++ vProducer).find? fun tx => tx.GetHash exampleRuntime = hash
      stake := fun hashGenesis =>
        if stakers.any fun hash => hash = hashGenesis then
          some ((stakedTx hashGenesis).GetHash exampleRuntime)
        else none }
    index := fun hash =>
      if stakers.any fun hashGenesis => (stakedTx hashGenesis).GetHash exampleRuntime = hash then
        some (firstBlock.GetHash exampleLedger)
      else none
    last := fun hashGenesis =>
      if stakers.any fun hash => hash = hashGenesis then
        some ((stakedTx hashGenesis).GetHash exampleRuntime)
      else none }

def pooledNode (vProducer : List Transaction) : Node Unit where
  db := pooledRecords vProducer
  side := ()

def pooledState (vProducer : List Transaction) : BlockState := (pooledBlock vProducer).state exampleRuntime

/-- The pool of alice. -/
def wrapped : List Transaction := [poolTx alice 2147483648]

theorem pooled_checks :
    (pooledBlock wrapped).checkTransactions (stakeChain 2147483648).toLedgerRuntime (fun _ => none) =
      .ok () := by
  decide +kernel

/-- Connecting the producer of `wrapped`, the finder. -/
def connectPooled : Result (BlockState.Connecting Unit) :=
  BlockState.connectTx (stakeChain 2147483648) exampleSide
    ((pooledState wrapped).GetHash (stakeChain 2147483648).toLedgerRuntime)
    ((poolTx alice 2147483648).GetHash (stakeChain 2147483648).toRuntime)
    ⟨{ pooledState wrapped with nFees := 0 }, pooledNode wrapped, 0⟩
    (TRANSACTION.TRITIUM, (poolTx alice 2147483648).GetHash (stakeChain 2147483648).toRuntime)

/-- A reward of 2^31 takes as much from the mint. -/
theorem pool_reward_wraps :
    (pooledBlock wrapped).checkTransactions (stakeChain 2147483648).toLedgerRuntime (fun _ => none) =
        .ok () ∧
      (BlockState.Connect (stakeChain 2147483648) exampleSide (pooledNode wrapped)
        (pooledState wrapped)).isOk = true ∧
      ∃ x₂ cFinder, Credited (stakeChain 2147483648) exampleSide
          ((pooledState wrapped).GetHash (stakeChain 2147483648).toLedgerRuntime)
          ((poolTx alice 2147483648).GetHash (stakeChain 2147483648).toRuntime)
          ⟨{ pooledState wrapped with nFees := 0 }, pooledNode wrapped, 0⟩
          [poolTx alice 2147483648] [cFinder] x₂ ∧
        cFinder.nReward = 2147483648 ∧ cFinder.nMint = 0 ∧ x₂.state.nMint.toInt = -2147483648 ∧
        ¬ ExactMint [cFinder] := by
  refine ⟨pooled_checks, by decide +kernel, ?_⟩
  have hOk : (connectPooled).isOk = true := by decide +kernel
  have hConnect := eq_ok_of_isOk (a := ⟨pooledState wrapped, pooledNode wrapped, 0⟩) hOk
  have hPool : (poolTx alice 2147483648).isPool = .ok true := by decide +kernel
  have hTrust : (poolTx alice 2147483648).IsTrustPool = .ok true := by decide +kernel
  have hRead : (pooledNode wrapped).db.ledger.ReadTx
      ((poolTx alice 2147483648).GetHash (stakeChain 2147483648).toRuntime) = some (poolTx alice 2147483648) := by
    decide +kernel
  obtain ⟨c, hCredit, -, hMint⟩ := connectTx_credit hConnect hRead hPool fun _ => hTrust
  have hCredited := Credited.cons hConnect hCredit (.nil _)
  obtain ⟨db, nFees, -, -, hReward, hBefore, hAfter⟩ := hCredit
  have hClaimed : (poolTx alice 2147483648).claimedReward = .ok 2147483648 := by decide +kernel
  have hEqual : c.nReward = 2147483648 :=
    Except.ok.inj ((CheckTrust_reward hReward).symm.trans hClaimed)
  have hZero : c.nMint = 0 := hBefore
  have hWrapped : c.nMintAfter.toInt = -2147483648 := by
    rw [hMint, hZero, hEqual]
    decide
  refine ⟨_, c, hCredited, hEqual, hZero, ?_, fun hExact => ?_⟩
  · rw [← hAfter]
    exact hWrapped
  · have hSum := hExact c List.mem_cons_self
    rw [hWrapped, hZero, hEqual] at hSum
    exact absurd hSum (by decide)

/-- Bob's reward without the fee, and that of the finder alice with it. -/
def pooled : List Transaction := [poolTx bob 84, poolTx alice 116]

theorem pooled_connects :
    (BlockState.Connect (stakeChain 100) exampleSide (pooledNode pooled) (pooledState pooled)).isOk = true ∧
    (pooledBlock pooled).checkTransactions (stakeChain 100).toLedgerRuntime (fun _ => none) = .ok () ∧
    TritiumBlock.isSolo (poolTx alice 116) = .ok false ∧
    (∀ tx ∈ pooled, (pooledNode pooled).db.ledger.ReadTx (tx.GetHash (stakeChain 100).toRuntime) = some tx) ∧
    (poolTx bob 84).claimedReward = .ok 84 ∧ (poolTx alice 116).claimedReward = .ok 116 := by
  decide +kernel

/-- Bob and alice have rewards of 100, of which bob pays 16 to alice. -/
theorem pool_rewards_exact_two :
    ∃ x₂ cBob cAlice,
      Credited (stakeChain 100) exampleSide ((pooledState pooled).GetHash (stakeChain 100).toLedgerRuntime)
        ((poolTx alice 116).GetHash (stakeChain 100).toRuntime)
        ⟨{ pooledState pooled with nFees := 0 }, pooledNode pooled, 0⟩ pooled [cBob, cAlice] x₂ ∧
      cBob.nReward = 84 ∧ cAlice.nReward = 116 ∧ ExactRewards [cBob] cAlice ∧ ExactMint [cBob, cAlice] := by
  obtain ⟨hOk, hCheck, hSolo, hRead, hBob, hAlice⟩ := pooled_connects
  have hSome : ∃ connected, BlockState.Connect (stakeChain 100) exampleSide (pooledNode pooled)
      (pooledState pooled) = .ok connected :=
    ⟨_, eq_ok_of_isOk (a := (pooledState pooled, pooledNode pooled)) hOk⟩
  obtain ⟨⟨state', node'⟩, hConnect⟩ := hSome
  have hLast : (pooledBlock pooled).vProducer.getLast? = some (poolTx alice 116) := rfl
  have hVtx : (pooledBlock pooled).vtx = [] := rfl
  have hState : (pooledState pooled).vtx = ((pooledBlock pooled).state (stakeChain 100).toRuntime).vtx := rfl
  have hReward : ∀ nStake nTime nTrust fGenesis,
      (stakeChain 100).GetCoinstakeReward nStake nTime nTrust fGenesis = 100 := fun _ _ _ _ => rfl
  obtain ⟨x₁, x₂, vOthers, cAlice, hOthers, hCredited, -, -, hIff⟩ :=
    pool_rewards_exact_iff (by decide) hCheck hLast hSolo
      (fun proof hMem => by
        rw [hVtx] at hMem
        cases hMem) hRead
      (fun nStake nTime nTrust fGenesis => by
        rw [hReward]
        decide) hState hConnect
  rw [hVtx, foldlM_nil_eq_ok] at hOthers
  obtain ⟨cBob, rfl⟩ : ∃ cBob, vOthers = [cBob] := by
    have hLength := hCredited.claimed.length_eq
    rw [List.length_append] at hLength
    exact List.length_eq_one_iff.mp (Nat.succ_inj.mp hLength.symm)
  have hGross := hCredited.gross (P := (· = 100)) hReward
  have hClaimed : List.Forall₂ (fun tx c => tx.claimedReward = .ok c.nReward)
      [poolTx bob 84, poolTx alice 116] [cBob, cAlice] := hCredited.claimed
  rw [List.forall₂_cons, List.forall₂_cons] at hClaimed
  have hBobReward : cBob.nReward = 84 := Except.ok.inj (hClaimed.1.symm.trans hBob)
  have hAliceReward : cAlice.nReward = 116 := Except.ok.inj (hClaimed.2.1.symm.trans hAlice)
  have hMint : x₁.state.nMint = 0 := by rw [← hOthers]; rfl
  have hSum : grosses ([cBob] ++ [cAlice]) = 200 := by
    rw [grosses, List.singleton_append, List.map_cons, List.map_singleton,
      hGross cBob (by simp), hGross cAlice (by simp)]
    rfl
  have hExact := hIff.mpr (by
    rw [hMint, hSum]
    decide)
  rw [← hOthers] at hCredited
  exact ⟨x₂, cBob, cAlice, hCredited, hBobReward, hAliceReward, hExact.1, hExact.2⟩

end Nexus.Safety
