import Nexus.Ledger.Consistency
import Nexus.Safety.Reconnects
import Nexus.Safety.Staking

/-!
# Trust scores

A score grows with the age of the last stake, up to a maximum; past that it loses
three times the excess, and stake that is removed takes its part of the score with
it.  The penalty is a 64-bit product, so an excess of more than a third of the
words wraps to a small penalty.  The score is divided by the stake, which is not
zero when `Trust::Execute` has let stake be removed.

## Main results

* `trust_score_exact_iff`: the score is exact unless the penalty wraps below the
  score, and no accepted coinstake divides by a zero stake.
* `trust_score_wraps`: a penalty of 2^64 + 2 that is 2.
-/

namespace Nexus.Safety

open Nexus.Lib.Bytes
open Nexus.Lib.Checked
open Nexus.Util
open Nexus.Register
open Nexus.Operation
open Nexus.LLD
open Nexus.Ledger

/-! ## Scores as natural numbers -/

/-- Three times what the age of the last stake exceeds the maximum by. -/
def penaltyNat (rt : LedgerRuntime) (nBlockAge : UInt64) : Nat :=
  3 * (nBlockAge.toNat - (MaxBlockAge rt).toNat)

/-- The score by the age of the last stake. -/
def agedNat (rt : LedgerRuntime) (nScorePrev nBlockAge : UInt64) : Nat :=
  if nBlockAge.toNat ≤ (MaxBlockAge rt).toNat then nScorePrev.toNat + nBlockAge.toNat
  else nScorePrev.toNat - penaltyNat rt nBlockAge

/-- The stake that remains after a change. -/
def remainingStake (nStake : Nat) (nStakeChange : Int) : Nat := nStake - (-nStakeChange).toNat

/-- The score after a change of the stake. -/
def scoreNat (nScore nStake : Nat) (nStakeChange : Int) : Nat :=
  if nStakeChange < 0 then nScore * remainingStake nStake nStakeChange / nStake else nScore

/-- The score is that of the natural numbers, hence at most the score by age, and is that of version
7 unless the product leaves the words there. -/
def ExactScore (rt : LedgerRuntime) (nScorePrev nBlockAge nStake : UInt64) (nStakeChange : Int64)
    (nVersion : UInt32) : Prop :=
  ∃ nTrust, GetTrustScore rt nScorePrev nBlockAge nStake nStakeChange nVersion = .ok nTrust ∧
    nTrust.toNat = scoreNat (agedNat rt nScorePrev nBlockAge) nStake.toNat nStakeChange.toInt ∧
    nTrust.toNat ≤ agedNat rt nScorePrev nBlockAge ∧
    (remainingStake nStake.toNat nStakeChange.toInt * agedNat rt nScorePrev nBlockAge < 2 ^ 64 →
      GetTrustScore rt nScorePrev nBlockAge nStake nStakeChange 7 = .ok nTrust)

/-- The penalty fits the words, or is not below the score after it wrapped, or so little stake
remains that it makes no difference. -/
def PenaltyFits (rt : LedgerRuntime) (nScorePrev nBlockAge nStake : UInt64) (nStakeChange : Int64) :
    Prop :=
  penaltyNat rt nBlockAge < 2 ^ 64 ∨ nScorePrev.toNat ≤ penaltyNat rt nBlockAge % 2 ^ 64 ∨
    (nStakeChange.toInt < 0 ∧
      remainingStake nStake.toNat nStakeChange.toInt *
        (nScorePrev.toNat - penaltyNat rt nBlockAge % 2 ^ 64) < nStake.toNat)

variable {rt : LedgerRuntime} {nScorePrev nBlockAge nStake nScore : UInt64} {nStakeChange : Int64}
  {nVersion : UInt32}

/-- The score by age, with the penalty as it wraps. -/
theorem agedScore_toNat (hFits : nScorePrev.toNat + nBlockAge.toNat < 2 ^ 64) :
    (agedScore rt nScorePrev nBlockAge).toNat =
      if nBlockAge.toNat ≤ (MaxBlockAge rt).toNat then nScorePrev.toNat + nBlockAge.toNat
      else nScorePrev.toNat - penaltyNat rt nBlockAge % 2 ^ 64 := by
  have hLe : nBlockAge ≤ MaxBlockAge rt ↔ nBlockAge.toNat ≤ (MaxBlockAge rt).toNat :=
    UInt64.le_iff_toNat_le
  rw [agedScore]
  by_cases hAge : nBlockAge.toNat ≤ (MaxBlockAge rt).toNat
  · rw [if_pos (hLe.mpr hAge), if_pos hAge, UInt64.toNat_add, Nat.mod_eq_of_lt hFits]
  · have hExcess : (nBlockAge - MaxBlockAge rt).toNat = nBlockAge.toNat - (MaxBlockAge rt).toNat :=
      UInt64.toNat_sub_of_le _ _ (UInt64.le_iff_toNat_le.mpr (by omega))
    have hPenalty : ((nBlockAge - MaxBlockAge rt) * 3).toNat =
        penaltyNat rt nBlockAge % 2 ^ 64 := by
      rw [UInt64.toNat_mul, hExcess, Nat.mul_comm]
      rfl
    rw [if_neg (fun h => hAge (hLe.mp h)), if_neg hAge]
    show (if (nBlockAge - MaxBlockAge rt) * 3 < nScorePrev then
      nScorePrev - (nBlockAge - MaxBlockAge rt) * 3 else 0).toNat = _
    by_cases hLess : (nBlockAge - MaxBlockAge rt) * 3 < nScorePrev
    · rw [if_pos hLess, UInt64.toNat_sub_of_le _ _ (UInt64.le_of_lt hLess), hPenalty]
    · rw [if_neg hLess, UInt64.toNat_zero]
      rw [UInt64.lt_iff_toNat_lt, hPenalty] at hLess
      omega

/-- Stake that is added leaves the score. -/
theorem getTrustScore_add (hChange : ¬ nStakeChange < 0) :
    GetTrustScore rt nScorePrev nBlockAge nStake nStakeChange nVersion =
      .ok (agedScore rt nScorePrev nBlockAge) := by
  rw [GetTrustScore, if_neg hChange]
  rfl

/-- What remains of the stake, in 64 bits. -/
def nStakeNew (nStake : UInt64) (nStakeChange : Int64) : UInt64 :=
  if 0 - nStakeChange.toUInt64 < nStake then nStake - (0 - nStakeChange.toUInt64) else 0

theorem nStakeNew_toNat (nStake : UInt64) (hChange : nStakeChange < 0) :
    (nStakeNew nStake nStakeChange).toNat = remainingStake nStake.toNat nStakeChange.toInt := by
  have hRemoved : ((0 - nStakeChange.toUInt64).toNat : Int) = -nStakeChange.toInt :=
    toUInt64_of_neg hChange
  have hUnstake : (0 - nStakeChange.toUInt64).toNat = (-nStakeChange.toInt).toNat := by omega
  rw [nStakeNew, remainingStake, ← hUnstake]
  by_cases hLess : 0 - nStakeChange.toUInt64 < nStake
  · rw [if_pos hLess, UInt64.toNat_sub_of_le _ _ (UInt64.le_of_lt hLess)]
  · rw [if_neg hLess, UInt64.toNat_zero]
    rw [UInt64.lt_iff_toNat_lt] at hLess
    omega

/-- Stake that is removed takes its part, with a product of 128 bits from version 8 on. -/
theorem getTrustScore_remove (hChange : nStakeChange < 0) (hStake : nStake ≠ 0) :
    GetTrustScore rt nScorePrev nBlockAge nStake nStakeChange nVersion =
      .ok (if 7 < nVersion then
        UInt64.ofNat ((nStakeNew nStake nStakeChange).toNat *
          (agedScore rt nScorePrev nBlockAge).toNat / nStake.toNat)
      else nStakeNew nStake nStakeChange * agedScore rt nScorePrev nBlockAge / nStake) := by
  simp only [GetTrustScore, if_pos hChange, reject_of_not hStake, ok_bind]
  by_cases hVersion : 7 < nVersion
  · rw [if_pos hVersion, if_pos hVersion]
    rfl
  · rw [if_neg hVersion, if_neg hVersion]
    rfl

/-- The score by age is exact, or should be zero: a penalty that wraps is above every score. -/
theorem agedScore_cases (rt : LedgerRuntime) (hFits : nScorePrev.toNat + nBlockAge.toNat < 2 ^ 64) :
    ((agedScore rt nScorePrev nBlockAge).toNat =
        agedNat rt nScorePrev nBlockAge ∧
      (penaltyNat rt nBlockAge < 2 ^ 64 ∨
        nScorePrev.toNat ≤ penaltyNat rt nBlockAge % 2 ^ 64)) ∨
    (agedNat rt nScorePrev nBlockAge = 0 ∧
      0 < (agedScore rt nScorePrev nBlockAge).toNat ∧
      (agedScore rt nScorePrev nBlockAge).toNat =
        nScorePrev.toNat - penaltyNat rt nBlockAge % 2 ^ 64 ∧
      2 ^ 64 ≤ penaltyNat rt nBlockAge) := by
  rw [agedScore_toNat hFits, agedNat]
  by_cases hAge : nBlockAge.toNat ≤ (MaxBlockAge rt).toNat
  · rw [if_pos hAge, if_pos hAge, penaltyNat]
    exact .inl ⟨rfl, .inl (by omega)⟩
  · rw [if_neg hAge, if_neg hAge]
    by_cases hPenalty : penaltyNat rt nBlockAge < 2 ^ 64
    · rw [Nat.mod_eq_of_lt hPenalty]
      exact .inl ⟨rfl, .inl hPenalty⟩
    · have hPrev := nScorePrev.toNat_lt
      by_cases hAbove : nScorePrev.toNat ≤ penaltyNat rt nBlockAge % 2 ^ 64
      · exact .inl ⟨by omega, .inr hAbove⟩
      · exact .inr ⟨by omega, by omega, rfl, by omega⟩

/-- The quotient of version 8 fits the words, as no more than the stake remains. -/
theorem quotient_toNat (nScore : UInt64) {r : Nat} (hLe : r ≤ nStake.toNat) :
    (UInt64.ofNat (r * nScore.toNat / nStake.toNat)).toNat = r * nScore.toNat / nStake.toNat ∧
      r * nScore.toNat / nStake.toNat ≤ nScore.toNat := by
  have hQuotient : r * nScore.toNat / nStake.toNat ≤ nScore.toNat := by
    apply Nat.div_le_of_le_mul
    exact Nat.mul_le_mul_right _ hLe
  have hScore := nScore.toNat_lt
  exact ⟨UInt64.toNat_ofNat_of_lt' (Nat.lt_of_le_of_lt hQuotient hScore), hQuotient⟩

/-- Where the product of version 7 fits the words, the quotient is that of version 8. -/
theorem quotient_eq {r : UInt64} (hFits : r.toNat * nScore.toNat < 2 ^ 64) :
    r * nScore / nStake = UInt64.ofNat (r.toNat * nScore.toNat / nStake.toNat) := by
  rw [← UInt64.toNat_inj, UInt64.toNat_div, UInt64.toNat_mul, Nat.mod_eq_of_lt hFits,
    UInt64.toNat_ofNat_of_lt' (Nat.lt_of_le_of_lt (Nat.div_le_self ..) hFits)]

theorem exactScore_add (hChange : ¬ nStakeChange < 0) :
    ExactScore rt nScorePrev nBlockAge nStake nStakeChange nVersion ↔
      (agedScore rt nScorePrev nBlockAge).toNat =
        agedNat rt nScorePrev nBlockAge := by
  have hInt : ¬ nStakeChange.toInt < 0 := fun h => hChange (Int64.lt_iff_toInt_lt.mpr h)
  unfold ExactScore scoreNat
  rw [if_neg hInt, getTrustScore_add hChange]
  constructor
  · intro h
    obtain ⟨nTrust, hTrust, hEq, -⟩ := h
    rw [← Except.ok.inj hTrust] at hEq
    exact hEq
  · intro h
    exact ⟨_, rfl, h, Nat.le_of_eq h, fun _ => getTrustScore_add hChange⟩

theorem exactScore_remove (hVersion : 7 < nVersion) (hChange : nStakeChange < 0) (hStake : nStake ≠ 0)
    (hZero : (agedScore rt nScorePrev nBlockAge).toNat ≠
        agedNat rt nScorePrev nBlockAge →
      agedNat rt nScorePrev nBlockAge = 0) :
    ExactScore rt nScorePrev nBlockAge nStake nStakeChange nVersion ↔
      (agedScore rt nScorePrev nBlockAge).toNat =
          agedNat rt nScorePrev nBlockAge ∨
        remainingStake nStake.toNat nStakeChange.toInt * (agedScore rt nScorePrev nBlockAge).toNat <
          nStake.toNat := by
  have hInt : nStakeChange.toInt < 0 := Int64.lt_iff_toInt_lt.mp hChange
  have hRemains := nStakeNew_toNat nStake hChange
  have hLe : remainingStake nStake.toNat nStakeChange.toInt ≤ nStake.toNat := Nat.sub_le ..
  have hPos : 0 < nStake.toNat :=
    Nat.pos_of_ne_zero fun h => hStake (UInt64.toNat_inj.mp h)
  have hStakeLt := nStake.toNat_lt
  obtain ⟨hValue, hBound⟩ := quotient_toNat (agedScore rt nScorePrev nBlockAge) hLe
  have hSeven : ¬ (7 : UInt32) < 7 := by decide
  unfold ExactScore scoreNat
  rw [if_pos hInt, getTrustScore_remove hChange hStake, getTrustScore_remove hChange hStake,
    if_pos hVersion, if_neg hSeven, hRemains]
  constructor
  · intro h
    obtain ⟨nTrust, hTrust, hEq, -⟩ := h
    rw [← Except.ok.inj hTrust, hValue] at hEq
    by_cases hScore : (agedScore rt nScorePrev nBlockAge).toNat =
        agedNat rt nScorePrev nBlockAge
    · exact .inl hScore
    · rw [hZero hScore, Nat.zero_mul, Nat.zero_div, Nat.div_eq_zero_iff] at hEq
      exact .inr (by omega)
  · intro h
    refine ⟨_, rfl, ?_⟩
    rw [hValue]
    by_cases hScore : (agedScore rt nScorePrev nBlockAge).toNat =
        agedNat rt nScorePrev nBlockAge
    · rw [← hScore]
      refine ⟨by rw [Nat.mul_comm], hBound, fun hFits => ?_⟩
      rw [← hRemains] at hFits ⊢
      rw [quotient_eq hFits]
    · have hLess := h.resolve_left hScore
      rw [hZero hScore, Nat.zero_mul, Nat.zero_div, Nat.div_eq_of_lt hLess]
      refine ⟨rfl, Nat.le_refl _, fun _ => ?_⟩
      rw [← hRemains] at hLess
      rw [quotient_eq (Nat.lt_trans hLess hStakeLt), Nat.div_eq_of_lt hLess]

/-- The score is exact exactly when the penalty fits. -/
theorem exactScore_iff (hVersion : 7 < nVersion) (hFits : nScorePrev.toNat + nBlockAge.toNat < 2 ^ 64)
    (hStake : 0 < nStake.toNat ∨ 0 ≤ nStakeChange.toInt) :
    ExactScore rt nScorePrev nBlockAge nStake nStakeChange nVersion ↔
      PenaltyFits rt nScorePrev nBlockAge nStake nStakeChange := by
  have hCases := agedScore_cases rt hFits
  unfold PenaltyFits
  by_cases hChange : nStakeChange < 0
  · have hInt : nStakeChange.toInt < 0 := Int64.lt_iff_toInt_lt.mp hChange
    have hNonzero : nStake ≠ 0 := by
      intro h
      rw [h, UInt64.toNat_zero] at hStake
      omega
    rw [exactScore_remove hVersion hChange hNonzero (by omega)]
    rcases hCases with ⟨hScore, hPenalty⟩ | ⟨hZero, hScore, hEq, hWraps⟩
    · constructor
      · intro _
        exact hPenalty.elim .inl fun h => .inr (.inl h)
      · intro _
        exact .inl hScore
    · rw [← hEq]
      omega
  · have hInt : ¬ nStakeChange.toInt < 0 := fun h => hChange (Int64.lt_iff_toInt_lt.mpr h)
    rw [exactScore_add hChange]
    omega

/-! ## Divisions -/

/-- No division by zero was thrown. -/
def Undivided {α : Type} (x : Result α) : Prop := x ≠ .error (.exception "Division by zero")

section Undivided

variable {α β : Type} {x : Result α} {a : α} {strMessage : String}

theorem undivided_ok (a : α) : Undivided (.ok a) := nofun

theorem undivided_error (strMessage : String) : Undivided (.error (.error strMessage) : Result α) := by
  intro h
  injection h with h
  cases h

theorem undivided_exception (h : strMessage ≠ "Division by zero") :
    Undivided (.error (.exception strMessage) : Result α) := by
  intro hEq
  injection hEq with hEq
  injection hEq with hEq
  exact h hEq

theorem undivided_bind {f : α → Result β} (h : Undivided x)
    (hNext : ∀ a, x = .ok a → Undivided (f a)) : Undivided (x >>= f) := by
  cases x with
  | error e =>
      intro hEq
      exact h (congrArg Except.error (Except.error.inj hEq))
  | ok a => exact hNext a rfl

theorem undivided_map {f : α → β} (h : Undivided x) : Undivided (x.map f) := by
  cases x with
  | error e =>
      intro hEq
      exact h (congrArg Except.error (Except.error.inj hEq))
  | ok a => exact nofun

theorem undivided_reject {c : Prop} [Decidable c] {e : Fault} (h : Undivided (.error e : Result Unit)) :
    Undivided (reject c e) := by
  unfold reject
  split
  · exact h
  · exact undivided_ok ()

theorem undivided_demand {o : Option α} {e : Fault} (h : Undivided (.error e : Result α)) :
    Undivided (demand o e) := by
  cases o with
  | none => exact h
  | some a => exact undivided_ok a

theorem undivided_ite {c : Prop} [Decidable c] {x y : Result α} (hThen : Undivided x)
    (hElse : Undivided y) : Undivided (if c then x else y) := by
  split
  · exact hThen
  · exact hElse

/-! ### Reading streams -/

theorem undivided_read (s : Stream) (nSize : Nat) : Undivided (s.read nSize) :=
  undivided_ite (undivided_ok _) (undivided_exception (by decide))

theorem undivided_extract [FixedWidth α] (s : Stream) : Undivided (s.extract α) :=
  undivided_bind (undivided_read _ _) fun _ _ => undivided_ok _

theorem undivided_readCompactSize (s : Stream) : Undivided s.readCompactSize := by
  apply undivided_bind (undivided_extract s)
  intro x _
  have hSize : Undivided (Stream.readSize x.1 x.2) := by
    unfold Stream.readSize
    exact undivided_ite (undivided_ok _) (undivided_ite (undivided_map (undivided_extract _))
      (undivided_ite (undivided_map (undivided_extract _)) (undivided_map (undivided_extract _))))
  apply undivided_bind hSize
  intro y _
  exact undivided_bind (undivided_reject (undivided_exception (by decide))) fun _ _ => undivided_ok _

theorem undivided_extractBytes (s : Stream) : Undivided s.extractBytes :=
  undivided_bind (undivided_readCompactSize s) fun x _ => undivided_read x.2 x.1

theorem undivided_seek (contract : Contract) (nPos : Nat) : Undivided (contract.seek nPos) := by
  apply undivided_map
  exact undivided_ite (undivided_ok _) (undivided_exception (by decide))

theorem undivided_contract [FixedWidth α] (contract : Contract) : Undivided (contract.extract α) :=
  undivided_map (undivided_extract _)

/-! ### Reading objects -/

theorem undivided_parseFields (n : Nat) (s : Stream) (mapData : DataMap) :
    Undivided (parseFields n s mapData) := by
  induction n generalizing s mapData with
  | zero => exact undivided_ite (undivided_ok _) (undivided_error _)
  | succ n ih =>
      apply undivided_ite (undivided_ok _)
      apply undivided_bind (undivided_extractBytes s)
      intro x _
      apply undivided_bind (undivided_reject (undivided_error _))
      intro _ _
      have hType : Undivided (extractType x.2) := by
        apply undivided_bind (undivided_extract _)
        intro y _
        exact undivided_ite (undivided_map (undivided_extract _)) (undivided_ok _)
      apply undivided_bind hType
      intro y _
      have hSpan : Undivided (valueSpan y.1.1 y.2) := by
        unfold valueSpan
        split
        · exact undivided_ok _
        · exact undivided_ite (undivided_readCompactSize _) (undivided_error _)
      exact undivided_bind hSpan fun z _ => ih _ _

theorem undivided_parse (object : Object) : Undivided (Object.Parse object) := by
  apply undivided_bind (undivided_reject (undivided_error _))
  intro _ _
  apply undivided_bind (undivided_reject (undivided_error _))
  intro _ _
  exact undivided_bind (undivided_parseFields _ _ _) fun _ _ => undivided_ok _

theorem undivided_get [FieldType α] (object : Object) (strName : List UInt8) :
    Undivided (object.get α strName) := by
  have hRead : Undivided (object.Read α strName) := by
    apply undivided_bind
    · apply undivided_bind (undivided_reject (undivided_error _))
      intro _ _
      apply undivided_bind (undivided_demand (undivided_error _))
      intro field _
      exact undivided_bind (undivided_extract _) fun _ _ => undivided_ok _
    · intro x _
      apply undivided_bind (undivided_reject (undivided_error _))
      intro _ _
      apply undivided_bind (undivided_reject (undivided_error _))
      intro _ _
      exact undivided_bind (undivided_extract _) fun _ _ => undivided_ok _
  unfold Object.get Object.orThrow
  split
  · exact undivided_exception (by decide)
  · exact hRead

end Undivided

/-! ## Coinstakes that were accepted -/

/-- `Trust::Execute` accepted the coinstake: the stake change that its contract states, on the
pre-state of the contract. -/
def AcceptedStake (rt : Runtime) (tx : Transaction) (fPool : Bool) : Prop :=
  ∃ contract nState contract₁ state contract₂ hashLast nScore nStakeChange nReward nTimestamp after,
    tx.vContracts.head? = some contract ∧
    contract.reset.extractRegister UInt8 = .ok (nState, contract₁) ∧
    contract₁.extractState = .ok (state, contract₂) ∧
    Transaction.trustOperands contract.reset fPool = .ok (hashLast, nScore, nStakeChange, nReward) ∧
    Trust.Execute rt state nReward nScore nStakeChange nTimestamp = .ok after

section Accepted

variable {tx : Transaction} {contract : Contract} {account : Object} {fPool : Bool}
  {hashLast : Uint512} {nReward : UInt64}

theorem undivided_trustScore (h : nStakeChange < 0 → nStake ≠ 0) :
    Undivided (GetTrustScore rt nScorePrev nBlockAge nStake nStakeChange nVersion) := by
  by_cases hChange : nStakeChange < 0
  · rw [getTrustScore_remove hChange (h hChange)]
    exact undivided_ok _
  · rw [getTrustScore_add hChange]
    exact undivided_ok _

/-- Removing stake is refused where there is none. -/
theorem stake_of_execute {rt : Runtime} {state after : State} {nTimestamp : UInt64}
    (h : Trust.Execute rt state nReward nScore nStakeChange nTimestamp = .ok after)
    (hParse : Object.Parse { state } = .ok account)
    (hStake : account.get UInt64 (bytesOf "stake") = .ok nStake) (hChange : nStakeChange < 0) :
    nStake ≠ 0 := by
  simp only [Trust.Execute, bind_eq_ok, reject_eq_ok, hParse] at h
  obtain ⟨object, hObject, -, -, nStake', hStake', nBalance, -, x, hMoves, -⟩ := h
  rw [← Except.ok.inj (show Except.ok account = Except.ok object from hObject), hStake] at hStake'
  rw [← Except.ok.inj hStake'] at hMoves
  have hRemoved := (stakeChange_ok hMoves).2.2
  have hMoved := (stakeChange_ok hMoves).1
  have hInt : nStakeChange.toInt < 0 := Int64.lt_iff_toInt_lt.mp hChange
  intro hZero
  rw [hZero, UInt64.toNat_zero] at hRemoved
  omega

/-- What is read of an accepted coinstake has a stake that is not zero, where it removes some. -/
theorem AcceptedStake.stake_ne_zero {rt : Runtime} (h : AcceptedStake rt tx fPool)
    (hContract : tx.vContracts.head? = some contract)
    (hAccount : Transaction.trustAccount contract.reset = .ok account)
    (hOperands : Transaction.trustOperands contract.reset fPool =
      .ok (hashLast, nScore, nStakeChange, nReward))
    (hStake : account.get UInt64 (bytesOf "stake") = .ok nStake) (hChange : nStakeChange < 0) :
    nStake ≠ 0 := by
  obtain ⟨contract', nState, contract₁, state, contract₂, hashLast', nScore', nStakeChange', nReward',
    nTimestamp, after, hContract', hState, hPre, hOperands', hExecute⟩ := h
  rw [hContract] at hContract'
  rw [← Option.some.inj hContract'] at hState hOperands'
  rw [hOperands] at hOperands'
  simp only [Except.ok.injEq, Prod.mk.injEq] at hOperands'
  rw [← hOperands'.2.2.1] at hExecute
  rw [Transaction.trustAccount, hState, ok_bind] at hAccount
  simp only [bind_eq_ok, hPre, Except.ok.injEq, pure_eq_ok] at hAccount
  obtain ⟨x, rfl, object, hParse, -, -, rfl⟩ := hAccount
  exact stake_of_execute hExecute hParse hStake hChange

/-! ### Reading coinstakes -/

theorem undivided_hasPrimitive (nOP : UInt8) (vContracts : List Contract) :
    Undivided (Transaction.hasPrimitive nOP vContracts) := by
  have hGet : ∀ (s : Stream) (nPos : Nat), Undivided (s.get nPos) := fun s nPos =>
    undivided_demand (undivided_exception (by decide))
  induction vContracts with
  | nil => exact undivided_ok _
  | cons contract vContracts ih =>
      have hPrimitive : Undivided contract.primitive := by
        apply undivided_bind (undivided_reject (undivided_exception (by decide)))
        intro _ _
        apply undivided_bind (hGet _ _)
        intro nOP' _
        exact undivided_ite (hGet _ _) (undivided_ite (hGet _ _) (undivided_ok _))
      apply undivided_bind hPrimitive
      intro nOP' _
      exact undivided_ite (undivided_ok _) ih

theorem undivided_or {x y : Result Bool} (hx : Undivided x) (hy : Undivided y) :
    Undivided (do if ← x then return true else y) := by
  apply undivided_bind hx
  intro f _
  exact undivided_ite (undivided_ok _) hy

theorem undivided_isCoinStake (tx : Transaction) : Undivided tx.IsCoinStake :=
  undivided_or (undivided_hasPrimitive _ _) (undivided_or (undivided_hasPrimitive _ _)
    (undivided_or (undivided_hasPrimitive _ _) (undivided_hasPrimitive _ _)))

theorem undivided_trustAccount (contract : Contract) : Undivided (Transaction.trustAccount contract) := by
  apply undivided_bind (undivided_map (undivided_extract _))
  intro x _
  have hState : Undivided x.2.extractState := by
    apply undivided_map
    apply undivided_bind (undivided_extract _)
    intro _ _
    apply undivided_bind (undivided_extract _)
    intro _ _
    apply undivided_bind (undivided_extract _)
    intro _ _
    apply undivided_bind (undivided_extract _)
    intro _ _
    apply undivided_bind (undivided_extract _)
    intro _ _
    apply undivided_bind (undivided_extractBytes _)
    intro _ _
    exact undivided_bind (undivided_extract _) fun _ _ => undivided_ok _
  apply undivided_bind hState
  intro y _
  apply undivided_bind (undivided_parse _)
  intro object _
  exact undivided_bind (undivided_reject (undivided_error _)) fun _ _ => undivided_ok _

theorem undivided_trustOperands (contract : Contract) (fPool : Bool) :
    Undivided (Transaction.trustOperands contract fPool) := by
  have hRest : ∀ (hashLast : Uint512) (contract : Contract), Undivided (do
      let trust ← contract.extract UInt64
      let change ← trust.2.extract Int64
      let reward ← change.2.extract UInt64
      return (hashLast, trust.1, change.1, reward.1)) := by
    intro hashLast contract
    apply undivided_bind (undivided_contract _)
    intro _ _
    apply undivided_bind (undivided_contract _)
    intro _ _
    exact undivided_bind (undivided_contract _) fun _ _ => undivided_ok _
  apply undivided_bind (undivided_seek _ _)
  intro _ _
  apply undivided_bind (undivided_contract _)
  intro x _
  apply undivided_ite
  · exact undivided_bind (undivided_seek _ _) fun contract _ => hRest x.1 contract
  · exact hRest x.1 x.2

theorem undivided_genesisOperand (contract : Contract) (fPool : Bool) :
    Undivided (Transaction.genesisOperand contract fPool) := by
  have hRest : ∀ contract : Contract, Undivided (do
      let reward ← contract.extract UInt64
      return reward.1) := by
    intro contract
    exact undivided_bind (undivided_contract _) fun _ _ => undivided_ok _
  apply undivided_bind (undivided_seek _ _)
  intro contract _
  apply undivided_ite
  · exact undivided_bind (undivided_seek _ _) fun contract _ => hRest contract
  · exact hRest contract

theorem undivided_consistencyOperands (contract : Contract) :
    Undivided (consistencyOperands contract) := by
  apply undivided_bind (undivided_seek _ _)
  intro _ _
  apply undivided_bind (undivided_contract _)
  intro _ _
  apply undivided_bind (undivided_contract _)
  intro _ _
  exact undivided_bind (undivided_contract _) fun _ _ => undivided_ok _

/-! ### The two callers -/

section Callers

variable {crt : ChainRuntime} {db : LLD.Records} {block statePrev : BlockState} {nPoolFeeTotal : UInt64}
  {fBlockFinder : Bool}

theorem undivided_checkTrustReward
    (h : ∀ hashLast nScore nStakeChange nReward nStake,
      Transaction.trustOperands contract fPool = .ok (hashLast, nScore, nStakeChange, nReward) →
      account.get UInt64 (bytesOf "stake") = .ok nStake → nStakeChange < 0 → nStake ≠ 0) :
    Undivided (Transaction.checkTrustReward crt db tx block contract account statePrev nPoolFeeTotal
      fPool fBlockFinder) := by
  apply undivided_bind (undivided_trustOperands _ _)
  intro x hOperands
  apply undivided_bind (undivided_demand (undivided_error _))
  intro hashLast _
  apply undivided_bind (undivided_reject (undivided_error _))
  intro _ _
  apply undivided_bind (undivided_get _ _)
  intro nTrustPrev _
  apply undivided_bind (undivided_get _ _)
  intro nStake hStake
  apply undivided_bind (undivided_demand (undivided_error _))
  intro stateLast _
  apply undivided_bind (undivided_trustScore (h x.1 x.2.1 x.2.2.1 x.2.2.2 nStake hOperands hStake))
  intro nTrust _
  apply undivided_bind (undivided_reject (undivided_error _))
  intro _ _
  apply undivided_bind (undivided_reject (undivided_error _))
  intro _ _
  exact undivided_bind (undivided_reject (undivided_error _)) fun _ _ => undivided_ok _

theorem undivided_checkGenesisReward :
    Undivided (Transaction.checkGenesisReward crt block contract account statePrev nPoolFeeTotal
      fPool) := by
  apply undivided_bind (undivided_genesisOperand _ _)
  intro nClaimedReward _
  apply undivided_bind (undivided_get _ _)
  intro nStake _
  exact undivided_bind (undivided_reject (undivided_error _)) fun _ _ => undivided_ok _

/-- `CheckTrust` of a coinstake that, if it removes stake, was accepted. -/
theorem undivided_checkTrust
    (h : ∀ fPool, tx.isPool = .ok fPool → tx.isTrustStake = .ok true →
      AcceptedStake crt.toRuntime tx fPool) :
    Undivided (tx.CheckTrust crt db block nPoolFeeTotal fBlockFinder) := by
  apply undivided_bind (undivided_isCoinStake tx)
  intro fCoinStake _
  apply undivided_bind (undivided_reject (undivided_error _))
  intro _ _
  apply undivided_bind (undivided_or (undivided_hasPrimitive _ _) (undivided_hasPrimitive _ _))
  intro fPool hPool
  apply undivided_bind (undivided_demand (undivided_exception (by decide)))
  intro contract hContract
  apply undivided_bind (undivided_trustAccount _)
  intro account hAccount
  apply undivided_bind (undivided_demand (undivided_error _))
  intro statePrev _
  apply undivided_bind (undivided_or (undivided_hasPrimitive _ _) (undivided_hasPrimitive _ _))
  intro fTrust hTrust
  cases fTrust with
  | true =>
      apply undivided_checkTrustReward
      intro hashLast nScore nStakeChange nReward nStake hOperands hStake hChange
      exact (h fPool hPool hTrust).stake_ne_zero (demand_eq_ok.mp hContract) hAccount hOperands hStake
        hChange
  | false =>
      apply undivided_bind (undivided_or (undivided_hasPrimitive _ _) (undivided_hasPrimitive _ _))
      intro fGenesis _
      exact undivided_ite undivided_checkGenesisReward (undivided_error _)

theorem undivided_consistencyTrust {found : Consistency}
    (h : ∀ hashLast nStakeChange nStake, consistencyOperands contract = .ok (hashLast, nStakeChange) →
      account.get UInt64 (bytesOf "stake") = .ok nStake → nStakeChange < 0 → nStake ≠ 0) :
    Undivided (consistencyTrust rt db contract account block found) := by
  apply undivided_bind (undivided_consistencyOperands _)
  intro x hOperands
  apply undivided_bind (undivided_demand (undivided_error _))
  intro statePrev _
  apply undivided_bind (undivided_demand (undivided_error _))
  intro stateLast _
  apply undivided_bind (undivided_get _ _)
  intro nTrustPrev _
  apply undivided_bind (undivided_get _ _)
  intro nStake hStake
  apply undivided_bind (undivided_trustScore (h x.1 x.2 nStake hOperands hStake))
  intro nTrust _
  exact undivided_bind (undivided_trustScore (h x.1 x.2 nStake hOperands hStake)) fun _ _ =>
    undivided_ok _

/-- The walk reads the operands that were executed. -/
theorem AcceptedStake.consistency_ne_zero {rt : Runtime} (h : AcceptedStake rt tx false)
    (hContract : tx.vContracts.head? = some contract)
    (hAccount : Transaction.trustAccount contract.reset = .ok account)
    (hOperands : consistencyOperands contract.reset = .ok (hashLast, nStakeChange))
    (hStake : account.get UInt64 (bytesOf "stake") = .ok nStake) (hChange : nStakeChange < 0) :
    nStake ≠ 0 := by
  have hAccepted := h
  obtain ⟨contract', -, -, -, -, hashLast', nScore', nStakeChange', nReward', -, -, hContract', -, -,
    hOperands', -⟩ := h
  rw [hContract] at hContract'
  rw [← Option.some.inj hContract'] at hOperands'
  have hSame : nStakeChange' = nStakeChange := by
    simp only [consistencyOperands, bind_eq_ok, Prod.exists, pure_eq_ok, Prod.mk.injEq] at hOperands
    obtain ⟨c₁, hSeek, hash, c₂, hHash, nTrust, c₃, hTrust, nChange, c₄, hChange', rfl, rfl⟩ := hOperands
    simp only [Transaction.trustOperands, hSeek, ok_bind, hHash, hTrust, hChange', Bool.false_eq_true,
      if_false] at hOperands'
    simp only [bind_eq_ok, pure_eq_ok, Prod.mk.injEq] at hOperands'
    obtain ⟨x, -, -, -, hChange'', -⟩ := hOperands'
    exact hChange''.symm
  rw [hSame] at hOperands'
  exact hAccepted.stake_ne_zero hContract hAccount hOperands' hStake hChange

theorem undivided_consistencyLoop
    (h : ∀ hash tx, db.ledger.ReadTx hash = some tx → tx.IsTrust = .ok true →
      AcceptedStake rt.toRuntime tx false) (nFuel : Nat) (found : Consistency) :
    Undivided (consistencyLoop rt db nFuel hashLast found) := by
  induction nFuel generalizing hashLast found with
  | zero => exact undivided_exception (by decide)
  | succ nFuel ih =>
      rw [consistencyLoop]
      cases hTx : db.ledger.ReadTx hashLast with
      | none => exact undivided_ok _
      | some tx =>
          apply undivided_bind (undivided_isCoinStake tx)
          intro fCoinStake _
          apply undivided_ite _ (ih _)
          cases hBlock : db.ReadBlockOf hashLast with
          | none => exact undivided_ok _
          | some block =>
              apply undivided_bind (undivided_demand (undivided_exception (by decide)))
              intro contract hContract
              apply undivided_bind (undivided_trustAccount _)
              intro account hAccount
              apply undivided_bind (undivided_hasPrimitive _ _)
              intro fTrust hTrust
              cases fTrust with
              | false => exact undivided_ok _
              | true =>
                  have hAccepted := h hashLast tx hTx hTrust
                  have hStep : Undivided (consistencyTrust rt db contract.reset account block found) := by
                    apply undivided_consistencyTrust
                    intro hash nStakeChange nStake hOperands hStake hChange
                    exact hAccepted.consistency_ne_zero (demand_eq_ok.mp hContract) hAccount hOperands
                      hStake hChange
                  exact undivided_bind hStep fun x _ => ih x.2

/-- `CheckConsistency` over coinstakes that were accepted. -/
theorem undivided_checkConsistency
    (h : ∀ hash tx, db.ledger.ReadTx hash = some tx → tx.IsTrust = .ok true →
      AcceptedStake rt.toRuntime tx false) (nFuel : Nat) :
    Undivided (CheckConsistency rt db nFuel hashLast) := by
  apply undivided_bind (undivided_consistencyLoop h nFuel _)
  intro found _
  exact undivided_ite (undivided_ok _) (undivided_ok _)

end Callers

end Accepted

/-- From version 8 on the score is exact exactly when the penalty fits; and no coinstake that was
accepted divides by a zero stake, be it checked or walked over. -/
theorem trust_score_exact_iff (rt : ChainRuntime) :
    (∀ (nScorePrev nBlockAge nStake : UInt64) (nStakeChange : Int64) (nVersion : UInt32), 8 ≤ nVersion →
      nScorePrev.toNat + nBlockAge.toNat < 2 ^ 64 → 0 < nStake.toNat ∨ 0 ≤ nStakeChange.toInt →
      (ExactScore rt.toLedgerRuntime nScorePrev nBlockAge nStake nStakeChange nVersion ↔
        PenaltyFits rt.toLedgerRuntime nScorePrev nBlockAge nStake nStakeChange)) ∧
    (∀ (db : LLD.Records) (tx : Transaction) (block : BlockState) (nPoolFeeTotal : UInt64)
      (fBlockFinder : Bool),
      (∀ fPool, tx.isPool = .ok fPool → tx.isTrustStake = .ok true →
        AcceptedStake rt.toRuntime tx fPool) →
      Undivided (tx.CheckTrust rt db block nPoolFeeTotal fBlockFinder)) ∧
    (∀ (db : LLD.Records) (nFuel : Nat) (hashLast : Uint512),
      (∀ hash tx, db.ledger.ReadTx hash = some tx → tx.IsTrust = .ok true →
        AcceptedStake rt.toRuntime tx false) →
      Undivided (CheckConsistency rt.toLedgerRuntime db nFuel hashLast)) := by
  refine ⟨?_, ?_, ?_⟩
  · intro nScorePrev nBlockAge nStake nStakeChange nVersion hVersion hFits hStake
    have hSeven : 7 < nVersion := by
      rw [UInt32.lt_iff_toNat_lt]
      rw [UInt32.le_iff_toNat_le] at hVersion
      exact hVersion
    exact exactScore_iff hSeven hFits hStake
  · intro db tx block nPoolFeeTotal fBlockFinder h
    exact undivided_checkTrust h
  · intro db nFuel hashLast h
    exact undivided_checkConsistency h nFuel

/-! ## A coinstake that removes its stake, and a score that wraps -/

/-- A solo coinstake that removes 2 of 4 coins, and with them half of a score of 150. -/
def halfContract : Contract where
  ssOperation :=
    { vchData := FixedWidth.encode OP.TRUST ++ FixedWidth.encode (0 : Uint512) ++
        FixedWidth.encode (75 : UInt64) ++ FixedWidth.encode (-2 : Int64) ++
        FixedWidth.encode (0 : UInt64) }
  ssRegister :=
    { vchData := FixedWidth.encode STATES.PRESTATE ++ (trustState 20 5 100 4).serialize }

/-- The contract with the pre-state read up to a position. -/
def halfAt (nReadPos : Nat) : Contract :=
  { halfContract with ssRegister := { halfContract.ssRegister with nReadPos } }

def halfTx : Transaction := { hashGenesis := alice, vContracts := [halfContract] }

theorem halfTx_accepted : AcceptedStake exampleRuntime halfTx false := by
  refine ⟨halfContract, STATES.PRESTATE, halfAt 1, trustState 20 5 100 4,
    halfAt halfContract.ssRegister.vchData.length, 0, 75, -2, 0, 30, trustState 30 7 75 2, rfl,
    ?_, ?_, ?_, ?_⟩
  · decide +kernel
  · decide +kernel
  · decide +kernel
  · decide +kernel

/-- The last stake is in a block of the time 100, the last block of the time 150. -/
def halfRecords : LLD.Records where
  blocks hash := if hash = 5 then some { nVersion := 8, nHeight := 1, nTime := 100 }
    else some { nVersion := 8, nHeight := 9999, nTime := 150 }
  index _ := some 5
  ledger := { stake := fun _ => some 0 }

def halfBlock : BlockState := { nVersion := 8, hashPrevBlock := 6, nHeight := 10000, nTime := 160 }

/-- Half of the score is left with half of the stake; the coinstake is checked to its end, and divides
by no zero. -/
theorem trust_score_exact_half :
    ExactScore exampleChain.toLedgerRuntime 100 50 4 (-2) 8 ∧
      halfTx.CheckTrust exampleChain halfRecords halfBlock 0 true = .ok (0, 0) ∧
      Undivided (halfTx.CheckTrust exampleChain halfRecords halfBlock 0 true) := by
  have hLaw := trust_score_exact_iff exampleChain
  refine ⟨?_, by decide +kernel, ?_⟩
  · apply (hLaw.1 100 50 4 (-2) 8 (by decide) (by decide) (.inl (by decide))).mpr
    exact .inl (by decide +kernel)
  · apply hLaw.2.1
    intro fPool hPool hTrust
    have hSolo : halfTx.isPool = .ok false := by decide +kernel
    rw [hSolo] at hPool
    rw [← Except.ok.inj hPool]
    exact halfTx_accepted

/-- The excess of a third of the words: three times it is 2^64 + 2. -/
def wrappingAge (rt : LedgerRuntime) : UInt64 := MaxBlockAge rt + 6148914691236517206

/-- A penalty of 2^64 + 2 takes 2 from a score of 10, which is to be zero. -/
theorem trust_score_wraps :
    GetTrustScore exampleLedger 10 (wrappingAge exampleLedger) 1 0 8 = .ok 8 ∧
      agedNat exampleLedger 10 (wrappingAge exampleLedger) = 0 ∧
      (10 : UInt64).toNat + (wrappingAge exampleLedger).toNat < 2 ^ 64 ∧
      ¬ ExactScore exampleLedger 10 (wrappingAge exampleLedger) 1 0 8 := by
  have hScore : GetTrustScore exampleLedger 10 (wrappingAge exampleLedger) 1 0 8 = .ok 8 := by
    decide +kernel
  have hZero : agedNat exampleLedger 10 (wrappingAge exampleLedger) = 0 := by decide +kernel
  refine ⟨hScore, hZero, by decide +kernel, fun hExact => ?_⟩
  obtain ⟨nTrust, hTrust, -, hLe, -⟩ := hExact
  rw [hScore] at hTrust
  rw [hZero, ← Except.ok.inj hTrust] at hLe
  exact absurd hLe (by decide)

end Nexus.Safety
