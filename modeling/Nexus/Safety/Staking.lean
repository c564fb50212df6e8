import Nexus.Operation.Execute
import Nexus.Operation.Calculations
import Nexus.Safety.Tokens

/-!
# The coins of a trust account

A stake operation moves coins between the balance and the stake of a trust
account and pays the reward to the balance.  The stake change is a signed word:
its sign says which way the coins go, and both directions are computed in
unsigned words.  No sum leaves the 64 bits as long as the coins of the account
and the reward together fit in them.

## Main results

* `stake_conserved`: the four stake operations keep the sum of balance, stake and
  reward, and move exactly the stake change.
* `stake_conserved_min`: the most negative stake change, on a concrete account.
-/

namespace Nexus.Safety

open Nexus.Lib.Bytes
open Nexus.Lib.Checked
open Nexus.Util
open Nexus.Register
open Nexus.Operation
open Nexus.LLD

/-- The state parses to an object with this balance and this stake. -/
def HasCoins (state : State) (nBalance nStake : UInt64) : Prop :=
  ∃ object, Object.Parse ⟨state, []⟩ = .ok object ∧ object.Read UInt64 balance = .ok nBalance ∧
    object.Read UInt64 (bytesOf "stake") = .ok nStake

/-- `nMoved` coins go from the balance to the stake and the reward to the balance, counted
without a bound on the numbers. -/
def MovesCoins (nBalance nStake nReward : UInt64) (nMoved : Int) (after : State) : Prop :=
  ∃ nBalance' nStake', HasCoins after nBalance' nStake' ∧
    (nBalance'.toNat : Int) = nBalance.toNat + nReward.toNat - nMoved ∧
    (nStake'.toNat : Int) = nStake.toNat + nMoved ∧
    nBalance'.toNat + nStake'.toNat = nBalance.toNat + nStake.toNat + nReward.toNat

/-- The registers that an operation leaves on the disk: those of the disk it returns, and the
old ones when it fails. -/
def registersAfter (disk : Disk) : Result Executed → RegisterDB
  | .ok (_, disk', _) => disk'.register
  | .error _ => disk.register

/-- The registers change only by the commit of a state that `execute` returned. -/
def StoresOnly (disk : Disk) (execute : State → State → Prop) (commit : Disk → State → Result Disk)
    (executed : Result Executed) : Prop :=
  registersAfter disk executed = disk.register ∨
    ∃ before after disk', execute before after ∧ commit disk after = .ok disk' ∧
      registersAfter disk executed = disk'.register

/-- `Trust::Execute` or its pooled form turned `before` into `after`. -/
def TrustReturns (rt : Runtime) (before after : State) : Prop :=
  ∃ nReward nScore nStakeChange nTimestamp,
    Trust.Execute rt before nReward nScore nStakeChange nTimestamp = .ok after ∨
      Trustpool.Execute rt before nReward nScore nStakeChange nTimestamp = .ok after

/-- `Genesis::Execute` or its pooled form turned `before` into `after`. -/
def GenesisReturns (rt : Runtime) (before after : State) : Prop :=
  ∃ nReward nTimestamp, Genesis.Execute rt before nReward nTimestamp = .ok after ∨
    Genesispool.Execute rt before nReward nTimestamp = .ok after

variable {rt : Runtime} {disk : Disk} {state after : State} {object object' : Object}
  {nBalance nStake nReward nScore nTimestamp : UInt64} {nStakeChange : Int64}
  {nAdded nRemoved : UInt64}

/-! ## The stake change -/

theorem toUInt64_of_pos (h : 0 < nStakeChange) :
    (nStakeChange.toUInt64.toNat : Int) = nStakeChange.toInt := by
  have hPos : (0 : Int) < nStakeChange.toInt := Int64.lt_iff_toInt_lt.mp h
  have hCond := BitVec.toInt_eq_toNat_cond nStakeChange.toBitVec
  show (nStakeChange.toBitVec.toNat : Int) = nStakeChange.toBitVec.toInt
  replace hPos : (0 : Int) < nStakeChange.toBitVec.toInt := hPos
  have hLt := nStakeChange.toBitVec.isLt
  split at hCond <;> omega

/-- The negation of the most negative change is 2^63 as an unsigned word. -/
theorem toUInt64_of_neg (h : nStakeChange < 0) :
    ((0 - nStakeChange).toUInt64.toNat : Int) = -nStakeChange.toInt := by
  have hNeg : nStakeChange.toBitVec.toInt < 0 := Int64.lt_iff_toInt_lt.mp h
  have hCond := BitVec.toInt_eq_toNat_cond nStakeChange.toBitVec
  have hLt := nStakeChange.toBitVec.isLt
  show ((0 - nStakeChange.toBitVec).toNat : Int) = -nStakeChange.toBitVec.toInt
  rw [BitVec.toNat_sub]
  show (((2 ^ 64 - nStakeChange.toBitVec.toNat + 0) % 2 ^ 64 : Nat) : Int) = _
  split at hCond <;> omega

/-- What is added less what is removed is the change, and neither exceeds its source. -/
theorem stakeChange_ok (h : Trust.stakeChange nStakeChange nBalance nStake = .ok (nAdded, nRemoved)) :
    (nAdded.toNat : Int) - nRemoved.toNat = nStakeChange.toInt ∧ nAdded.toNat ≤ nBalance.toNat ∧
      nRemoved.toNat ≤ nStake.toNat := by
  simp only [Trust.stakeChange, ite_eq_ok, bind_eq_ok, reject_eq_ok, pure_eq_ok, Except.ok.injEq,
    Prod.mk.injEq, UInt64.not_lt, UInt64.le_iff_toNat_le] at h
  rcases h with ⟨hPos, u, hLe, rfl, rfl⟩ | ⟨hPos, ⟨hNeg, u, hLe, rfl, rfl⟩ | ⟨hNeg, rfl, rfl⟩⟩
  · have hAdded := toUInt64_of_pos hPos
    rw [UInt64.toNat_zero]
    omega
  · have hRemoved := toUInt64_of_neg hNeg
    rw [UInt64.toNat_zero]
    omega
  · have hZero : nStakeChange.toInt = 0 := by
      rw [Int64.lt_iff_toInt_lt, Int64.toInt_zero] at hPos hNeg
      omega
    rw [UInt64.toNat_zero, hZero]
    omega

/-- No sum of the new fields leaves the words. -/
theorem moves_exact {b s r a d : UInt64} {nMoved : Int} (hFits : b.toNat + s.toNat + r.toNat < 2 ^ 64)
    (hMoved : (a.toNat : Int) - d.toNat = nMoved) (hAdded : a.toNat ≤ b.toNat)
    (hRemoved : d.toNat ≤ s.toNat) :
    ((b + r + d - a).toNat : Int) = b.toNat + r.toNat - nMoved ∧
      ((s + a - d).toNat : Int) = s.toNat + nMoved := by
  have hPaid : (b + r + d).toNat = b.toNat + r.toNat + d.toNat := by
    rw [UInt64.toNat_add, UInt64.toNat_add]
    omega
  have hStaked : (s + a).toNat = s.toNat + a.toNat := by
    rw [UInt64.toNat_add]
    omega
  constructor
  · rw [UInt64.toNat_sub_of_le _ _ (UInt64.le_iff_toNat_le.mpr (by omega)), hPaid]
    omega
  · rw [UInt64.toNat_sub_of_le _ _ (UInt64.le_iff_toNat_le.mpr (by omega)), hStaked]
    omega

/-! ## The operations -/

theorem balance_ne_stake : balance ≠ bytesOf "stake" := by decide

theorem HasCoins.unique {nBalance' nStake' : UInt64} (h : HasCoins state nBalance nStake)
    (hParse : Object.Parse ⟨state, []⟩ = .ok object)
    (hBalance : object.Read UInt64 balance = .ok nBalance')
    (hStake : object.Read UInt64 (bytesOf "stake") = .ok nStake') :
    nBalance = nBalance' ∧ nStake = nStake' := by
  obtain ⟨object', hParse', hBalance', hStake'⟩ := h
  rw [hParse, Except.ok.injEq] at hParse'
  rw [← hParse', hBalance, Except.ok.injEq] at hBalance'
  rw [← hParse', hStake, Except.ok.injEq] at hStake'
  exact ⟨hBalance'.symm, hStake'.symm⟩

/-- The fields after an operation that wrote both of them. -/
theorem hasCoins_of_writes {es : List Entry} {strMessage : String}
    (hWrites : Writes staked es object object')
    (hType : object.state.nType = REGISTER.OBJECT ∨ object.state.nType = REGISTER.SYSTEM)
    (hBalance : object'.Read UInt64 balance = .ok nBalance)
    (hStake : object'.Read UInt64 (bytesOf "stake") = .ok nStake)
    (hFinish : finish rt strMessage object'.state nTimestamp = .ok after) :
    HasCoins after nBalance nStake := by
  obtain ⟨-, final, hFinal, hReads⟩ := hWrites.finish hType hFinish
  exact ⟨final, hFinal, hReads.mpr hBalance, hReads.mpr hStake⟩

/-- `Trust::Execute` leaves the fields that its sums say. -/
theorem trust_coins (hSize : state.vchState.length ≤ 2 ^ 16) (hCoins : HasCoins state nBalance nStake)
    (h : Trust.Execute rt state nReward nScore nStakeChange nTimestamp = .ok after) :
    ∃ nAdded nRemoved, Trust.stakeChange nStakeChange nBalance nStake = .ok (nAdded, nRemoved) ∧
      HasCoins after (nBalance + nReward + nRemoved - nAdded) (nStake + nAdded - nRemoved) := by
  simp only [Trust.Execute, bind_eq_ok, Prod.exists, orError_eq_ok, get_eq_ok] at h
  obtain ⟨object, hParse, u, -, nStake', hReadStake, nBalance', hReadBalance, nAdded, nRemoved, hChange,
    o₁, hTrust, o₂, hBalance, o₃, hStake, hFinish⟩ := h
  obtain ⟨rfl, rfl⟩ := hCoins.unique hParse hReadBalance hReadStake
  obtain ⟨rfl, hType, es, hWrites⟩ := writes_of_parse staked hSize hParse
  have hWrites₁ := hWrites.write (.inr (.inl rfl)) hTrust
  have hWrites₂ := hWrites₁.write (.inl rfl) hBalance
  have hWrites₃ := hWrites₂.write (.inr (.inr rfl)) hStake
  have hSpec₂ := Object.write_spec hWrites₁.parsed hBalance
  have hSpec₃ := Object.write_spec hWrites₂.parsed hStake
  have hReads : o₃.Read UInt64 balance = .ok (nBalance + nReward + nRemoved - nAdded) :=
    (hSpec₃.other balance_ne_stake).mpr hSpec₂.read
  exact ⟨nAdded, nRemoved, hChange, hasCoins_of_writes hWrites₃ hType hReads hSpec₃.read hFinish⟩

theorem trust_moves (hSize : state.vchState.length ≤ 2 ^ 16) (hCoins : HasCoins state nBalance nStake)
    (hFits : nBalance.toNat + nStake.toNat + nReward.toNat < 2 ^ 64)
    (h : Trust.Execute rt state nReward nScore nStakeChange nTimestamp = .ok after) :
    MovesCoins nBalance nStake nReward nStakeChange.toInt after := by
  obtain ⟨nAdded, nRemoved, hChange, hAfter⟩ := trust_coins hSize hCoins h
  obtain ⟨hMoved, hAdded, hRemoved⟩ := stakeChange_ok hChange
  obtain ⟨hBalance, hStake⟩ := moves_exact hFits hMoved hAdded hRemoved
  refine ⟨_, _, hAfter, hBalance, hStake, ?_⟩
  omega

/-- `Genesis::Execute` moves the whole balance to a stake that was zero. -/
theorem genesis_moves (hSize : state.vchState.length ≤ 2 ^ 16) (hCoins : HasCoins state nBalance nStake)
    (h : Genesis.Execute rt state nReward nTimestamp = .ok after) :
    nStake = 0 ∧ HasCoins after nReward nBalance ∧ MovesCoins nBalance nStake nReward nBalance.toNat after := by
  simp only [Genesis.Execute, bind_eq_ok, orError_eq_ok, reject_eq_ok, not_not, get_eq_ok] at h
  obtain ⟨object, hParse, u, -, nStake', hReadStake, v, hZero, _, -, w, -, nBalance', hReadBalance, x, -,
    o₁, hStake, o₂, hBalance, hFinish⟩ := h
  obtain ⟨rfl, rfl⟩ := hCoins.unique hParse hReadBalance hReadStake
  obtain ⟨rfl, hType, es, hWrites⟩ := writes_of_parse staked hSize hParse
  have hWrites₁ := hWrites.write (.inr (.inr rfl)) hStake
  have hWrites₂ := hWrites₁.write (.inl rfl) hBalance
  have hSpec₁ := Object.write_spec hWrites.parsed hStake
  have hSpec₂ := Object.write_spec hWrites₁.parsed hBalance
  have hReads : o₂.Read UInt64 (bytesOf "stake") = .ok nBalance :=
    (hSpec₂.other balance_ne_stake.symm).mpr hSpec₁.read
  have hAfter := hasCoins_of_writes hWrites₂ hType hSpec₂.read hReads hFinish
  refine ⟨hZero, hAfter, _, _, hAfter, ?_⟩
  rw [hZero, UInt64.toNat_zero]
  omega

/-! ## What is stored -/

theorem executeStake_stores {strOP : String} {verify : Runtime → Contract → Result Contract}
    {nSeek : Nat} {fValidate : Bool} {contract : Contract} {nCost : UInt64} :
    StoresOnly disk (TrustReturns rt) (Trust.Commit rt)
      (executeStake rt strOP verify nSeek disk fValidate contract nCost) := by
  cases h : executeStake rt strOP verify nSeek disk fValidate contract nCost with
  | error e => exact .inl rfl
  | ok r =>
      simp only [executeStake, calculate, bind_eq_ok, Prod.exists, pure_eq_ok] at h
      obtain ⟨u, -, v, -, c₁, -, c₂, -, nScore, c₃, -, nStakeChange, c₄, -, nReward, c₅, -, after, c₆,
        ⟨before, c₇, -, after', hExecute, c₈, -, hAfter⟩, disk', hCommit, rfl⟩ := h
      obtain ⟨rfl, -⟩ := Prod.mk.inj hAfter
      exact .inr ⟨before, _, disk', ⟨nReward, nScore, nStakeChange, _, .inl hExecute⟩, hCommit, rfl⟩

theorem executeFirstStake_stores {strOP : String} {verify : Runtime → Contract → Result Contract}
    {nSeek : Nat} {fValidate : Bool} {contract : Contract} {nCost : UInt64} :
    StoresOnly disk (GenesisReturns rt) (Genesis.Commit rt)
      (executeFirstStake rt strOP verify nSeek disk fValidate contract nCost) := by
  cases h : executeFirstStake rt strOP verify nSeek disk fValidate contract nCost with
  | error e => exact .inl rfl
  | ok r =>
      simp only [executeFirstStake, calculate, bind_eq_ok, Prod.exists, pure_eq_ok] at h
      obtain ⟨u, -, v, -, c₁, -, c₂, -, nReward, c₃, -, after, c₄,
        ⟨before, c₅, -, after', hExecute, c₆, -, hAfter⟩, disk', hCommit, rfl⟩ := h
      obtain ⟨rfl, -⟩ := Prod.mk.inj hAfter
      exact .inr ⟨before, _, disk', ⟨nReward, _, .inl hExecute⟩, hCommit, rfl⟩

/-! ## Conservation -/

theorem stake_conserved (hSize : state.vchState.length ≤ 2 ^ 16)
    (hCoins : HasCoins state nBalance nStake)
    (hFits : nBalance.toNat + nStake.toNat + nReward.toNat < 2 ^ 64) :
    (∀ nScore nStakeChange nTimestamp after,
      Trust.Execute rt state nReward nScore nStakeChange nTimestamp = .ok after ∨
        Trustpool.Execute rt state nReward nScore nStakeChange nTimestamp = .ok after →
      MovesCoins nBalance nStake nReward nStakeChange.toInt after) ∧
    (∀ nTimestamp after, Genesis.Execute rt state nReward nTimestamp = .ok after ∨
        Genesispool.Execute rt state nReward nTimestamp = .ok after →
      nStake = 0 ∧ HasCoins after nReward nBalance ∧
        MovesCoins nBalance nStake nReward nBalance.toNat after) ∧
    ∀ disk fValidate contract nCost,
      StoresOnly disk (TrustReturns rt) (Trust.Commit rt)
        (executeTRUST rt disk fValidate contract nCost) ∧
      StoresOnly disk (TrustReturns rt) (Trustpool.Commit rt)
        (executeTRUSTPOOL rt disk fValidate contract nCost) ∧
      StoresOnly disk (GenesisReturns rt) (Genesis.Commit rt)
        (executeGENESIS rt disk fValidate contract nCost) ∧
      StoresOnly disk (GenesisReturns rt) (Genesispool.Commit rt)
        (executeGENESISPOOL rt disk fValidate contract nCost) := by
  refine ⟨fun nScore nStakeChange nTimestamp after h => ?_, fun nTimestamp after h => ?_,
    fun disk fValidate contract nCost => ?_⟩
  · -- the pooled form is the same function
    exact trust_moves hSize hCoins hFits (h.elim id id)
  · exact genesis_moves hSize hCoins (h.elim id id)
  · exact ⟨executeStake_stores, executeStake_stores, executeFirstStake_stores,
      executeFirstStake_stores⟩

/-- The data of a trust account. -/
def trustData (nBalance nTrust nStake : UInt64) : List UInt8 :=
  fieldBytes "balance" true TYPES.UINT64_T (FixedWidth.encode nBalance) ++
    fieldBytes "trust" true TYPES.UINT64_T (FixedWidth.encode nTrust) ++
    fieldBytes "stake" true TYPES.UINT64_T (FixedWidth.encode nStake) ++
    fieldBytes "token" false TYPES.UINT256_T (FixedWidth.encode (0 : Uint256))

/-- The trust account of alice. -/
def trustState (nModified nBalance nTrust nStake : UInt64) : State :=
  objectState alice 10 nModified (trustData nBalance nTrust nStake)

theorem stake_conserved_min :
    Trust.Execute exampleRuntime (trustState 20 5 9 9223372036854775808) 7 3 Int64.minValue 30 =
        .ok (trustState 30 9223372036854775820 3 0) ∧
      MovesCoins 5 9223372036854775808 7 Int64.minValue.toInt (trustState 30 9223372036854775820 3 0) := by
  have hExecute : Trust.Execute exampleRuntime (trustState 20 5 9 9223372036854775808) 7 3
      Int64.minValue 30 = .ok (trustState 30 9223372036854775820 3 0) := by
    decide +kernel
  have hCoins : HasCoins (trustState 20 5 9 9223372036854775808) 5 9223372036854775808 :=
    ⟨_, rfl, by decide +kernel, by decide +kernel⟩
  exact ⟨hExecute, (stake_conserved (by decide +kernel) hCoins (by decide)).1 3 Int64.minValue 30 _
    (.inl hExecute)⟩

end Nexus.Safety
