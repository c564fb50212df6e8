import Nexus.Ledger.State
import Nexus.Operation.Effects
import Nexus.Register.Undone

/-!
# What contracts leave of the ledger records

Executing a contract, or rolling it back, leaves the transactions on disk as they
are, and the stake of a signature chain as well, unless the contract is a
migration.
-/

namespace Nexus.Ledger

open Nexus.Lib.Checked
open Nexus.Util
open Nexus.Register
open Nexus.Operation
open Nexus.LLD

/-- The transactions on disk are the same. -/
def SameTxs (disk disk' : Disk) : Prop := disk'.ledger.txs = disk.ledger.txs

variable {rt : Runtime} {disk disk' : Disk} {contract : Contract} {action : Action}

theorem SameTxs.trans {disk'' : Disk} (h : SameTxs disk disk') (h' : SameTxs disk' disk'') :
    SameTxs disk disk'' := Eq.trans h' h

/-- What an action does to the last stakes. -/
def writtenStake (contract : Contract) (stake : Uint256 → Option Uint512) :
    Action → Uint256 → Option Uint512
  | .MIGRATE _ migrate => Function.update stake contract.hashCaller (some migrate.hashLast)
  | _ => stake

/-- What its inverse does to them. -/
def erasedStake (contract : Contract) (stake : Uint256 → Option Uint512) :
    Action → Uint256 → Option Uint512
  | .MIGRATE _ _ => Function.update stake contract.hashCaller none
  | _ => stake

theorem commitClaimed_kept {ledger ledger' : LedgerDB} {debit : Contract} {hashTx : Uint512}
    {nContract : UInt32} {nAmount : UInt64}
    (h : Credit.commitClaimed ledger debit hashTx nContract nAmount = .ok ledger') :
    ledger'.txs = ledger.txs ∧ ledger'.stake = ledger.stake := by
  simp only [Credit.commitClaimed, bind_eq_ok, Prod.exists, ite_eq_ok, Except.ok.injEq] at h
  obtain ⟨_, _, -, ⟨-, _, _, -, _, _, -, ⟨-, rfl⟩ | ⟨-, rfl⟩⟩ | ⟨-, rfl⟩⟩ := h
  · exact ⟨rfl, rfl⟩
  · exact ⟨rfl, rfl⟩
  · exact ⟨rfl, rfl⟩

theorem rollbackClaimed_kept {ledger ledger' : LedgerDB} {debit : Contract} {hashTx : Uint512}
    {nContract : UInt32} {nAmount : UInt64}
    (h : rollbackClaimed ledger debit hashTx nContract nAmount = .ok ledger') :
    ledger'.txs = ledger.txs ∧ ledger'.stake = ledger.stake := by
  simp only [rollbackClaimed, bind_eq_ok, Prod.exists, ite_eq_ok, pure_eq_ok, Except.ok.injEq] at h
  obtain ⟨_, _, -, ⟨-, _, _, -, _, _, -, ⟨-, _, -, _, -, rfl⟩ | ⟨-, rfl⟩⟩ | ⟨-, rfl⟩⟩ := h
  · exact ⟨rfl, rfl⟩
  · exact ⟨rfl, rfl⟩
  · exact ⟨rfl, rfl⟩

theorem commit_kept {after : State} (h : action.commit rt disk contract after = .ok disk') :
    SameTxs disk disk' ∧ disk'.ledger.stake = writtenStake contract disk.ledger.stake action := by
  cases action with
  | CREATE hashAddress nType vchData =>
      simp only [Action.commit, Create.Commit, map_eq_ok, bind_eq_ok, pure_eq_ok, Prod.exists,
        Prod.mk.injEq] at h
      obtain ⟨_, _, ⟨_, -, _, -, rfl, rfl⟩, rfl⟩ := h
      exact ⟨rfl, rfl⟩
  | TRANSFER hashAddress hashTransfer nType =>
      obtain rfl := Except.ok.inj h
      unfold SameTxs Transfer.Commit
      split <;> exact ⟨rfl, rfl⟩
  | CLAIM hashTx nContract hashAddress =>
      simp only [Action.commit, Claim.Commit, bind_eq_ok, pure_eq_ok] at h
      obtain ⟨_, -, rfl⟩ := h
      exact ⟨rfl, rfl⟩
  | COINBASE hashGenesis =>
      obtain rfl := Except.ok.inj h
      split <;> exact ⟨rfl, rfl⟩
  | TRUST nScore nStakeChange nReward =>
      simp only [Action.commit, Trust.Commit, bind_eq_ok, pure_eq_ok] at h
      obtain ⟨_, -, rfl⟩ := h
      exact ⟨rfl, rfl⟩
  | GENESIS nReward =>
      simp only [Action.commit, Genesis.Commit, bind_eq_ok, pure_eq_ok] at h
      obtain ⟨_, -, rfl⟩ := h
      exact ⟨rfl, rfl⟩
  | DEBIT hashFrom hashTo nAmount =>
      simp only [Action.commit, Debit.Commit, ite_eq_ok, bind_eq_ok, pure_eq_ok,
        Except.ok.injEq] at h
      rcases h with ⟨-, _, -, rfl⟩ | ⟨-, rfl⟩
      · unfold SameTxs
        split <;> exact ⟨rfl, rfl⟩
      · exact ⟨rfl, rfl⟩
  | CREDIT credit =>
      simp only [Action.commit, Credit.Commit, bind_eq_ok, pure_eq_ok] at h
      obtain ⟨_, -, _, -, ledger, hClaimed, rfl⟩ := h
      have hSame := commitClaimed_kept hClaimed
      exact ⟨hSame.1, hSame.2⟩
  | MIGRATE hashTx migrate =>
      simp only [Action.commit, Migrate.Commit, bind_eq_ok, pure_eq_ok] at h
      obtain ⟨_, -, rfl⟩ := h
      exact ⟨rfl, rfl⟩
  | _ =>
      obtain rfl := Except.ok.inj h
      exact ⟨rfl, rfl⟩

theorem restore_kept {hashAddress : Address}
    (h : restore rt disk contract hashAddress = .ok disk') : disk'.ledger = disk.ledger := by
  simp only [restore, bind_eq_ok, pure_eq_ok] at h
  obtain ⟨state, -, rfl⟩ := h
  rfl

theorem rollbackEvent_kept {strMessage : String} {hashAddress : Uint256}
    (h : rollbackEvent disk strMessage hashAddress = .ok disk') :
    SameTxs disk disk' ∧ disk'.ledger.stake = disk.ledger.stake := by
  simp only [rollbackEvent, LedgerDB.EraseEvent, bind_eq_ok, demand_eq_ok, Option.map_eq_some_iff,
    pure_eq_ok] at h
  obtain ⟨_, ⟨nSequence, -, rfl⟩, rfl⟩ := h
  exact ⟨rfl, rfl⟩

theorem undo_kept (h : undo rt disk contract action = .ok disk') :
    SameTxs disk disk' ∧ disk'.ledger.stake = erasedStake contract disk.ledger.stake action := by
  unfold SameTxs
  cases action with
  | CREATE hashAddress nType vchData =>
      obtain rfl := Except.ok.inj h
      exact ⟨rfl, rfl⟩
  | TRANSFER hashAddress hashTransfer nType =>
      simp only [undo, bind_eq_ok, ite_eq_ok, Except.ok.injEq] at h
      obtain ⟨disk₁, hRestore, ⟨-, hEvent⟩ | ⟨-, rfl⟩⟩ := h
      · rw [← restore_kept hRestore]
        exact rollbackEvent_kept hEvent
      · rw [restore_kept hRestore]
        exact ⟨rfl, rfl⟩
  | CLAIM hashTx nContract hashAddress =>
      rw [restore_kept h]
      exact ⟨rfl, rfl⟩
  | COINBASE hashGenesis =>
      simp only [undo, ite_eq_ok, Except.ok.injEq] at h
      rcases h with ⟨-, hEvent⟩ | ⟨-, rfl⟩
      · exact rollbackEvent_kept hEvent
      · exact ⟨rfl, rfl⟩
  | TRUST nScore nStakeChange nReward =>
      simp only [undo, bind_eq_ok, pure_eq_ok] at h
      obtain ⟨_, -, rfl⟩ := h
      exact ⟨rfl, rfl⟩
  | GENESIS nReward =>
      simp only [undo, bind_eq_ok, pure_eq_ok] at h
      obtain ⟨_, -, rfl⟩ := h
      exact ⟨rfl, rfl⟩
  | DEBIT hashFrom hashTo nAmount =>
      simp only [undo, bind_eq_ok, ite_eq_ok, Except.ok.injEq] at h
      obtain ⟨disk₁, hRestore, _, -, ⟨-, hEvent⟩ | ⟨-, rfl⟩⟩ := h
      · rw [← restore_kept hRestore]
        exact rollbackEvent_kept hEvent
      · rw [restore_kept hRestore]
        exact ⟨rfl, rfl⟩
  | CREDIT credit =>
      simp only [undo, bind_eq_ok, pure_eq_ok] at h
      obtain ⟨disk₁, hRestore, _, -, ledger, hClaimed, rfl⟩ := h
      have hSame := rollbackClaimed_kept hClaimed
      rw [restore_kept hRestore] at hSame
      exact hSame
  | MIGRATE hashTx migrate =>
      simp only [undo, bind_eq_ok, pure_eq_ok] at h
      obtain ⟨disk₁, hRestore, rfl⟩ := h
      have hLedger := restore_kept hRestore
      have hTxs : disk₁.ledger.txs = disk.ledger.txs := by rw [hLedger]
      have hStake : disk₁.ledger.stake = disk.ledger.stake := by rw [hLedger]
      refine ⟨hTxs, ?_⟩
      show Function.update disk₁.ledger.stake contract.hashCaller none =
        Function.update disk.ledger.stake contract.hashCaller none
      rw [hStake]
  | AUTHORIZE =>
      obtain rfl := Except.ok.inj h
      exact ⟨rfl, rfl⟩
  | WRITE hashAddress vchData =>
      rw [restore_kept h]
      exact ⟨rfl, rfl⟩
  | APPEND hashAddress vchData =>
      rw [restore_kept h]
      exact ⟨rfl, rfl⟩
  | FEE hashAddress nFees =>
      rw [restore_kept h]
      exact ⟨rfl, rfl⟩
  | LEGACY hashAddress nAmount =>
      rw [restore_kept h]
      exact ⟨rfl, rfl⟩

/-- An executed contract. -/
theorem Execute_kept {nCost nCost' : UInt64}
    (h : Execute rt disk contract nCost = .ok (disk', nCost')) :
    ∃ d c, contract.decode = .ok (d, c) ∧ SameTxs disk disk' ∧
      disk'.ledger.stake = writtenStake contract disk.ledger.stake d.action := by
  obtain ⟨d, c, disk₁, before, after, hDecode, -, hValidate, hAccepted⟩ := Execute.accepted h
  have hLedger : disk₁.ledger = disk.ledger := by
    cases hValidated : d.validated with
    | none =>
        rw [hValidated] at hValidate
        obtain rfl := Except.ok.inj hValidate
        rfl
    | some key =>
        rw [hValidated] at hValidate
        simp only [validate, Validate.Commit, bind_eq_ok, pure_eq_ok] at hValidate
        obtain ⟨_, -, rfl⟩ := hValidate
        rfl
  have hKept := commit_kept hAccepted.commit
  unfold SameTxs at hKept
  rw [hLedger] at hKept
  exact ⟨d, c, hDecode, hKept⟩

/-- A contract that is rolled back. -/
theorem Rollback_kept (h : Rollback rt disk contract = .ok disk') :
    ∃ d c, contract.decode = .ok (d, c) ∧ SameTxs disk disk' ∧
      disk'.ledger.stake = erasedStake contract disk.ledger.stake d.action := by
  obtain ⟨d, c, hDecode, -, hUndo⟩ := Rollback_iff.mp h
  have hLedger : (unvalidate disk d.validated).ledger = disk.ledger := by
    cases d.validated <;> rfl
  have hKept := undo_kept hUndo
  unfold SameTxs at hKept
  rw [hLedger] at hKept
  exact ⟨d, c, hDecode, hKept⟩

end Nexus.Ledger
