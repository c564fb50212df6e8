import Nexus.Register.Chain
import Nexus.Register.Undone
import Nexus.Safety.Tokens

/-!
# Rolling back what was executed

A disconnected block rolls its contracts back.  The pre-state in the script of a
contract goes back to the register, so the register is restored when the pre-state
is the state that was stored.  Of the other records each has its own inverse, but
for two slips: the rollback of a debit reads the register that was paid before it
looks at the wildcard, and does not ask whether that register is null.

## Main results

* `undo_iff`: when the inverse of an accepted action restores the databases.
* `rollback_restores_iff`: the same of a contract.
* `rollback_of_wildcard`: a debit to the wildcard address that is never rolled back.
-/

namespace Nexus.Safety

open Nexus.Lib.Bytes
open Nexus.Lib.Checked
open Nexus.Util
open Nexus.Register
open Nexus.Operation
open Nexus.LLD
open Nexus.Ledger

/-- The records of `disk` and `disk'` are the same.  A claimed amount or a number of events
that is not recorded is 0. -/
structure Restored (disk disk' : Disk) : Prop where
  states : disk'.register.states = disk.register.states
  trust : disk'.register.trust = disk.register.trust
  proofs : disk'.ledger.proofs = disk.ledger.proofs
  claimed : ∀ key, (disk'.ledger.claimed key).getD 0 = (disk.ledger.claimed key).getD 0
  sequence : ∀ hashAddress,
    (disk'.ledger.sequence hashAddress).getD 0 = (disk.ledger.sequence hashAddress).getD 0
  contracts : disk'.contract.contracts = disk.contract.contracts

/-- The pre-state in the script is the stored state. -/
def Carried (rt : Runtime) (states : States) (contract : Contract) (action : Action) : Prop :=
  ∀ hashAddress, action.target rt contract.hashCaller = some hashAddress →
    (∀ hashAddress nType vchData, action ≠ .CREATE hashAddress nType vchData) →
    states hashAddress = contract.prestate

/-- The first primitive of a contract is a debit to an object. -/
def DebitsObject (debit : Contract) : Prop :=
  debit.reset.peek UInt8 0 = OP.DEBIT ∧ Address.IsObject (debit.reset.peek Uint256 33) = true

/-- The records that an action writes besides the state have an inverse. -/
def Reversible (rt : Runtime) (disk : Disk) : Action → Prop
  | .DEBIT _ hashTo _ =>
      if hashTo = WILDCARD_ADDRESS then disk.register.HasState hashTo = true
      else ∀ state, disk.register.ReadState hashTo = some state → state.IsNull = false
  | .CREDIT credit =>
      ∀ debit, disk.ReadContract rt credit.hashTx credit.nContract = .ok debit →
        DebitsObject debit →
        ((disk.ledger.ReadClaimed credit.hashTx credit.nContract).getD 0).toNat +
          credit.nCredit.toNat < 2 ^ 64
  | _ => True

variable {rt : Runtime} {disk disk' disk'' : Disk} {mapStates mapStates' : States}
  {contract : Contract} {action : Action} {before after : State} {hashAddress : Address}

/-! ## Records -/

/-- A state put back over another. -/
theorem states_restored (after : State) {states : States} :
    Function.update (Function.update states hashAddress (some after)) hashAddress (some before) =
        states ↔ states hashAddress = some before := by
  rw [Function.update_idem, Function.update_eq_iff]
  constructor
  · intro h
    exact h.1.symm
  · intro h
    exact ⟨h.symm, fun _ _ => rfl⟩

/-- An erased event takes the number of events back. -/
theorem eraseEvent_writeEvent (ledger : LedgerDB) (hashEvent : Uint256) (hashTx : Uint512) :
    ∃ ledger', (ledger.WriteEvent hashEvent hashTx).EraseEvent hashEvent = some ledger' ∧
      ledger'.proofs = ledger.proofs ∧ ledger'.claimed = ledger.claimed ∧
      ∀ hashAddress,
        (ledger'.sequence hashAddress).getD 0 = (ledger.sequence hashAddress).getD 0 := by
  simp only [LedgerDB.EraseEvent, LedgerDB.WriteEvent, LedgerDB.WriteSequence, LedgerDB.ReadSequence,
    Function.update_self, Option.map_some, Option.some.injEq, exists_eq_left', true_and]
  intro hashAddress
  by_cases hSame : hashAddress = hashEvent
  · rw [hSame, Function.update_self, Option.getD_some, add_sub_cancel_right]
  · rw [Function.update_of_ne hSame, Function.update_of_ne hSame]

/-- An erased event that was not written changes the number of events. -/
theorem eraseEvent_changes {ledger ledger' : LedgerDB} {hashEvent : Uint256}
    (h : ledger.EraseEvent hashEvent = some ledger') :
    (ledger'.sequence hashEvent).getD 0 ≠ (ledger.sequence hashEvent).getD 0 := by
  simp only [LedgerDB.EraseEvent, LedgerDB.WriteSequence, LedgerDB.ReadSequence, Option.map_eq_some_iff] at h
  obtain ⟨nSequence, hRead, rfl⟩ := h
  rw [hRead]
  simp only [Function.update_self, Option.getD_some]
  intro hEq
  have hOne := sub_eq_self.mp hEq
  exact absurd hOne (by decide)

/-- A proof that was not there is erased. -/
theorem eraseProof_writeProof {ledger : LedgerDB} {hashProof : Uint256} {hashTx : Uint512}
    {nContract : UInt32} (h : ledger.HasProof hashProof hashTx nContract = false) :
    Function.update (Function.update ledger.proofs (hashProof, hashTx, nContract) true)
      (hashProof, hashTx, nContract) false = ledger.proofs := by
  rw [Function.update_idem, ← h]
  exact Function.update_eq_self ..

/-- A trust account that was not indexed is erased from the index. -/
theorem trust_restored {register : RegisterDB} {hashGenesis : Uint256}
    (h : register.HasTrust hashGenesis = false) :
    Function.update (Function.update register.trust hashGenesis (some hashAddress)) hashGenesis none =
      register.trust := by
  have hNone : register.trust hashGenesis = none :=
    Option.isNone_iff_eq_none.mp (by simpa [RegisterDB.HasTrust] using h)
  rw [Function.update_idem, ← hNone]
  exact Function.update_eq_self ..

/-- A referenced contract has its cursors at the beginning. -/
theorem readContract_reset {hashTx : Uint512} {nContract : UInt32} {debit : Contract}
    (h : disk.ReadContract rt hashTx nContract = .ok debit) : debit.reset = debit := by
  simp only [Disk.ReadContract, ite_eq_ok, bind_eq_ok, demand_eq_ok, pure_eq_ok,
    Transaction.contract] at h
  obtain ⟨-, tx, -, c, -, rfl⟩ | ⟨-, ⟨-, vout, -, txout, -, _, -, _, -, rfl⟩ | ⟨-, h⟩⟩ := h
  · rfl
  · rfl
  · cases h

/-- The claimed amount grows by the credit of a debit to an object. -/
theorem commitClaimed_eq_ok {ledger ledger' : LedgerDB} {debit : Contract} {hashTx : Uint512}
    {nContract : UInt32} {nAmount : UInt64} :
    Credit.commitClaimed ledger debit hashTx nContract nAmount = .ok ledger' ↔
      debit.reset.Fits 1 ∧ (debit.reset.peek UInt8 0 = OP.DEBIT → debit.reset.Fits 65) ∧
        (DebitsObject debit ∧ ledger' = ledger.WriteClaimed hashTx nContract
            ((ledger.ReadClaimed hashTx nContract).getD 0 + nAmount) ∨
          ¬ DebitsObject debit ∧ ledger' = ledger) := by
  simp only [Credit.commitClaimed, bind_eq_ok, Prod.exists, ite_eq_ok, Contract.extract_eq_ok,
    and_assoc, exists_and_left, exists_eq_left, Contract.peek_skip, Contract.fits_skip, width_uint8,
    width_uint256, Nat.reduceAdd, Except.ok.injEq, DebitsObject]
  refine and_congr_right fun _ => ?_
  by_cases hCode : debit.reset.peek UInt8 0 = OP.DEBIT
  · by_cases hObject : Address.IsObject (debit.reset.peek Uint256 33) = true
    · simp only [hCode, hObject, true_and, not_true_eq_false, false_and, or_false, true_implies]
      constructor
      · intro h
        exact ⟨h.2.1, h.2.2.symm⟩
      · intro h
        exact ⟨h.1.mono (by decide), h.1, h.2.symm⟩
    · simp only [hCode, hObject, Bool.false_eq_true, and_false, not_false_eq_true, true_and,
        false_and, false_or, not_true_eq_false, or_false, true_implies]
      constructor
      · intro h
        exact ⟨h.2.1, h.2.2.symm⟩
      · intro h
        exact ⟨h.1.mono (by decide), h.1, h.2.symm⟩
  · simp only [hCode, false_and, not_false_eq_true, true_and, false_or, false_implies]
    exact eq_comm

/-- It shrinks by it again, unless it is smaller. -/
theorem rollbackClaimed_eq_ok {ledger ledger' : LedgerDB} {debit : Contract} {hashTx : Uint512}
    {nContract : UInt32} {nAmount : UInt64} (hReset : debit.reset = debit) :
    rollbackClaimed ledger debit hashTx nContract nAmount = .ok ledger' ↔
      debit.reset.Fits 1 ∧ (debit.reset.peek UInt8 0 = OP.DEBIT → debit.reset.Fits 65) ∧
        ((DebitsObject debit ∧ ∃ nClaimed, ledger.ReadClaimed hashTx nContract = some nClaimed ∧
            nAmount ≤ nClaimed ∧
            ledger' = ledger.WriteClaimed hashTx nContract (nClaimed - nAmount)) ∨
          ¬ DebitsObject debit ∧ ledger' = ledger) := by
  simp only [rollbackClaimed, bind_eq_ok, Prod.exists, ite_eq_ok, Contract.extract_eq_ok,
    and_assoc, exists_and_left, exists_eq_left, Contract.peek_skip, Contract.fits_skip, width_uint8,
    width_uint256, Nat.reduceAdd, Except.ok.injEq, DebitsObject, demand_eq_ok, reject_eq_ok,
    pure_eq_ok, exists_const, UInt64.not_lt, hReset]
  refine and_congr_right fun _ => ?_
  by_cases hCode : debit.peek UInt8 0 = OP.DEBIT
  · by_cases hObject : Address.IsObject (debit.peek Uint256 33) = true
    · simp only [hCode, hObject, true_and, not_true_eq_false, false_and, or_false, true_implies]
      constructor
      · intro h
        obtain ⟨-, hFits, nClaimed, hRead, hLe, rfl⟩ := h
        exact ⟨hFits, nClaimed, hRead, hLe, rfl⟩
      · intro h
        obtain ⟨hFits, nClaimed, hRead, hLe, rfl⟩ := h
        exact ⟨hFits.mono (by decide), hFits, nClaimed, hRead, hLe, rfl⟩
    · simp only [hCode, hObject, Bool.false_eq_true, and_false, not_false_eq_true, true_and,
        false_and, false_or, not_true_eq_false, or_false, true_implies]
      constructor
      · intro h
        exact ⟨h.2.1, h.2.2.symm⟩
      · intro h
        exact ⟨h.1.mono (by decide), h.1, h.2.symm⟩
  · simp only [hCode, false_and, not_false_eq_true, true_and, false_or, false_implies]
    exact eq_comm

/-- What a credit adds to the claimed amount is taken back unless the sum wraps. -/
theorem rollbackClaimed_iff {ledger ledger' ledger₁ : LedgerDB} {debit : Contract}
    {hashTx : Uint512} {nContract : UInt32} {nAmount : UInt64} (hReset : debit.reset = debit)
    (hCommit : Credit.commitClaimed ledger debit hashTx nContract nAmount = .ok ledger')
    (hSame : ledger₁.claimed = ledger'.claimed) :
    (∃ ledger'', rollbackClaimed ledger₁ debit hashTx nContract nAmount = .ok ledger'') ↔
      (DebitsObject debit → ((ledger.ReadClaimed hashTx nContract).getD 0).toNat +
        nAmount.toNat < 2 ^ 64) := by
  obtain ⟨hFits, hMore, hCases⟩ := commitClaimed_eq_ok.mp hCommit
  simp only [rollbackClaimed_eq_ok hReset, LedgerDB.ReadClaimed, hSame]
  rcases hCases with ⟨hObject, rfl⟩ | ⟨hOther, rfl⟩
  · have hRead : (ledger.WriteClaimed hashTx nContract
        ((ledger.ReadClaimed hashTx nContract).getD 0 + nAmount)).claimed (hashTx, nContract) =
          some ((ledger.ReadClaimed hashTx nContract).getD 0 + nAmount) := Function.update_self ..
    constructor
    · intro h
      obtain ⟨_, -, -, ⟨-, nClaimed, hNow, hLe, -⟩ | ⟨hNot, -⟩⟩ := h
      · intro _
        obtain rfl := Option.some.inj (hRead.symm.trans hNow)
        rw [UInt64.le_iff_toNat_le, UInt64.toNat_add] at hLe
        have hOld := ((ledger.ReadClaimed hashTx nContract).getD 0).toNat_lt
        have hAmount := nAmount.toNat_lt
        simp only [LedgerDB.ReadClaimed] at hLe hOld
        omega
      · exact absurd hObject hNot
    · intro h
      have hSum := h hObject
      refine ⟨_, hFits, hMore, .inl ⟨hObject, _, hRead, ?_, rfl⟩⟩
      rw [UInt64.le_iff_toNat_le, UInt64.toNat_add, LedgerDB.ReadClaimed, Nat.mod_eq_of_lt hSum]
      exact Nat.le_add_left ..
  · constructor
    · intro _ hObject
      exact absurd hObject hOther
    · intro _
      exact ⟨_, hFits, hMore, .inr ⟨hOther, rfl⟩⟩

/-- A claimed amount that is taken back is the old one. -/
theorem rollbackClaimed_restores {ledger ledger' ledger₁ ledger'' : LedgerDB} {debit : Contract}
    {hashTx : Uint512} {nContract : UInt32} {nAmount : UInt64} (hReset : debit.reset = debit)
    (hCommit : Credit.commitClaimed ledger debit hashTx nContract nAmount = .ok ledger')
    (hSame : ledger₁.claimed = ledger'.claimed)
    (hRollback : rollbackClaimed ledger₁ debit hashTx nContract nAmount = .ok ledger'') :
    ledger''.proofs = ledger₁.proofs ∧ ledger''.sequence = ledger₁.sequence ∧
      ∀ key, (ledger''.claimed key).getD 0 = (ledger.claimed key).getD 0 := by
  obtain ⟨-, -, hCases⟩ := commitClaimed_eq_ok.mp hCommit
  obtain ⟨-, -, hCases'⟩ := (rollbackClaimed_eq_ok hReset).mp hRollback
  rcases hCases with ⟨hObject, rfl⟩ | ⟨hOther, rfl⟩
  · rcases hCases' with ⟨-, nClaimed, hNow, -, rfl⟩ | ⟨hNot, -⟩
    · refine ⟨rfl, rfl, ?_⟩
      simp only [LedgerDB.WriteClaimed, LedgerDB.ReadClaimed, hSame, Function.update_self,
        Option.some.injEq] at hNow ⊢
      intro key
      by_cases hKey : key = (hashTx, nContract)
      · rw [hKey, Function.update_self, Option.getD_some, ← hNow, add_sub_cancel_right]
      · rw [Function.update_of_ne hKey, Function.update_of_ne hKey]
    · exact absurd hObject hNot
  · rcases hCases' with ⟨hObject, -⟩ | ⟨-, rfl⟩
    · exact absurd hObject hOther
    · refine ⟨rfl, rfl, ?_⟩
      intro key
      rw [hSame]

/-! ## Actions -/

theorem restore_eq {state : State} (hPre : contract.prestate = some state) :
    restore rt disk contract hashAddress = .ok (commitState rt disk state hashAddress) := by
  simp only [restore, hPre, demand_some, ok_bind]
  rfl

theorem carried_iff {states : States} (hTarget : action.target rt contract.hashCaller = some hashAddress)
    (hOther : ∀ hashAddress nType vchData, action ≠ .CREATE hashAddress nType vchData)
    (hPre : contract.prestate = some before) :
    Carried rt states contract action ↔ states hashAddress = some before := by
  constructor
  · intro h
    rw [h hashAddress hTarget hOther, hPre]
  · intro h hashAddress' hTarget' _
    obtain rfl := Option.some.inj (hTarget.symm.trans hTarget')
    rw [h, hPre]

/-- An inverse that puts the pre-state back, and takes back whatever else was written. -/
theorem undone_iff (after : State)
    (hTarget : action.target rt contract.hashCaller = some hashAddress)
    (hOther : ∀ hashAddress nType vchData, action ≠ .CREATE hashAddress nType vchData)
    (hPre : contract.prestate = some before)
    (hUndo : undo rt disk' contract action = .ok disk'')
    (hStates : disk''.register.states = Function.update
      (Function.update disk.register.states hashAddress (some after)) hashAddress (some before))
    (hRest : disk''.register.states = disk.register.states → Restored disk disk'') :
    (∃ disk'', undo rt disk' contract action = .ok disk'' ∧ Restored disk disk'') ↔
      Carried rt disk.register.states contract action := by
  rw [carried_iff hTarget hOther hPre, ← states_restored after, ← hStates]
  constructor
  · intro h
    obtain ⟨d, hUndo', hRestored⟩ := h
    obtain rfl := Except.ok.inj (hUndo.symm.trans hUndo')
    exact hRestored.states
  · intro h
    exact ⟨disk'', hUndo, hRest h⟩

/-- An action that writes its state alone. -/
theorem undo_plain_iff (hTarget : action.target rt contract.hashCaller = some hashAddress)
    (hOther : ∀ hashAddress nType vchData, action ≠ .CREATE hashAddress nType vchData)
    (hPre : contract.prestate = some before)
    (hUndo : undo rt (commitState rt disk after hashAddress) contract action =
      restore rt (commitState rt disk after hashAddress) contract hashAddress) :
    (∃ disk'', undo rt (commitState rt disk after hashAddress) contract action = .ok disk'' ∧
      Restored disk disk'') ↔ Carried rt disk.register.states contract action :=
  undone_iff after hTarget hOther hPre (hUndo.trans (restore_eq hPre)) rfl fun hStates =>
    ⟨hStates, rfl, rfl, fun _ => rfl, fun _ => rfl, rfl⟩

theorem undo_TRANSFER_iff {hashTransfer : Uint256} {nType : UInt8}
    (h : Accepted rt disk contract (.TRANSFER hashAddress hashTransfer nType) before after disk') :
    (∃ disk'', undo rt disk' contract (.TRANSFER hashAddress hashTransfer nType) = .ok disk'' ∧
      Restored disk disk'') ↔
        Carried rt disk.register.states contract (.TRANSFER hashAddress hashTransfer nType) := by
  obtain ⟨hPre, -, hCommit, -⟩ := h
  obtain rfl := Except.ok.inj hCommit
  by_cases hWildcard : hashTransfer = WILDCARD_ADDRESS
  · have hUndo : undo rt (Transfer.Commit rt disk after contract.hashTx hashAddress hashTransfer)
        contract (.TRANSFER hashAddress hashTransfer nType) =
          .ok (commitState rt
            (Transfer.Commit rt disk after contract.hashTx hashAddress hashTransfer) before
              hashAddress) := by
      simp only [undo, restore_eq hPre, ok_bind, if_neg (not_not.mpr hWildcard)]
    refine undone_iff after rfl (by simp) hPre hUndo rfl fun hStates => ?_
    have hLedger : (Transfer.Commit rt disk after contract.hashTx hashAddress hashTransfer).ledger =
        disk.ledger := if_neg (not_not.mpr hWildcard)
    exact ⟨hStates, rfl, congrArg _ hLedger, fun _ => by simp [commitState, hLedger],
      fun _ => by simp [commitState, hLedger], rfl⟩
  · obtain ⟨ledger, hErase, hProofs, hClaimed, hSequence⟩ :=
      eraseEvent_writeEvent disk.ledger hashTransfer contract.hashTx
    have hLedger : (Transfer.Commit rt disk after contract.hashTx hashAddress hashTransfer).ledger =
        disk.ledger.WriteEvent hashTransfer contract.hashTx := if_pos hWildcard
    have hUndo : undo rt (Transfer.Commit rt disk after contract.hashTx hashAddress hashTransfer)
        contract (.TRANSFER hashAddress hashTransfer nType) =
          .ok { commitState rt
            (Transfer.Commit rt disk after contract.hashTx hashAddress hashTransfer) before
              hashAddress with ledger } := by
      simp only [undo, restore_eq hPre, ok_bind, if_pos hWildcard, rollbackEvent]
      rw [commitState, hLedger, hErase]
      rfl
    refine undone_iff after rfl (by simp) hPre hUndo rfl fun hStates => ?_
    exact ⟨hStates, rfl, hProofs, fun _ => by rw [hClaimed], hSequence, rfl⟩

theorem undo_COINBASE_iff {hashGenesis : Uint256}
    (h : Accepted rt disk contract (.COINBASE hashGenesis) before after disk') :
    (∃ disk'', undo rt disk' contract (.COINBASE hashGenesis) = .ok disk'' ∧
      Restored disk disk'') := by
  obtain ⟨-, -, hCommit, -⟩ := h
  obtain rfl := Except.ok.inj hCommit
  by_cases hCaller : contract.hashCaller = hashGenesis
  · simp only [undo, hCaller, ne_eq, not_true_eq_false, if_false]
    exact ⟨disk, rfl, rfl, rfl, rfl, fun _ => rfl, fun _ => rfl, rfl⟩
  · obtain ⟨ledger, hErase, hProofs, hClaimed, hSequence⟩ :=
      eraseEvent_writeEvent disk.ledger hashGenesis contract.hashTx
    refine ⟨{ disk with ledger }, ?_, rfl, rfl, hProofs, fun _ => by rw [hClaimed], hSequence, rfl⟩
    simp only [undo, if_pos hCaller, rollbackEvent, Coinbase.Commit, hErase, ne_eq]
    rfl

theorem undo_CLAIM_iff {hashTx : Uint512} {nContract : UInt32}
    (h : Accepted rt disk contract (.CLAIM hashTx nContract hashAddress) before after disk') :
    (∃ disk'', undo rt disk' contract (.CLAIM hashTx nContract hashAddress) = .ok disk'' ∧
      Restored disk disk'') ↔
        Carried rt disk.register.states contract (.CLAIM hashTx nContract hashAddress) := by
  obtain ⟨hPre, -, hCommit, -⟩ := h
  simp only [Action.commit, Claim.Commit, bind_eq_ok, reject_eq_ok, pure_eq_ok, exists_and_left,
    Bool.not_eq_true] at hCommit
  obtain ⟨hNew, _, rfl⟩ := hCommit
  refine undone_iff after rfl (by simp) hPre (restore_eq hPre) rfl fun hStates => ?_
  exact ⟨hStates, rfl, eraseProof_writeProof hNew, fun _ => rfl, fun _ => rfl, rfl⟩

theorem undo_CREATE_iff {nType : UInt8} {vchData : List UInt8}
    (h : Accepted rt disk contract (.CREATE hashAddress nType vchData) before after disk') :
    (∃ disk'', undo rt disk' contract (.CREATE hashAddress nType vchData) = .ok disk'' ∧
      Restored disk disk'') := by
  obtain ⟨-, -, hCommit, -⟩ := h
  simp only [Action.commit, Create.Commit, map_eq_ok, bind_eq_ok, reject_eq_ok, Prod.exists,
    pure_eq_ok, Prod.mk.injEq, Bool.not_eq_true] at hCommit
  obtain ⟨_, _, ⟨_, -, _, hFree, rfl, -⟩, rfl⟩ := hCommit
  have hNone : disk.register.states hashAddress = none :=
    Option.isNone_iff_eq_none.mp (by simpa [RegisterDB.HasState] using hFree)
  refine ⟨_, rfl, ?_, rfl, rfl, fun _ => rfl, fun _ => rfl, rfl⟩
  have hUpdate : Function.update (Function.update disk.register.states hashAddress (some after))
      hashAddress none = disk.register.states := by
    rw [Function.update_idem, ← hNone]
    exact Function.update_eq_self ..
  exact hUpdate

theorem undo_TRUST_iff {nScore nReward : UInt64} {nStakeChange : Int64}
    (h : Accepted rt disk contract (.TRUST nScore nStakeChange nReward) before after disk') :
    (∃ disk'', undo rt disk' contract (.TRUST nScore nStakeChange nReward) = .ok disk'' ∧
      Restored disk disk'') ↔
        Carried rt disk.register.states contract (.TRUST nScore nStakeChange nReward) := by
  obtain ⟨hPre, hRun, hCommit, hOwner⟩ := h
  have hBefore : before.hashOwner = contract.hashCaller := hOwner
  have hAfter : after.hashOwner = contract.hashCaller := (Trust.Execute_owner hRun).trans hBefore
  simp only [Action.commit, Trust.Commit, bind_eq_ok, pure_eq_ok] at hCommit
  obtain ⟨_, -, rfl⟩ := hCommit
  have hUndo (d : Disk) : undo rt d contract (.TRUST nScore nStakeChange nReward) =
      .ok { d with
        register := RegisterDB.WriteTrust rt d.register contract.hashCaller before } := by
    have hPrestate : contract.prestate = some before := hPre
    simp only [undo, hPrestate, demand_some, ok_bind, hBefore]
    rfl
  rw [hAfter]
  refine undone_iff after rfl (by simp) hPre (hUndo _) ?_ fun hStates => ?_
  · rfl
  · exact ⟨hStates, rfl, rfl, fun _ => rfl, fun _ => rfl, rfl⟩

theorem undo_GENESIS_iff {nReward : UInt64}
    (h : Accepted rt disk contract (.GENESIS nReward) before after disk') :
    (∃ disk'', undo rt disk' contract (.GENESIS nReward) = .ok disk'' ∧ Restored disk disk'') ↔
        Carried rt disk.register.states contract (.GENESIS nReward) := by
  obtain ⟨hPre, hRun, hCommit, hOwner⟩ := h
  have hBefore : before.hashOwner = contract.hashCaller := hOwner
  have hAfter : after.hashOwner = contract.hashCaller := (Genesis.Execute_owner hRun).trans hBefore
  simp only [Action.commit, Genesis.Commit, bind_eq_ok, pure_eq_ok, reject_eq_ok, Bool.not_eq_true,
    hAfter] at hCommit
  obtain ⟨_, hNew, rfl⟩ := hCommit
  have hUndo (d : Disk) : undo rt d contract (.GENESIS nReward) =
      .ok { d with
        register := (d.register.WriteState rt (RegisterDB.trustAddress rt contract.hashCaller)
          before).EraseTrust contract.hashCaller } := by
    have hPrestate : contract.prestate = some before := hPre
    simp only [undo, hPrestate, demand_some, ok_bind, hBefore]
    rfl
  refine undone_iff after rfl (by simp) hPre (hUndo _) ?_ fun hStates => ?_
  · rfl
  · exact ⟨hStates, trust_restored hNew, rfl, fun _ => rfl, fun _ => rfl, rfl⟩

theorem undo_MIGRATE_iff {hashTx : Uint512} {migrate : Migrate.Operands}
    (h : Accepted rt disk contract (.MIGRATE hashTx migrate) before after disk') :
    (∃ disk'', undo rt disk' contract (.MIGRATE hashTx migrate) = .ok disk'' ∧
      Restored disk disk'') ↔
        Carried rt disk.register.states contract (.MIGRATE hashTx migrate) := by
  obtain ⟨hPre, -, hCommit, -, hIndex, -⟩ := h
  simp only [Action.commit, Migrate.Commit, bind_eq_ok, reject_eq_ok, pure_eq_ok, exists_and_left,
    Bool.not_eq_true] at hCommit
  obtain ⟨hNew, _, rfl⟩ := hCommit
  refine undone_iff after rfl (by simp) hPre
    (by simp only [undo, restore_eq hPre, ok_bind]; rfl) rfl fun hStates => ?_
  exact ⟨hStates, trust_restored hIndex, eraseProof_writeProof hNew, fun _ => rfl, fun _ => rfl, rfl⟩

/-- The register that is paid is not the one that pays, so the rollback reads its state before
the debit. -/
theorem undo_DEBIT_eq (rt : Runtime) {hashFrom hashTo : Address} (nAmount : UInt64)
    (hPre : contract.prestate = some before) (hOther : hashFrom ≠ hashTo)
    (hStates : disk'.register.states = Function.update disk.register.states hashFrom (some after)) :
    undo rt disk' contract (.DEBIT hashFrom hashTo nAmount) =
      demand (disk.register.ReadState hashTo) (.error "") >>= fun stateTo =>
        if hashTo ≠ WILDCARD_ADDRESS then
          rollbackEvent (commitState rt disk' before hashFrom) "" stateTo.hashOwner
        else .ok (commitState rt disk' before hashFrom) := by
  have hRead : (commitState rt disk' before hashFrom).register.ReadState hashTo =
      disk.register.ReadState hashTo := by
    simp only [commitState, RegisterDB.ReadState, RegisterDB.WriteState, hStates]
    rw [Function.update_of_ne hOther.symm, Function.update_of_ne hOther.symm]
  simp only [undo, restore_eq hPre, ok_bind, hRead]

theorem undo_DEBIT_iff {hashFrom hashTo : Address} {nAmount : UInt64}
    (h : Accepted rt disk contract (.DEBIT hashFrom hashTo nAmount) before after disk') :
    (∃ disk'', undo rt disk' contract (.DEBIT hashFrom hashTo nAmount) = .ok disk'' ∧
      Restored disk disk'') ↔
        Carried rt disk.register.states contract (.DEBIT hashFrom hashTo nAmount) ∧
          Reversible rt disk (.DEBIT hashFrom hashTo nAmount) := by
  have hMoved := h.moved
  obtain ⟨hPre, -, hCommit, -, hOther⟩ := h
  have hEq := undo_DEBIT_eq rt nAmount hPre hOther hMoved.1
  simp only [Action.commit, Debit.Commit, ite_eq_ok, bind_eq_ok, demand_eq_ok, pure_eq_ok,
    Except.ok.injEq] at hCommit
  rcases hCommit with ⟨hAddress, state, hRead, rfl⟩ | ⟨hWildcard, rfl⟩
  · have hReversible : Reversible rt disk (.DEBIT hashFrom hashTo nAmount) ↔ state.IsNull = false := by
      simp only [Reversible, if_neg hAddress, hRead, Option.some.injEq, forall_eq']
    rw [hReversible]
    simp only [hRead, demand_some, ok_bind, if_pos hAddress, rollbackEvent, commitState] at hEq
    by_cases hNull : state.IsNull = true
    · constructor
      · intro hUndone
        obtain ⟨d, hUndo, hRestored⟩ := hUndone
        rw [hEq] at hUndo
        simp only [hNull, if_true, bind_eq_ok, demand_eq_ok, pure_eq_ok] at hUndo
        obtain ⟨ledger, hErase, rfl⟩ := hUndo
        exact absurd (hRestored.sequence state.hashOwner) (eraseEvent_changes hErase)
      · intro hBoth
        rw [hNull] at hBoth
        cases hBoth.2
    · have hLive : state.IsNull = false := Bool.not_eq_true _ ▸ hNull
      obtain ⟨ledger, hErase, hProofs, hClaimed, hSequence⟩ :=
        eraseEvent_writeEvent disk.ledger state.hashOwner contract.hashTx
      simp only [hLive, Bool.false_eq_true, if_false, hErase, demand_some, ok_bind] at hEq ⊢
      rw [and_iff_left trivial]
      refine undone_iff after rfl (by simp) hPre hEq rfl fun hStates => ?_
      exact ⟨hStates, rfl, hProofs, fun _ => by rw [hClaimed], hSequence, rfl⟩
  · have hReversible : Reversible rt disk (.DEBIT hashFrom hashTo nAmount) ↔
        disk.register.HasState hashTo = true := by
      simp only [Reversible, if_pos (not_not.mp hWildcard)]
    rw [hReversible]
    cases hRead : disk.register.ReadState hashTo with
    | none =>
        rw [hRead] at hEq
        constructor
        · intro hUndone
          obtain ⟨d, hUndo, -⟩ := hUndone
          rw [hEq] at hUndo
          cases hUndo
        · intro hBoth
          have hSome : (disk.register.ReadState hashTo).isSome = true := hBoth.2
          rw [hRead] at hSome
          cases hSome
    | some stateTo =>
        have hHas : disk.register.HasState hashTo = true := by
          have hSome : (disk.register.ReadState hashTo).isSome = true := by rw [hRead]; rfl
          exact hSome
        rw [and_iff_left hHas]
        simp only [hRead, demand_some, ok_bind, if_neg hWildcard] at hEq
        exact undone_iff after rfl (by simp) hPre hEq rfl fun hStates =>
          ⟨hStates, rfl, rfl, fun _ => rfl, fun _ => rfl, rfl⟩

theorem undo_CREDIT_iff {credit : Credit.Operands}
    (h : Accepted rt disk contract (.CREDIT credit) before after disk') :
    (∃ disk'', undo rt disk' contract (.CREDIT credit) = .ok disk'' ∧ Restored disk disk'') ↔
        Carried rt disk.register.states contract (.CREDIT credit) ∧
          Reversible rt disk (.CREDIT credit) := by
  obtain ⟨hPre, -, hCommit, -⟩ := h
  simp only [Action.commit, Credit.Commit, bind_eq_ok, reject_eq_ok, pure_eq_ok, exists_and_left,
    Bool.not_eq_true] at hCommit
  obtain ⟨debit, hRead, hNew, _, ledger, hClaimed, rfl⟩ := hCommit
  have hReset := readContract_reset hRead
  have hLedger : ledger.txs = disk.ledger.txs ∧ ledger.sequence = disk.ledger.sequence ∧
      ledger.proofs =
        Function.update disk.ledger.proofs (credit.hashProof, credit.hashTx, credit.nContract) true := by
    obtain ⟨-, -, ⟨-, rfl⟩ | ⟨-, rfl⟩⟩ := commitClaimed_eq_ok.mp hClaimed
    · exact ⟨rfl, rfl, rfl⟩
    · exact ⟨rfl, rfl, rfl⟩
  obtain ⟨hTxs, hSequence, hProofs⟩ := hLedger
  -- The proof is erased before the claimed amount is read.
  have hUndo : undo rt
      { disk with ledger, register := disk.register.WriteState rt credit.hashAccount after }
      contract (.CREDIT credit) =
        (rollbackClaimed (ledger.EraseProof credit.hashProof credit.hashTx credit.nContract) debit
          credit.hashTx credit.nContract credit.nCredit).map fun ledger =>
            { disk with
              ledger
              register := (disk.register.WriteState rt credit.hashAccount after).WriteState rt
                credit.hashAccount before } := by
    have hRead' : Disk.ReadContract rt
        { disk with
          ledger := ledger.EraseProof credit.hashProof credit.hashTx credit.nContract
          register := (disk.register.WriteState rt credit.hashAccount after).WriteState rt
            credit.hashAccount before } credit.hashTx credit.nContract = .ok debit := by
      rw [← hRead]
      simp only [Disk.ReadContract, LedgerDB.ReadTx, LedgerDB.EraseProof, hTxs]
    simp only [undo, restore_eq hPre, ok_bind, commitState, hRead']
    rfl
  have hReversible : Reversible rt disk (.CREDIT credit) ↔
      (DebitsObject debit →
        ((disk.ledger.ReadClaimed credit.hashTx credit.nContract).getD 0).toNat +
          credit.nCredit.toNat < 2 ^ 64) := by
    simp only [Reversible, hRead, Except.ok.injEq, forall_eq']
  have hSame : (ledger.EraseProof credit.hashProof credit.hashTx credit.nContract).claimed =
      ledger.claimed := rfl
  have hIff : (∃ ledger'', rollbackClaimed _ debit credit.hashTx credit.nContract credit.nCredit =
      .ok ledger'') ↔ _ := rollbackClaimed_iff hReset hClaimed hSame
  rw [hReversible]
  constructor
  · intro h
    obtain ⟨d, hOk, hRestored⟩ := h
    have hOk' := hOk
    rw [hUndo, map_eq_ok] at hOk'
    obtain ⟨ledger'', hRollback, rfl⟩ := hOk'
    refine ⟨?_, hIff.mp ⟨ledger'', hRollback⟩⟩
    exact (undone_iff after rfl (by simp) hPre hOk rfl fun _ => hRestored).mp ⟨_, hOk, hRestored⟩
  · intro h
    obtain ⟨hCarried, hSum⟩ := h
    obtain ⟨ledger'', hRollback⟩ := hIff.mpr hSum
    rw [hRollback, map_ok] at hUndo
    obtain ⟨hProofs', hSequence', hClaimed'⟩ :=
      rollbackClaimed_restores hReset hClaimed hSame hRollback
    refine (undone_iff after rfl (by simp) hPre hUndo rfl fun hStates => ?_).mpr hCarried
    refine ⟨hStates, rfl, ?_, hClaimed', fun _ => by rw [hSequence', ← hSequence]; rfl, rfl⟩
    rw [hProofs', LedgerDB.EraseProof, hProofs]
    exact eraseProof_writeProof hNew

/-- When the inverse of an accepted action restores the databases. -/
theorem undo_iff (h : Accepted rt disk contract action before after disk') :
    (∃ disk'', undo rt disk' contract action = .ok disk'' ∧ Restored disk disk'') ↔
      Carried rt disk.register.states contract action ∧ Reversible rt disk action := by
  have hPlain : ∀ {hashAddress}, action.target rt contract.hashCaller = some hashAddress →
      contract.prestate = some before →
      (∀ hashAddress nType vchData, action ≠ .CREATE hashAddress nType vchData) →
      disk' = commitState rt disk after hashAddress →
      (∀ disk, undo rt disk contract action = restore rt disk contract hashAddress) →
      ((∃ disk'', undo rt disk' contract action = .ok disk'' ∧ Restored disk disk'') ↔
        Carried rt disk.register.states contract action) := by
    intro hashAddress hTarget hPre hOther hDisk hUndo
    rw [hDisk]
    exact undo_plain_iff hTarget hOther hPre (hUndo _)
  cases action with
  | WRITE hashAddress vchData =>
      rw [hPlain rfl h.start (by simp) (Except.ok.inj h.commit).symm fun _ => rfl]
      exact (and_iff_left trivial).symm
  | APPEND hashAddress vchData =>
      rw [hPlain rfl h.start (by simp) (Except.ok.inj h.commit).symm fun _ => rfl]
      exact (and_iff_left trivial).symm
  | CREATE hashAddress nType vchData =>
      refine iff_of_true (undo_CREATE_iff h) ⟨?_, trivial⟩
      intro _ _ hOther
      exact absurd rfl (hOther hashAddress nType vchData)
  | TRANSFER hashAddress hashTransfer nType =>
      exact (undo_TRANSFER_iff h).trans (and_iff_left trivial).symm
  | CLAIM hashTx nContract hashAddress =>
      exact (undo_CLAIM_iff h).trans (and_iff_left trivial).symm
  | COINBASE hashGenesis =>
      refine iff_of_true (undo_COINBASE_iff h) ⟨?_, trivial⟩
      intro _ hTarget
      cases hTarget
  | TRUST nScore nStakeChange nReward =>
      exact (undo_TRUST_iff h).trans (and_iff_left trivial).symm
  | GENESIS nReward => exact (undo_GENESIS_iff h).trans (and_iff_left trivial).symm
  | DEBIT hashFrom hashTo nAmount => exact undo_DEBIT_iff h
  | CREDIT credit => exact undo_CREDIT_iff h
  | MIGRATE hashTx migrate => exact (undo_MIGRATE_iff h).trans (and_iff_left trivial).symm
  | AUTHORIZE =>
      obtain rfl := Except.ok.inj h.commit
      refine iff_of_true ⟨disk, rfl, rfl, rfl, rfl, fun _ => rfl, fun _ => rfl, rfl⟩ ⟨?_, trivial⟩
      intro _ hTarget
      cases hTarget
  | FEE hashAddress nFees =>
      rw [hPlain rfl h.start (by simp) (Except.ok.inj h.commit).symm fun _ => rfl]
      exact (and_iff_left trivial).symm
  | LEGACY hashAddress nAmount =>
      rw [hPlain rfl h.start (by simp) (Except.ok.inj h.commit).symm fun _ => rfl]
      exact (and_iff_left trivial).symm

/-! ## Contracts -/

/-- The pre-state in the script has the checksum of the stored state. -/
def SameChecksum (rt : Runtime) (states : States) (contract : Contract) : Prop :=
  ∀ action hashAddress prestate current, contract.Performs action →
    action.target rt contract.hashCaller = some hashAddress →
    contract.prestate = some prestate → states hashAddress = some current →
    prestate.hashChecksum = current.hashChecksum

/-- The contract that a prefix validates was not validated before. -/
theorem unvalidate_validate {disk₁ : Disk} {validated : Option ContractKey}
    (h : validate disk contract validated = .ok disk₁) (hSame : disk'.contract = disk₁.contract) :
    (unvalidate disk' validated).contract.contracts = disk.contract.contracts := by
  cases validated with
  | none =>
      obtain rfl := Except.ok.inj h
      exact congrArg ContractDB.contracts hSame
  | some key =>
      simp only [validate, Validate.Commit, bind_eq_ok, reject_eq_ok, pure_eq_ok,
        Bool.not_eq_true] at h
      obtain ⟨_, hFree, rfl⟩ := h
      have hNone : disk.contract.contracts key = none :=
        Option.isNone_iff_eq_none.mp (by simpa [ContractDB.HasContract] using hFree)
      have hErase : (unvalidate disk' (some key)).contract.contracts =
          Function.update disk'.contract.contracts key none := rfl
      rw [hErase, hSame]
      simp only [ContractDB.WriteContract]
      rw [Function.update_idem, ← hNone]
      exact Function.update_eq_self ..

/-- The records of a validation are apart from the others. -/
theorem restored_validate {disk₁ : Disk} {validated : Option ContractKey}
    (h : validate disk contract validated = .ok disk₁) :
    disk₁.register = disk.register ∧ disk₁.ledger = disk.ledger ∧ disk₁.legacy = disk.legacy := by
  cases validated with
  | none =>
      obtain rfl := Except.ok.inj h
      exact ⟨rfl, rfl, rfl⟩
  | some key =>
      simp only [validate, Validate.Commit, bind_eq_ok, pure_eq_ok] at h
      obtain ⟨_, -, rfl⟩ := h
      exact ⟨rfl, rfl, rfl⟩

theorem Reversible.congr {disk₁ : Disk} (hRegister : disk₁.register = disk.register)
    (hLedger : disk₁.ledger = disk.ledger) (hLegacy : disk₁.legacy = disk.legacy) :
    Reversible rt disk₁ action ↔ Reversible rt disk action := by
  cases action with
  | DEBIT _ _ _ => simp only [Reversible, hRegister]
  | CREDIT _ => simp only [Reversible, Disk.ReadContract, hLedger, hLegacy]
  | _ => exact Iff.rfl

/-- A verified pre-state is the stored state when nothing else has its hash, and it has the
checksum of the stored state. -/
theorem carried_verified
    (hVerify : Verify rt disk (fun _ => none) contract = .ok mapStates)
    (hPerforms : contract.Performs action)
    (hFree : ∀ hashAddress nType vchData, action = .CREATE hashAddress nType vchData →
      disk.register.states hashAddress = none) :
    Carried rt disk.register.states contract action ↔
      Distinguishes rt disk.register.states contract ∧
        SameChecksum rt disk.register.states contract := by
  constructor
  · intro h
    have hStored : ∀ action' hashAddress prestate current, contract.Performs action' →
        action'.target rt contract.hashCaller = some hashAddress →
        contract.prestate = some prestate →
        disk.register.states hashAddress = some current → prestate = current := by
      intro action' hashAddress prestate current hPerforms' hTarget hPre hCurrent
      obtain rfl := hPerforms.inj hPerforms'
      have hOther : ∀ hashAddress nType vchData, action ≠ .CREATE hashAddress nType vchData := by
        intro hashCreated nType vchData hCreate
        subst hCreate
        obtain rfl := Option.some.inj hTarget
        rw [hFree _ _ _ rfl] at hCurrent
        cases hCurrent
      rw [h hashAddress hTarget hOther, hPre] at hCurrent
      exact Option.some.inj hCurrent
    constructor
    · intro action' hashAddress prestate current hPerforms' hTarget hPre hCurrent _
      rw [hStored _ _ _ _ hPerforms' hTarget hPre hCurrent]
    · intro action' hashAddress prestate current hPerforms' hTarget hPre hCurrent
      rw [hStored _ _ _ _ hPerforms' hTarget hPre hCurrent]
  · intro h hashAddress hTarget hOther
    obtain ⟨hHash, hChecksum⟩ := h
    obtain ⟨fOwner, prestate, current, -, hPre, hRead, hEqual, -⟩ :=
      (Verify.verified hVerify hPerforms).moves hTarget hOther
    have hCurrent : disk.register.states hashAddress = some current := hRead
    have hBytes := hHash _ _ _ _ hPerforms hTarget hPre hCurrent (beq_iff_eq.mp hEqual)
    have hSum := hChecksum _ _ _ _ hPerforms hTarget hPre hCurrent
    have hState : prestate = { current with hashChecksum := prestate.hashChecksum } :=
      State.hashBytes_inj hBytes
    rw [hCurrent, hPre, hState, hSum]

/-- `Rollback` takes the executed contract back. -/
def Inverts (rt : Runtime) (disk disk' : Disk) (contract : Contract) : Prop :=
  ∃ disk'', Rollback rt disk' contract = .ok disk'' ∧ Restored disk disk''

theorem rollback_restores_iff {nCost nCost' : UInt64}
    (hVerify : Verify rt disk (fun _ => none) contract = .ok mapStates)
    (hExecute : Execute rt disk contract nCost = .ok (disk', nCost')) :
    Inverts rt disk disk' contract ↔
      Distinguishes rt disk.register.states contract ∧
        SameChecksum rt disk.register.states contract ∧
          ∀ action, contract.Performs action → Reversible rt disk action := by
  obtain ⟨d, c, disk₁, before, after, hDecode, hEnd, hValidate, hAccepted⟩ :=
    Execute.accepted hExecute
  obtain ⟨hRegister, hLedger, hLegacy⟩ := restored_validate hValidate
  have hPerforms : contract.Performs d.action := ⟨d, c, hDecode, rfl⟩
  have hFree : ∀ hashAddress nType vchData, d.action = .CREATE hashAddress nType vchData →
      disk.register.states hashAddress = none := by
    intro hashAddress nType vchData hCreate
    have hCommit := hAccepted.commit
    rw [hCreate] at hCommit
    simp only [Action.commit, Create.Commit, map_eq_ok, bind_eq_ok, reject_eq_ok, Prod.exists,
      Bool.not_eq_true] at hCommit
    obtain ⟨_, _, ⟨_, -, _, hFree, -⟩, -⟩ := hCommit
    rw [← hRegister]
    exact Option.isNone_iff_eq_none.mp (by simpa [RegisterDB.HasState] using hFree)
  have hReversible : (∀ action, contract.Performs action → Reversible rt disk action) ↔
      Reversible rt disk₁ d.action := by
    rw [Reversible.congr hRegister hLedger hLegacy]
    constructor
    · intro h
      exact h _ hPerforms
    · intro h action hPerforms'
      rwa [hPerforms'.inj hPerforms]
  rw [← and_assoc, ← carried_verified hVerify hPerforms hFree, hReversible, ← hRegister,
    ← undo_iff hAccepted]
  -- Apart from the validations, what is rolled back is the action.
  have hUnvalidate : unvalidate disk' d.validated =
      { disk' with contract := (unvalidate disk' d.validated).contract } := by
    cases d.validated <;> rfl
  have hContracts := unvalidate_validate hValidate hAccepted.validations
  constructor
  · intro h
    obtain ⟨disk'', hRollback, hRestored⟩ := h
    obtain ⟨d', c', hDecode', -, hUndo⟩ := Rollback_iff.mp hRollback
    obtain ⟨rfl, -⟩ := Prod.mk.inj (Except.ok.inj (hDecode.symm.trans hDecode'))
    rw [hUnvalidate, undo_withContract, map_eq_ok] at hUndo
    obtain ⟨e, hUndo, rfl⟩ := hUndo
    refine ⟨e, hUndo, ?_, ?_, ?_, ?_, ?_, ?_⟩
    · rw [hRegister]
      exact hRestored.states
    · rw [hRegister]
      exact hRestored.trust
    · rw [hLedger]
      exact hRestored.proofs
    · rw [hLedger]
      exact hRestored.claimed
    · rw [hLedger]
      exact hRestored.sequence
    · rw [undo_contract hUndo, hAccepted.validations]
  · intro h
    obtain ⟨e, hUndo, hRestored⟩ := h
    refine ⟨{ e with contract := (unvalidate disk' d.validated).contract }, ?_, ?_, ?_, ?_, ?_, ?_,
      hContracts⟩
    · refine Rollback_iff.mpr ⟨d, c, hDecode, fun _ _ => hEnd, ?_⟩
      rw [hUnvalidate, undo_withContract, hUndo, map_ok]
    · rw [← hRegister]
      exact hRestored.states
    · rw [← hRegister]
      exact hRestored.trust
    · rw [← hLedger]
      exact hRestored.proofs
    · rw [← hLedger]
      exact hRestored.claimed
    · rw [← hLedger]
      exact hRestored.sequence

/-! ## A payment, and one to whoever meets a condition -/

def payPurse : Call where
  rt := exampleRuntime
  contract := (payment.contract exampleRuntime 0).toOption.getD {}

/-- The payment of alice is rolled back. -/
theorem rollback_restores_iff_silver :
    Inverts exampleRuntime fundedDisk (payPurse.apply fundedDisk) payPurse.contract := by
  have hPerforms : payPurse.contract.Performs (.DEBIT silver purse 7) :=
    Contract.performs_of_decode (by decide +kernel)
  have hExecutes : Executes fundedDisk payPurse (payPurse.apply fundedDisk) :=
    executes_apply (by decide +kernel)
  obtain ⟨nCost, hExecute⟩ := hExecutes
  refine (rollback_restores_iff (eq_ok_of_isOk (a := fun _ => none) (by decide +kernel)) hExecute).mpr
    ⟨distinguishes_of_sameFields hPerforms (by decide +kernel), ?_, ?_⟩
  · intro action hashAddress prestate current hPerforms' hTarget hPre hCurrent
    obtain rfl := hPerforms.inj hPerforms'
    obtain rfl := Option.some.inj hTarget
    have hStored : payPurse.contract.prestate = fundedDisk.register.states silver := by decide +kernel
    have hSame : prestate = current := Option.some.inj (hPre.symm.trans (hStored.trans hCurrent))
    rw [hSame]
  · intro action hPerforms'
    obtain rfl := hPerforms.inj hPerforms'
    have hPurse : (fundedDisk.register.ReadState purse).any State.IsNull = false := by decide +kernel
    intro state hState
    rw [hState] at hPurse
    exact hPurse

/-- Alice debits 7 silver to the wildcard address, for whoever meets a condition. -/
def payAnyone : Call where
  rt := exampleRuntime
  contract :=
    { payPurse.contract with
      ssOperation :=
        { vchData := FixedWidth.encode OP.CONDITION ++ FixedWidth.encode OP.DEBIT ++
            FixedWidth.encode silver ++ FixedWidth.encode WILDCARD_ADDRESS ++
            FixedWidth.encode (7 : UInt64) ++ FixedWidth.encode (0 : UInt64) }
      ssCondition := { vchData := [0x00] } }

/-- No register is at the wildcard address, so the debit is not rolled back. -/
theorem rollback_of_wildcard :
    (Verify exampleRuntime fundedDisk (fun _ => none) payAnyone.contract).isOk = true ∧
      Executes fundedDisk payAnyone (payAnyone.apply fundedDisk) ∧
        ¬ Inverts exampleRuntime fundedDisk (payAnyone.apply fundedDisk) payAnyone.contract := by
  refine ⟨by decide +kernel, executes_apply (by decide +kernel), ?_⟩
  intro hInverts
  obtain ⟨disk, hRollback, -⟩ := hInverts
  have hFails : (Rollback exampleRuntime (payAnyone.apply fundedDisk) payAnyone.contract).isOk =
      false := by decide +kernel
  rw [hRollback] at hFails
  cases hFails

end Nexus.Safety
