import Nexus.Register.Rollback
import Nexus.Register.Verified

/-!
# Undone contracts

What `Rollback` does, in the terms of actions: it decodes the contract again,
erases the validation of its prefix, and undoes its action.

## Main results

* `rollbackPrimitive_iff`: the sixteen primitives.
* `Rollback_iff`: a whole contract.
-/

namespace Nexus.Register

open Nexus.Lib.Bytes
open Nexus.Lib.Checked
open Nexus.Util
open Nexus.Operation
open Nexus.LLD

/-- Write the pre-state of a contract back. -/
def restore (rt : Runtime) (disk : Disk) (contract : Contract) (hashAddress : Address) :
    Result Disk := do
  let state ← demand contract.prestate (.error "")
  return commitState rt disk state hashAddress

/-- The inverse of an action. -/
def undo (rt : Runtime) (disk : Disk) (contract : Contract) : Action → Result Disk
  | .WRITE hashAddress _ => restore rt disk contract hashAddress
  | .APPEND hashAddress _ => restore rt disk contract hashAddress
  | .CREATE hashAddress _ _ => .ok { disk with register := disk.register.EraseState hashAddress }
  | .TRANSFER hashAddress hashTransfer _ => do
      let disk ← restore rt disk contract hashAddress
      if hashTransfer ≠ WILDCARD_ADDRESS then rollbackEvent disk "" hashTransfer else .ok disk
  | .CLAIM hashTx nContract hashAddress =>
      restore rt { disk with ledger := disk.ledger.EraseProof hashAddress hashTx nContract }
        contract hashAddress
  | .COINBASE hashGenesis =>
      if contract.hashCaller ≠ hashGenesis then rollbackEvent disk "" hashGenesis else .ok disk
  | .TRUST _ _ _ => do
      let state ← demand contract.prestate (.error "")
      return { disk with register := RegisterDB.WriteTrust rt disk.register state.hashOwner state }
  | .GENESIS _ => do
      let state ← demand contract.prestate (.error "")
      let hashAddress := RegisterDB.trustAddress rt state.hashOwner
      return { disk with
        register :=
          (disk.register.WriteState rt hashAddress state).EraseTrust contract.hashCaller }
  | .DEBIT hashFrom hashTo _ => do
      let disk ← restore rt disk contract hashFrom
      let stateTo ← demand (disk.register.ReadState hashTo) (.error "")
      if hashTo ≠ WILDCARD_ADDRESS then rollbackEvent disk "" stateTo.hashOwner else .ok disk
  | .CREDIT credit => do
      let disk :=
        { disk with
          ledger := disk.ledger.EraseProof credit.hashProof credit.hashTx credit.nContract }
      let disk ← restore rt disk contract credit.hashAccount
      let debit ← disk.ReadContract rt credit.hashTx credit.nContract
      let ledger ← rollbackClaimed disk.ledger debit credit.hashTx credit.nContract credit.nCredit
      return { disk with ledger }
  | .MIGRATE hashTx migrate => do
      let disk ← restore rt disk contract migrate.hashAccount
      return { disk with
        register := disk.register.EraseTrust contract.hashCaller
        ledger :=
          (disk.ledger.EraseProof WILDCARD_ADDRESS hashTx 0).EraseStake contract.hashCaller
        legacy := disk.legacy.EraseTrustConversion migrate.hashTrust }
  | .AUTHORIZE => .ok disk
  | .FEE hashAddress _ => restore rt disk contract hashAddress
  | .LEGACY hashAddress _ => restore rt disk contract hashAddress

variable {rt : Runtime} {disk disk' : Disk} {contract c : Contract} {action : Action}
  {hashAddress : Address} {strMissing : String}

theorem rollbackState_iff (h0 : contract.resetRegisters = contract) {state : State} :
    rollbackState strMissing contract = .ok state ↔ contract.prestate = some state := by
  simp only [rollbackState, bind_eq_ok, Prod.exists, pure_eq_ok]
  constructor
  · intro h
    obtain ⟨state', c, hRead, rfl⟩ := h
    exact (Contract.preState_eq_ok h0 hRead).1
  · intro hPre
    obtain ⟨n, hRead⟩ := Contract.preState_of_prestate h0 hPre strMissing
    exact ⟨state, _, hRead, rfl⟩

/-- The register is restored after the operands, where its script is still at the beginning. -/
theorem rollbackRegister_skip (h0 : contract.resetRegisters = contract) (n : Nat) :
    rollbackRegister rt disk strMissing hashAddress (contract.skip n) = .ok disk' ↔
      restore rt disk contract hashAddress = .ok disk' := by
  simp only [rollbackRegister, restore, bind_eq_ok, demand_eq_ok,
    rollbackState_iff (Contract.begins_skip h0 n), Contract.prestate_skip]

/-- The message of a failure does not matter for an accepting rollback. -/
theorem rollbackEvent_message (strMessage : String) {hashEvent : Uint256} :
    rollbackEvent disk strMessage hashEvent = .ok disk' ↔
      rollbackEvent disk "" hashEvent = .ok disk' := by
  simp only [rollbackEvent, bind_eq_ok, demand_eq_ok]

/-! ## Primitives -/

/-- The data of `WRITE` and `APPEND` is seeked over by its size. -/
theorem rollbackData_iff (h0 : contract.resetRegisters = contract) :
    rollbackData rt disk strMissing contract = .ok (c, disk') ↔
      ∃ hashAddress c₁ vchData, contract.extract Uint256 = .ok (hashAddress, c₁) ∧
        c₁.extractBytes = .ok (vchData, c) ∧ restore rt disk contract hashAddress = .ok disk' := by
  simp only [rollbackData, bind_eq_ok, Prod.exists, pure_eq_ok, Prod.mk.injEq]
  constructor
  · intro h
    obtain ⟨hashAddress, c₁, hAddress, nSize, c₂, hSize, c₃, hSeek, d, hRegister, rfl, rfl⟩ := h
    obtain ⟨vchData, hData⟩ := Contract.exists_extractBytes.mpr ⟨nSize, c₂, hSize, hSeek⟩
    refine ⟨hashAddress, c₁, vchData, hAddress, hData, ?_⟩
    obtain ⟨-, -, rfl⟩ := Contract.extract_eq_ok.mp hAddress
    obtain ⟨n, -, rfl⟩ := Contract.extractBytes_skip hData
    exact (rollbackRegister_skip (Contract.begins_skip h0 _) n).mp hRegister
  · intro h
    obtain ⟨hashAddress, c₁, vchData, hAddress, hData, hRestore⟩ := h
    obtain ⟨nSize, c₂, hSize, hSeek⟩ := Contract.exists_extractBytes.mp ⟨vchData, hData⟩
    refine ⟨hashAddress, c₁, hAddress, nSize, c₂, hSize, c, hSeek, disk', ?_, rfl, rfl⟩
    obtain ⟨-, -, rfl⟩ := Contract.extract_eq_ok.mp hAddress
    obtain ⟨n, -, rfl⟩ := Contract.extractBytes_skip hData
    exact (rollbackRegister_skip (Contract.begins_skip h0 _) n).mpr hRestore

theorem rollbackStake_iff (h0 : contract.resetRegisters = contract) {nSeek : Nat} :
    rollbackStake rt disk strMissing (nSeek + 24) contract = .ok (c, disk') ↔
      ∃ action, contract.readStake nSeek = .ok (action, c) ∧
        undo rt disk contract action = .ok disk' := by
  simp only [rollbackStake, Contract.readStake_iff, bind_eq_ok, pure_eq_ok, Prod.mk.injEq,
    Contract.seek_eq_ok, and_assoc, exists_and_left, exists_eq_left, undo, demand_eq_ok,
    rollbackState_iff (Contract.begins_skip h0 _), Contract.prestate_skip]
  constructor
  · intro h
    obtain ⟨hFits, state, hPre, rfl, rfl⟩ := h
    exact ⟨hFits, rfl, state, hPre, rfl⟩
  · intro h
    obtain ⟨hFits, rfl, state, hPre, rfl⟩ := h
    exact ⟨hFits, state, hPre, rfl, rfl⟩

theorem rollbackFirstStake_iff (h0 : contract.resetRegisters = contract) {nSeek : Nat} :
    rollbackFirstStake rt disk strMissing (nSeek + 8) contract = .ok (c, disk') ↔
      ∃ action, contract.readFirstStake nSeek = .ok (action, c) ∧
        undo rt disk contract action = .ok disk' := by
  simp only [rollbackFirstStake, Contract.readFirstStake_iff, bind_eq_ok, pure_eq_ok, Prod.mk.injEq,
    Contract.seek_eq_ok, and_assoc, exists_and_left, exists_eq_left, undo, demand_eq_ok,
    rollbackState_iff (Contract.begins_skip h0 _), Contract.prestate_skip, Contract.hashCaller_skip]
  constructor
  · intro h
    obtain ⟨hFits, state, hPre, rfl, rfl⟩ := h
    exact ⟨hFits, rfl, state, hPre, rfl⟩
  · intro h
    obtain ⟨hFits, rfl, state, hPre, rfl⟩ := h
    exact ⟨hFits, state, hPre, rfl, rfl⟩

theorem rollbackTRANSFER_iff (h0 : contract.resetRegisters = contract) :
    rollbackTRANSFER rt disk contract = .ok (c, disk') ↔
      ∃ action, contract.readAction .TRANSFER = .ok (action, c) ∧
        undo rt disk contract action = .ok disk' := by
  simp only [rollbackTRANSFER, Contract.readAction_TRANSFER, bind_eq_ok, Prod.exists, pure_eq_ok,
    ite_eq_ok, Except.ok.injEq, Prod.mk.injEq, Contract.extract_eq_ok, Contract.seek_eq_ok, and_assoc,
    exists_and_left, exists_eq_left, Contract.skip_skip, Contract.peek_skip, Contract.fits_skip,
    width_uint256, Nat.reduceAdd, rollbackRegister_skip h0, undo,
    rollbackEvent_message "OP::TRANSFER: failed to rollback event"]
  constructor
  · intro h
    obtain ⟨-, -, hFits, d, hRestore, ⟨hTo, d', hEvent, rfl, rfl⟩ | ⟨hTo, rfl, rfl⟩⟩ := h
    · exact ⟨hFits, rfl, d, hRestore, .inl ⟨hTo, hEvent⟩⟩
    · exact ⟨hFits, rfl, d, hRestore, .inr ⟨hTo, rfl⟩⟩
  · intro h
    obtain ⟨hFits, rfl, d, hRestore, ⟨hTo, hEvent⟩ | ⟨hTo, rfl⟩⟩ := h
    · exact ⟨hFits.mono (by decide), hFits.mono (by decide), hFits, d, hRestore,
        .inl ⟨hTo, disk', hEvent, rfl, rfl⟩⟩
    · exact ⟨hFits.mono (by decide), hFits.mono (by decide), hFits, d, hRestore,
        .inr ⟨hTo, rfl, rfl⟩⟩

theorem rollbackCOINBASE_iff :
    rollbackCOINBASE disk contract = .ok (c, disk') ↔
      ∃ action, contract.readAction .COINBASE = .ok (action, c) ∧
        undo rt disk contract action = .ok disk' := by
  simp only [rollbackCOINBASE, Contract.readAction_COINBASE, bind_eq_ok, Prod.exists, pure_eq_ok,
    ite_eq_ok, Except.ok.injEq, Prod.mk.injEq, Contract.extract_eq_ok, Contract.seek_eq_ok, and_assoc,
    exists_and_left, exists_eq_left, Contract.skip_skip, Contract.fits_skip, width_uint256,
    Nat.reduceAdd, undo, Contract.hashCaller_skip]
  constructor
  · intro h
    obtain ⟨-, hFits, ⟨hCaller, d, hEvent, rfl, rfl⟩ | ⟨hCaller, rfl, rfl⟩⟩ := h
    · exact ⟨hFits, rfl, .inl ⟨hCaller, hEvent⟩⟩
    · exact ⟨hFits, rfl, .inr ⟨hCaller, rfl⟩⟩
  · intro h
    obtain ⟨hFits, rfl, ⟨hCaller, hEvent⟩ | ⟨hCaller, rfl⟩⟩ := h
    · exact ⟨hFits.mono (by decide), hFits, .inl ⟨hCaller, disk', hEvent, rfl, rfl⟩⟩
    · exact ⟨hFits.mono (by decide), hFits, .inr ⟨hCaller, rfl, rfl⟩⟩

theorem rollbackDEBIT_iff (h0 : contract.resetRegisters = contract) :
    rollbackDEBIT rt disk contract = .ok (c, disk') ↔
      ∃ action, contract.readAction .DEBIT = .ok (action, c) ∧
        undo rt disk contract action = .ok disk' := by
  simp only [rollbackDEBIT, Contract.readAction_DEBIT, bind_eq_ok, Prod.exists, pure_eq_ok, demand_eq_ok,
    ite_eq_ok, Except.ok.injEq, Prod.mk.injEq, Contract.extract_eq_ok, Contract.seek_eq_ok, and_assoc,
    exists_and_left, exists_eq_left, Contract.skip_skip, Contract.peek_skip, Contract.fits_skip,
    width_uint256, Nat.reduceAdd, rollbackRegister_skip h0, undo,
    rollbackEvent_message "OP::DEBIT: failed to rollback event"]
  constructor
  · intro h
    obtain ⟨-, -, hFits, d, hRestore, stateTo, hTo, ⟨hOther, d', hEvent, rfl, rfl⟩ |
      ⟨hOther, rfl, rfl⟩⟩ := h
    · exact ⟨hFits, rfl, d, hRestore, stateTo, hTo, .inl ⟨hOther, hEvent⟩⟩
    · exact ⟨hFits, rfl, d, hRestore, stateTo, hTo, .inr ⟨hOther, rfl⟩⟩
  · intro h
    obtain ⟨hFits, rfl, d, hRestore, stateTo, hTo, ⟨hOther, hEvent⟩ | ⟨hOther, rfl⟩⟩ := h
    · exact ⟨hFits.mono (by decide), hFits.mono (by decide), hFits, d, hRestore, stateTo, hTo,
        .inl ⟨hOther, disk', hEvent, rfl, rfl⟩⟩
    · exact ⟨hFits.mono (by decide), hFits.mono (by decide), hFits, d, hRestore, stateTo, hTo,
        .inr ⟨hOther, rfl, rfl⟩⟩

theorem rollbackCREDIT_iff (h0 : contract.resetRegisters = contract) :
    rollbackCREDIT rt disk contract = .ok (c, disk') ↔
      ∃ action, contract.readAction .CREDIT = .ok (action, c) ∧
        undo rt disk contract action = .ok disk' := by
  simp only [rollbackCREDIT, Contract.readAction_CREDIT, bind_eq_ok, Prod.exists, pure_eq_ok,
    Prod.mk.injEq, Credit.operands_eq_ok, and_assoc, exists_and_left, exists_eq_left,
    rollbackRegister_skip h0, undo]
  constructor
  · intro h
    obtain ⟨hFits, d, hRestore, debit, hRead, ledger, hClaimed, rfl, rfl⟩ := h
    exact ⟨hFits, rfl, d, hRestore, debit, hRead, ledger, hClaimed, rfl⟩
  · intro h
    obtain ⟨hFits, rfl, d, hRestore, debit, hRead, ledger, hClaimed, rfl⟩ := h
    exact ⟨hFits, d, hRestore, debit, hRead, ledger, hClaimed, rfl, rfl⟩

theorem rollbackMIGRATE_iff (h0 : contract.resetRegisters = contract) :
    rollbackMIGRATE rt disk contract = .ok (c, disk') ↔
      ∃ action, contract.readAction .MIGRATE = .ok (action, c) ∧
        undo rt disk contract action = .ok disk' := by
  simp only [rollbackMIGRATE, Contract.readAction_MIGRATE, bind_eq_ok, Prod.exists, pure_eq_ok,
    Prod.mk.injEq, Contract.extract_eq_ok, Contract.seek_eq_ok, and_assoc, exists_and_left,
    exists_eq_left, Contract.skip_skip, Contract.peek_skip, Contract.fits_skip, width_uint256,
    width_uint512, width_uint576, Nat.reduceAdd, rollbackRegister_skip h0, undo,
    Contract.hashCaller_skip]
  constructor
  · intro h
    obtain ⟨-, -, -, hFits, d, hRestore, rfl, rfl⟩ := h
    exact ⟨hFits, rfl, d, hRestore, rfl⟩
  · intro h
    obtain ⟨hFits, rfl, d, hRestore, rfl⟩ := h
    exact ⟨hFits.mono (by decide), hFits.mono (by decide), hFits.mono (by decide), hFits, d, hRestore,
      rfl, rfl⟩

/-- Every primitive undoes its action. -/
theorem rollbackPrimitive_iff (h0 : contract.resetRegisters = contract) (op : Primitive) :
    rollbackPrimitive rt disk contract op = .ok (c, disk') ↔
      ∃ action, contract.readAction op = .ok (action, c) ∧
        undo rt disk contract action = .ok disk' := by
  cases op with
  | WRITE =>
      simp only [rollbackPrimitive, rollbackData_iff h0, Contract.readAction, bind_eq_ok, Prod.exists,
        pure_eq_ok, Prod.mk.injEq]
      constructor
      · intro h
        obtain ⟨hashAddress, c₁, vchData, hAddress, hData, hRestore⟩ := h
        exact ⟨_, ⟨hashAddress, c₁, hAddress, vchData, c, hData, rfl, rfl⟩, hRestore⟩
      · intro h
        obtain ⟨_, ⟨hashAddress, c₁, hAddress, vchData, _, hData, rfl, rfl⟩, hRestore⟩ := h
        exact ⟨hashAddress, c₁, vchData, hAddress, hData, hRestore⟩
  | APPEND =>
      simp only [rollbackPrimitive, rollbackData_iff h0, Contract.readAction, bind_eq_ok, Prod.exists,
        pure_eq_ok, Prod.mk.injEq]
      constructor
      · intro h
        obtain ⟨hashAddress, c₁, vchData, hAddress, hData, hRestore⟩ := h
        exact ⟨_, ⟨hashAddress, c₁, hAddress, vchData, c, hData, rfl, rfl⟩, hRestore⟩
      · intro h
        obtain ⟨_, ⟨hashAddress, c₁, hAddress, vchData, _, hData, rfl, rfl⟩, hRestore⟩ := h
        exact ⟨hashAddress, c₁, vchData, hAddress, hData, hRestore⟩
  | CREATE =>
      simp only [rollbackPrimitive, rollbackCREATE, Contract.readAction, bind_eq_ok, Prod.exists,
        pure_eq_ok, Prod.mk.injEq]
      constructor
      · intro h
        obtain ⟨hashAddress, c₁, hAddress, nType, c₂, hType, nSize, c₃, hSize, c₄, hSeek, rfl, rfl⟩ := h
        obtain ⟨vchData, hData⟩ := Contract.exists_extractBytes.mpr ⟨nSize, c₃, hSize, hSeek⟩
        exact ⟨_, ⟨hashAddress, c₁, hAddress, nType, c₂, hType, vchData, c₄, hData, rfl, rfl⟩, rfl⟩
      · intro h
        obtain ⟨_, ⟨hashAddress, c₁, hAddress, nType, c₂, hType, vchData, c₃, hData, rfl, rfl⟩,
          hUndo⟩ := h
        obtain ⟨nSize, c₄, hSize, hSeek⟩ := Contract.exists_extractBytes.mp ⟨vchData, hData⟩
        exact ⟨hashAddress, c₁, hAddress, nType, c₂, hType, nSize, c₄, hSize, c₃, hSeek, rfl,
          Except.ok.inj hUndo⟩
  | TRANSFER => exact rollbackTRANSFER_iff h0
  | CLAIM =>
      simp only [rollbackPrimitive, rollbackCLAIM, Contract.readAction_CLAIM, bind_eq_ok, Prod.exists,
        pure_eq_ok, Prod.mk.injEq, Contract.extract_eq_ok, and_assoc, exists_and_left, exists_eq_left,
        Contract.skip_skip, Contract.peek_skip, Contract.fits_skip, width_uint256, width_uint512,
        width_uint32, Nat.reduceAdd, rollbackRegister_skip h0, undo]
      constructor
      · intro h
        obtain ⟨-, -, hFits, d, hRestore, rfl, rfl⟩ := h
        exact ⟨hFits, rfl, hRestore⟩
      · intro h
        obtain ⟨hFits, rfl, hRestore⟩ := h
        exact ⟨hFits.mono (by decide), hFits.mono (by decide), hFits, disk', hRestore, rfl, rfl⟩
  | COINBASE => exact rollbackCOINBASE_iff
  | TRUST => exact rollbackStake_iff h0
  | TRUSTPOOL => exact rollbackStake_iff h0
  | GENESIS => exact rollbackFirstStake_iff h0
  | GENESISPOOL => exact rollbackFirstStake_iff h0
  | DEBIT => exact rollbackDEBIT_iff h0
  | CREDIT => exact rollbackCREDIT_iff h0
  | MIGRATE => exact rollbackMIGRATE_iff h0
  | AUTHORIZE =>
      simp only [rollbackPrimitive, rollbackAUTHORIZE, Contract.readAction_AUTHORIZE, bind_eq_ok,
        pure_eq_ok, Prod.mk.injEq, Contract.seek_eq_ok, and_assoc, exists_and_left, exists_eq_left,
        undo, Except.ok.injEq]
      constructor
      · intro h
        obtain ⟨hFits, rfl, rfl⟩ := h
        exact ⟨hFits, rfl, rfl⟩
      · intro h
        obtain ⟨hFits, rfl, rfl⟩ := h
        exact ⟨hFits, rfl, rfl⟩
  | FEE =>
      simp only [rollbackPrimitive, rollbackFEE, Contract.readAction_FEE, bind_eq_ok, Prod.exists,
        pure_eq_ok, Prod.mk.injEq, Contract.extract_eq_ok, Contract.seek_eq_ok, and_assoc,
        exists_and_left, exists_eq_left, Contract.skip_skip, Contract.fits_skip, width_uint256,
        Nat.reduceAdd, rollbackRegister_skip h0, undo]
      constructor
      · intro h
        obtain ⟨-, hFits, d, hRestore, rfl, rfl⟩ := h
        exact ⟨hFits, rfl, hRestore⟩
      · intro h
        obtain ⟨hFits, rfl, hRestore⟩ := h
        exact ⟨hFits.mono (by decide), hFits, disk', hRestore, rfl, rfl⟩
  | LEGACY =>
      simp only [rollbackPrimitive, rollbackLEGACY, Contract.readAction, bind_eq_ok, Prod.exists,
        pure_eq_ok, Prod.mk.injEq, Contract.extract_eq_ok, Contract.seek_eq_ok, and_assoc,
        exists_and_left, exists_eq_left, Contract.skip_skip, Contract.peek_skip, Contract.fits_skip,
        width_uint256, width_uint64, Nat.reduceAdd]
      constructor
      · intro h
        obtain ⟨h32, h40, vchData, c₁, hData, d, hRegister, rfl, rfl⟩ := h
        obtain ⟨n, -, hSkip⟩ := Contract.extractBytes_skip hData
        refine ⟨h32, h40, _, ⟨vchData, c₁, hData, rfl, rfl⟩, ?_⟩
        rw [hSkip] at hRegister
        exact (rollbackRegister_skip (Contract.begins_skip h0 _) n).mp hRegister
      · intro h
        obtain ⟨h32, h40, _, ⟨vchData, c₁, hData, rfl, rfl⟩, hRestore⟩ := h
        obtain ⟨n, -, hSkip⟩ := Contract.extractBytes_skip hData
        refine ⟨h32, h40, vchData, c₁, hData, disk', ?_, rfl, rfl⟩
        rw [hSkip]
        exact (rollbackRegister_skip (Contract.begins_skip h0 _) n).mpr hRestore

/-! ## Whole contracts -/

/-- Erase the validation of a prefix. -/
def unvalidate (disk : Disk) : Option ContractKey → Disk
  | some key => { disk with contract := disk.contract.EraseContract key }
  | none => disk

theorem undo_skip {n : Nat} :
    undo rt disk (contract.reset.skip n) action = undo rt disk contract action := by
  cases action <;> rfl

/-- What an inverse does to the other databases does not depend on the validations. -/
theorem undo_withContract (db : ContractDB) :
    undo rt { disk with contract := db } contract action =
      (undo rt disk contract action).map fun disk => { disk with contract := db } := by
  have hRestore (disk : Disk) (hashAddress : Address) :
      restore rt { disk with contract := db } contract hashAddress =
        (restore rt disk contract hashAddress).map fun disk => { disk with contract := db } := by
    simp only [restore, Lib.Checked.map_bind]
    rfl
  have hEvent (disk : Disk) (hashEvent : Uint256) :
      rollbackEvent { disk with contract := db } "" hashEvent =
        (rollbackEvent disk "" hashEvent).map fun disk => { disk with contract := db } := by
    simp only [rollbackEvent, Lib.Checked.map_bind]
    rfl
  cases action with
  | WRITE hashAddress _ => exact hRestore ..
  | APPEND hashAddress _ => exact hRestore ..
  | CREATE _ _ _ => rfl
  | TRANSFER hashAddress hashTransfer _ =>
      simp only [undo, hRestore, Lib.Checked.bind_map, Lib.Checked.map_bind]
      split
      · simp only [hEvent]
      · rfl
  | CLAIM hashTx nContract hashAddress =>
      exact hRestore { disk with ledger := disk.ledger.EraseProof hashAddress hashTx nContract } _
  | COINBASE hashGenesis =>
      simp only [undo]
      split
      · exact hEvent ..
      · rfl
  | TRUST _ _ _ =>
      simp only [undo, Lib.Checked.map_bind]
      rfl
  | GENESIS _ =>
      simp only [undo, Lib.Checked.map_bind]
      rfl
  | DEBIT _ _ _ =>
      simp only [undo, hRestore, Lib.Checked.bind_map, Lib.Checked.map_bind]
      split
      · simp only [hEvent]
      · rfl
  | CREDIT credit =>
      have hErase := hRestore { disk with
        ledger := disk.ledger.EraseProof credit.hashProof credit.hashTx credit.nContract }
          credit.hashAccount
      simp only at hErase
      simp only [undo, hErase, Lib.Checked.bind_map, Lib.Checked.map_bind]
      rfl
  | MIGRATE _ _ =>
      simp only [undo, hRestore, Lib.Checked.bind_map, Lib.Checked.map_bind]
      rfl
  | AUTHORIZE => rfl
  | FEE _ _ => exact hRestore ..
  | LEGACY _ _ => exact hRestore ..

/-- An inverse leaves the validations alone. -/
theorem undo_contract (h : undo rt disk contract action = .ok disk') :
    disk'.contract = disk.contract := by
  have hSame : undo rt disk contract action =
      (undo rt disk contract action).map fun d => { d with contract := disk.contract } :=
    undo_withContract disk.contract
  rw [h, map_ok, Except.ok.injEq] at hSame
  rw [hSame]

theorem rollbackPrefix_iff {nOP : UInt8} :
    rollbackPrefix disk contract = .ok (nOP, c, disk') ↔
      ∃ validated, contract.readPrefix = .ok ((nOP, validated), c) ∧
        disk' = unvalidate disk validated := by
  simp only [rollbackPrefix, Contract.readPrefix, bind_eq_ok, Prod.exists, ite_eq_ok, pure_eq_ok,
    Except.ok.injEq, Prod.mk.injEq, Contract.extract_eq_ok, and_assoc,
    exists_and_left, exists_eq_left, Contract.skip_skip, Contract.peek_skip, Contract.fits_skip,
    width_uint8, width_uint512, width_uint32, Nat.reduceAdd]
  refine and_congr_right fun _ => ⟨?_, ?_⟩
  · intro h
    rcases h with ⟨hOP, hFits, rfl, rfl, rfl⟩ | ⟨hOP, ⟨hOP', h65, h69, hFits, rfl, rfl, rfl⟩ |
      ⟨hOP', rfl, rfl, rfl⟩⟩
    · exact ⟨_, .inl ⟨hOP, hFits, rfl, rfl, rfl⟩, rfl⟩
    · exact ⟨_, .inr ⟨hOP, .inl ⟨hOP', h65, h69, hFits, rfl, rfl, rfl⟩⟩, rfl⟩
    · exact ⟨_, .inr ⟨hOP, .inr ⟨hOP', rfl, rfl, rfl⟩⟩, rfl⟩
  · intro h
    obtain ⟨_, ⟨hOP, hFits, rfl, rfl, rfl⟩ | ⟨hOP, ⟨hOP', h65, h69, hFits, rfl, rfl, rfl⟩ |
      ⟨hOP', rfl, rfl, rfl⟩⟩, rfl⟩ := h
    · exact .inl ⟨hOP, hFits, rfl, rfl, rfl⟩
    · exact .inr ⟨hOP, .inl ⟨hOP', h65, h69, hFits, rfl, rfl, rfl⟩⟩
    · exact .inr ⟨hOP, .inr ⟨hOP', rfl, rfl, rfl⟩⟩

/-- `Rollback` undoes the action of a contract and the validation of its prefix. -/
theorem Rollback_iff :
    Rollback rt disk contract = .ok disk' ↔
      ∃ d c, contract.decode = .ok (d, c) ∧
        (d.op.toOP ≠ OP.WRITE → d.op.toOP ≠ OP.APPEND → c.atEnd = true) ∧
        undo rt (unvalidate disk d.validated) contract d.action = .ok disk' := by
  have hCodes (op : Primitive) : (op ≠ .WRITE ↔ op.toOP ≠ OP.WRITE) ∧
      (op ≠ .APPEND ↔ op.toOP ≠ OP.APPEND) := by cases op <;> decide
  simp only [Rollback, catching_eq_ok, rollbackBody, bind_eq_ok, Prod.exists, reject_eq_ok, pure_eq_ok,
    not_and, Bool.not_eq_false, demand_eq_ok, Contract.decode, rollbackPrefix_iff]
  constructor
  · intro h
    obtain ⟨nOP, c, _, ⟨validated, hRead, rfl⟩, op, hOP, c', d, hPrimitive, _, hEnd, rfl⟩ := h
    obtain ⟨n, rfl⟩ := verifyPrefix_skip (verifyPrefix_iff.mpr ⟨validated, hRead⟩)
    obtain ⟨action, hAction, hUndo⟩ :=
      (rollbackPrimitive_iff (Contract.begins_skip rfl n) op).mp hPrimitive
    rw [undo_skip] at hUndo
    refine ⟨⟨validated, op, action⟩, c', ⟨nOP, validated, _, hRead, op, hOP, action, c', hAction, rfl⟩,
      ?_, hUndo⟩
    intro hWrite hAppend
    exact hEnd ((hCodes op).1.mpr hWrite) ((hCodes op).2.mpr hAppend)
  · intro h
    obtain ⟨d, _, ⟨nOP, validated, c, hRead, op, hOP, action, c', hAction, hEq⟩, hEnd, hUndo⟩ := h
    obtain ⟨rfl, rfl⟩ := Prod.mk.inj hEq
    obtain ⟨n, rfl⟩ := verifyPrefix_skip (verifyPrefix_iff.mpr ⟨validated, hRead⟩)
    have hPrimitive :=
      (rollbackPrimitive_iff (Contract.begins_skip rfl n) op).mpr
        ⟨action, hAction, undo_skip.trans hUndo⟩
    refine ⟨nOP, _, _, ⟨validated, hRead, rfl⟩, op, hOP, c', disk', hPrimitive, (), ?_, rfl⟩
    intro hWrite hAppend
    exact hEnd ((hCodes op).1.mp hWrite) ((hCodes op).2.mp hAppend)

end Nexus.Register
