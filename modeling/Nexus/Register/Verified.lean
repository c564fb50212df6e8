import Nexus.Operation.Runs
import Nexus.Register.Verify

/-!
# Verified contracts

What an accepting `Verify` did, in the terms of actions: it decoded the contract,
compared the pre-state in the script with the current state of the register that
the action moves, and put the state calculated from the current one into the map.

## Main results

* `verifyPrimitive_iff`: the sixteen primitives.
* `Verify_iff`: a whole contract.
-/

namespace Nexus.Register

open Nexus.Lib.Bytes
open Nexus.Lib.Checked
open Nexus.Util
open Nexus.Operation
open Nexus.LLD

variable {rt : Runtime} {disk : Disk} {mapStates mapStates' : States} {contract c : Contract}
  {action : Action}

/-- The register at `hashAddress` is moved from its current state, which the pre-state in
the script equals. -/
def Moves (rt : Runtime) (disk : Disk) (mapStates : States) (contract : Contract)
    (hashAddress : Address) (fOwner : Bool) (f : State → Result State) (mapStates' : States) :
    Prop :=
  ∃ prestate current state, contract.prestate = some prestate ∧
    readState disk mapStates hashAddress = some current ∧ prestate.Equal rt current = true ∧
    (fOwner = true → contract.hashCaller = prestate.hashOwner) ∧ f current = .ok state ∧
    mapStates' = Function.update mapStates hashAddress (some state)

/-- What `Verify` checks of an action and puts into the map.  Only a claim is not by the
owner of the pre-state. -/
def Verified (rt : Runtime) (disk : Disk) (mapStates : States) (contract : Contract)
    (mapStates' : States) (action : Action) : Prop :=
  match action with
  | .COINBASE _ => mapStates' = mapStates
  | .AUTHORIZE => mapStates' = mapStates
  | .CREATE hashAddress nType _ =>
      ∃ state, action.run rt contract (createdState nType contract.hashCaller) = .ok state ∧
        mapStates' = Function.update mapStates hashAddress (some state)
  | .CLAIM _ _ hashAddress =>
      Moves rt disk mapStates contract hashAddress false (action.run rt contract) mapStates'
  | _ => ∃ hashAddress, action.target rt contract.hashCaller = some hashAddress ∧
      Moves rt disk mapStates contract hashAddress true (action.run rt contract) mapStates'

/-- Of the databases only the register states are read. -/
theorem Moves.congr {disk' : Disk} {hashAddress : Address} {fOwner : Bool}
    {f : State → Result State} (hRegister : disk'.register = disk.register)
    (h : Moves rt disk mapStates contract hashAddress fOwner f mapStates') :
    Moves rt disk' mapStates contract hashAddress fOwner f mapStates' := by
  simpa only [Moves, readState, hRegister] using h

theorem Verified.congr {disk' : Disk} (hRegister : disk'.register = disk.register)
    (h : Verified rt disk mapStates contract mapStates' action) :
    Verified rt disk' mapStates contract mapStates' action := by
  cases action with
  | COINBASE _ => exact h
  | AUTHORIZE => exact h
  | CREATE _ _ _ => exact h
  | CLAIM _ _ _ => exact Moves.congr hRegister h
  | _ =>
      obtain ⟨hashAddress, hTarget, hMoves⟩ := h
      exact ⟨hashAddress, hTarget, hMoves.congr hRegister⟩

theorem verifyRegister_iff (h0 : contract.resetRegisters = contract) {strOP : String}
    {hashAddress : Address} {check : State → Result Unit} {fOwner : Bool}
    {f : State → Result State}
    (hCheck : ∀ prestate, (fOwner = true → contract.hashCaller = prestate.hashOwner) →
      check prestate = .ok ()) :
    verifyRegister rt disk mapStates strOP hashAddress check fOwner f contract = .ok mapStates' ↔
      Moves rt disk mapStates contract hashAddress fOwner f mapStates' := by
  simp only [verifyRegister, Moves, bind_eq_ok, Prod.exists, demand_eq_ok, reject_eq_ok, pure_eq_ok,
    not_and, not_not, Bool.not_eq_false]
  constructor
  · rintro ⟨prestate, c', hRead, _, -, current, hCurrent, _, hEqual, _, hOwner, state, hRun, rfl⟩
    obtain ⟨hPre, n, rfl⟩ := Contract.preState_eq_ok h0 hRead
    exact ⟨prestate, current, state, hPre, hCurrent, hEqual, hOwner, hRun, rfl⟩
  · rintro ⟨prestate, current, state, hPre, hCurrent, hEqual, hOwner, hRun, rfl⟩
    obtain ⟨n, hRead⟩ := Contract.preState_of_prestate h0 hPre
      (strOP ++ ": register state not in pre-state")
    exact ⟨prestate, _, hRead, (), hCheck prestate hOwner, current, hCurrent, (), hEqual, (),
      hOwner, state, hRun, rfl⟩

/-- A check after the operands, where the register script is still at its beginning. -/
theorem verifyRegister_skip (h0 : contract.resetRegisters = contract) {strOP : String}
    {hashAddress : Address} {fOwner : Bool} {f : State → Result State} (n : Nat) :
    verifyRegister rt disk mapStates strOP hashAddress noCheck fOwner f (contract.skip n) =
        .ok mapStates' ↔
      Moves rt disk mapStates contract hashAddress fOwner f mapStates' :=
  verifyRegister_iff (Contract.begins_skip h0 n) fun _ _ => rfl

/-! ## Primitives -/

theorem verifyWRITE_iff (h0 : contract.resetRegisters = contract) :
    verifyWRITE rt disk mapStates contract = .ok (c, mapStates') ↔
      ∃ action, contract.readAction .WRITE = .ok (action, c) ∧
        Verified rt disk mapStates contract mapStates' action := by
  simp only [verifyWRITE, Contract.readAction, bind_eq_ok, Prod.exists, pure_eq_ok, Prod.mk.injEq]
  constructor
  · rintro ⟨hashAddress, c₁, hAddress, vchData, c₂, hData, m, hVerify, rfl, rfl⟩
    refine ⟨_, ⟨hashAddress, c₁, hAddress, vchData, c₂, hData, rfl, rfl⟩, hashAddress, rfl, ?_⟩
    obtain ⟨-, -, rfl⟩ := Contract.extract_eq_ok.mp hAddress
    obtain ⟨n, -, rfl⟩ := Contract.extractBytes_skip hData
    exact (verifyRegister_skip (Contract.begins_skip h0 _) n).mp hVerify
  · rintro ⟨_, ⟨hashAddress, c₁, hAddress, vchData, c₂, hData, rfl, rfl⟩, _, hTarget, hMoves⟩
    obtain rfl := Option.some.inj hTarget
    refine ⟨hashAddress, c₁, hAddress, vchData, c₂, hData, _, ?_, rfl, rfl⟩
    obtain ⟨-, -, rfl⟩ := Contract.extract_eq_ok.mp hAddress
    obtain ⟨n, -, rfl⟩ := Contract.extractBytes_skip hData
    exact (verifyRegister_skip (Contract.begins_skip h0 _) n).mpr hMoves

theorem verifyAPPEND_iff (h0 : contract.resetRegisters = contract) :
    verifyAPPEND rt disk mapStates contract = .ok (c, mapStates') ↔
      ∃ action, contract.readAction .APPEND = .ok (action, c) ∧
        Verified rt disk mapStates contract mapStates' action := by
  simp only [verifyAPPEND, Contract.readAction, bind_eq_ok, Prod.exists, pure_eq_ok, Prod.mk.injEq]
  constructor
  · rintro ⟨hashAddress, c₁, hAddress, vchData, c₂, hData, m, hVerify, rfl, rfl⟩
    refine ⟨_, ⟨hashAddress, c₁, hAddress, vchData, c₂, hData, rfl, rfl⟩, hashAddress, rfl, ?_⟩
    obtain ⟨-, -, rfl⟩ := Contract.extract_eq_ok.mp hAddress
    obtain ⟨n, -, rfl⟩ := Contract.extractBytes_skip hData
    exact (verifyRegister_skip (Contract.begins_skip h0 _) n).mp hVerify
  · rintro ⟨_, ⟨hashAddress, c₁, hAddress, vchData, c₂, hData, rfl, rfl⟩, _, hTarget, hMoves⟩
    obtain rfl := Option.some.inj hTarget
    refine ⟨hashAddress, c₁, hAddress, vchData, c₂, hData, _, ?_, rfl, rfl⟩
    obtain ⟨-, -, rfl⟩ := Contract.extract_eq_ok.mp hAddress
    obtain ⟨n, -, rfl⟩ := Contract.extractBytes_skip hData
    exact (verifyRegister_skip (Contract.begins_skip h0 _) n).mpr hMoves

theorem verifyCREATE_iff :
    verifyCREATE rt mapStates contract = .ok (c, mapStates') ↔
      ∃ action, contract.readAction .CREATE = .ok (action, c) ∧
        Verified rt disk mapStates contract mapStates' action := by
  simp only [verifyCREATE, Contract.readAction, bind_eq_ok, Prod.exists, pure_eq_ok, Prod.mk.injEq]
  constructor
  · rintro ⟨hashAddress, c₁, hAddress, nType, c₂, hType, vchData, c₃, hData, state, hRun, rfl, rfl⟩
    refine ⟨_, ⟨hashAddress, c₁, hAddress, nType, c₂, hType, vchData, c₃, hData, rfl, rfl⟩, state, ?_,
      rfl⟩
    obtain ⟨-, -, rfl⟩ := Contract.extract_eq_ok.mp hAddress
    obtain ⟨-, -, rfl⟩ := Contract.extract_eq_ok.mp hType
    obtain ⟨n, -, rfl⟩ := Contract.extractBytes_skip hData
    exact hRun
  · rintro ⟨_, ⟨hashAddress, c₁, hAddress, nType, c₂, hType, vchData, c₃, hData, rfl, rfl⟩, state,
      hRun, rfl⟩
    refine ⟨hashAddress, c₁, hAddress, nType, c₂, hType, vchData, c₃, hData, state, ?_, rfl, rfl⟩
    obtain ⟨-, -, rfl⟩ := Contract.extract_eq_ok.mp hAddress
    obtain ⟨-, -, rfl⟩ := Contract.extract_eq_ok.mp hType
    obtain ⟨n, -, rfl⟩ := Contract.extractBytes_skip hData
    exact hRun

theorem verifyTRANSFER_iff (h0 : contract.resetRegisters = contract) :
    verifyTRANSFER rt disk mapStates contract = .ok (c, mapStates') ↔
      ∃ action, contract.readAction .TRANSFER = .ok (action, c) ∧
        Verified rt disk mapStates contract mapStates' action := by
  simp only [verifyTRANSFER, Contract.readAction_TRANSFER, bind_eq_ok, Prod.exists, pure_eq_ok,
    Prod.mk.injEq, Contract.extract_eq_ok, and_assoc, exists_and_left, exists_eq_left,
    Contract.skip_skip, Contract.peek_skip, Contract.fits_skip, width_uint256, width_uint8,
    Nat.reduceAdd, verifyRegister_skip h0]
  constructor
  · rintro ⟨-, -, hFits, m, hMoves, rfl, rfl⟩
    exact ⟨hFits, rfl, _, rfl, hMoves⟩
  · rintro ⟨hFits, rfl, _, hTarget, hMoves⟩
    obtain rfl := Option.some.inj hTarget
    exact ⟨hFits.mono (by decide), hFits.mono (by decide), hFits, _, hMoves, rfl, rfl⟩

theorem verifyCLAIM_iff (h0 : contract.resetRegisters = contract) :
    verifyCLAIM rt disk mapStates contract = .ok (c, mapStates') ↔
      ∃ action, contract.readAction .CLAIM = .ok (action, c) ∧
        Verified rt disk mapStates contract mapStates' action := by
  simp only [verifyCLAIM, Contract.readAction_CLAIM, bind_eq_ok, Prod.exists, pure_eq_ok,
    Prod.mk.injEq, Contract.extract_eq_ok, Contract.seek_eq_ok, and_assoc, exists_and_left,
    exists_eq_left, Contract.skip_skip, Contract.peek_skip, Contract.fits_skip, width_uint256,
    Nat.reduceAdd, verifyRegister_skip h0]
  constructor
  · rintro ⟨-, hFits, m, hMoves, rfl, rfl⟩
    exact ⟨hFits, rfl, hMoves⟩
  · rintro ⟨hFits, rfl, hMoves⟩
    exact ⟨hFits.mono (by decide), hFits, _, hMoves, rfl, rfl⟩

/-- A primitive that `Verify` seeks over. -/
theorem seekOver_iff {n : Nat} :
    seekOver mapStates n contract = .ok (c, mapStates') ↔
      contract.Fits n ∧ c = contract.skip n ∧ mapStates' = mapStates := by
  simp only [seekOver, bind_eq_ok, pure_eq_ok, Prod.mk.injEq, Contract.seek_eq_ok, and_assoc,
    exists_and_left, exists_eq_left]
  constructor
  · rintro ⟨hFits, rfl, rfl⟩
    exact ⟨hFits, rfl, rfl⟩
  · rintro ⟨hFits, rfl, rfl⟩
    exact ⟨hFits, rfl, rfl⟩

theorem verifyStake_iff (h0 : contract.resetRegisters = contract) {strOP : String} {nSeek : Nat} :
    verifyStake rt disk mapStates strOP nSeek contract = .ok (c, mapStates') ↔
      ∃ action, contract.readStake nSeek = .ok (action, c) ∧
        Verified rt disk mapStates contract mapStates' action := by
  simp only [verifyStake, Contract.readStake_iff, bind_eq_ok, Prod.exists, pure_eq_ok,
    Prod.mk.injEq, Contract.extract_eq_ok, Contract.seek_eq_ok, and_assoc, exists_and_left,
    exists_eq_left, Contract.skip_skip, Contract.peek_skip, Contract.fits_skip, width_uint64,
    width_int64, Nat.add_zero, verifyRegister_skip h0]
  constructor
  · rintro ⟨-, -, -, hFits, m, hMoves, rfl, rfl⟩
    exact ⟨hFits, rfl, _, rfl, hMoves⟩
  · rintro ⟨hFits, rfl, _, hTarget, hMoves⟩
    obtain rfl := Option.some.inj hTarget
    exact ⟨hFits.mono (by omega), hFits.mono (by omega), hFits.mono (by omega), hFits, _, hMoves, rfl,
      rfl⟩

/-- The early check of the owner follows from the later one. -/
theorem verifyFirstStake_iff (h0 : contract.resetRegisters = contract) {strOP : String}
    {nSeek : Nat} :
    verifyFirstStake rt disk mapStates strOP nSeek contract = .ok (c, mapStates') ↔
      ∃ action, contract.readFirstStake nSeek = .ok (action, c) ∧
        Verified rt disk mapStates contract mapStates' action := by
  have hVerify (f : State → Result State) (m : States) :
      verifyRegister rt disk mapStates strOP (callerTrust rt (contract.skip (nSeek + 8)))
          (checkOwner strOP (contract.skip (nSeek + 8)).hashCaller) true f
          (contract.skip (nSeek + 8)) = .ok m ↔
        Moves rt disk mapStates contract (RegisterDB.trustAddress rt contract.hashCaller) true f m :=
    verifyRegister_iff (Contract.begins_skip h0 _) fun prestate hOwner =>
      reject_of_not (not_not.mpr (hOwner rfl).symm)
  simp only [verifyFirstStake, Contract.readFirstStake_iff, bind_eq_ok, Prod.exists, pure_eq_ok,
    Prod.mk.injEq, Contract.extract_eq_ok, Contract.seek_eq_ok, and_assoc, exists_and_left,
    exists_eq_left, Contract.skip_skip, Contract.peek_skip, Contract.fits_skip, width_uint64,
    Nat.add_zero, hVerify]
  constructor
  · rintro ⟨-, hFits, m, hMoves, rfl, rfl⟩
    exact ⟨hFits, rfl, _, rfl, hMoves⟩
  · rintro ⟨hFits, rfl, _, hTarget, hMoves⟩
    obtain rfl := Option.some.inj hTarget
    exact ⟨hFits.mono (by omega), hFits, _, hMoves, rfl, rfl⟩

theorem verifyDEBIT_iff (h0 : contract.resetRegisters = contract) :
    verifyDEBIT rt disk mapStates contract = .ok (c, mapStates') ↔
      ∃ action, contract.readAction .DEBIT = .ok (action, c) ∧
        Verified rt disk mapStates contract mapStates' action := by
  simp only [verifyDEBIT, Contract.readAction_DEBIT, bind_eq_ok, Prod.exists, pure_eq_ok,
    Prod.mk.injEq, Contract.extract_eq_ok, Contract.seek_eq_ok, and_assoc, exists_and_left,
    exists_eq_left, Contract.skip_skip, Contract.peek_skip, Contract.fits_skip, width_uint256,
    width_uint64, Nat.reduceAdd, verifyRegister_skip h0]
  constructor
  · rintro ⟨-, -, -, hFits, m, hMoves, rfl, rfl⟩
    exact ⟨hFits, rfl, _, rfl, hMoves⟩
  · rintro ⟨hFits, rfl, _, hTarget, hMoves⟩
    obtain rfl := Option.some.inj hTarget
    exact ⟨hFits.mono (by decide), hFits.mono (by decide), hFits.mono (by decide), hFits, _, hMoves,
      rfl, rfl⟩

theorem verifyCREDIT_iff (h0 : contract.resetRegisters = contract) :
    verifyCREDIT rt disk mapStates contract = .ok (c, mapStates') ↔
      ∃ action, contract.readAction .CREDIT = .ok (action, c) ∧
        Verified rt disk mapStates contract mapStates' action := by
  simp only [verifyCREDIT, Contract.readAction_CREDIT, bind_eq_ok, Prod.exists, pure_eq_ok,
    Prod.mk.injEq, Contract.extract_eq_ok, Contract.seek_eq_ok, and_assoc, exists_and_left,
    exists_eq_left, Contract.skip_skip, Contract.peek_skip, Contract.fits_skip, width_uint256,
    width_uint64, Nat.reduceAdd, verifyRegister_skip h0]
  constructor
  · rintro ⟨-, -, -, hFits, m, hMoves, rfl, rfl⟩
    exact ⟨hFits, rfl, _, rfl, hMoves⟩
  · rintro ⟨hFits, rfl, _, hTarget, hMoves⟩
    obtain rfl := Option.some.inj hTarget
    exact ⟨hFits.mono (by decide), hFits.mono (by decide), hFits.mono (by decide), hFits, _, hMoves,
      rfl, rfl⟩

theorem verifyMIGRATE_iff (h0 : contract.resetRegisters = contract) :
    verifyMIGRATE rt disk mapStates contract = .ok (c, mapStates') ↔
      ∃ action, contract.readAction .MIGRATE = .ok (action, c) ∧
        Verified rt disk mapStates contract mapStates' action := by
  simp only [verifyMIGRATE, Contract.readAction_MIGRATE, bind_eq_ok, Prod.exists, pure_eq_ok,
    Prod.mk.injEq, Contract.extract_eq_ok, Contract.seek_eq_ok, and_assoc, exists_and_left,
    exists_eq_left, Contract.skip_skip, Contract.peek_skip, Contract.fits_skip, width_uint256,
    width_uint64, width_uint32, Nat.reduceAdd, verifyRegister_skip h0]
  constructor
  · rintro ⟨-, -, -, -, -, hFits, m, hMoves, rfl, rfl⟩
    exact ⟨hFits, rfl, _, rfl, hMoves⟩
  · rintro ⟨hFits, rfl, _, hTarget, hMoves⟩
    obtain rfl := Option.some.inj hTarget
    exact ⟨hFits.mono (by decide), hFits.mono (by decide), hFits.mono (by decide),
      hFits.mono (by decide), hFits.mono (by decide), hFits, _, hMoves, rfl, rfl⟩

theorem verifyFEE_iff (h0 : contract.resetRegisters = contract) :
    verifyFEE rt disk mapStates contract = .ok (c, mapStates') ↔
      ∃ action, contract.readAction .FEE = .ok (action, c) ∧
        Verified rt disk mapStates contract mapStates' action := by
  simp only [verifyFEE, Contract.readAction_FEE, bind_eq_ok, Prod.exists, pure_eq_ok,
    Prod.mk.injEq, Contract.extract_eq_ok, and_assoc, exists_and_left, exists_eq_left,
    Contract.skip_skip, Contract.peek_skip, Contract.fits_skip, width_uint256, width_uint64,
    Nat.reduceAdd, verifyRegister_skip h0]
  constructor
  · rintro ⟨-, hFits, m, hMoves, rfl, rfl⟩
    exact ⟨hFits, rfl, _, rfl, hMoves⟩
  · rintro ⟨hFits, rfl, _, hTarget, hMoves⟩
    obtain rfl := Option.some.inj hTarget
    exact ⟨hFits.mono (by decide), hFits, _, hMoves, rfl, rfl⟩

/-- The script is seeked over by its size. -/
theorem verifyLEGACY_iff (h0 : contract.resetRegisters = contract) :
    verifyLEGACY rt disk mapStates contract = .ok (c, mapStates') ↔
      ∃ action, contract.readAction .LEGACY = .ok (action, c) ∧
        Verified rt disk mapStates contract mapStates' action := by
  simp only [verifyLEGACY, Contract.readAction, bind_eq_ok, Prod.exists, pure_eq_ok, Prod.mk.injEq,
    Contract.extract_eq_ok, and_assoc, exists_and_left, exists_eq_left, Contract.skip_skip,
    Contract.peek_skip, Contract.fits_skip, width_uint256, width_uint64, Nat.reduceAdd,
    verifyRegister_skip h0]
  constructor
  · rintro ⟨h32, h40, m, hMoves, nSize, c₁, hSize, c₂, hSeek, rfl, rfl⟩
    obtain ⟨vch, hData⟩ := Contract.exists_extractBytes.mpr ⟨nSize, c₁, hSize, hSeek⟩
    exact ⟨h32, h40, _, ⟨vch, c₂, hData, rfl, rfl⟩, _, rfl, hMoves⟩
  · rintro ⟨h32, h40, _, ⟨vch, c₂, hData, rfl, rfl⟩, _, hTarget, hMoves⟩
    obtain rfl := Option.some.inj hTarget
    obtain ⟨nSize, c₁, hSize, hSeek⟩ := Contract.exists_extractBytes.mp ⟨vch, hData⟩
    exact ⟨h32, h40, _, hMoves, nSize, c₁, hSize, c₂, hSeek, rfl, rfl⟩

/-- Every primitive verifies its action. -/
theorem verifyPrimitive_iff (h0 : contract.resetRegisters = contract) (op : Primitive) :
    verifyPrimitive rt disk mapStates contract op = .ok (c, mapStates') ↔
      ∃ action, contract.readAction op = .ok (action, c) ∧
        Verified rt disk mapStates contract mapStates' action := by
  cases op with
  | WRITE => exact verifyWRITE_iff h0
  | APPEND => exact verifyAPPEND_iff h0
  | CREATE => exact verifyCREATE_iff
  | TRANSFER => exact verifyTRANSFER_iff h0
  | CLAIM => exact verifyCLAIM_iff h0
  | COINBASE =>
      simp only [verifyPrimitive, seekOver_iff, Contract.readAction_COINBASE]
      constructor
      · rintro ⟨hFits, rfl, rfl⟩
        exact ⟨_, ⟨hFits, rfl, rfl⟩, rfl⟩
      · rintro ⟨_, ⟨hFits, rfl, rfl⟩, hStates⟩
        exact ⟨hFits, rfl, hStates⟩
  | TRUST => exact verifyStake_iff h0
  | TRUSTPOOL => exact verifyStake_iff h0
  | GENESIS => exact verifyFirstStake_iff h0
  | GENESISPOOL => exact verifyFirstStake_iff h0
  | DEBIT => exact verifyDEBIT_iff h0
  | CREDIT => exact verifyCREDIT_iff h0
  | MIGRATE => exact verifyMIGRATE_iff h0
  | AUTHORIZE =>
      simp only [verifyPrimitive, seekOver_iff, Contract.readAction_AUTHORIZE]
      constructor
      · rintro ⟨hFits, rfl, rfl⟩
        exact ⟨_, ⟨hFits, rfl, rfl⟩, rfl⟩
      · rintro ⟨_, ⟨hFits, rfl, rfl⟩, hStates⟩
        exact ⟨hFits, rfl, hStates⟩
  | FEE => exact verifyFEE_iff h0
  | LEGACY => exact verifyLEGACY_iff h0

/-! ## Whole contracts -/

/-- What is verified does not depend on the cursors. -/
theorem verified_skip {n : Nat} :
    Verified rt disk mapStates (contract.reset.skip n) mapStates' action ↔
      Verified rt disk mapStates contract mapStates' action := by
  cases action <;> exact Iff.rfl

/-- The prefix, seeked over, is the one that is read. -/
theorem verifyPrefix_iff {nOP : UInt8} :
    verifyPrefix contract = .ok (nOP, c) ↔
      ∃ validated, contract.readPrefix = .ok ((nOP, validated), c) := by
  simp only [verifyPrefix, Contract.readPrefix, bind_eq_ok, Prod.exists, ite_eq_ok, pure_eq_ok,
    Except.ok.injEq, Prod.mk.injEq, Contract.extract_eq_ok, Contract.seek_eq_ok, and_assoc,
    exists_and_left, exists_eq_left, Contract.skip_skip, Contract.peek_skip, Contract.fits_skip,
    width_uint8, width_uint512, width_uint32, Nat.reduceAdd]
  refine and_congr_right fun _ => ⟨?_, ?_⟩
  · rintro (⟨hOP, hFits, rfl, rfl⟩ | ⟨hOP, ⟨hOP', -, hFits, rfl, rfl⟩ | ⟨hOP', rfl, rfl⟩⟩)
    · exact ⟨_, .inl ⟨hOP, hFits, rfl, rfl, rfl⟩⟩
    · exact ⟨_, .inr ⟨hOP, .inl ⟨hOP', hFits.mono (by decide), hFits.mono (by decide), hFits, rfl,
        rfl, rfl⟩⟩⟩
    · exact ⟨_, .inr ⟨hOP, .inr ⟨hOP', rfl, rfl, rfl⟩⟩⟩
  · rintro ⟨_, ⟨hOP, hFits, rfl, rfl, rfl⟩ | ⟨hOP, ⟨hOP', -, h69, hFits, rfl, rfl, rfl⟩ |
      ⟨hOP', rfl, rfl, rfl⟩⟩⟩
    · exact .inl ⟨hOP, hFits, rfl, rfl⟩
    · exact .inr ⟨hOP, .inl ⟨hOP', h69, hFits, rfl, rfl⟩⟩
    · exact .inr ⟨hOP, .inr ⟨hOP', rfl, rfl⟩⟩

theorem verifyPrefix_skip {nOP : UInt8} (h : verifyPrefix contract = .ok (nOP, c)) :
    ∃ n, c = contract.skip n := by
  simp only [verifyPrefix, bind_eq_ok, Prod.exists, ite_eq_ok, Contract.extract_eq_ok,
    Contract.seek_eq_ok, Except.ok.injEq, Prod.mk.injEq] at h
  obtain ⟨_, _, ⟨-, rfl, rfl⟩, ⟨-, -, -, rfl⟩ | ⟨-, ⟨-, _, ⟨-, rfl⟩, -, -, rfl⟩ | ⟨-, -, rfl⟩⟩⟩ := h
  · exact ⟨_, Contract.skip_skip ..⟩
  · exact ⟨_, (Contract.skip_skip ..).trans (Contract.skip_skip ..)⟩
  · exact ⟨_, rfl⟩

/-- A validation where the primitive should be, which is seeked over. -/
def SecondValidation (contract : Contract) : Prop :=
  ∃ c c', verifyPrefix contract.reset = .ok (OP.VALIDATE, c) ∧ c.seek 68 = .ok c' ∧
    c'.atEnd = true

/-- `Verify` accepts a contract whose action is verified, and a second validation. -/
theorem Verify_iff :
    Verify rt disk mapStates contract = .ok mapStates' ↔
      (∃ d c, contract.decode = .ok (d, c) ∧
        (d.op.toOP ≠ OP.WRITE → d.op.toOP ≠ OP.APPEND → c.atEnd = true) ∧
        Verified rt disk mapStates contract mapStates' d.action) ∨
      SecondValidation contract ∧ mapStates' = mapStates := by
  simp only [Verify, catching_eq_ok, verifyBody, bind_eq_ok, Prod.exists, reject_eq_ok, pure_eq_ok,
    not_and, Bool.not_eq_false, verifyOP, ite_eq_ok, demand_eq_ok, Contract.decode, SecondValidation,
    seekOver]
  constructor
  · rintro ⟨nOP, c, hPrefix, c', m, ⟨rfl, c'', hSeek, hEq⟩ | ⟨hOP, op, hPrimitive, hVerify⟩, _, hEnd,
      rfl⟩
    · obtain ⟨rfl, rfl⟩ := Prod.mk.inj hEq
      exact .inr ⟨⟨c, _, hPrefix, hSeek, hEnd (by decide) (by decide)⟩, rfl⟩
    · obtain ⟨n, rfl⟩ := verifyPrefix_skip hPrefix
      obtain ⟨action, hAction, hVerified⟩ :=
        (verifyPrimitive_iff (Contract.begins_skip rfl n) op).mp hVerify
      obtain ⟨validated, hRead⟩ := verifyPrefix_iff.mp hPrefix
      obtain rfl := Primitive.ofOP_eq_some hPrimitive
      exact .inl ⟨⟨validated, op, action⟩, c', ⟨_, _, _, hRead, op, hPrimitive, action, c', hAction,
        rfl⟩, hEnd, verified_skip.mp hVerified⟩
  · rintro (⟨d, c', ⟨nOP, validated, c, hRead, op, hPrimitive, action, _, hAction, hEq⟩, hEnd,
      hVerified⟩ | ⟨⟨c, c', hPrefix, hSeek, hEnd⟩, rfl⟩)
    · obtain ⟨rfl, rfl⟩ := Prod.mk.inj hEq
      have hPrefix := verifyPrefix_iff.mpr ⟨validated, hRead⟩
      obtain ⟨n, rfl⟩ := verifyPrefix_skip hPrefix
      obtain rfl := Primitive.ofOP_eq_some hPrimitive
      have hNot : op.toOP ≠ OP.VALIDATE := by cases op <;> decide
      exact ⟨_, _, hPrefix, _, _, .inr ⟨hNot, op, hPrimitive,
        (verifyPrimitive_iff (Contract.begins_skip rfl n) op).mpr
          ⟨action, hAction, verified_skip.mpr hVerified⟩⟩, (), hEnd, rfl⟩
    · exact ⟨_, _, hPrefix, _, _, .inl ⟨rfl, _, hSeek, rfl⟩, (), fun _ _ => hEnd, rfl⟩

/-- What `Verify` did to a contract that performs an action. -/
theorem Verify.verified (h : Verify rt disk mapStates contract = .ok mapStates')
    (hPerforms : contract.Performs action) :
    Verified rt disk mapStates contract mapStates' action := by
  obtain ⟨d, c, hDecode, rfl⟩ := hPerforms
  rcases Verify_iff.mp h with ⟨d', c', hDecode', -, hVerified⟩ | ⟨⟨c', c'', hPrefix, -⟩, -⟩
  · rw [hDecode] at hDecode'
    cases hDecode'
    exact hVerified
  · obtain ⟨validated, hRead⟩ := verifyPrefix_iff.mp hPrefix
    simp only [Contract.decode, hRead, ok_bind] at hDecode
    cases hDecode

end Nexus.Register
