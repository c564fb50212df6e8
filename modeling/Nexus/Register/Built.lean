import Nexus.Register.Verified

/-!
# Built contracts

What an accepting `Build` did, in the terms of actions: it decoded the contract,
wrote the current state of the register that the action moves into the script,
and put the calculated state into the map.  So `Verify` accepts what was built,
when the pre-state can be read back from the script and belongs to the caller.

## Main results

* `buildPrimitive_ok`: the sixteen primitives.
* `Build.verifies`: a whole contract.
-/

namespace Nexus.Register

open Nexus.Lib.Bytes
open Nexus.Lib.Checked
open Nexus.Util
open Nexus.Operation
open Nexus.LLD

variable {rt : Runtime} {disk : Disk} {mapStates mapStates' : States}
  {contract contract' c : Contract} {action : Action} {vchScript : List UInt8}

/-- The contract with a register script that is not read yet. -/
def withScript (contract : Contract) (vchScript : List UInt8) : Contract :=
  { contract with ssRegister := { vchData := vchScript } }

/-- The script begins with a pre-state. -/
def PreStateIn (vchScript : List UInt8) (state : State) : Prop :=
  ∃ vchRest, vchScript = FixedWidth.encode STATES.PRESTATE ++ state.serialize ++ vchRest

/-- The script and the map of an action whose register is moved. -/
def BuiltMove (disk : Disk) (mapStates : States) (hashAddress : Address)
    (f : State → Result State) (vchScript : List UInt8) (mapStates' : States) : Prop :=
  ∃ current state, readState disk mapStates hashAddress = some current ∧ f current = .ok state ∧
    mapStates' = Function.update mapStates hashAddress (some state) ∧ PreStateIn vchScript current

/-- What `Build` writes into the script of an action, and puts into the map. -/
def Built (rt : Runtime) (disk : Disk) (mapStates : States) (contract : Contract)
    (vchScript : List UInt8) (mapStates' : States) (action : Action) : Prop :=
  match action with
  | .COINBASE _ => mapStates' = mapStates
  | .AUTHORIZE => mapStates' = mapStates
  | .CREATE hashAddress nType _ =>
      ∃ state, action.run rt contract (createdState nType contract.hashCaller) = .ok state ∧
        mapStates' = Function.update mapStates hashAddress (some state)
  | _ => ∃ hashAddress, action.target rt contract.hashCaller = some hashAddress ∧
      BuiltMove disk mapStates hashAddress (action.run rt contract) vchScript mapStates'

/-! ## Reading past the script -/

section Script

variable {α : Type} [FixedWidth α]

theorem extract_withScript :
    (withScript contract vchScript).extract α =
      (contract.extract α).map fun (a, c) => (a, withScript c vchScript) := by
  simp only [Contract.extract, withScript, Except.map]
  cases contract.ssOperation.extract α <;> rfl

theorem extractBytes_withScript :
    (withScript contract vchScript).extractBytes =
      contract.extractBytes.map fun (a, c) => (a, withScript c vchScript) := by
  simp only [Contract.extractBytes, withScript, Except.map]
  cases contract.ssOperation.extractBytes <;> rfl

theorem seek_withScript {n : Nat} :
    (withScript contract vchScript).seek n =
      (contract.seek n).map fun c => withScript c vchScript := by
  simp only [Contract.seek, withScript, Except.map]
  cases contract.ssOperation.seek n <;> rfl

theorem seekToPrimitive_withScript :
    (withScript contract vchScript).seekToPrimitive =
      contract.seekToPrimitive.map fun c => withScript c vchScript := by
  have hReset : (withScript contract vchScript).resetOperations =
      withScript contract.resetOperations vchScript := rfl
  simp only [Contract.seekToPrimitive, hReset, seek_withScript, Lib.Checked.map_bind]
  refine bind_congr fun _ => bind_congr fun nOP => ?_
  split
  · rfl
  · split <;> rfl

/-- The operands do not depend on the script. -/
theorem readAction_withScript {op : Primitive} :
    (withScript contract vchScript).readAction op =
      (contract.readAction op).map fun (a, c) => (a, withScript c vchScript) := by
  cases op <;>
    simp only [Contract.readAction, Contract.readStake, Contract.readFirstStake, Credit.operands,
      Migrate.operands, extract_withScript, extractBytes_withScript, seek_withScript,
      Lib.Checked.map_bind, Lib.Checked.bind_map, bind_assoc] <;> rfl

theorem readPrefix_withScript :
    (withScript contract vchScript).readPrefix =
      contract.readPrefix.map fun (a, c) => (a, withScript c vchScript) := by
  simp only [Contract.readPrefix, extract_withScript, Lib.Checked.bind_map, Lib.Checked.map_bind]
  refine bind_congr fun r => ?_
  split
  · simp only [Lib.Checked.map_bind]
    rfl
  · split
    · simp only [Lib.Checked.map_bind]
      rfl
    · rfl

end Script

/-- A contract with a script decodes as it did without. -/
theorem decode_withScript {d : Contract.Decoded} (h : contract.decode = .ok (d, c)) :
    (withScript contract vchScript).decode = .ok (d, withScript c vchScript) := by
  have hReset : (withScript contract vchScript).reset = withScript contract.reset vchScript := rfl
  simp only [Contract.decode, bind_eq_ok, Prod.exists, pure_eq_ok, Prod.mk.injEq] at h
  obtain ⟨nOP, validated, c₁, hPrefix, op, hOP, action, c₂, hAction, rfl, rfl⟩ := h
  simp only [Contract.decode, hReset, readPrefix_withScript, hPrefix, map_ok, ok_bind, hOP,
    readAction_withScript, hAction]
  rfl

/-! ## Primitives -/

theorem buildRegister_ok {strOP : String} {hashAddress : Address} {fOwner : Bool}
    {f : State → Result State}
    (h : buildRegister rt disk mapStates strOP hashAddress fOwner f (withScript contract []) =
      .ok (contract', mapStates')) :
    ∃ vchScript, contract' = withScript contract vchScript ∧
      BuiltMove disk mapStates hashAddress f vchScript mapStates' := by
  simp only [buildRegister, bind_eq_ok, demand_eq_ok, pure_eq_ok, Prod.mk.injEq] at h
  obtain ⟨current, hCurrent, _, -, state, hRun, rfl, rfl⟩ := h
  exact ⟨_, rfl, current, state, hCurrent, hRun, rfl, _, List.append_assoc ..⟩

/-- The message of a failed calculation does not matter. -/
theorem BuiltMove.calculated {strMessage : String} {hashAddress : Address} {f : State → Result State}
    (h : BuiltMove disk mapStates hashAddress (fun state => orError strMessage (f state)) vchScript
      mapStates') : BuiltMove disk mapStates hashAddress f vchScript mapStates' := by
  obtain ⟨current, state, hCurrent, hRun, hMap, hScript⟩ := h
  exact ⟨current, state, hCurrent, orError_eq_ok.mp hRun, hMap, hScript⟩

theorem buildData_ok {hashAddress : Address} {vchData : List UInt8} {c₁ c₂ : Contract}
    (hAddress : contract.extract Uint256 = .ok (hashAddress, c₁))
    (hData : c₁.extractBytes = .ok (vchData, c₂)) : c₂.nTimestamp = contract.nTimestamp := by
  obtain ⟨-, -, rfl⟩ := Contract.extract_eq_ok.mp hAddress
  obtain ⟨n, -, rfl⟩ := Contract.extractBytes_skip hData
  rfl

theorem buildWRITE_ok
    (h : buildWRITE rt disk mapStates (withScript contract []) = .ok (contract', mapStates')) :
    ∃ action c vchScript, contract.readAction .WRITE = .ok (action, c) ∧
      contract' = withScript c vchScript ∧
        Built rt disk mapStates contract vchScript mapStates' action := by
  simp only [buildWRITE, extract_withScript, extractBytes_withScript, Lib.Checked.bind_map,
    bind_eq_ok, Prod.exists] at h
  obtain ⟨hashAddress, c₁, hAddress, vchData, c₂, hData, hBuild⟩ := h
  obtain ⟨vchScript, rfl, hMove⟩ := buildRegister_ok hBuild
  have hMove := hMove.calculated
  refine ⟨.WRITE hashAddress vchData, c₂, vchScript, ?_, rfl, hashAddress, rfl, ?_⟩
  · simp only [Contract.readAction, hAddress, ok_bind, hData]
    rfl
  · rw [withScript, buildData_ok hAddress hData] at hMove
    exact hMove

theorem buildAPPEND_ok
    (h : buildAPPEND rt disk mapStates (withScript contract []) = .ok (contract', mapStates')) :
    ∃ action c vchScript, contract.readAction .APPEND = .ok (action, c) ∧
      contract' = withScript c vchScript ∧
        Built rt disk mapStates contract vchScript mapStates' action := by
  simp only [buildAPPEND, extract_withScript, extractBytes_withScript, Lib.Checked.bind_map,
    bind_eq_ok, Prod.exists] at h
  obtain ⟨hashAddress, c₁, hAddress, vchData, c₂, hData, hBuild⟩ := h
  obtain ⟨vchScript, rfl, hMove⟩ := buildRegister_ok hBuild
  have hMove := hMove.calculated
  refine ⟨.APPEND hashAddress vchData, c₂, vchScript, ?_, rfl, hashAddress, rfl, ?_⟩
  · simp only [Contract.readAction, hAddress, ok_bind, hData]
    rfl
  · rw [withScript, buildData_ok hAddress hData] at hMove
    exact hMove

theorem buildCREATE_ok
    (h : buildCREATE rt mapStates (withScript contract []) = .ok (contract', mapStates')) :
    ∃ action c vchScript, contract.readAction .CREATE = .ok (action, c) ∧
      contract' = withScript c vchScript ∧
        Built rt disk mapStates contract vchScript mapStates' action := by
  simp only [buildCREATE, extract_withScript, extractBytes_withScript, Lib.Checked.bind_map,
    bind_eq_ok, Prod.exists, orError_eq_ok, pure_eq_ok, Prod.mk.injEq] at h
  obtain ⟨hashAddress, c₁, hAddress, nType, c₂, hType, vchData, c₃, hData, state, hRun, rfl, rfl⟩ := h
  refine ⟨.CREATE hashAddress nType vchData, c₃, _, ?_, rfl, state, ?_, rfl⟩
  · simp only [Contract.readAction, hAddress, ok_bind, hType, hData]
    rfl
  · obtain ⟨-, -, rfl⟩ := Contract.extract_eq_ok.mp hAddress
    obtain ⟨-, -, rfl⟩ := Contract.extract_eq_ok.mp hType
    obtain ⟨n, -, rfl⟩ := Contract.extractBytes_skip hData
    exact hRun

theorem buildTRANSFER_ok
    (h : buildTRANSFER rt disk mapStates (withScript contract []) = .ok (contract', mapStates')) :
    ∃ action c vchScript, contract.readAction .TRANSFER = .ok (action, c) ∧
      contract' = withScript c vchScript ∧
        Built rt disk mapStates contract vchScript mapStates' action := by
  simp only [buildTRANSFER, extract_withScript, Lib.Checked.bind_map, bind_eq_ok, Prod.exists,
    Contract.extract_eq_ok, and_assoc, exists_and_left, exists_eq_left, Contract.skip_skip,
    Contract.peek_skip, Contract.fits_skip, width_uint256, width_uint8, Nat.reduceAdd] at h
  obtain ⟨-, -, hFits, hBuild⟩ := h
  obtain ⟨vchScript, rfl, hMove⟩ := buildRegister_ok hBuild
  exact ⟨_, _, vchScript, Contract.readAction_TRANSFER.mpr ⟨hFits, rfl, rfl⟩, rfl, _, rfl,
    hMove.calculated⟩

theorem buildCLAIM_ok
    (h : buildCLAIM rt disk mapStates (withScript contract []) = .ok (contract', mapStates')) :
    ∃ action c vchScript, contract.readAction .CLAIM = .ok (action, c) ∧
      contract' = withScript c vchScript ∧
        Built rt disk mapStates contract vchScript mapStates' action := by
  simp only [buildCLAIM, extract_withScript, seek_withScript, Lib.Checked.bind_map, bind_eq_ok,
    Prod.exists, Contract.extract_eq_ok, Contract.seek_eq_ok, and_assoc, exists_and_left,
    exists_eq_left, Contract.skip_skip, Contract.peek_skip, Contract.fits_skip, width_uint256,
    Nat.reduceAdd] at h
  obtain ⟨-, hFits, hBuild⟩ := h
  obtain ⟨vchScript, rfl, hMove⟩ := buildRegister_ok hBuild
  exact ⟨_, _, vchScript, Contract.readAction_CLAIM.mpr ⟨hFits, rfl, rfl⟩, rfl, _, rfl,
    hMove.calculated⟩

theorem buildStake_ok {strOP : String} {nSeek : Nat}
    (h : buildStake rt disk mapStates strOP nSeek (withScript contract []) =
      .ok (contract', mapStates')) :
    ∃ action c vchScript, contract.readStake nSeek = .ok (action, c) ∧
      contract' = withScript c vchScript ∧
        Built rt disk mapStates contract vchScript mapStates' action := by
  simp only [buildStake, extract_withScript, seek_withScript, Lib.Checked.bind_map, bind_eq_ok,
    Prod.exists, Contract.extract_eq_ok, Contract.seek_eq_ok, and_assoc, exists_and_left,
    exists_eq_left, Contract.skip_skip, Contract.peek_skip, Contract.fits_skip, width_uint64,
    width_int64, Nat.add_zero] at h
  obtain ⟨-, -, -, hFits, _, -, hBuild⟩ := h
  obtain ⟨vchScript, rfl, hMove⟩ := buildRegister_ok hBuild
  exact ⟨_, _, vchScript, Contract.readStake_iff.mpr ⟨hFits, rfl, rfl⟩, rfl, _, rfl, hMove⟩

theorem buildFirstStake_ok {strOP : String} {nSeek : Nat}
    (h : buildFirstStake rt disk mapStates strOP nSeek (withScript contract []) =
      .ok (contract', mapStates')) :
    ∃ action c vchScript, contract.readFirstStake nSeek = .ok (action, c) ∧
      contract' = withScript c vchScript ∧
        Built rt disk mapStates contract vchScript mapStates' action := by
  simp only [buildFirstStake, extract_withScript, seek_withScript, Lib.Checked.bind_map, bind_eq_ok,
    Prod.exists, Contract.extract_eq_ok, Contract.seek_eq_ok, and_assoc, exists_and_left,
    exists_eq_left, Contract.skip_skip, Contract.peek_skip, Contract.fits_skip, width_uint64,
    Nat.add_zero] at h
  obtain ⟨-, hFits, _, -, hBuild⟩ := h
  obtain ⟨vchScript, rfl, hMove⟩ := buildRegister_ok hBuild
  exact ⟨_, _, vchScript, Contract.readFirstStake_iff.mpr ⟨hFits, rfl, rfl⟩, rfl, _, rfl,
    hMove.calculated⟩

theorem buildDEBIT_ok
    (h : buildDEBIT rt disk mapStates (withScript contract []) = .ok (contract', mapStates')) :
    ∃ action c vchScript, contract.readAction .DEBIT = .ok (action, c) ∧
      contract' = withScript c vchScript ∧
        Built rt disk mapStates contract vchScript mapStates' action := by
  simp only [buildDEBIT, extract_withScript, seek_withScript, Lib.Checked.bind_map, bind_eq_ok,
    Prod.exists, Contract.extract_eq_ok, Contract.seek_eq_ok, and_assoc, exists_and_left,
    exists_eq_left, Contract.skip_skip, Contract.peek_skip, Contract.fits_skip, width_uint64,
    width_uint256, Nat.reduceAdd] at h
  obtain ⟨-, -, -, hFits, hBuild⟩ := h
  obtain ⟨vchScript, rfl, hMove⟩ := buildRegister_ok hBuild
  exact ⟨_, _, vchScript, Contract.readAction_DEBIT.mpr ⟨hFits, rfl, rfl⟩, rfl, _, rfl,
    hMove.calculated⟩

theorem buildCREDIT_ok
    (h : buildCREDIT rt disk mapStates (withScript contract []) = .ok (contract', mapStates')) :
    ∃ action c vchScript, contract.readAction .CREDIT = .ok (action, c) ∧
      contract' = withScript c vchScript ∧
        Built rt disk mapStates contract vchScript mapStates' action := by
  simp only [buildCREDIT, extract_withScript, seek_withScript, Lib.Checked.bind_map, bind_eq_ok,
    Prod.exists, Contract.extract_eq_ok, Contract.seek_eq_ok, and_assoc, exists_and_left,
    exists_eq_left, Contract.skip_skip, Contract.peek_skip, Contract.fits_skip, width_uint64,
    width_uint256, Nat.reduceAdd] at h
  obtain ⟨-, -, -, hFits, hBuild⟩ := h
  obtain ⟨vchScript, rfl, hMove⟩ := buildRegister_ok hBuild
  exact ⟨_, _, vchScript, Contract.readAction_CREDIT.mpr ⟨hFits, rfl, rfl⟩, rfl, _, rfl,
    hMove.calculated⟩

theorem buildMIGRATE_ok
    (h : buildMIGRATE rt disk mapStates (withScript contract []) = .ok (contract', mapStates')) :
    ∃ action c vchScript, contract.readAction .MIGRATE = .ok (action, c) ∧
      contract' = withScript c vchScript ∧
        Built rt disk mapStates contract vchScript mapStates' action := by
  simp only [buildMIGRATE, extract_withScript, seek_withScript, Lib.Checked.bind_map, bind_eq_ok,
    Prod.exists, Contract.extract_eq_ok, Contract.seek_eq_ok, and_assoc, exists_and_left,
    exists_eq_left, Contract.skip_skip, Contract.peek_skip, Contract.fits_skip, width_uint64,
    width_uint256, width_uint32, Nat.reduceAdd] at h
  obtain ⟨-, -, -, -, -, hFits, _, -, hBuild⟩ := h
  obtain ⟨vchScript, rfl, hMove⟩ := buildRegister_ok hBuild
  exact ⟨_, _, vchScript, Contract.readAction_MIGRATE.mpr ⟨hFits, rfl, rfl⟩, rfl, _, rfl,
    hMove.calculated⟩

theorem buildFEE_ok
    (h : buildFEE rt disk mapStates (withScript contract []) = .ok (contract', mapStates')) :
    ∃ action c vchScript, contract.readAction .FEE = .ok (action, c) ∧
      contract' = withScript c vchScript ∧
        Built rt disk mapStates contract vchScript mapStates' action := by
  simp only [buildFEE, extract_withScript, Lib.Checked.bind_map, bind_eq_ok, Prod.exists,
    Contract.extract_eq_ok, and_assoc, exists_and_left, exists_eq_left, Contract.skip_skip,
    Contract.peek_skip, Contract.fits_skip, width_uint64, width_uint256, Nat.reduceAdd] at h
  obtain ⟨-, hFits, hBuild⟩ := h
  obtain ⟨vchScript, rfl, hMove⟩ := buildRegister_ok hBuild
  exact ⟨_, _, vchScript, Contract.readAction_FEE.mpr ⟨hFits, rfl, rfl⟩, rfl, _, rfl,
    hMove.calculated⟩

/-- The script of the output is read last. -/
theorem buildLEGACY_ok
    (h : buildLEGACY rt disk mapStates (withScript contract []) = .ok (contract', mapStates')) :
    ∃ action c vchScript, contract.readAction .LEGACY = .ok (action, c) ∧
      contract' = withScript c vchScript ∧
        Built rt disk mapStates contract vchScript mapStates' action := by
  simp only [buildLEGACY, extract_withScript, Lib.Checked.bind_map, bind_eq_ok, Prod.exists,
    pure_eq_ok, Prod.mk.injEq] at h
  obtain ⟨hashAddress, c₁, hAddress, nAmount, c₂, hAmount, c₃, m, hBuild, vch, c₄, hData, rfl, rfl⟩ := h
  obtain ⟨vchScript, rfl, hMove⟩ := buildRegister_ok hBuild
  have hMove := hMove.calculated
  rw [extractBytes_withScript, map_eq_ok] at hData
  obtain ⟨⟨vch', c₅⟩, hData, hEq⟩ := hData
  obtain ⟨rfl, rfl⟩ := Prod.mk.inj hEq
  refine ⟨.LEGACY hashAddress nAmount, c₅, vchScript, ?_, rfl, hashAddress, rfl, ?_⟩
  · simp only [Contract.readAction, hAddress, ok_bind, hAmount, hData]
    rfl
  · obtain ⟨-, -, rfl⟩ := Contract.extract_eq_ok.mp hAddress
    obtain ⟨-, -, rfl⟩ := Contract.extract_eq_ok.mp hAmount
    exact hMove

/-- Every primitive builds its action. -/
theorem buildPrimitive_ok {op : Primitive}
    (h : buildPrimitive rt disk mapStates (withScript contract []) op = .ok (contract', mapStates')) :
    ∃ action c vchScript, contract.readAction op = .ok (action, c) ∧
      contract' = withScript c vchScript ∧
        Built rt disk mapStates contract vchScript mapStates' action := by
  cases op with
  | WRITE => exact buildWRITE_ok h
  | APPEND => exact buildAPPEND_ok h
  | CREATE => exact buildCREATE_ok h
  | TRANSFER => exact buildTRANSFER_ok h
  | CLAIM => exact buildCLAIM_ok h
  | COINBASE =>
      obtain ⟨hFits, rfl, rfl⟩ := seekOver_iff.mp h
      exact ⟨_, _, [], Contract.readAction_COINBASE.mpr ⟨hFits, rfl, rfl⟩, rfl, rfl⟩
  | TRUST => exact buildStake_ok h
  | TRUSTPOOL => exact buildStake_ok h
  | GENESIS => exact buildFirstStake_ok h
  | GENESISPOOL => exact buildFirstStake_ok h
  | DEBIT => exact buildDEBIT_ok h
  | CREDIT => exact buildCREDIT_ok h
  | MIGRATE => exact buildMIGRATE_ok h
  | AUTHORIZE =>
      obtain ⟨hFits, rfl, rfl⟩ := seekOver_iff.mp h
      exact ⟨_, _, [], Contract.readAction_AUTHORIZE.mpr ⟨hFits, rfl, rfl⟩, rfl, rfl⟩
  | FEE => exact buildFEE_ok h
  | LEGACY => exact buildLEGACY_ok h

/-! ## Whole contracts -/

/-- The operands are read forward. -/
theorem readAction_skip {op : Primitive} (h : contract.readAction op = .ok (action, c)) :
    ∃ n, c = contract.skip n := by
  cases op with
  | WRITE =>
      simp only [Contract.readAction, bind_eq_ok, Prod.exists, Contract.extract_eq_ok, pure_eq_ok,
        Prod.mk.injEq] at h
      obtain ⟨_, _, ⟨-, -, rfl⟩, _, _, hData, -, rfl⟩ := h
      obtain ⟨n, -, rfl⟩ := Contract.extractBytes_skip hData
      exact ⟨_, Contract.skip_skip ..⟩
  | APPEND =>
      simp only [Contract.readAction, bind_eq_ok, Prod.exists, Contract.extract_eq_ok, pure_eq_ok,
        Prod.mk.injEq] at h
      obtain ⟨_, _, ⟨-, -, rfl⟩, _, _, hData, -, rfl⟩ := h
      obtain ⟨n, -, rfl⟩ := Contract.extractBytes_skip hData
      exact ⟨_, Contract.skip_skip ..⟩
  | CREATE =>
      simp only [Contract.readAction, bind_eq_ok, Prod.exists, Contract.extract_eq_ok, pure_eq_ok,
        Prod.mk.injEq] at h
      obtain ⟨_, _, ⟨-, -, rfl⟩, _, _, ⟨-, -, rfl⟩, _, _, hData, -, rfl⟩ := h
      obtain ⟨n, -, rfl⟩ := Contract.extractBytes_skip hData
      exact ⟨_, by rw [Contract.skip_skip, Contract.skip_skip]⟩
  | LEGACY =>
      simp only [Contract.readAction, bind_eq_ok, Prod.exists, Contract.extract_eq_ok, pure_eq_ok,
        Prod.mk.injEq] at h
      obtain ⟨_, _, ⟨-, -, rfl⟩, _, _, ⟨-, -, rfl⟩, _, _, hData, -, rfl⟩ := h
      obtain ⟨n, -, rfl⟩ := Contract.extractBytes_skip hData
      exact ⟨_, by rw [Contract.skip_skip, Contract.skip_skip]⟩
  | TRANSFER => exact ⟨_, (Contract.readAction_TRANSFER.mp h).2.2⟩
  | CLAIM => exact ⟨_, (Contract.readAction_CLAIM.mp h).2.2⟩
  | COINBASE => exact ⟨_, (Contract.readAction_COINBASE.mp h).2.2⟩
  | TRUST => exact ⟨_, (Contract.readStake_iff.mp h).2.2⟩
  | TRUSTPOOL => exact ⟨_, (Contract.readStake_iff.mp h).2.2⟩
  | GENESIS => exact ⟨_, (Contract.readFirstStake_iff.mp h).2.2⟩
  | GENESISPOOL => exact ⟨_, (Contract.readFirstStake_iff.mp h).2.2⟩
  | DEBIT => exact ⟨_, (Contract.readAction_DEBIT.mp h).2.2⟩
  | CREDIT => exact ⟨_, (Contract.readAction_CREDIT.mp h).2.2⟩
  | MIGRATE => exact ⟨_, (Contract.readAction_MIGRATE.mp h).2.2⟩
  | AUTHORIZE => exact ⟨_, (Contract.readAction_AUTHORIZE.mp h).2.2⟩
  | FEE => exact ⟨_, (Contract.readAction_FEE.mp h).2.2⟩

/-- `SeekToPrimitive` is at the operation code that the prefix leads to. -/
theorem readPrefix_of_seek {c₁ c₂ : Contract} {nOP : UInt8} (hReset : contract.reset = contract)
    (hSeek : contract.seekToPrimitive = .ok c₁) (hOP : c₁.extract UInt8 = .ok (nOP, c₂)) :
    ∃ validated n, contract.readPrefix = .ok ((nOP, validated), c₂) ∧ c₂ = contract.skip n := by
  have hOperations : contract.resetOperations = contract := by
    rw [← hReset]
    rfl
  have hBegin : contract.ssOperation.nReadPos = 0 := by
    rw [← hReset]
    rfl
  simp only [Contract.seekToPrimitive, bind_eq_ok, ite_eq_ok, Contract.seek_eq_ok, Except.ok.injEq,
    hOperations, Stream.get, demand_eq_ok, reject_eq_ok] at hSeek
  obtain ⟨_, hSize, nFirst, hGet, hCases⟩ := hSeek
  have hFits : contract.Fits 1 := by
    unfold Contract.Fits Stream.Fits
    omega
  have hFirst : nFirst = contract.peek UInt8 0 := by
    have hPeek : contract.ssOperation.vchData[contract.ssOperation.nReadPos + 0]? =
        some (contract.peek UInt8 0) := Stream.peek_uint8 hFits
    rw [hBegin] at hPeek
    exact Option.some.inj (hGet.symm.trans hPeek)
  obtain ⟨hFitsOP, rfl, rfl⟩ := Contract.extract_eq_ok.mp hOP
  have hRead : contract.extract UInt8 = .ok (contract.peek UInt8 0, contract.skip 1) :=
    Contract.extract_eq_ok.mpr ⟨hFits, rfl, rfl⟩
  rcases hCases with ⟨hCondition, -, rfl⟩ | ⟨hNot, ⟨hValidate, -, rfl⟩ | ⟨hOther, rfl⟩⟩
  · refine ⟨none, 2, ?_, Contract.skip_skip ..⟩
    simp only [Contract.readPrefix, hRead, ok_bind, ← hFirst, if_pos hCondition, hOP]
    rfl
  · rw [Contract.fits_skip] at hFitsOP
    have hTx : (contract.skip 1).extract Uint512 =
        .ok ((contract.skip 1).peek Uint512 0, contract.skip 65) :=
      Contract.extract_eq_ok.mpr
        ⟨(Contract.fits_skip ..).mpr (hFitsOP.mono (by decide)), rfl,
          by rw [Contract.skip_skip]; rfl⟩
    have hContract : (contract.skip 65).extract UInt32 =
        .ok ((contract.skip 65).peek UInt32 0, contract.skip 69) :=
      Contract.extract_eq_ok.mpr
        ⟨(Contract.fits_skip ..).mpr (hFitsOP.mono (by decide)), rfl,
          by rw [Contract.skip_skip]; rfl⟩
    refine ⟨some ((contract.skip 1).peek Uint512 0, (contract.skip 65).peek UInt32 0), 70, ?_,
      Contract.skip_skip ..⟩
    simp only [Contract.readPrefix, hRead, ok_bind, ← hFirst, if_neg hNot, if_pos hValidate, hTx,
      hContract, hOP]
    rfl
  · refine ⟨none, 1, ?_, rfl⟩
    simp only [Contract.readPrefix, hRead, ok_bind, ← hFirst, if_neg hNot, if_neg hOther]
    rfl

/-- The pre-state is read back from the script. -/
theorem prestate_withScript {state : State} (hIn : PreStateIn vchScript state)
    (hMax : state.vchState.length ≤ Stream.MAX_SIZE) :
    (withScript c vchScript).prestate = some state := by
  obtain ⟨vchRest, rfl⟩ := hIn
  have hZero : (({ vchData := FixedWidth.encode STATES.PRESTATE ++ state.serialize ++ vchRest } :
      Stream)).Fits 0 := Nat.zero_le _
  obtain ⟨hMark, hNext, hDrop⟩ := Stream.extract_step hZero (List.append_assoc ..)
  have hState := extractState_serialize hNext hMax hDrop
  have hReset : (withScript c (FixedWidth.encode STATES.PRESTATE ++ state.serialize ++
      vchRest)).ssRegister.reset =
        { vchData := FixedWidth.encode STATES.PRESTATE ++ state.serialize ++ vchRest } := rfl
  have hCheck : reject (STATES.PRESTATE ≠ STATES.PRESTATE) (Fault.error "") = .ok () :=
    reject_of_not (not_not.mpr rfl)
  simp only [Contract.prestate, hReset, Contract.extractPreState, hMark, ok_bind, hCheck, hState]
  rfl

/-- A pre-state with data above the limit of a stream is not. -/
theorem prestate_too_large {state : State} (hIn : PreStateIn vchScript state)
    (hMax : Stream.MAX_SIZE < state.vchState.length) (hWord : state.vchState.length < 2 ^ 64) :
    (withScript c vchScript).prestate = none := by
  obtain ⟨vchRest, rfl⟩ := hIn
  have hZero : (({ vchData := FixedWidth.encode STATES.PRESTATE ++ state.serialize ++ vchRest } :
      Stream)).Fits 0 := Nat.zero_le _
  obtain ⟨hMark, hNext, hDrop⟩ := Stream.extract_step hZero (List.append_assoc ..)
  obtain ⟨e, hState⟩ := extractState_too_large hNext hMax hWord hDrop
  have hReset : (withScript c (FixedWidth.encode STATES.PRESTATE ++ state.serialize ++
      vchRest)).ssRegister.reset =
        { vchData := FixedWidth.encode STATES.PRESTATE ++ state.serialize ++ vchRest } := rfl
  have hCheck : reject (STATES.PRESTATE ≠ STATES.PRESTATE) (Fault.error "") = .ok () :=
    reject_of_not (not_not.mpr rfl)
  simp only [Contract.prestate, hReset, Contract.extractPreState, hMark, ok_bind, hCheck, hState]
  rfl

/-- `Verify` verifies what is built, from the pre-state in the script. -/
theorem Built.verified (h : Built rt disk mapStates contract vchScript mapStates' action)
    (hOwned : ∀ state, PreStateIn vchScript state →
      (∀ hashTx nContract hashAddress, action ≠ .CLAIM hashTx nContract hashAddress) →
      state.hashOwner = contract.hashCaller)
    (hBounded : ∀ state, PreStateIn vchScript state → state.vchState.length ≤ Stream.MAX_SIZE) :
    Verified rt disk mapStates (withScript contract vchScript) mapStates' action := by
  have hMoves {hashAddress : Address} {fOwner : Bool} {f : State → Result State}
      (hMove : BuiltMove disk mapStates hashAddress f vchScript mapStates')
      (hNot : fOwner = true →
        ∀ hashTx nContract hashAddress, action ≠ .CLAIM hashTx nContract hashAddress) :
      Moves rt disk mapStates (withScript contract vchScript) hashAddress fOwner f mapStates' := by
    obtain ⟨current, state, hCurrent, hRun, hMap, hIn⟩ := hMove
    refine ⟨current, current, state, prestate_withScript hIn (hBounded _ hIn), hCurrent,
      beq_self_eq_true _, ?_, hRun, hMap⟩
    intro hOwner
    exact (hOwned current hIn (hNot hOwner)).symm
  cases action with
  | COINBASE _ => exact h
  | AUTHORIZE => exact h
  | CREATE _ _ _ => exact h
  | CLAIM _ _ hashAddress =>
      obtain ⟨_, hTarget, hMove⟩ := h
      obtain rfl := Option.some.inj hTarget
      exact hMoves hMove (fun hOwner => by cases hOwner)
  | _ =>
      obtain ⟨hashAddress, hTarget, hMove⟩ := h
      exact ⟨hashAddress, hTarget, hMoves hMove (fun _ => by simp)⟩

/-- What `Build` left: the script of the action that the contract performs, or nothing for a
second validation. -/
theorem Build.built (h : Build rt disk mapStates contract = .ok (contract', mapStates')) :
    (∃ d c vchScript, contract.decode = .ok (d, c) ∧ c.atEnd = true ∧
        contract' = withScript c vchScript ∧ c.reset = contract.reset ∧
          Built rt disk mapStates c vchScript mapStates' d.action) ∨
      SecondValidation contract' ∧ mapStates' = mapStates := by
  simp only [Build, bind_eq_ok, catching_eq_ok, buildBody, Prod.exists, buildOP, reject_eq_ok,
    pure_eq_ok, ite_eq_ok, demand_eq_ok, Prod.mk.injEq, Bool.not_eq_false] at h
  obtain ⟨c₁, hSeek, nOP, c₂, hOP, c₃, m, hCases, _, hEnd, rfl, rfl⟩ := h
  have hScript : clearRegisters contract.reset = withScript contract.reset [] := rfl
  rw [hScript, seekToPrimitive_withScript, map_eq_ok] at hSeek
  obtain ⟨c₀, hSeek, rfl⟩ := hSeek
  rw [extract_withScript, map_eq_ok] at hOP
  obtain ⟨⟨nOP', c₄⟩, hOP, hEq⟩ := hOP
  obtain ⟨rfl, rfl⟩ := Prod.mk.inj hEq
  obtain ⟨validated, n, hPrefix, rfl⟩ := readPrefix_of_seek rfl hSeek hOP
  rcases hCases with ⟨rfl, hOver⟩ | ⟨-, op, hPrimitive, hBuild⟩
  · obtain ⟨hFits, rfl, rfl⟩ := seekOver_iff.mp hOver
    have hVerify : verifyPrefix (withScript contract.reset []) =
        .ok (OP.VALIDATE, withScript (contract.reset.skip n) []) :=
      verifyPrefix_iff.mpr ⟨validated, by rw [readPrefix_withScript, hPrefix]; rfl⟩
    exact .inr ⟨⟨_, _, hVerify, Contract.seek_eq_ok.mpr ⟨hFits, rfl⟩, hEnd⟩, rfl⟩
  · obtain ⟨action, c, vchScript, hAction, rfl, hBuilt⟩ := buildPrimitive_ok hBuild
    obtain ⟨k, rfl⟩ := readAction_skip hAction
    refine .inl ⟨⟨validated, op, action⟩, (contract.reset.skip n).skip k, vchScript, ?_, hEnd, rfl,
      rfl, ?_⟩
    · simp only [Contract.decode, hPrefix, ok_bind, hPrimitive, demand_some, hAction]
      rfl
    · cases action <;> exact hBuilt

/-- `Verify` accepts what `Build` built, with the same map. -/
theorem Build.verifies (h : Build rt disk mapStates contract = .ok (contract', mapStates'))
    (hOwned : ∀ action state, contract'.Performs action →
      (∀ hashTx nContract hashAddress, action ≠ .CLAIM hashTx nContract hashAddress) →
      PreStateIn contract'.ssRegister.vchData state → state.hashOwner = contract'.hashCaller)
    (hBounded : ∀ state, PreStateIn contract'.ssRegister.vchData state →
      state.vchState.length ≤ Stream.MAX_SIZE) :
    Verify rt disk mapStates contract' = .ok mapStates' := by
  rcases Build.built h with ⟨d, c, vchScript, hDecode, hEnd, rfl, hReset, hBuilt⟩ | hSecond
  · have hDecode' : (withScript c vchScript).decode = .ok (d, withScript c vchScript) := by
      refine decode_withScript ?_
      rw [Contract.decode, hReset]
      exact hDecode
    have hPerforms : (withScript c vchScript).Performs d.action := ⟨d, _, hDecode', rfl⟩
    refine Verify_iff.mpr (.inl ⟨d, _, hDecode', fun _ _ => hEnd, ?_⟩)
    exact hBuilt.verified (fun state hIn hNot => hOwned _ state hPerforms hNot hIn) hBounded
  · exact Verify_iff.mpr (.inr hSecond)

end Nexus.Register
