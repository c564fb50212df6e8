import Nexus.Register.Built
import Nexus.Safety.Tokens

/-!
# What is built is verified

`Build` and `Verify` thread the same map through the contracts of a transaction.
When `Build` accepts every contract, `Verify` accepts what it built and ends with
the same map, as long as the caller owns the pre-states and the pre-states can be
read back: a stream reads no vector above its limit, and appends can take a state
over it.

## Main results

* `build_sound`: the contracts of a transaction.
* `build_of_large_state`: two appends that are built and not verified.
-/

namespace Nexus.Safety

open Nexus.Lib.Bytes
open Nexus.Lib.Checked
open Nexus.Util
open Nexus.Register
open Nexus.Operation
open Nexus.LLD
open Nexus.Ledger

/-- `Build` on the contracts of a transaction, with one map. -/
def buildAll (rt : Runtime) (disk : Disk) :
    States → List Contract → Result (List Contract × States)
  | mapStates, [] => .ok ([], mapStates)
  | mapStates, contract :: vContracts => do
      let (contract, mapStates) ← Build rt disk mapStates contract
      let (vContracts, mapStates) ← buildAll rt disk mapStates vContracts
      return (contract :: vContracts, mapStates)

/-- `Transaction::Verify`: `Verify` on the contracts of a transaction, with one map. -/
def verifyAll (rt : Runtime) (disk : Disk) : States → List Contract → Result States
  | mapStates, [] => .ok mapStates
  | mapStates, contract :: vContracts => do
      let mapStates ← Verify rt disk mapStates contract
      verifyAll rt disk mapStates vContracts

/-- The caller owns the pre-state in the script, but for a claim. -/
def OwnsPreState (contract : Contract) : Prop :=
  ∀ action state, contract.Performs action →
    (∀ hashTx nContract hashAddress, action ≠ .CLAIM hashTx nContract hashAddress) →
    PreStateIn contract.ssRegister.vchData state → state.hashOwner = contract.hashCaller

/-- The data of the pre-state in the script is within the limit of a stream. -/
def ReadablePreState (contract : Contract) : Prop :=
  ∀ state, PreStateIn contract.ssRegister.vchData state → state.vchState.length ≤ Stream.MAX_SIZE

variable {rt : Runtime} {disk : Disk} {mapStates mapStates' : States}
  {vContracts vBuilt : List Contract} {contract : Contract} {vchScript : List UInt8}
  {state state' : State}

/-- From any map, what is built is verified. -/
theorem buildAll_verifies (h : buildAll rt disk mapStates vContracts = .ok (vBuilt, mapStates'))
    (hOwned : ∀ contract ∈ vBuilt, OwnsPreState contract)
    (hReadable : ∀ contract ∈ vBuilt, ReadablePreState contract) :
    verifyAll rt disk mapStates vBuilt = .ok mapStates' := by
  induction vContracts generalizing mapStates vBuilt with
  | nil =>
      obtain ⟨rfl, rfl⟩ := Prod.mk.inj (Except.ok.inj h)
      rfl
  | cons contract vContracts ih =>
      simp only [buildAll, bind_eq_ok, Prod.exists, pure_eq_ok, Prod.mk.injEq] at h
      obtain ⟨built, m, hBuild, vRest, m', hRest, rfl, rfl⟩ := h
      have hVerify : Verify rt disk mapStates built = .ok m :=
        Build.verifies hBuild (hOwned _ (List.mem_cons_self ..)) (hReadable _ (List.mem_cons_self ..))
      have hNext : verifyAll rt disk m vRest = .ok m' :=
        ih hRest (fun c hMem => hOwned c (List.mem_cons_of_mem _ hMem))
          (fun c hMem => hReadable c (List.mem_cons_of_mem _ hMem))
      rw [verifyAll, hVerify, ok_bind, hNext]

/-- The contracts of a transaction, from the empty map. -/
theorem build_sound
    (h : buildAll rt disk (fun _ => none) vContracts = .ok (vBuilt, mapStates))
    (hOwned : ∀ contract ∈ vBuilt, OwnsPreState contract)
    (hReadable : ∀ contract ∈ vBuilt, ReadablePreState contract) :
    verifyAll rt disk (fun _ => none) vBuilt = .ok mapStates :=
  buildAll_verifies h hOwned hReadable

/-! ## The pre-state in a script -/

/-- The data of a pre-state is in the script. -/
theorem length_of_preStateIn (h : PreStateIn vchScript state) :
    state.vchState.length ≤ vchScript.length := by
  obtain ⟨vchRest, rfl⟩ := h
  simp only [State.serialize, State.hashBytes, serializeBytes, List.length_append]
  omega

/-- A script begins with pre-states of one owner. -/
theorem owner_of_preStateIn (h : PreStateIn vchScript state) (h' : PreStateIn vchScript state') :
    state.hashOwner = state'.hashOwner := by
  obtain ⟨vchRest, rfl⟩ := h
  obtain ⟨vchRest', hEq⟩ := h'
  simp only [State.serialize, State.hashBytes, List.append_assoc] at hEq
  obtain ⟨-, h₁⟩ := List.append_inj hEq (by simp only [FixedWidth.encode_length])
  obtain ⟨-, h₂⟩ := List.append_inj h₁ (by simp only [FixedWidth.encode_length])
  obtain ⟨-, h₃⟩ := List.append_inj h₂ (by simp only [FixedWidth.encode_length])
  obtain ⟨hOwner, -⟩ := List.append_inj h₃ (by simp only [FixedWidth.encode_length])
  exact FixedWidth.encode_inj hOwner

/-! ## Two payments, and two appends -/

/-- Alice pays an amount to the purse, in a contract with no script yet. -/
def unbuiltPayment (nAmount : UInt64) : Contract where
  ssOperation :=
    { vchData := FixedWidth.encode OP.DEBIT ++ FixedWidth.encode silver ++
        FixedWidth.encode purse ++ FixedWidth.encode nAmount ++ FixedWidth.encode (0 : UInt64) }
  hashCaller := alice
  nTimestamp := 30
  nVersion := 2

/-- What is built of two payments of alice. -/
@[irreducible]
def builtPayments : List Contract × States :=
  (buildAll exampleRuntime fundedDisk (fun _ => none) [unbuiltPayment 7, unbuiltPayment 5]).toOption.getD
    ([], fun _ => none)

/-- The second payment is built on the state that the first left. -/
theorem build_sound_silver :
    verifyAll exampleRuntime fundedDisk (fun _ => none) builtPayments.1 = .ok builtPayments.2 := by
  have hBuild : buildAll exampleRuntime fundedDisk (fun _ => none)
      [unbuiltPayment 7, unbuiltPayment 5] = .ok builtPayments := by
    unfold builtPayments
    exact eq_ok_of_isOk (by decide +kernel)
  have hReadable : ∀ contract ∈ builtPayments.1, ReadablePreState contract := by
    have hLength : ∀ contract ∈ builtPayments.1, contract.ssRegister.vchData.length ≤ 1000 := by
      decide +kernel
    intro contract hMem state hIn
    have hState := length_of_preStateIn hIn
    have hScript := hLength contract hMem
    have hMax : 1000 ≤ Stream.MAX_SIZE := by decide
    omega
  refine build_sound hBuild ?_ hReadable
  have hOwner : ∀ contract ∈ builtPayments.1,
      (contract.prestate.all fun state => state.hashOwner == contract.hashCaller) = true := by
    decide +kernel
  intro contract hMem action state hPerforms hNot hIn
  have hPre : contract.prestate = some state :=
    prestate_withScript (c := contract) hIn (hReadable contract hMem state hIn)
  have hCaller := hOwner contract hMem
  rw [hPre] at hCaller
  exact beq_iff_eq.mp hCaller

/-- A register of alice that takes appends. -/
def logbook : Address := SetType 40 Address.APPEND

def logState (nModified : UInt64) (vchState : List UInt8) : State :=
  State.SetChecksum exampleRuntime
    { nVersion := 1, nType := REGISTER.APPEND, hashOwner := alice, nCreated := 10, nModified, vchState }

/-- Append to the logbook. -/
def appendTo (vchData : List UInt8) : Contract where
  ssOperation :=
    { vchData := FixedWidth.encode OP.APPEND ++ (FixedWidth.encode logbook ++ serializeBytes vchData) }
  hashCaller := alice
  nTimestamp := 30
  nVersion := 2

/-- The script of an append to the logbook. -/
def appendScript (vchData : List UInt8) (nModified : UInt64) (vchState : List UInt8) : List UInt8 :=
  FixedWidth.encode STATES.PRESTATE ++ (logState nModified vchState).serialize ++
    (FixedWidth.encode STATES.POSTSTATE ++
      FixedWidth.encode ((logState 30 (vchState ++ vchData)).GetHash exampleRuntime))

/-- The append, read to its end. -/
def appendRead (vchData : List UInt8) : Contract :=
  ((appendTo vchData).skip 33).skip (serializeBytes vchData).length

theorem append_logState {vchData : List UInt8} (hData : vchData ≠ []) (nModified : UInt64)
    (vchState : List UInt8) :
    Append.Execute exampleRuntime (logState nModified vchState) vchData 30 =
      .ok (logState 30 (vchState ++ vchData)) := by
  refine finish_eq_ok.mpr ⟨?_, ?_⟩
  · simp only [logState, State.Append, State.SetChecksum, State.GetHash, State.hashBytes]
  · have hTime : (10 : UInt64) ≤ exampleRuntime.unifiedtimestamp + exampleRuntime.maxdrift ∧
        (30 : UInt64) ≤ exampleRuntime.unifiedtimestamp + exampleRuntime.maxdrift := by decide
    have hKind : REGISTER.APPEND ≠ REGISTER.SYSTEM := by decide
    simp [State.IsValid, State.IsNull, logState, State.SetChecksum, State.GetHash, State.hashBytes,
      hTime, hKind, hData]

theorem seek_append (vchData : List UInt8) :
    (clearRegisters (appendTo vchData).reset).seekToPrimitive = .ok (appendTo vchData) := by
  rfl

/-- What `Build` reads of an append, up to its end. -/
theorem append_reads {vchData : List UInt8} (hMax : vchData.length ≤ Stream.MAX_SIZE) :
    (appendTo vchData).extract UInt8 = .ok (OP.APPEND, (appendTo vchData).skip 1) ∧
      ((appendTo vchData).skip 1).extract Uint256 = .ok (logbook, (appendTo vchData).skip 33) ∧
      ((appendTo vchData).skip 33).extractBytes = .ok (vchData, appendRead vchData) ∧
      (appendRead vchData).atEnd = true := by
  have hFits : (appendTo vchData).ssOperation.Fits 0 := Nat.zero_le _
  obtain ⟨hOP, hFits₁, hRest₁⟩ := Stream.extract_step hFits (List.drop_zero ..)
  obtain ⟨hAddress, hFits₂, hRest₂⟩ := Stream.extract_step hFits₁ hRest₁
  rw [← List.append_nil (serializeBytes vchData)] at hRest₂
  obtain ⟨hData, hFits₃, hRest₃⟩ := Stream.extractBytes_step hFits₂ hMax hRest₂
  refine ⟨?_, ?_, ?_, ?_⟩
  · rw [Contract.extract, hOP]
    rfl
  · rw [Contract.extract, show ((appendTo vchData).skip 1).ssOperation.extract Uint256 = _ from hAddress]
    rfl
  · rw [Contract.extractBytes, show ((appendTo vchData).skip 33).ssOperation.extractBytes = _ from hData]
    rfl
  · have hLength := List.drop_eq_nil_iff.mp hRest₃
    exact beq_iff_eq.mpr (Nat.le_antisymm hFits₃ hLength)

theorem build_append {vchData : List UInt8} (hSome : vchData ≠ [])
    (hMax : vchData.length ≤ Stream.MAX_SIZE) {nModified : UInt64} {vchState : List UInt8}
    (h : readState disk mapStates logbook = some (logState nModified vchState)) :
    Build exampleRuntime disk mapStates (appendTo vchData) =
      .ok (withScript (appendRead vchData) (appendScript vchData nModified vchState),
        Function.update mapStates logbook (some (logState 30 (vchState ++ vchData)))) := by
  obtain ⟨hOP, hAddress, hData, hEnd⟩ := append_reads hMax
  simp only [Build, bind_eq_ok, catching_eq_ok, buildBody, Prod.exists, buildOP, ite_eq_ok,
    demand_eq_ok, buildPrimitive, reject_eq_ok, pure_eq_ok]
  refine ⟨_, seek_append vchData, _, _, hOP, _, _, .inr ⟨by decide, .APPEND, by decide, ?_⟩, (), ?_, rfl⟩
  · simp only [buildAPPEND, hAddress, ok_bind, hData, buildRegister, h, demand_some]
    have hOwner : reject (True ∧ (logState nModified vchState).hashOwner ≠
        (writeRegister (appendRead vchData) (FixedWidth.encode STATES.PRESTATE)).hashCaller)
          (Fault.error ("OP::APPEND" ++ ": cannot generate pre-state if not owner")) = .ok () :=
      reject_of_not fun hNot => hNot.2 rfl
    have hRun : Append.Execute exampleRuntime (logState nModified vchState) vchData
        (appendRead vchData).nTimestamp = .ok (logState 30 (vchState ++ vchData)) :=
      append_logState hSome ..
    have hScript : writePostState exampleRuntime (writeRegister
        (writeRegister (appendRead vchData) (FixedWidth.encode STATES.PRESTATE))
          (logState nModified vchState).serialize) (logState 30 (vchState ++ vchData)) =
            withScript (appendRead vchData) (appendScript vchData nModified vchState) := by
      have hEmpty : (appendRead vchData).ssRegister = {} := rfl
      simp only [writePostState, writeRegister, withScript, appendScript, hEmpty, List.nil_append,
        List.append_assoc]
    rw [hOwner, ok_bind, orError_eq_ok.mpr hRun, ok_bind, hScript]
    rfl
  · intro hNot
    exact absurd (hEnd.symm.trans hNot) (by decide)

theorem preStateIn_append (vchData : List UInt8) (nModified : UInt64) (vchState : List UInt8) :
    PreStateIn (appendScript vchData nModified vchState) (logState nModified vchState) := by
  refine ⟨FixedWidth.encode STATES.POSTSTATE ++
    FixedWidth.encode ((logState 30 (vchState ++ vchData)).GetHash exampleRuntime), ?_⟩
  rw [appendScript]

theorem ownsPreState_append (vchData : List UInt8) (nModified : UInt64) (vchState : List UInt8) :
    OwnsPreState (withScript (appendRead vchData) (appendScript vchData nModified vchState)) := by
  intro action state _ _ hIn
  have hOwner := owner_of_preStateIn hIn (preStateIn_append vchData nModified vchState)
  rw [hOwner]
  rfl

theorem performs_append : (appendRead [0]).Performs (.APPEND logbook [0]) :=
  Contract.performs_of_decode (by decide +kernel)

/-- The databases with a logbook of one byte. -/
def logDisk : Disk where
  register.states := Function.update (fun _ => none) logbook (some (logState 20 [0]))

/-- As many bytes as a stream reads are appended to the logbook, and one more.  The first append
takes the state over the limit, and the second carries it. -/
theorem build_of_long_append {vchData : List UInt8} (hFull : vchData.length = Stream.MAX_SIZE) :
    ∃ vBuilt mapStates,
      buildAll exampleRuntime logDisk (fun _ => none) [appendTo vchData, appendTo [0]] =
        .ok (vBuilt, mapStates) ∧
      (∀ contract ∈ vBuilt, OwnsPreState contract) ∧
      verifyAll exampleRuntime logDisk (fun _ => none) vBuilt ≠ .ok mapStates := by
  have hSome : vchData ≠ [] := by
    rw [← List.length_pos_iff, hFull]
    decide
  have hStored : readState logDisk (fun _ => none) logbook = some (logState 20 [0]) := by
    simp [readState, logDisk, RegisterDB.ReadState]
  have hFirst := build_append hSome hFull.le hStored
  have hLater : readState logDisk (Function.update (fun _ => none) logbook
      (some (logState 30 ([0] ++ vchData)))) logbook = some (logState 30 ([0] ++ vchData)) := by
    simp [readState]
  have hOne : ([0] : List UInt8) ≠ [] := by decide
  have hShort : ([0] : List UInt8).length ≤ Stream.MAX_SIZE := by decide
  have hSecond := build_append hOne hShort hLater
  let mapFirst : States :=
    Function.update (fun _ => none) logbook (some (logState 30 ([0] ++ vchData)))
  let mapSecond : States :=
    Function.update mapFirst logbook (some (logState 30 ([0] ++ vchData ++ [0])))
  refine ⟨[withScript (appendRead vchData) (appendScript vchData 20 [0]),
    withScript (appendRead [0]) (appendScript [0] 30 ([0] ++ vchData))], mapSecond, ?_, ?_, ?_⟩
  · simp only [buildAll, hFirst, ok_bind, hSecond]
    rfl
  · intro contract hMem
    rcases List.mem_cons.mp hMem with rfl | hMem
    · exact ownsPreState_append _ _ _
    · rw [List.mem_singleton.mp hMem]
      exact ownsPreState_append _ _ _
  · intro hVerify
    simp only [verifyAll, bind_eq_ok] at hVerify
    obtain ⟨m, -, m', hSecond, -⟩ := hVerify
    -- the second contract has a pre-state of one byte too many
    have hLong : (logState 30 ([0] ++ vchData)).vchState.length = Stream.MAX_SIZE + 1 := by
      rw [← hFull]
      simp [logState, State.SetChecksum]
    have hUnread := prestate_too_large (c := appendRead [0]) (preStateIn_append [0] 30 ([0] ++ vchData))
      (by rw [hLong]; exact Nat.lt_succ_self _) (by rw [hLong]; decide)
    obtain ⟨d, c, hDecode, hAction⟩ := performs_append
    have hPerforms : (withScript (appendRead [0]) (appendScript [0] 30 ([0] ++ vchData))).Performs
        (.APPEND logbook [0]) := ⟨d, _, decode_withScript hDecode, hAction⟩
    obtain ⟨hashAddress, -, prestate, current, state, hRead, -⟩ :=
      Verify.verified hSecond hPerforms
    rw [hUnread] at hRead
    cases hRead

/-- The first append is of the most bytes that a stream reads. -/
theorem build_of_large_state :
    ∃ vchData vBuilt mapStates,
      buildAll exampleRuntime logDisk (fun _ => none) [appendTo vchData, appendTo [0]] =
        .ok (vBuilt, mapStates) ∧
      (∀ contract ∈ vBuilt, OwnsPreState contract) ∧
      verifyAll exampleRuntime logDisk (fun _ => none) vBuilt ≠ .ok mapStates :=
  ⟨List.replicate Stream.MAX_SIZE 0, build_of_long_append List.length_replicate⟩

end Nexus.Safety
