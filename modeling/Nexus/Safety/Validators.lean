import Nexus.Register.Chain
import Nexus.Safety.Tokens

/-!
# The two validators of a contract

`Verify` calculates the post-state of a register from its current state, `Execute`
from the pre-state in the script.  The pre-state has the hash of the current
state.  When no other state has that hash, both calculate the same state for the
same register.

## Main results

* `validators_agree`: what `Execute` writes is what `Verify` put into the map.
-/

namespace Nexus.Safety

open Nexus.Lib.Bytes
open Nexus.Lib.Checked
open Nexus.Util
open Nexus.Register
open Nexus.Operation
open Nexus.LLD
open Nexus.Ledger

variable {rt : Runtime} {disk disk' : Disk} {mapStates mapStates' : States} {contract : Contract}
  {action : Action} {nCost nCost' : UInt64}

/-- The map after an action with the given target calculated `state`. -/
def Mapped (mapStates mapStates' : States) (target : Option Address) (state : State) : Prop :=
  match target with
  | none => mapStates' = mapStates
  | some hashAddress => mapStates' = Function.update mapStates hashAddress (some state)

/-- A verified action puts the state that the accepted action writes into the map. -/
theorem Verified.mapped {before after : State}
    (hVerified : Verified rt disk mapStates contract mapStates' action)
    (hAccepted : Accepted rt disk contract action before after disk')
    (hCurrent : ∀ hashAddress current,
      action.target rt contract.hashCaller = some hashAddress →
      contract.prestate = some before → readState disk mapStates hashAddress = some current →
      before.GetHash rt = current.GetHash rt → before.hashBytes = current.hashBytes) :
    Mapped mapStates mapStates' (action.target rt contract.hashCaller) after := by
  by_cases hCreate : ∃ hashAddress nType vchData, action = .CREATE hashAddress nType vchData
  · obtain ⟨hashAddress, nType, vchData, rfl⟩ := hCreate
    obtain ⟨state, hRun, hMap⟩ := hVerified
    have hStart := Option.some.inj hAccepted.start
    have hSame : after = state := by
      have hRun' := hAccepted.run
      rw [← hStart, hRun] at hRun'
      exact (Except.ok.inj hRun').symm
    rw [hSame]
    exact hMap
  · simp only [not_exists] at hCreate
    cases hTarget : action.target rt contract.hashCaller with
    | none =>
        cases action with
        | COINBASE _ => exact hVerified
        | AUTHORIZE => exact hVerified
        | _ => cases hTarget
    | some hashAddress =>
        obtain ⟨fOwner, prestate, current, state, hPre, hRead, hEqual, -, hRun, hMap⟩ :=
          hVerified.moves hTarget hCreate
        have hStart := hAccepted.start
        rw [before_eq_prestate hTarget hCreate, hPre] at hStart
        obtain rfl := Option.some.inj hStart
        have hBytes := hCurrent _ _ hTarget hPre hRead (beq_iff_eq.mp hEqual)
        have hSome : (action.target rt contract.hashCaller).isSome := by
          rw [hTarget]
          rfl
        have hSame : after = state := by
          have hRun' := hAccepted.run
          rw [State.hashBytes_inj hBytes, Action.run_checksum hSome, hRun] at hRun'
          exact (Except.ok.inj hRun').symm
        rw [hSame]
        exact hMap

/-- `Execute` writes the states at some addresses, which are those that `Verify` put into the
map, and the states are those of the map. -/
theorem validators_agree (hHash : Distinguishes rt disk.register.states contract)
    (hVerify : Verify rt disk (fun _ => none) contract = .ok mapStates)
    (hExecute : Execute rt disk contract nCost = .ok (disk', nCost')) :
    ∃ written, disk'.register.journal = disk.register.journal ++ written ∧
      (∀ hashAddress, hashAddress ∈ written ↔ (mapStates hashAddress).isSome = true) ∧
      ∀ hashAddress ∈ written, disk'.register.ReadState hashAddress = mapStates hashAddress := by
  have hExecutes : Executes disk ⟨rt, contract, nCost⟩ disk' := ⟨nCost', hExecute⟩
  obtain ⟨action, disk₁, before, after, hPerforms, -, -, hRegister, hAccepted⟩ := hExecutes.accepted
  have hVerified := (Verify.verified hVerify hPerforms).congr hRegister
  have hMapped := Verified.mapped hVerified hAccepted (by
    intro hashAddress current hTarget hPre hRead
    rw [readState, hRegister] at hRead
    exact hHash _ _ _ _ hPerforms hTarget hPre hRead)
  have hMoved := hAccepted.moved
  rw [hRegister] at hMoved
  cases hTarget : action.target rt contract.hashCaller with
  | none =>
      rw [hTarget] at hMapped hMoved
      have hNone : mapStates = fun _ => none := hMapped
      refine ⟨[], by rw [hMoved.2, List.append_nil], ?_, ?_⟩
      · simp [hNone]
      · simp
  | some hashWritten =>
      rw [hTarget] at hMapped hMoved
      have hSome : mapStates = Function.update (fun _ => none) hashWritten (some after) := hMapped
      refine ⟨[hashWritten], hMoved.2, ?_, ?_⟩
      · intro hashAddress
        by_cases hSame : hashAddress = hashWritten
        · simp [hSome, hSame]
        · simp [hSome, hSame]
      · intro hashAddress hMem
        rw [List.mem_singleton.mp hMem, RegisterDB.ReadState, hMoved.1, hSome, Function.update_self,
          Function.update_self]

/-- The payment of alice. -/
theorem validators_agree_silver :
    ∃ written, (silverPaid.call.apply silverPaid.disk).register.journal =
        silverPaid.disk.register.journal ++ written ∧
      (∀ hashAddress, hashAddress ∈ written ↔
        (((Verify exampleRuntime silverPaid.disk (fun _ => none)
          silverPaid.call.contract).toOption.getD fun _ => none) hashAddress).isSome = true) ∧
      ∀ hashAddress ∈ written,
        (silverPaid.call.apply silverPaid.disk).register.ReadState hashAddress =
          ((Verify exampleRuntime silverPaid.disk (fun _ => none)
            silverPaid.call.contract).toOption.getD fun _ => none) hashAddress := by
  have hPerforms : silverPaid.call.contract.Performs (.DEBIT silver purse 7) :=
    Contract.performs_of_decode (by decide +kernel)
  have hExecutes : Executes silverPaid.disk silverPaid.call
      (silverPaid.call.apply silverPaid.disk) := executes_apply (by decide +kernel)
  obtain ⟨nCost', hExecute⟩ := hExecutes
  have hHash : Distinguishes exampleRuntime silverPaid.disk.register.states
      silverPaid.call.contract := distinguishes_of_sameFields hPerforms (by decide +kernel)
  exact validators_agree hHash (eq_ok_of_isOk (by decide +kernel)) hExecute

end Nexus.Safety
