import Nexus.Lib.Run
import Nexus.Operation.Accepted

/-!
# Runs of contracts

A run executes one contract after another on the databases.  The environment of
the node is part of each call, since the clock and the flags differ from call to
call.
-/

namespace Nexus.Operation

open Nexus.Lib
open Nexus.Lib.Checked
open Nexus.Util
open Nexus.Register
open Nexus.LLD

/-- A contract to execute, in an environment and with the cost so far. -/
structure Call where
  rt : Runtime
  contract : Contract
  nCost : UInt64 := 0

/-- `Execute` accepts the call and leaves the databases `disk'`. -/
def Executes (disk : Disk) (call : Call) (disk' : Disk) : Prop :=
  ∃ nCost, Execute call.rt disk call.contract call.nCost = .ok (disk', nCost)

/-- The databases after a call; a call that is not accepted changes nothing. -/
def Call.apply (disk : Disk) (call : Call) : Disk :=
  match Execute call.rt disk call.contract call.nCost with
  | .ok (disk', _) => disk'
  | .error _ => disk

theorem executes_apply {disk : Disk} {call : Call}
    (h : (Execute call.rt disk call.contract call.nCost).isOk = true) :
    Executes disk call (call.apply disk) := by
  unfold Executes Call.apply
  cases hRun : Execute call.rt disk call.contract call.nCost with
  | ok r => exact ⟨r.2, rfl⟩
  | error e =>
      rw [hRun] at h
      cases h

namespace Contract

/-- The contract performs an action. -/
def Performs (contract : Contract) (action : Action) : Prop :=
  ∃ d c, contract.decode = .ok (d, c) ∧ d.action = action

theorem Performs.inj {contract : Contract} {action action' : Action}
    (h : contract.Performs action) (h' : contract.Performs action') : action = action' := by
  obtain ⟨d, c, hDecode, rfl⟩ := h
  obtain ⟨d', c', hDecode', rfl⟩ := h'
  rw [hDecode] at hDecode'
  cases hDecode'
  rfl

/-- The action of a contract, computed. -/
theorem performs_of_decode {contract : Contract} {action : Action}
    (h : contract.decode.toOption.map (fun (d, _) => d.action) = some action) :
    contract.Performs action := by
  cases hDecode : contract.decode with
  | error e =>
      rw [hDecode] at h
      cases h
  | ok r =>
      rw [hDecode] at h
      exact ⟨r.1, r.2, hDecode, Option.some.inj h⟩

end Contract

/-- An accepted contract performed an action, on databases where its prefix was recorded. -/
theorem Executes.accepted {disk disk' : Disk} {call : Call} (h : Executes disk call disk') :
    ∃ action disk₁ before after, call.contract.Performs action ∧
      disk₁.ledger = disk.ledger ∧ disk₁.legacy = disk.legacy ∧ disk₁.register = disk.register ∧
      Accepted call.rt disk₁ call.contract action before after disk' := by
  obtain ⟨nCost, hExecute⟩ := h
  obtain ⟨d, c, disk₁, before, after, hDecode, -, hValidate, hAccepted⟩ := Execute.accepted hExecute
  refine ⟨d.action, disk₁, before, after, ⟨d, c, hDecode, rfl⟩, ?_, ?_, ?_, hAccepted⟩
  all_goals
    unfold validate at hValidate
    split at hValidate
    · obtain rfl := Except.ok.inj hValidate
      rfl
    · simp only [Validate.Commit, bind_eq_ok, pure_eq_ok] at hValidate
      obtain ⟨u, -, rfl⟩ := hValidate
      rfl

end Nexus.Operation
