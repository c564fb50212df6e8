import Nexus.Operation.Effects
import Nexus.Register.Verified

/-!
# The registers of a chain

A block connects its contracts one after another: `Verify` compares the pre-state
in the script of a contract with the current state of its register, and `Execute`
calculates the post-state from the pre-state and writes it.  Between two contracts
every record but the register states may change.

`Verify` compares hashes of 64 bits.  `Distinguishes` says that the hash of the
pre-state is not also the hash of another state, so that the comparison is one of
states.

## Main results

* `Connects.effect`: what a connected contract did to the register states.
-/

namespace Nexus.Register

open Nexus.Lib
open Nexus.Lib.Bytes
open Nexus.Lib.Checked
open Nexus.Util
open Nexus.Operation
open Nexus.LLD

/-- A contract to connect: the databases, and the states that the contracts before it in
its transaction left. -/
structure Connection where
  disk : Disk
  mapStates : States := fun _ => none
  call : Call

/-- `Verify` and `Execute` accept the contract on the current states. -/
structure Connects (states : States) (x : Connection) (states' : States) : Prop where
  start : x.disk.register.states = states
  current : ∀ hashAddress, readState x.disk x.mapStates hashAddress = states hashAddress
  verifies : ∃ mapStates', Verify x.call.rt x.disk x.mapStates x.call.contract = .ok mapStates'
  executes : ∃ disk', Executes x.disk x.call disk' ∧ disk'.register.states = states'

/-- The hash of the pre-state is not also the hash of another state at the register that the
contract moves. -/
def Distinguishes (rt : Runtime) (states : States) (contract : Contract) : Prop :=
  ∀ action hashAddress prestate current, contract.Performs action →
    action.target rt contract.hashCaller = some hashAddress →
    contract.prestate = some prestate → states hashAddress = some current →
    prestate.GetHash rt = current.GetHash rt → prestate.hashBytes = current.hashBytes

/-- What an action does to the register states: nothing, a new register, or a new state of
an old one. -/
inductive Effect (rt : Runtime) (disk : Disk) (contract : Contract) (states : States) :
    Action → States → Prop
  | idle {action : Action} (hTarget : action.target rt contract.hashCaller = none) :
      Effect rt disk contract states action states
  | create {hashAddress : Address} {nType : UInt8} {vchData : List UInt8} {after : State}
      {disk' : Disk} (hFree : states hashAddress = none)
      (hAccepted : Accepted rt disk contract (.CREATE hashAddress nType vchData)
        (createdState nType contract.hashCaller) after disk') :
      Effect rt disk contract states (.CREATE hashAddress nType vchData)
        (Function.update states hashAddress (some after))
  | move {action : Action} {hashAddress : Address} {current before after : State}
      {disk' : Disk} (hTarget : action.target rt contract.hashCaller = some hashAddress)
      (hOther : ∀ hashAddress nType vchData, action ≠ .CREATE hashAddress nType vchData)
      (hCurrent : states hashAddress = some current)
      (hBefore : before = { current with hashChecksum := before.hashChecksum })
      (hAccepted : Accepted rt disk contract action before after disk') :
      Effect rt disk contract states action (Function.update states hashAddress (some after))

variable {rt : Runtime} {disk disk' : Disk} {mapStates mapStates' states states' : States}
  {contract : Contract} {action : Action} {hashAddress : Address}

/-- A verified action with a target that is not a creation moves it. -/
theorem Verified.moves (h : Verified rt disk mapStates contract mapStates' action)
    (hTarget : action.target rt contract.hashCaller = some hashAddress)
    (hOther : ∀ hashAddress nType vchData, action ≠ .CREATE hashAddress nType vchData) :
    ∃ fOwner, Moves rt disk mapStates contract hashAddress fOwner (action.run rt contract)
      mapStates' := by
  cases action with
  | COINBASE _ => cases hTarget
  | AUTHORIZE => cases hTarget
  | CREATE _ _ _ => exact absurd rfl (hOther _ _ _)
  | CLAIM _ _ _ =>
      obtain rfl := Option.some.inj hTarget
      exact ⟨false, h⟩
  | _ =>
      obtain ⟨hashAddress', hTarget', hMoves⟩ := h
      obtain rfl := Option.some.inj (hTarget.symm.trans hTarget')
      exact ⟨true, hMoves⟩

/-- An action other than a creation starts from the pre-state. -/
theorem before_eq_prestate (hTarget : action.target rt contract.hashCaller = some hashAddress)
    (hOther : ∀ hashAddress nType vchData, action ≠ .CREATE hashAddress nType vchData) :
    action.before contract = contract.prestate := by
  cases action with
  | COINBASE _ => cases hTarget
  | AUTHORIZE => cases hTarget
  | CREATE _ _ _ => exact absurd rfl (hOther _ _ _)
  | _ => rfl

/-- What a connected contract did. -/
theorem Connects.effect {x : Connection} (h : Connects states x states')
    (hHash : Distinguishes x.call.rt states x.call.contract) :
    ∃ action disk, x.call.contract.Performs action ∧ disk.ledger = x.disk.ledger ∧
      disk.legacy = x.disk.legacy ∧ disk.register = x.disk.register ∧
      Effect x.call.rt disk x.call.contract states action states' := by
  obtain ⟨rfl, hCurrent, ⟨mapStates', hVerify⟩, disk', hExecutes, rfl⟩ := h
  obtain ⟨action, disk, before, after, hPerforms, hLedger, hLegacy, hRegister, hAccepted⟩ :=
    hExecutes.accepted
  refine ⟨action, disk, hPerforms, hLedger, hLegacy, hRegister, ?_⟩
  have hMoved := hAccepted.moved
  rw [hRegister] at hMoved
  cases hTarget : action.target x.call.rt x.call.contract.hashCaller with
  | none =>
      rw [hTarget] at hMoved
      rw [hMoved.1]
      exact .idle hTarget
  | some hashAddress =>
      rw [hTarget] at hMoved
      rw [hMoved.1]
      by_cases hCreate : ∃ hashAddress nType vchData, action = .CREATE hashAddress nType vchData
      · obtain ⟨hashCreated, nType, vchData, rfl⟩ := hCreate
        obtain rfl := Option.some.inj hTarget
        have hCommit := hAccepted.commit
        simp only [Action.commit, Create.Commit, map_eq_ok, bind_eq_ok, reject_eq_ok, Prod.exists,
          Bool.not_eq_true] at hCommit
        obtain ⟨_, _, ⟨_, -, _, hFree, -⟩, -⟩ := hCommit
        obtain rfl := Option.some.inj hAccepted.start
        refine .create ?_ hAccepted
        rw [hRegister] at hFree
        exact Option.isNone_iff_eq_none.mp (by simpa [RegisterDB.HasState] using hFree)
      · simp only [not_exists] at hCreate
        obtain ⟨fOwner, prestate, current, -, hPre, hRead, hEqual, -⟩ :=
          (Verify.verified hVerify hPerforms).moves hTarget hCreate
        have hStart := hAccepted.start
        rw [before_eq_prestate hTarget hCreate, hPre] at hStart
        obtain rfl := Option.some.inj hStart
        rw [hCurrent] at hRead
        exact .move hTarget hCreate hRead
          (State.hashBytes_inj (hHash _ _ _ _ hPerforms hTarget hPre hRead (beq_iff_eq.mp hEqual)))
          hAccepted

end Nexus.Register
