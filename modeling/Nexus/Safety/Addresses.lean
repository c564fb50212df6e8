import Nexus.Register.Undone
import Nexus.Register.WellFormed
import Nexus.Safety.Tokens

/-!
# Addresses and registers

The type byte of an address tells the kind of the register there: a creation
asks for it, and neither another contract nor a rollback changes the kind.  A
rollback writes the pre-state that a contract carried, which was well-formed when
the contract was connected.

`Execute` alone trusts the pre-state in the script, so the law needs `Verify`,
which compares it with the stored state.

## Main results

* `Changes.sound`: the invariant of the registers and of the connected contracts.
* `addresses_tell`: the kind at an address, over any run.
* `raw_at_account`: a raw register that `Execute` writes at the address of an account.
-/

namespace Nexus.Safety

open Nexus.Lib
open Nexus.Lib.Bytes
open Nexus.Lib.Checked
open Nexus.Util
open Nexus.Register
open Nexus.Operation
open Nexus.LLD
open Nexus.Ledger

/-- The registers of a chain, with the contracts that were connected to it. -/
structure Registers where
  states : States := fun _ => none
  connected : List Connection := []

/-- A contract is connected, or rolled back on some databases. -/
inductive Change where
  | connect (x : Connection)
  | rollback (rt : Runtime) (disk : Disk) (x : Connection)

/-- The changes that are accepted.  Any contract that was connected may be rolled back, in any
order and on any other records. -/
inductive Changes : Registers → Change → Registers → Prop
  | connect {r : Registers} {x : Connection} {states' : States}
      (hConnects : Connects r.states x states')
      (hHash : Distinguishes x.call.rt r.states x.call.contract) :
      Changes r (.connect x) ⟨states', x :: r.connected⟩
  | rollback {r : Registers} {x : Connection} {rt : Runtime} {disk disk' : Disk}
      (hConnected : x ∈ r.connected) (hHash : rt.SK256 = x.call.rt.SK256)
      (hStart : disk.register.states = r.states)
      (hRollback : Rollback rt disk x.call.contract = .ok disk') :
      Changes r (.rollback rt disk x) ⟨disk'.register.states, r.connected⟩

variable {rt rt' : Runtime} {disk disk' disk₁ disk₁' : Disk} {contract : Contract} {action : Action}
  {hashAddress : Address} {before after : State} {r r' : Registers}

/-! ## What a rollback writes -/

theorem target_congr (h : rt.SK256 = rt'.SK256) (hashCaller : Uint256) :
    action.target rt hashCaller = action.target rt' hashCaller := by
  cases action <;> simp only [Action.target, RegisterDB.trustAddress, Address.ofKey, h]

/-- The registers after a rollback: as before, without the one created, or with the pre-state
in the one moved. -/
def Undoes (rt : Runtime) (contract : Contract) (action : Action) (before : State)
    (states states' : States) : Prop :=
  states' = states ∨
    ∃ hashAddress, action.target rt contract.hashCaller = some hashAddress ∧
      (states' = Function.update states hashAddress none ∨
        (∀ hashAddress nType vchData, action ≠ .CREATE hashAddress nType vchData) ∧
          states' = Function.update states hashAddress (some before))

theorem restore_states (hPre : contract.prestate = some before)
    (h : restore rt disk contract hashAddress = .ok disk') :
    disk'.register.states = Function.update disk.register.states hashAddress (some before) := by
  simp only [restore, hPre, demand_some, ok_bind, pure_eq_ok] at h
  rw [← h]
  rfl

theorem rollbackEvent_register {hashEvent : Uint256} (h : rollbackEvent disk "" hashEvent = .ok disk') :
    disk'.register = disk.register := by
  simp only [rollbackEvent, bind_eq_ok, pure_eq_ok] at h
  obtain ⟨_, -, rfl⟩ := h
  rfl

theorem undo_states (hAccepted : Accepted rt' disk₁ contract action before after disk₁')
    (hUndo : undo rt disk contract action = .ok disk') :
    Undoes rt contract action before disk.register.states disk'.register.states := by
  have hStart := hAccepted.start
  have hAllowed := hAccepted.allowed
  cases action with
  | WRITE hashAddress _ =>
      exact .inr ⟨hashAddress, rfl, .inr ⟨by simp, restore_states hStart hUndo⟩⟩
  | APPEND hashAddress _ =>
      exact .inr ⟨hashAddress, rfl, .inr ⟨by simp, restore_states hStart hUndo⟩⟩
  | CREATE hashAddress _ _ =>
      obtain rfl := Except.ok.inj hUndo
      exact .inr ⟨hashAddress, rfl, .inl rfl⟩
  | TRANSFER hashAddress hashTransfer _ =>
      simp only [undo, bind_eq_ok, ite_eq_ok, Except.ok.injEq] at hUndo
      obtain ⟨d, hRestore, hEvent⟩ := hUndo
      have hStates := restore_states hStart hRestore
      refine .inr ⟨hashAddress, rfl, .inr ⟨by simp, ?_⟩⟩
      rcases hEvent with ⟨-, hEvent⟩ | ⟨-, rfl⟩
      · rw [rollbackEvent_register hEvent, hStates]
      · exact hStates
  | CLAIM _ _ hashAddress =>
      have hRestored := restore_states hStart hUndo
      exact .inr ⟨hashAddress, rfl, .inr ⟨by simp, hRestored⟩⟩
  | COINBASE _ =>
      simp only [undo, ite_eq_ok, Except.ok.injEq] at hUndo
      rcases hUndo with ⟨-, hEvent⟩ | ⟨-, rfl⟩
      · exact .inl (congrArg RegisterDB.states (rollbackEvent_register hEvent))
      · exact .inl rfl
  | TRUST _ _ _ =>
      have hOwner : before.hashOwner = contract.hashCaller := hAllowed
      have hPre : contract.prestate = some before := hStart
      simp only [undo, hPre, demand_some, ok_bind, pure_eq_ok, hOwner] at hUndo
      obtain rfl := hUndo
      exact .inr ⟨_, rfl, .inr ⟨by simp, rfl⟩⟩
  | GENESIS _ =>
      have hOwner : before.hashOwner = contract.hashCaller := hAllowed
      have hPre : contract.prestate = some before := hStart
      simp only [undo, hPre, demand_some, ok_bind, pure_eq_ok, hOwner] at hUndo
      obtain rfl := hUndo
      exact .inr ⟨_, rfl, .inr ⟨by simp, rfl⟩⟩
  | DEBIT hashFrom _ _ =>
      simp only [undo, bind_eq_ok, ite_eq_ok, Except.ok.injEq] at hUndo
      obtain ⟨d, hRestore, stateTo, -, hEvent⟩ := hUndo
      have hStates := restore_states hStart hRestore
      refine .inr ⟨hashFrom, rfl, .inr ⟨by simp, ?_⟩⟩
      rcases hEvent with ⟨-, hEvent⟩ | ⟨-, rfl⟩
      · rw [rollbackEvent_register hEvent, hStates]
      · exact hStates
  | CREDIT credit =>
      simp only [undo, bind_eq_ok, pure_eq_ok] at hUndo
      obtain ⟨d, hRestore, _, -, _, -, rfl⟩ := hUndo
      have hRestored := restore_states hStart hRestore
      exact .inr ⟨credit.hashAccount, rfl, .inr ⟨by simp, hRestored⟩⟩
  | MIGRATE _ migrate =>
      simp only [undo, bind_eq_ok, pure_eq_ok] at hUndo
      obtain ⟨d, hRestore, rfl⟩ := hUndo
      have hRestored := restore_states hStart hRestore
      exact .inr ⟨migrate.hashAccount, rfl, .inr ⟨by simp, hRestored⟩⟩
  | AUTHORIZE =>
      obtain rfl := Except.ok.inj hUndo
      exact .inl rfl
  | FEE hashAddress _ =>
      exact .inr ⟨hashAddress, rfl, .inr ⟨by simp, restore_states hStart hUndo⟩⟩
  | LEGACY hashAddress _ =>
      exact .inr ⟨hashAddress, rfl, .inr ⟨by simp, restore_states hStart hUndo⟩⟩

/-! ## The invariant -/

/-- The contract performed an action that was accepted, and the pre-state that it carries is
well-formed at the address it moves. -/
def CarriesWellFormed (x : Connection) : Prop :=
  ∃ action disk disk' before after, x.call.contract.Performs action ∧
    Accepted x.call.rt disk x.call.contract action before after disk' ∧
    ∀ hashAddress, action.target x.call.rt x.call.contract.hashCaller = some hashAddress →
      (∀ hashAddress nType vchData, action ≠ .CREATE hashAddress nType vchData) →
      WellFormed hashAddress before

/-- All registers are well-formed, and so is what a rollback may write. -/
structure Registers.Sound (r : Registers) : Prop where
  registers : AllWellFormed r.states
  connected : ∀ x ∈ r.connected, CarriesWellFormed x

theorem Registers.sound_empty : Registers.Sound {} :=
  ⟨fun _ _ hNone => (by cases hNone), fun _ hMem => (by cases hMem)⟩

/-- A connected contract carries the state of a well-formed register. -/
theorem Connects.carries {states states' : States} {x : Connection} (hAll : AllWellFormed states)
    (hConnects : Connects states x states')
    (hHash : Distinguishes x.call.rt states x.call.contract) : CarriesWellFormed x := by
  obtain ⟨action, disk, hPerforms, hLedger, hLegacy, hRegister, hEffect⟩ := hConnects.effect hHash
  cases hEffect with
  | idle hTarget =>
      obtain ⟨disk', hExecutes, -⟩ := hConnects.executes
      obtain ⟨action', disk₁, before, after, hPerforms', -, -, -, hAccepted⟩ := hExecutes.accepted
      obtain rfl := hPerforms.inj hPerforms'
      refine ⟨action, disk₁, disk', before, after, hPerforms, hAccepted, ?_⟩
      intro hashAddress hSome
      rw [hTarget] at hSome
      cases hSome
  | create hFree hAccepted =>
      refine ⟨_, _, _, _, _, hPerforms, hAccepted, ?_⟩
      intro _ _ hOther
      exact absurd rfl (hOther _ _ _)
  | move hTarget hOther hCurrent hBefore hAccepted =>
      refine ⟨action, _, _, _, _, hPerforms, hAccepted, ?_⟩
      intro hashAddress hTarget' _
      obtain rfl := Option.some.inj (hTarget.symm.trans hTarget')
      rw [hBefore]
      exact (hAll _ _ hCurrent).checksum

/-- Every change keeps the registers sound. -/
theorem Changes.sound {change : Change} (hSound : r.Sound) (h : Changes r change r') :
    r'.Sound := by
  cases h with
  | connect hConnects hHash =>
      obtain ⟨action, disk, -, -, -, -, hEffect⟩ := hConnects.effect hHash
      refine ⟨hEffect.wellFormed hSound.registers, ?_⟩
      intro y hMem
      rcases List.mem_cons.mp hMem with rfl | hMem
      · exact Connects.carries hSound.registers hConnects hHash
      · exact hSound.connected y hMem
  | @rollback x rt disk disk' hConnected hHash hStart hRollback =>
      refine ⟨?_, hSound.connected⟩
      obtain ⟨action, disk₁, disk₁', before, after, hPerforms, hAccepted, hWell⟩ :=
        hSound.connected x hConnected
      obtain ⟨d, c, hDecode, -, hUndo⟩ := Rollback_iff.mp hRollback
      obtain rfl := hPerforms.inj ⟨d, c, hDecode, rfl⟩
      have hStates := undo_states hAccepted hUndo
      have hOld : (unvalidate disk d.validated).register.states = r.states := by
        rw [← hStart]
        cases d.validated <;> rfl
      rw [hOld] at hStates
      intro hashOther state hState
      rcases hStates with hSame | ⟨hashAddress, hTarget, hErased | ⟨hOther, hRestored⟩⟩
      · simp only [hSame] at hState
        exact hSound.registers _ _ hState
      · simp only [hErased] at hState
        by_cases hSame : hashOther = hashAddress
        · rw [hSame, Function.update_self] at hState
          cases hState
        · rw [Function.update_of_ne hSame] at hState
          exact hSound.registers _ _ hState
      · simp only [hRestored] at hState
        by_cases hSame : hashOther = hashAddress
        · rw [hSame, Function.update_self] at hState
          obtain rfl := Option.some.inj hState
          rw [hSame]
          exact hWell _ ((target_congr hHash _) ▸ hTarget) hOther
        · rw [Function.update_of_ne hSame] at hState
          exact hSound.registers _ _ hState

/-! ## Kinds -/

/-- The type of the registers at addresses with a type byte. -/
def registerType (nByte : UInt8) : UInt8 :=
  if nByte = Address.READONLY then REGISTER.READONLY
  else if nByte = Address.APPEND then REGISTER.APPEND
  else if nByte = Address.RAW then REGISTER.RAW
  else REGISTER.OBJECT

theorem type_of_required {state : State} {nByte : UInt8} (h : requiredType state = some nByte) :
    state.nType = registerType nByte := by
  unfold requiredType at h
  split_ifs at h with hReadonly hAppend hRaw hObject
  · rw [hReadonly, ← Option.some.inj h]
    rfl
  · rw [hAppend, ← Option.some.inj h]
    rfl
  · rw [hRaw, ← Option.some.inj h]
    rfl
  · obtain ⟨object, -, hType⟩ := Option.map_eq_some_iff.mp h
    rw [hObject, ← hType]
    cases object.Standard <;> rfl

/-- Different kinds of objects are at addresses of different types. -/
theorem addressType_inj {kind kind' : OBJECTS}
    (h : Create.addressType kind = Create.addressType kind') : kind = kind' := by
  cases kind <;> cases kind' <;> first | rfl | exact absurd h (by decide)

/-- What an address tells of the register there: its type and kind, now and at any later time, and
that its data is within the bound. -/
structure Tells (states' : States) (hashAddress : Address) (state : State) : Prop where
  address : requiredType state = some (GetType hashAddress)
  size : state.vchState.length ≤ MAX_REGISTER_SIZE
  account : ∀ object, Object.Parse ⟨state, []⟩ = .ok object →
    object.Standard ∈ [OBJECTS.ACCOUNT, OBJECTS.TOKEN, OBJECTS.TRUST] →
    Address.IsObject hashAddress = false
  type : ∀ state', states' hashAddress = some state' → state'.nType = state.nType
  kind : ∀ state' object object', states' hashAddress = some state' →
    Object.Parse ⟨state, []⟩ = .ok object → Object.Parse ⟨state', []⟩ = .ok object' →
    object'.Standard = object.Standard

/-- Over every run, the address of a register tells what is there. -/
theorem addresses_tell {changes changes' : List Change} (hRun : Run Changes {} changes r)
    (hLater : Run Changes r changes' r') (hState : r.states hashAddress = some before) :
    Tells r'.states hashAddress before := by
  have hSound : r.Sound := hRun.invariant (fun _ _ _ => Changes.sound) Registers.sound_empty
  have hSound' : r'.Sound := hLater.invariant (fun _ _ _ => Changes.sound) hSound
  have hWell := hSound.registers _ _ hState
  refine ⟨hWell.address, hWell.size, ?_, ?_, ?_⟩
  · intro object hParse hKind
    obtain ⟨object', hParse', hAddress⟩ := hWell.parses (hWell.object hParse)
    obtain rfl := Except.ok.inj (hParse.symm.trans hParse')
    simp only [List.mem_cons, List.not_mem_nil, or_false] at hKind
    rw [Address.IsObject, hAddress]
    rcases hKind with hKind | hKind | hKind <;> rw [hKind] <;> rfl
  · intro state' hState'
    have hType := type_of_required hWell.address
    have hType' := type_of_required (hSound'.registers _ _ hState').address
    rw [hType, hType']
  · intro state' object object' hState' hParse hParse'
    have hWell' := hSound'.registers _ _ hState'
    obtain ⟨object₁, hParse₁, hAddress⟩ := hWell.parses (hWell.object hParse)
    obtain ⟨object₁', hParse₁', hAddress'⟩ := hWell'.parses (hWell'.object hParse')
    obtain rfl := Except.ok.inj (hParse.symm.trans hParse₁)
    obtain rfl := Except.ok.inj (hParse'.symm.trans hParse₁')
    exact addressType_inj (hAddress'.symm.trans hAddress)

/-! ## A register over a run, and one written by `Execute` alone -/

/-- What the payment of alice left, rolled back. -/
@[irreducible]
def silverReturned : Disk :=
  (Rollback exampleRuntime (silverPaid.call.apply silverPaid.disk)
    silverPaid.call.contract).toOption.getD {}

/-- The silver is created, paid with, and the payment is rolled back. -/
theorem addresses_tell_silver :
    Tells silverReturned.register.states silver
      (objectState alice 10 10 (tokenData silver 100 100)) := by
  have hStart : (silverPaid.call.apply silverPaid.disk).register.states =
      Connection.apply silverPaid := by rw [Connection.apply]
  have hRollback : Rollback exampleRuntime (silverPaid.call.apply silverPaid.disk)
      silverPaid.call.contract = .ok silverReturned := by
    unfold silverReturned
    exact eq_ok_of_isOk (by decide +kernel)
  have hState : Connection.apply purseCreated silver =
      some (objectState alice 10 10 (tokenData silver 100 100)) := by decide +kernel
  have hBefore : Run Changes {} [.connect silverCreated, .connect purseCreated]
      ⟨Connection.apply purseCreated, [purseCreated, silverCreated]⟩ :=
    .cons (.connect silverCreated_connects.1 silverCreated_connects.2.1)
      (.single (.connect purseCreated_connects.1 purseCreated_connects.2.1))
  have hAfter : Run Changes ⟨Connection.apply purseCreated, [purseCreated, silverCreated]⟩
      [.connect silverPaid, .rollback exampleRuntime (silverPaid.call.apply silverPaid.disk) silverPaid]
      ⟨silverReturned.register.states, [silverPaid, purseCreated, silverCreated]⟩ :=
    .cons (.connect silverPaid_connects.1 silverPaid_connects.2.1)
      (.single (.rollback (List.mem_cons_self ..) rfl hStart hRollback))
  exact addresses_tell hBefore hAfter hState

/-- Bob's raw register, forged at the address of a purse. -/
def forgedTransfer : Call where
  rt := exampleRuntime
  contract := ((transferToBob purse (rawState alice 20 [7])).contract exampleRuntime 0).toOption.getD {}

/-- `Execute` writes a raw register at the address of an account. -/
theorem raw_at_account :
    Executes {} forgedTransfer (forgedTransfer.apply {}) ∧
      ∃ state, (forgedTransfer.apply {}).register.ReadState purse = some state ∧
        requiredType state ≠ some (GetType purse) := by
  exact ⟨executes_apply (by decide +kernel), pending (rawState alice 20 [7]), by decide +kernel,
    by decide +kernel⟩

end Nexus.Safety
