import Nexus.Operation.Runs
import Nexus.Operation.Calculations

/-!
# What an accepted action writes

An accepted action writes the state of its target and of no other register.  The
state it writes depends on every field of the pre-state but the checksum, so a
pre-state that compares equal to the stored state gives the same result.

## Main results

* `Action.run_checksum`: a calculation does not see the checksum of its pre-state.
* `Accepted.moved`: the one state that an accepted action writes.
-/

namespace Nexus.Operation

open Nexus.Lib.Bytes
open Nexus.Lib.Checked
open Nexus.Util
open Nexus.Register
open Nexus.LLD

/-! ## Calculations and the checksum -/

/-- The object with another checksum. -/
def withChecksum (nChecksum : UInt64) (object : Object) : Object :=
  { object with state.hashChecksum := nChecksum }

section Checksum

variable {rt : Runtime} {state : State} {object : Object} {nChecksum : UInt64}
  {α : Type} [FieldType α] {strName : List UInt8} {strMessage : String}

theorem parse_checksum :
    Object.Parse ⟨{ state with hashChecksum := nChecksum }, []⟩ =
      (Object.Parse ⟨state, []⟩).map (withChecksum nChecksum) := by
  simp only [Object.Parse, map_bind]
  rfl

@[simp] theorem get_checksum :
    (withChecksum nChecksum object).get α strName = object.get α strName := rfl

@[simp] theorem standard_checksum : (withChecksum nChecksum object).Standard = object.Standard := rfl

@[simp] theorem base_checksum : (withChecksum nChecksum object).Base = object.Base := rfl

theorem write_checksum {value : α} :
    (withChecksum nChecksum object).Write strName value =
      (object.Write strName value).map (withChecksum nChecksum) := by
  simp only [Object.Write, map_bind]
  rfl

theorem finish_checksum {nTimestamp : UInt64} :
    finish rt strMessage (withChecksum nChecksum object).state nTimestamp =
      finish rt strMessage object.state nTimestamp := rfl

theorem writeBytes_checksum {nType : UInt8} {vchData : List UInt8} :
    (withChecksum nChecksum object).WriteBytes nType strName vchData =
      (object.WriteBytes nType strName vchData).map (withChecksum nChecksum) := by
  simp only [Object.WriteBytes, map_bind]
  rfl

theorem orError_map {β γ : Type} {x : Result β} {f : β → γ} :
    orError strMessage (x.map f) = (orError strMessage x).map f := by
  rcases x with (_ | _) | _ <;> rfl

theorem executeDebit_checksum {checkToken : Object → Result Unit} {nAmount nTimestamp : UInt64}
    (hToken : ∀ object, checkToken (withChecksum nChecksum object) = checkToken object) :
    executeDebit rt checkToken { state with hashChecksum := nChecksum } nAmount nTimestamp =
      executeDebit rt checkToken state nAmount nTimestamp := by
  simp only [executeDebit, parse_checksum, orError_map, bind_map, base_checksum, get_checksum,
    write_checksum, finish_checksum, hToken]
  rfl

theorem credit_checksum {nAmount nTimestamp : UInt64} :
    Credit.Execute rt { state with hashChecksum := nChecksum } nAmount nTimestamp =
      Credit.Execute rt state nAmount nTimestamp := by
  simp only [Credit.Execute, parse_checksum, orError_map, bind_map, base_checksum, get_checksum,
    write_checksum, finish_checksum]
  rfl

theorem trust_checksum {nReward nScore nTimestamp : UInt64} {nStakeChange : Int64} :
    Trust.Execute rt { state with hashChecksum := nChecksum } nReward nScore nStakeChange nTimestamp =
      Trust.Execute rt state nReward nScore nStakeChange nTimestamp := by
  simp only [Trust.Execute, parse_checksum, orError_map, bind_map, standard_checksum, get_checksum,
    write_checksum, finish_checksum]
  rfl

theorem genesis_checksum {nReward nTimestamp : UInt64} :
    Genesis.Execute rt { state with hashChecksum := nChecksum } nReward nTimestamp =
      Genesis.Execute rt state nReward nTimestamp := by
  simp only [Genesis.Execute, parse_checksum, orError_map, bind_map, standard_checksum, get_checksum,
    write_checksum, finish_checksum]
  rfl

theorem migrate_checksum {nAmount nTimestamp : UInt64} {nScore : UInt32} :
    Migrate.Execute rt { state with hashChecksum := nChecksum } nAmount nScore nTimestamp =
      Migrate.Execute rt state nAmount nScore nTimestamp := by
  simp only [Migrate.Execute, parse_checksum, orError_map, bind_map, standard_checksum, get_checksum,
    write_checksum, finish_checksum]
  rfl

theorem writeType_checksum {nType : UInt8} {s : Stream} :
    Write.writeType nType strName s (withChecksum nChecksum object) =
      (Write.writeType nType strName s object).map fun (object, s) =>
        (withChecksum nChecksum object, s) := by
  unfold Write.writeType
  split_ifs <;>
    simp only [Write.writeValue, Write.writeBytes, write_checksum, writeBytes_checksum, orError_map,
      bind_map, map_bind] <;> rfl

theorem writeFields_checksum {n : Nat} {s : Stream} {setValues : List (List UInt8)} :
    Write.writeFields n s setValues (withChecksum nChecksum object) =
      (Write.writeFields n s setValues object).map (withChecksum nChecksum) := by
  induction n generalizing s setValues object with
  | zero =>
      unfold Write.writeFields
      split <;> rfl
  | succ n ih =>
      unfold Write.writeFields
      split
      · rfl
      · simp only [map_bind, writeType_checksum, bind_map, ih]

theorem write_execute_checksum {vchData : List UInt8} {nTimestamp : UInt64} :
    Write.Execute rt { state with hashChecksum := nChecksum } vchData nTimestamp =
      Write.Execute rt state vchData nTimestamp := by
  unfold Write.Execute
  split
  · simp only [Write.executeObject, parse_checksum, orError_map, bind_map, writeFields_checksum]
    rfl
  · rfl

end Checksum

/-- A calculation does not see the checksum of its pre-state. -/
theorem Action.run_checksum {rt : Runtime} {contract : Contract} {action : Action} {state : State}
    {nChecksum : UInt64} (hTarget : (action.target rt contract.hashCaller).isSome) :
    action.run rt contract { state with hashChecksum := nChecksum } = action.run rt contract state := by
  cases action with
  | WRITE _ _ => exact write_execute_checksum
  | APPEND _ _ => rfl
  | CREATE _ _ _ => rfl
  | TRANSFER _ _ _ => rfl
  | CLAIM _ _ _ => rfl
  | COINBASE _ => cases hTarget
  | TRUST _ _ _ => exact trust_checksum
  | GENESIS _ => exact genesis_checksum
  | DEBIT _ _ _ => exact executeDebit_checksum fun _ => rfl
  | CREDIT _ => exact credit_checksum
  | MIGRATE _ _ => exact migrate_checksum
  | AUTHORIZE => cases hTarget
  | FEE _ _ => exact executeDebit_checksum fun _ => rfl
  | LEGACY _ _ => exact executeDebit_checksum fun _ => rfl

/-! ## Commits -/

/-- The databases of states after an action with the given target left `state`. -/
def Moved (register register' : RegisterDB) (target : Option Address) (state : State) : Prop :=
  match target with
  | none => register'.states = register.states ∧ register'.journal = register.journal
  | some hashAddress =>
      register'.states = Function.update register.states hashAddress (some state) ∧
        register'.journal = register.journal ++ [hashAddress]

variable {rt : Runtime} {disk disk' : Disk} {contract : Contract} {action : Action}
  {before after : State}

/-- Parsing keeps the state, and a write keeps all of it but the data. -/
theorem parse_state {object : Object} (h : Object.Parse ⟨before, []⟩ = .ok object) :
    object.state = before := by
  obtain ⟨-, es, -, rfl⟩ := Object.parse_iff.mp h
  rfl

theorem write_owner {α : Type} [FieldType α] {object object' : Object} {strName : List UInt8}
    {value : α} (h : object.Write strName value = .ok object') :
    object'.state.hashOwner = object.state.hashOwner := by
  simp only [Object.Write, bind_eq_ok, pure_eq_ok] at h
  obtain ⟨_, -, _, -, _, -, _, -, _, -, rfl⟩ := h
  rfl

theorem Trust.Execute_owner {nReward nScore nTimestamp : UInt64} {nStakeChange : Int64}
    (h : Trust.Execute rt before nReward nScore nStakeChange nTimestamp = .ok after) :
    after.hashOwner = before.hashOwner := by
  simp only [Trust.Execute, bind_eq_ok, Prod.exists, orError_eq_ok] at h
  obtain ⟨object, hParse, _, -, _, -, _, -, _, _, -, _, hTrust, _, hBalance, _, hStake, hFinish⟩ := h
  obtain ⟨rfl, -⟩ := finish_eq_ok.mp hFinish
  exact (write_owner hStake).trans ((write_owner hBalance).trans ((write_owner hTrust).trans
    (congrArg State.hashOwner (parse_state hParse))))

theorem Genesis.Execute_owner {nReward nTimestamp : UInt64}
    (h : Genesis.Execute rt before nReward nTimestamp = .ok after) :
    after.hashOwner = before.hashOwner := by
  simp only [Genesis.Execute, bind_eq_ok, orError_eq_ok] at h
  obtain ⟨object, hParse, _, -, _, -, _, -, _, -, _, -, _, -, _, -, _, hStake, _, hBalance, hFinish⟩ := h
  obtain ⟨rfl, -⟩ := finish_eq_ok.mp hFinish
  exact (write_owner hBalance).trans ((write_owner hStake).trans
    (congrArg State.hashOwner (parse_state hParse)))

/-- The one state that an accepted action writes. -/
theorem Accepted.moved (h : Accepted rt disk contract action before after disk') :
    Moved disk.register disk'.register (action.target rt contract.hashCaller) after := by
  obtain ⟨hStart, hRun, hCommit, hAllowed⟩ := h
  cases action with
  | WRITE hashAddress vchData =>
      obtain rfl := Except.ok.inj hCommit
      exact ⟨rfl, rfl⟩
  | APPEND hashAddress vchData =>
      obtain rfl := Except.ok.inj hCommit
      exact ⟨rfl, rfl⟩
  | CREATE hashAddress nType vchData =>
      simp only [Action.commit, Create.Commit, map_eq_ok, bind_eq_ok, pure_eq_ok, Prod.exists,
        Prod.mk.injEq] at hCommit
      obtain ⟨_, _, ⟨_, -, _, -, rfl, rfl⟩, rfl⟩ := hCommit
      exact ⟨rfl, rfl⟩
  | TRANSFER hashAddress hashTransfer nType =>
      obtain rfl := Except.ok.inj hCommit
      exact ⟨rfl, rfl⟩
  | CLAIM hashTx nContract hashAddress =>
      simp only [Action.commit, Claim.Commit, bind_eq_ok, pure_eq_ok] at hCommit
      obtain ⟨_, -, rfl⟩ := hCommit
      exact ⟨rfl, rfl⟩
  | COINBASE hashGenesis =>
      obtain rfl := Except.ok.inj hCommit
      split <;> exact ⟨rfl, rfl⟩
  | TRUST nScore nStakeChange nReward =>
      simp only [Action.commit, Trust.Commit, bind_eq_ok, pure_eq_ok] at hCommit
      obtain ⟨_, -, rfl⟩ := hCommit
      rw [Trust.Execute_owner hRun, hAllowed]
      exact ⟨rfl, rfl⟩
  | GENESIS nReward =>
      simp only [Action.commit, Genesis.Commit, bind_eq_ok, pure_eq_ok] at hCommit
      obtain ⟨_, -, rfl⟩ := hCommit
      rw [Genesis.Execute_owner hRun, hAllowed]
      exact ⟨rfl, rfl⟩
  | DEBIT hashFrom hashTo nAmount =>
      simp only [Action.commit, Debit.Commit, ite_eq_ok, bind_eq_ok, pure_eq_ok,
        Except.ok.injEq] at hCommit
      rcases hCommit with ⟨-, _, -, rfl⟩ | ⟨-, rfl⟩
      · exact ⟨rfl, rfl⟩
      · exact ⟨rfl, rfl⟩
  | CREDIT credit =>
      simp only [Action.commit, Credit.Commit, bind_eq_ok, pure_eq_ok] at hCommit
      obtain ⟨_, -, _, -, _, -, rfl⟩ := hCommit
      exact ⟨rfl, rfl⟩
  | MIGRATE hashTx migrate =>
      simp only [Action.commit, Migrate.Commit, bind_eq_ok, pure_eq_ok] at hCommit
      obtain ⟨_, -, rfl⟩ := hCommit
      exact ⟨rfl, rfl⟩
  | AUTHORIZE =>
      obtain rfl := Except.ok.inj hCommit
      exact ⟨rfl, rfl⟩
  | FEE hashAddress nFees =>
      obtain rfl := Except.ok.inj hCommit
      exact ⟨rfl, rfl⟩
  | LEGACY hashAddress nAmount =>
      obtain rfl := Except.ok.inj hCommit
      exact ⟨rfl, rfl⟩

/-- An action leaves the validations alone. -/
theorem Accepted.validations (h : Accepted rt disk contract action before after disk') :
    disk'.contract = disk.contract := by
  have hCommit := h.commit
  cases action with
  | CREATE hashAddress nType vchData =>
      simp only [Action.commit, Create.Commit, map_eq_ok, bind_eq_ok, pure_eq_ok, Prod.exists,
        Prod.mk.injEq] at hCommit
      obtain ⟨_, _, ⟨_, -, _, -, rfl, rfl⟩, rfl⟩ := hCommit
      rfl
  | CLAIM hashTx nContract hashAddress =>
      simp only [Action.commit, Claim.Commit, bind_eq_ok, pure_eq_ok] at hCommit
      obtain ⟨_, -, rfl⟩ := hCommit
      rfl
  | COINBASE hashGenesis =>
      obtain rfl := Except.ok.inj hCommit
      split <;> rfl
  | TRUST nScore nStakeChange nReward =>
      simp only [Action.commit, Trust.Commit, bind_eq_ok, pure_eq_ok] at hCommit
      obtain ⟨_, -, rfl⟩ := hCommit
      rfl
  | GENESIS nReward =>
      simp only [Action.commit, Genesis.Commit, bind_eq_ok, pure_eq_ok] at hCommit
      obtain ⟨_, -, rfl⟩ := hCommit
      rfl
  | DEBIT hashFrom hashTo nAmount =>
      simp only [Action.commit, Debit.Commit, ite_eq_ok, bind_eq_ok, pure_eq_ok,
        Except.ok.injEq] at hCommit
      rcases hCommit with ⟨-, _, -, rfl⟩ | ⟨-, rfl⟩
      · rfl
      · rfl
  | CREDIT credit =>
      simp only [Action.commit, Credit.Commit, bind_eq_ok, pure_eq_ok] at hCommit
      obtain ⟨_, -, _, -, _, -, rfl⟩ := hCommit
      rfl
  | MIGRATE hashTx migrate =>
      simp only [Action.commit, Migrate.Commit, bind_eq_ok, pure_eq_ok] at hCommit
      obtain ⟨_, -, rfl⟩ := hCommit
      rfl
  | _ =>
      obtain rfl := Except.ok.inj hCommit
      rfl

end Nexus.Operation
