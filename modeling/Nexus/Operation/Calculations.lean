import Nexus.Operation.Accepted
import Nexus.Register.SameFields

/-!
# What the calculations do

One specification for each `Execute` that rewrites an object: which fields it
touches, and what the fields read before and after.  All of them keep the type
and the size of the register, and all but the transfers keep its owner.

## Main results

* `executeDebit_ok`, `Credit.Execute_ok`: the balance before and after.
* `Action.run_rewrites`: what an accepted action may change in an object.
-/

namespace Nexus.Operation

open Nexus.Lib.Bytes
open Nexus.Lib.Checked
open Nexus.Util
open Nexus.Register
open Nexus.LLD

variable {rt : Runtime} {state after : State} {object object' : Object} {es : List Entry}
  {nAmount nTimestamp : UInt64} {strMessage : String} {touched : List UInt8 → Prop}

@[simp] theorem get_eq_ok {α : Type} [FieldType α] {strName : List UInt8} {value : α} :
    object.get α strName = .ok value ↔ object.Read α strName = .ok value := by
  unfold Object.get Object.orThrow
  split <;> simp_all

/-- The register keeps its type and its owner, and all but some fields. -/
structure Rewrites (touched : List UInt8 → Prop) (state state' : State) : Prop where
  type : state'.nType = state.nType
  owner : state'.hashOwner = state.hashOwner
  fields : SameFields touched state.vchState state'.vchState

/-- An object that some writes turned another into. -/
structure Writes (touched : List UInt8 → Prop) (es : List Entry) (object object' : Object) : Prop where
  parsed : object'.Parsed es
  state : object'.state = { object.state with vchState := object'.state.vchState }
  fields : SameFields touched object.state.vchState object'.state.vchState

namespace Writes

theorem refl (h : object.Parsed es) : Writes touched es object object :=
  ⟨h, rfl, SameFields.refl ..⟩

theorem write {α : Type} [FieldType α] {strName : List UInt8} {value : α} {object'' : Object}
    (h : Writes touched es object object') (hName : touched strName)
    (hWrite : object'.Write strName value = .ok object'') : Writes touched es object object'' where
  parsed := (Object.write_spec h.parsed hWrite).parsed
  state := by
    rw [(Object.write_spec h.parsed hWrite).state, h.state]
  fields := h.fields.trans ((h.parsed.write_fields hWrite).mono fun _ hEq => hEq ▸ hName)

/-- The checked state that an object ends in. -/
theorem finish (h : Writes touched es object object')
    (hType : object.state.nType = REGISTER.OBJECT ∨ object.state.nType = REGISTER.SYSTEM)
    (hFinish : finish rt strMessage object'.state nTimestamp = .ok after) :
    Rewrites touched object.state after ∧ ∃ final, Object.Parse ⟨after, []⟩ = .ok final ∧
      ∀ {α : Type} [FieldType α] {strName : List UInt8} {value : α},
        final.Read α strName = .ok value ↔ object'.Read α strName = .ok value := by
  obtain ⟨rfl, -⟩ := finish_eq_ok.mp hFinish
  have hFinal : Object.Parsed ⟨{ object'.state with nModified := nTimestamp }.SetChecksum rt,
      es.map Entry.toPair⟩ es := ⟨h.parsed.entries, rfl, h.parsed.size⟩
  have hSame : object'.state.nType = object.state.nType := by
    rw [h.state]
  refine ⟨⟨hSame, by rw [h.state]; rfl, h.fields⟩, _, hFinal.parse ?_, ?_⟩
  · show object'.state.nType = _ ∨ object'.state.nType = _
    rwa [hSame]
  · intro α _ strName value
    rw [hFinal.read_iff, h.parsed.read_iff]
    rfl

end Writes

/-- Parsing gives an object to write to. -/
theorem writes_of_parse (touched : List UInt8 → Prop) (hSize : state.vchState.length ≤ 2 ^ 16)
    (h : Object.Parse ⟨state, []⟩ = .ok object) :
    object.state = state ∧ (state.nType = REGISTER.OBJECT ∨ state.nType = REGISTER.SYSTEM) ∧
      ∃ es, Writes touched es object object := by
  obtain ⟨hState, es, hParsed⟩ := Object.parsed_of_parse h hSize
  exact ⟨hState, (Object.parse_iff.mp h).1, es, Writes.refl hParsed⟩

/-! ## Finance -/

/-- The name of the field that payments move. -/
def balance : List UInt8 := bytesOf "balance"

/-- A payment leaves `nBalance'` of the balance of an account. -/
structure Pays (state : State) (nBalance nBalance' : UInt64) (after : State) : Prop where
  rewrites : Rewrites (· = balance) state after
  before : ∃ object, Object.Parse ⟨state, []⟩ = .ok object ∧ object.Base = .ACCOUNT ∧
    object.Read UInt64 balance = .ok nBalance
  after : ∃ object, Object.Parse ⟨after, []⟩ = .ok object ∧
    object.Read UInt64 balance = .ok nBalance'

/-- One write of the balance of a parsed account. -/
theorem pays_of_write {nBalance nBalance' : UInt64} (hSize : state.vchState.length ≤ 2 ^ 16)
    (hParse : Object.Parse ⟨state, []⟩ = .ok object) (hBase : object.Base = .ACCOUNT)
    (hRead : object.Read UInt64 balance = .ok nBalance)
    (hWrite : object.Write balance nBalance' = .ok object')
    (hFinish : finish rt strMessage object'.state nTimestamp = .ok after) :
    Pays state nBalance nBalance' after := by
  obtain ⟨rfl, hType, es, hWrites⟩ := writes_of_parse (· = balance) hSize hParse
  obtain ⟨hRewrites, final, hFinal, hReads⟩ := (hWrites.write rfl hWrite).finish hType hFinish
  refine ⟨hRewrites, ⟨object, hParse, hBase, hRead⟩, final, hFinal, ?_⟩
  exact hReads.mpr (Object.write_spec hWrites.parsed hWrite).read

theorem executeDebit_ok {checkToken : Object → Result Unit} (hSize : state.vchState.length ≤ 2 ^ 16)
    (h : executeDebit rt checkToken state nAmount nTimestamp = .ok after) :
    ∃ nBalance, nAmount ≤ nBalance ∧ Pays state nBalance (nBalance - nAmount) after := by
  simp only [executeDebit, bind_eq_ok, orError_eq_ok, reject_eq_ok, get_eq_ok, not_not,
    UInt64.not_lt] at h
  obtain ⟨object, hParse, u, hBase, v, -, nBalance, hRead, w, hAmount, object', hWrite, hFinish⟩ := h
  exact ⟨nBalance, hAmount, pays_of_write hSize hParse hBase hRead hWrite hFinish⟩

theorem Credit.Execute_ok (hSize : state.vchState.length ≤ 2 ^ 16)
    (h : Credit.Execute rt state nAmount nTimestamp = .ok after) :
    ∃ nBalance, Pays state nBalance (nBalance + nAmount) after := by
  simp only [Credit.Execute, bind_eq_ok, orError_eq_ok, reject_eq_ok, get_eq_ok, not_not] at h
  obtain ⟨object, hParse, u, hBase, nBalance, hRead, object', hWrite, hFinish⟩ := h
  exact ⟨nBalance, pays_of_write hSize hParse hBase hRead hWrite hFinish⟩

/-! ## Stake -/

/-- The names of the fields that stake operations move. -/
def staked (strName : List UInt8) : Prop :=
  strName = balance ∨ strName = bytesOf "trust" ∨ strName = bytesOf "stake"

/-- A stake operation rewrites a trust account. -/
structure Stakes (state after : State) : Prop where
  rewrites : Rewrites staked state after
  standard : ∃ object, Object.Parse ⟨state, []⟩ = .ok object ∧ object.Standard = .TRUST

theorem Trust.Execute_ok {nReward nScore : UInt64} {nStakeChange : Int64}
    (hSize : state.vchState.length ≤ 2 ^ 16)
    (h : Trust.Execute rt state nReward nScore nStakeChange nTimestamp = .ok after) :
    Stakes state after := by
  simp only [Trust.Execute, bind_eq_ok, Prod.exists, orError_eq_ok, reject_eq_ok, not_not] at h
  obtain ⟨object, hParse, u, hStandard, _, -, _, -, _, _, -, _, hTrust, _, hBalance, _, hStake,
    hFinish⟩ := h
  obtain ⟨rfl, hType, es, hWrites⟩ := writes_of_parse staked hSize hParse
  have hWrites := ((hWrites.write (.inr (.inl rfl)) hTrust).write (.inl rfl) hBalance).write
    (.inr (.inr rfl)) hStake
  exact ⟨(hWrites.finish hType hFinish).1, object, hParse, hStandard⟩

theorem Genesis.Execute_ok {nReward : UInt64} (hSize : state.vchState.length ≤ 2 ^ 16)
    (h : Genesis.Execute rt state nReward nTimestamp = .ok after) : Stakes state after := by
  simp only [Genesis.Execute, bind_eq_ok, orError_eq_ok, reject_eq_ok, not_not] at h
  obtain ⟨object, hParse, u, hStandard, _, -, _, -, _, -, _, -, _, -, _, -, _, hStake, _, hBalance,
    hFinish⟩ := h
  obtain ⟨rfl, hType, es, hWrites⟩ := writes_of_parse staked hSize hParse
  have hWrites := (hWrites.write (.inr (.inr rfl)) hStake).write (.inl rfl) hBalance
  exact ⟨(hWrites.finish hType hFinish).1, object, hParse, hStandard⟩

theorem Migrate.Execute_ok {nScore : UInt32} (hSize : state.vchState.length ≤ 2 ^ 16)
    (h : Migrate.Execute rt state nAmount nScore nTimestamp = .ok after) : Stakes state after := by
  simp only [Migrate.Execute, bind_eq_ok, orError_eq_ok, reject_eq_ok, not_not] at h
  obtain ⟨object, hParse, u, hStandard, _, -, _, -, _, -, _, -, _, hStake, _, hTrust, hFinish⟩ := h
  obtain ⟨rfl, hType, es, hWrites⟩ := writes_of_parse staked hSize hParse
  have hWrites := (hWrites.write (.inr (.inr rfl)) hStake).write (.inr (.inl rfl)) hTrust
  exact ⟨(hWrites.finish hType hFinish).1, object, hParse, hStandard⟩

/-! ## Writes -/

/-- A write stream touches no reserved field. -/
def unreserved (strName : List UInt8) : Prop := Write.Reserved strName = false

theorem Write.writeValue_ok {α : Type} [FieldType α] {strName : List UInt8} {s s' : Stream}
    {object'' : Object} (h : Writes unreserved es object object') (hName : unreserved strName)
    (hWrite : Write.writeValue α strMessage strName s object' = .ok (object'', s')) :
    Writes unreserved es object object'' := by
  simp only [Write.writeValue, bind_eq_ok, Prod.exists, orError_eq_ok, pure_eq_ok,
    Prod.mk.injEq] at hWrite
  obtain ⟨nValue, s₁, -, object₁, hWrite, rfl, -⟩ := hWrite
  exact h.write hName hWrite

theorem Write.writeBytes_ok {nType : UInt8} {strName : List UInt8} {s s' : Stream}
    {object'' : Object} (h : Writes unreserved es object object') (hName : unreserved strName)
    (hNone : fixedSize nType = none)
    (hWrite : Write.writeBytes nType strMessage strName s object' = .ok (object'', s')) :
    Writes unreserved es object object'' := by
  simp only [Write.writeBytes, bind_eq_ok, Prod.exists, orError_eq_ok, pure_eq_ok,
    Prod.mk.injEq] at hWrite
  obtain ⟨vData, s₁, -, object₁, hWrite, rfl, -⟩ := hWrite
  obtain ⟨hParsed, hState, hFields⟩ := h.parsed.writeBytes_fields hNone hWrite
  refine ⟨hParsed, ?_, h.fields.trans (hFields.mono fun _ hEq => hEq ▸ hName)⟩
  rw [hState, h.state]

theorem Write.writeType_ok {nType : UInt8} {strName : List UInt8} {s s' : Stream}
    {object'' : Object} (h : Writes unreserved es object object') (hName : unreserved strName)
    (hWrite : Write.writeType nType strName s object' = .ok (object'', s')) :
    Writes unreserved es object object'' := by
  simp only [Write.writeType, ite_eq_ok, reduceCtorEq, and_false, or_false] at hWrite
  rcases hWrite with ⟨-, hWrite⟩ | ⟨-, ⟨-, hWrite⟩ | ⟨-, ⟨-, hWrite⟩ | ⟨-, ⟨-, hWrite⟩ | ⟨-, ⟨-, hWrite⟩ |
    ⟨-, ⟨-, hWrite⟩ | ⟨-, ⟨-, hWrite⟩ | ⟨-, ⟨-, hWrite⟩ | ⟨-, -, hWrite⟩⟩⟩⟩⟩⟩⟩⟩
  · exact Write.writeValue_ok h hName hWrite
  · exact Write.writeValue_ok h hName hWrite
  · exact Write.writeValue_ok h hName hWrite
  · exact Write.writeValue_ok h hName hWrite
  · exact Write.writeValue_ok h hName hWrite
  · exact Write.writeValue_ok h hName hWrite
  · exact Write.writeValue_ok h hName hWrite
  · exact Write.writeBytes_ok h hName (by decide) hWrite
  · exact Write.writeBytes_ok h hName (by decide) hWrite

theorem Write.writeFields_ok {n : Nat} {s : Stream} {setValues : List (List UInt8)}
    {object'' : Object} (h : Writes unreserved es object object')
    (hWrite : Write.writeFields n s setValues object' = .ok object'') :
    Writes unreserved es object object'' := by
  induction n generalizing s setValues object' with
  | zero =>
      simp only [Write.writeFields, ite_eq_ok, Except.ok.injEq, reduceCtorEq, and_false,
        or_false] at hWrite
      exact hWrite.2 ▸ h
  | succ n ih =>
      simp only [Write.writeFields, ite_eq_ok, Except.ok.injEq, bind_eq_ok, Prod.exists,
        reject_eq_ok, Bool.not_eq_true] at hWrite
      rcases hWrite with ⟨-, rfl⟩ | ⟨-, strName, s₁, -, u, hName, v, -, nType, s₂, -, object₁, s₃,
        hType, hRest⟩
      · exact h
      · exact ih (Write.writeType_ok h hName hType) hRest

theorem Write.executeObject_ok {vchData : List UInt8} (hSize : state.vchState.length ≤ 2 ^ 16)
    (h : Write.executeObject rt state vchData = .ok after) :
    SameFields unreserved state.vchState after.vchState ∧
      after = { state with vchState := after.vchState }.SetChecksum rt := by
  simp only [Write.executeObject, bind_eq_ok, orError_eq_ok, pure_eq_ok] at h
  obtain ⟨object, hParse, object', hWrites', rfl⟩ := h
  obtain ⟨rfl, -, es, hWrites⟩ := writes_of_parse unreserved hSize hParse
  exact ⟨(Write.writeFields_ok hWrites hWrites').fields, rfl⟩

/-- A write to an object touches no reserved field; a write to another register keeps its
size. -/
theorem Write.Execute_ok {vchData : List UInt8} (hSize : state.vchState.length ≤ 2 ^ 16)
    (h : Write.Execute rt state vchData nTimestamp = .ok after) :
    after.nType = state.nType ∧ after.hashOwner = state.hashOwner ∧
      after.vchState.length = state.vchState.length ∧
      (state.nType = REGISTER.OBJECT →
        SameFields unreserved state.vchState after.vchState) := by
  simp only [Write.Execute, bind_eq_ok, ite_eq_ok, finish_eq_ok] at h
  obtain ⟨written, ⟨hType, hObject⟩ | ⟨hType, hRaw⟩, rfl, -⟩ := h
  · obtain ⟨hFields, hState⟩ := Write.executeObject_ok hSize hObject
    refine ⟨?_, ?_, hFields.length, fun _ => hFields⟩
    · rw [hState]
      rfl
    · rw [hState]
      rfl
  · simp only [Write.executeRaw, bind_eq_ok, reject_eq_ok, pure_eq_ok, not_not] at hRaw
    obtain ⟨u, hLength, rfl⟩ := hRaw
    exact ⟨rfl, rfl, hLength, fun hObject => absurd hObject hType⟩

/-! ## Actions -/

/-- The fields that an action may touch. -/
def Action.touches : Action → List UInt8 → Prop
  | .WRITE _ _ => unreserved
  | .TRUST _ _ _ => staked
  | .GENESIS _ => staked
  | .MIGRATE _ _ => staked
  | .DEBIT _ _ _ => (· = balance)
  | .CREDIT _ => (· = balance)
  | .FEE _ _ => (· = balance)
  | .LEGACY _ _ => (· = balance)
  | .APPEND _ _ => fun _ => False
  | .CREATE _ _ _ => fun _ => False
  | .TRANSFER _ _ _ => fun _ => False
  | .CLAIM _ _ _ => fun _ => False
  | .COINBASE _ => fun _ => False
  | .AUTHORIZE => fun _ => False

/-- What an accepted action keeps of a register that exists: its type, its bound, and if
it is an object all fields but the touched ones. -/
structure Keeps (action : Action) (before after : State) : Prop where
  type : after.nType = before.nType
  size : before.vchState.length ≤ MAX_REGISTER_SIZE → after.vchState.length ≤ MAX_REGISTER_SIZE
  fields : before.nType = REGISTER.OBJECT →
    SameFields action.touches before.vchState after.vchState

theorem Keeps.of_rewrites {action : Action} (h : Rewrites action.touches state after) :
    Keeps action state after :=
  ⟨h.type, fun hSize => h.fields.length.trans_le hSize, fun _ => h.fields⟩

theorem Keeps.of_data {action : Action} (hType : after.nType = state.nType)
    (hData : after.vchState = state.vchState) : Keeps action state after :=
  ⟨hType, fun hSize => hData ▸ hSize, fun _ => hData ▸ SameFields.refl ..⟩

theorem Accepted.keeps {disk disk' : Disk} {contract : Contract} {action : Action}
    (hSize : state.vchState.length ≤ 2 ^ 16)
    (hCreate : ∀ hashAddress nType vchData, action ≠ .CREATE hashAddress nType vchData)
    (h : Accepted rt disk contract action state after disk') : Keeps action state after := by
  obtain ⟨hStart, hRun, hCommit, hAllowed⟩ := h
  cases action with
  | WRITE hashAddress vchData =>
      obtain ⟨hType, -, hLength, hFields⟩ := Write.Execute_ok hSize hRun
      exact ⟨hType, fun h => hLength.trans_le h, hFields⟩
  | APPEND hashAddress vchData =>
      obtain ⟨-, hKind, hLength⟩ := hAllowed
      obtain ⟨rfl, -⟩ := finish_eq_ok.mp hRun
      refine ⟨rfl, fun _ => hLength, fun hObject => ?_⟩
      rcases hKind with hKind | hKind <;> exact absurd (hObject.symm.trans hKind) (by decide)
  | CREATE hashAddress nType vchData => exact absurd rfl (hCreate _ _ _)
  | TRANSFER hashAddress hashTransfer nType =>
      obtain ⟨rfl, -⟩ := finish_eq_ok.mp hRun
      exact Keeps.of_data rfl rfl
  | CLAIM hashTx nContract hashAddress =>
      have hRun' : Claim.Execute rt state contract.hashCaller contract.nTimestamp = .ok after := hRun
      simp only [Claim.Execute, bind_eq_ok, finish_eq_ok] at hRun'
      obtain ⟨u, -, rfl, -⟩ := hRun'
      exact Keeps.of_data rfl rfl
  | COINBASE hashGenesis =>
      obtain rfl := Except.ok.inj hRun
      exact Keeps.of_data rfl rfl
  | TRUST nScore nStakeChange nReward =>
      exact Keeps.of_rewrites (Trust.Execute_ok hSize hRun).rewrites
  | GENESIS nReward => exact Keeps.of_rewrites (Genesis.Execute_ok hSize hRun).rewrites
  | DEBIT hashFrom hashTo nAmount =>
      obtain ⟨nBalance, -, hPays⟩ := executeDebit_ok hSize hRun
      exact Keeps.of_rewrites hPays.rewrites
  | CREDIT credit =>
      obtain ⟨nBalance, hPays⟩ := Credit.Execute_ok hSize hRun
      exact Keeps.of_rewrites hPays.rewrites
  | MIGRATE hashTx migrate => exact Keeps.of_rewrites (Migrate.Execute_ok hSize hRun).rewrites
  | AUTHORIZE =>
      obtain rfl := Except.ok.inj hRun
      exact Keeps.of_data rfl rfl
  | FEE hashAddress nFees =>
      obtain ⟨nBalance, -, hPays⟩ := executeDebit_ok hSize hRun
      exact Keeps.of_rewrites hPays.rewrites
  | LEGACY hashAddress nAmount =>
      obtain ⟨nBalance, -, hPays⟩ := executeDebit_ok hSize hRun
      exact Keeps.of_rewrites hPays.rewrites

end Nexus.Operation
