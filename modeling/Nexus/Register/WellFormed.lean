import Nexus.Register.Chain

/-!
# Well-formed registers

The invariant of the register states of a chain: data within the bound, an
address whose type byte is the one that a creation asks for, and no token but
the native one in a trust account.  A creation establishes it, and every other
action keeps it, since no action touches the token or the kind of an object.

## Main results

* `Effect.wellFormed`: one connected contract.
* `Object.standard_of_base`: the kinds of objects with a balance.
-/

namespace Nexus.Register

open Nexus.Lib.Bytes
open Nexus.Lib.Checked
open Nexus.Util
open Nexus.Operation
open Nexus.LLD

/-- The name of the field with the token of an account. -/
def token : List UInt8 := bytesOf "token"

/-- The type byte of the address that a creation asks for. -/
def requiredType (state : State) : Option UInt8 :=
  if state.nType = REGISTER.READONLY then some Address.READONLY
  else if state.nType = REGISTER.APPEND then some Address.APPEND
  else if state.nType = REGISTER.RAW then some Address.RAW
  else if state.nType = REGISTER.OBJECT then
    (Object.Parse ⟨state, []⟩).toOption.map fun object => Create.addressType object.Standard
  else none

/-- A state that may be stored at an address. -/
structure WellFormed (hashAddress : Address) (state : State) : Prop where
  address : requiredType state = some (GetType hashAddress)
  size : state.vchState.length ≤ MAX_REGISTER_SIZE
  trust : ∀ object, Object.Parse ⟨state, []⟩ = .ok object → object.Standard = .TRUST →
    object.Read Uint256 token = .ok 0

/-- All registers are well-formed. -/
def AllWellFormed (states : States) : Prop :=
  ∀ hashAddress state, states hashAddress = some state → WellFormed hashAddress state

variable {rt : Runtime} {disk disk' : Disk} {states states' : States} {contract : Contract}
  {action : Action} {hashAddress : Address} {state state' : State} {touched : List UInt8 → Prop}

/-! ## What the invariant says about objects -/

theorem requiredType_object (hType : state.nType = REGISTER.OBJECT) :
    requiredType state =
      (Object.Parse ⟨state, []⟩).toOption.map fun object => Create.addressType object.Standard := by
  rw [requiredType, hType, if_neg (by decide), if_neg (by decide), if_neg (by decide), if_pos rfl]

/-- An object register that is well-formed parses. -/
theorem WellFormed.parses (h : WellFormed hashAddress state) (hType : state.nType = REGISTER.OBJECT) :
    ∃ object, Object.Parse ⟨state, []⟩ = .ok object ∧
      GetType hashAddress = Create.addressType object.Standard := by
  have hAddress := h.address
  rw [requiredType_object hType] at hAddress
  cases hParse : Object.Parse ⟨state, []⟩ with
  | error e =>
      rw [hParse] at hAddress
      cases hAddress
  | ok object =>
      rw [hParse] at hAddress
      exact ⟨object, rfl, (Option.some.inj hAddress).symm⟩

/-- A register of the system is not well-formed, so what parses is an object register. -/
theorem WellFormed.object {object : Object} (h : WellFormed hashAddress state)
    (hParse : Object.Parse ⟨state, []⟩ = .ok object) : state.nType = REGISTER.OBJECT := by
  rcases (Object.parse_iff.mp hParse).1 with hType | hType
  · exact hType
  · have hAddress := h.address
    rw [requiredType, hType, if_neg (by decide), if_neg (by decide), if_neg (by decide),
      if_neg (by decide)] at hAddress
    cases hAddress

/-- The kinds of objects with a balance. -/
theorem Object.standard_of_base {object : Object} (h : object.Base = .ACCOUNT) :
    object.Standard = .ACCOUNT ∨ object.Standard = .TOKEN ∨ object.Standard = .TRUST := by
  have hCount : ∀ names : List (List UInt8), names.Nodup →
      (∀ strName ∈ names, object.CheckName strName = true) →
      names.length ≤ object.mapData.length := by
    intro names hNodup hNames
    have hSubset : names ⊆ object.mapData.map Prod.fst := by
      intro strName hMem
      obtain ⟨pair, hPair, hEq⟩ := List.lookup_isSome_iff.mp (hNames strName hMem)
      exact List.mem_map.mpr ⟨pair, hPair, (beq_iff_eq.mp hEq).symm⟩
    exact (List.subperm_of_subset hNodup hSubset).length_le.trans_eq (List.length_map ..)
  have hName : ∀ {strName nType fMutable}, object.Check strName nType fMutable = true →
      object.CheckName strName = true := by
    intro strName nType fMutable hCheck
    unfold Object.Check at hCheck
    unfold Object.CheckName
    split at hCheck
    · simp_all
    · cases hCheck
  have hFields : object.Check (bytesOf "token") TYPES.UINT256_T false = true ∧
      object.Check (bytesOf "balance") TYPES.UINT64_T true = true := by
    unfold Object.Base at h
    split_ifs at h with hBase
    exact hBase
  have hToken := hName hFields.1
  unfold Object.Standard
  split_ifs with hNamespace hCrypto hNamed
  · have := hCount [bytesOf "token", bytesOf "namespace"] (by decide)
      (by simp [hToken, hName hNamespace.2])
    simp at this
    omega
  · have := hCount (bytesOf "token" :: Object.cryptoNames) (by decide) (by
      intro strName hMem
      rcases List.mem_cons.mp hMem with rfl | hMem
      · exact hToken
      · exact hName (List.all_eq_true.mp hCrypto.2 strName hMem))
    have hLen : (bytesOf "token" :: Object.cryptoNames).length = 10 := rfl
    omega
  · have := hCount [bytesOf "token", bytesOf "namespace", bytesOf "name", bytesOf "address"]
      (by decide) (by simp [hToken, hName hNamed.2.1, hName hNamed.2.2.1, hNamed.2.2.2])
    simp at this
    omega
  · exact .inr (.inl rfl)
  · exact .inr (.inr rfl)
  · exact .inl rfl

/-! ## What actions keep -/

/-- No action touches a token. -/
theorem not_touches_token : ¬ action.touches token := by
  have hStaked : ¬ staked token := by
    rintro (h | h | h) <;> exact absurd h (by decide)
  have hBalance : ¬ token = balance := by decide
  cases action with
  | WRITE _ _ =>
      show ¬ Write.Reserved token = false
      decide
  | TRUST _ _ _ => exact hStaked
  | GENESIS _ => exact hStaked
  | MIGRATE _ _ => exact hStaked
  | DEBIT _ _ _ => exact hBalance
  | CREDIT _ => exact hBalance
  | FEE _ _ => exact hBalance
  | LEGACY _ _ => exact hBalance
  | _ => exact id

/-- A state of the same type, with the same fields but for their values, is as well-formed. -/
theorem WellFormed.of_fields (h : WellFormed hashAddress state) (hType : state'.nType = state.nType)
    (hSize : state'.vchState.length ≤ MAX_REGISTER_SIZE) (hToken : ¬ touched token)
    (hFields : state.nType = REGISTER.OBJECT → SameFields touched state.vchState state'.vchState) :
    WellFormed hashAddress state' := by
  have hBound : state.vchState.length ≤ 2 ^ 16 := h.size.trans (by decide)
  by_cases hObject : state.nType = REGISTER.OBJECT
  · obtain ⟨object, hParse, hAddress⟩ := h.parses hObject
    obtain ⟨object', hParse', hStandard, -, hReads⟩ :=
      (hFields hObject).parse hType hBound hParse
    refine ⟨?_, hSize, ?_⟩
    · rw [requiredType_object (hType.trans hObject), hParse', hAddress, ← hStandard]
      rfl
    · intro object'' hParse'' hTrust
      obtain rfl := Except.ok.inj (hParse'.symm.trans hParse'')
      exact (hReads hToken).mpr (h.trust object hParse (hStandard ▸ hTrust))
  · have hAddress := h.address
    refine ⟨?_, hSize, ?_⟩
    · rw [← hAddress]
      simp only [requiredType, hType, if_neg hObject]
    · intro object hParse
      rcases (Object.parse_iff.mp hParse).1 with hObject' | hSystem
      · exact absurd (hType.symm.trans hObject') hObject
      · rw [requiredType, ← hType, hSystem, if_neg (by decide), if_neg (by decide),
          if_neg (by decide), if_neg (by decide)] at hAddress
        cases hAddress

theorem WellFormed.checksum {nChecksum : UInt64} (h : WellFormed hashAddress state) :
    WellFormed hashAddress { state with hashChecksum := nChecksum } := by
  have hFields : SameFields (fun _ => False) state.vchState state.vchState := SameFields.refl ..
  exact h.of_fields rfl h.size id fun _ => hFields

theorem WellFormed.keeps (h : WellFormed hashAddress state) (hKeeps : Keeps action state state') :
    WellFormed hashAddress state' :=
  h.of_fields hKeeps.type (hKeeps.size h.size) not_touches_token hKeeps.fields

/-! ## What a creation establishes -/

/-- What `Create::Execute` calculates: the type and the data of the operands, and for an
object the checks of its kind. -/
theorem createExecute_ok {vchData : List UInt8} {nTimestamp : UInt64}
    (h : Create.Execute rt state vchData nTimestamp = .ok state') :
    Range state.nType = true ∧ state'.nType = state.nType ∧ state'.vchState = vchData ∧
      (state.nType = REGISTER.OBJECT → Create.checkObject rt (state.SetState rt vchData) = .ok ()) := by
  simp only [Create.Execute, bind_eq_ok, reject_eq_ok, ite_eq_ok, finish_eq_ok, Bool.not_eq_false] at h
  obtain ⟨_, hRange, _, hCheck, rfl, -⟩ := h
  refine ⟨hRange, rfl, rfl, fun hObject => ?_⟩
  rcases hCheck with ⟨-, hCheck⟩ | ⟨hNot, -⟩
  · exact hCheck
  · exact absurd hObject hNot

/-- The checks of a created object see its fields, as they are stored. -/
theorem checkObject_ok {vchData : List UInt8} (hSize : vchData.length ≤ 2 ^ 16)
    (hType : state'.nType = state.nType) (hData : state'.vchState = vchData)
    (h : Create.checkObject rt (state.SetState rt vchData) = .ok ()) {object : Object}
    (hParse : Object.Parse ⟨state', []⟩ = .ok object) :
    match object.Standard with
    | .ACCOUNT => object.Read UInt64 balance = .ok 0
    | .TRUST => object.Read UInt64 balance = .ok 0 ∧ object.Read Uint256 token = .ok 0
    | _ => True := by
  simp only [Create.checkObject, bind_eq_ok, orError_eq_ok] at h
  obtain ⟨object', hParse', hCheck⟩ := h
  have hFields : SameFields (fun _ => False) (state.SetState rt vchData).vchState state'.vchState :=
    hData ▸ SameFields.refl ..
  obtain ⟨object'', hParse'', hStandard, -, hReads⟩ := hFields.parse hType hSize hParse'
  obtain rfl := Except.ok.inj (hParse''.symm.trans hParse)
  rw [hStandard]
  cases hKind : object'.Standard with
  | ACCOUNT =>
      simp only [hKind, Create.checkAccount, bind_eq_ok, get_eq_ok, reject_eq_ok, not_not] at hCheck
      obtain ⟨nBalance, hRead, rfl⟩ := hCheck
      exact (hReads id).mpr hRead
  | TRUST =>
      simp only [hKind, Create.checkTrust, bind_eq_ok, get_eq_ok, reject_eq_ok, not_not] at hCheck
      obtain ⟨nBalance, hBalance, _, rfl, _, -, _, -, _, -, _, -, hashToken, hToken, rfl⟩ := hCheck
      exact ⟨(hReads id).mpr hBalance, (hReads id).mpr hToken⟩
  | _ => trivial

/-- The address type that `Create::Commit` checks. -/
theorem commitType_ok {nCost nCost' : UInt64} (hRange : Range state.nType = true)
    (h : Create.commitType rt disk state hashAddress nCost = .ok nCost') :
    requiredType state = some (GetType hashAddress) := by
  simp only [Create.commitType, ite_eq_ok] at h
  rcases h with ⟨hType, hObject⟩ | ⟨hType, hOther⟩
  · simp only [Create.commitObject, bind_eq_ok, orError_eq_ok, reject_eq_ok, not_not] at hObject
    obtain ⟨object, hParse, _, -, _, hAddress, -⟩ := hObject
    rw [requiredType_object hType, hParse, hAddress]
    rfl
  · simp only [bind_eq_ok, reject_eq_ok, not_and, Bool.not_eq_false] at hOther
    obtain ⟨_, hReadonly, _, hAppend, _, hRaw, -⟩ := hOther
    unfold requiredType
    split_ifs with h1 h2 h3
    · rw [beq_iff_eq.mp (hReadonly h1)]
    · rw [beq_iff_eq.mp (hAppend h2)]
    · rw [beq_iff_eq.mp (hRaw h3)]
    · exfalso
      unfold Range at hRange
      simp only [Bool.and_eq_true, decide_eq_true_eq, UInt8.lt_iff_toNat_lt] at hRange
      simp only [← UInt8.toNat_inj] at h1 h2 h3 hType
      simp only [REGISTER.READONLY, REGISTER.APPEND, REGISTER.RAW, REGISTER.OBJECT, REGISTER.SYSTEM,
        UInt8.reduceToNat] at h1 h2 h3 hType hRange
      omega

/-- A created register is well-formed. -/
theorem wellFormed_create {nType : UInt8} {vchData : List UInt8}
    (h : Accepted rt disk contract (.CREATE hashAddress nType vchData)
      (createdState nType contract.hashCaller) state disk') : WellFormed hashAddress state := by
  obtain ⟨-, hRun, hCommit, -, -, hSize⟩ := h
  obtain ⟨hRange, hType, hData, hCheck⟩ := createExecute_ok hRun
  simp only [Action.commit, Create.Commit, map_eq_ok, bind_eq_ok, Prod.exists] at hCommit
  obtain ⟨_, _, ⟨_, hAddress, -⟩, -⟩ := hCommit
  refine ⟨commitType_ok (hType ▸ hRange) hAddress, hData ▸ hSize, fun object hParse hTrust => ?_⟩
  have hObject : state.nType = REGISTER.OBJECT := by
    rcases (Object.parse_iff.mp hParse).1 with hObject | hSystem
    · exact hObject
    · rw [← hType, hSystem] at hRange
      cases hRange
  have hKind := checkObject_ok (hSize.trans (by decide)) hType hData (hCheck (hType ▸ hObject)) hParse
  rw [hTrust] at hKind
  exact hKind.2

/-- Every connected contract keeps all registers well-formed. -/
theorem Effect.wellFormed (hAll : AllWellFormed states)
    (h : Effect rt disk contract states action states') : AllWellFormed states' := by
  intro hashOther stateOther hOther
  cases h with
  | idle hTarget => exact hAll _ _ hOther
  | @create hashAddress nType vchData after disk' hFree hAccepted =>
      by_cases hSame : hashOther = hashAddress
      · subst hSame
        rw [Function.update_self] at hOther
        obtain rfl := Option.some.inj hOther
        exact wellFormed_create hAccepted
      · rw [Function.update_of_ne hSame] at hOther
        exact hAll _ _ hOther
  | @move action hashAddress current before after disk' hTarget hCreate hCurrent hBefore hAccepted =>
      by_cases hSame : hashOther = hashAddress
      · subst hSame
        rw [Function.update_self] at hOther
        obtain rfl := Option.some.inj hOther
        have hWell : WellFormed hashOther before := hBefore ▸ (hAll _ _ hCurrent).checksum
        exact hWell.keeps (hAccepted.keeps (hWell.size.trans (by decide)) hCreate)
      · rw [Function.update_of_ne hSame] at hOther
        exact hAll _ _ hOther

end Nexus.Register
