import Nexus.Lib.Run
import Nexus.Operation.Payments
import Nexus.Register.WellFormed
import Nexus.Safety.Claims

/-!
# Tokens of credits

A credit must go to an account of the token that it pays.  A coinbase pays the
native token, a debit the token of the account that was debited, and the debit
made of a legacy output pays the native token again.  `Credit::Verify` compares
the tokens on every path but the last, so a legacy output to an account of
another token makes new coins of that token.

## Main results

* `credit_token_iff`: an accepted credit keeps the token exactly when it does not
  pay a legacy output to a foreign account; and in a run where no credit does, a
  balance of a token grows through debits of that token only.
* `credit_of_output`: a legacy output that becomes a foreign token.
-/

namespace Nexus.Safety

open Nexus.Lib
open Nexus.Lib.Bytes
open Nexus.Lib.Checked
open Nexus.Util
open Nexus.Register
open Nexus.Operation
open Nexus.LLD
open Nexus.Ledger

/-! ## One credit -/

/-- The contract is a credit, and this is what it refers to. -/
def Refers (disk : Disk) (call : Call) (credit : Credit.Operands) (debit : Contract)
    (source : Source) : Prop :=
  call.contract.Performs (.CREDIT credit) ∧
    disk.ReadContract call.rt credit.hashTx credit.nContract = .ok debit ∧
    readSource debit = .ok source

/-- The token of the value that a credit claims. -/
def valueToken (debit : Contract) : Source → Option Uint256
  | .COINBASE _ _ => some 0
  | .DEBIT hashFrom _ _ => if hashFrom = WILDCARD_ADDRESS then some 0 else debit.token

/-- The credited account is of the token of the value. -/
def KeepsToken (disk : Disk) (call : Call) : Prop :=
  ∀ credit debit source, Refers disk call credit debit source →
    call.contract.token = valueToken debit source

/-- A legacy output is credited to an account of the native token. -/
def NativeOutput (disk : Disk) (call : Call) : Prop :=
  ∀ credit debit hashTo nAmount,
    Refers disk call credit debit (.DEBIT WILDCARD_ADDRESS hashTo nAmount) →
      call.contract.token = some 0

variable {rt : Runtime} {disk disk' : Disk} {call : Call} {credit : Credit.Operands}
  {debit : Contract} {source : Source}

/-- A contract that is read has its register script at the beginning. -/
theorem readContract_begins {hashTx : Uint512} {nContract : UInt32}
    (h : disk.ReadContract rt hashTx nContract = .ok debit) : debit.resetRegisters = debit := by
  simp only [Disk.ReadContract, ite_eq_ok, bind_eq_ok, demand_eq_ok, Transaction.contract,
    reject_eq_ok, pure_eq_ok, reduceCtorEq, and_false, or_false] at h
  rcases h with ⟨-, tx, -, contract, -, rfl⟩ | ⟨-, -, vout, -, txout, -, _, -, _, -, rfl⟩
  · rfl
  · rfl

/-- An accepted credit took one of the paths. -/
theorem credit_path (hExecutes : Executes disk call disk')
    (h : Refers disk call credit debit source) :
    CreditPath disk.ledger call.contract.hashCaller call.contract.token debit credit source := by
  obtain ⟨hPerforms, hRead, hSource⟩ := h
  obtain ⟨action, disk₁, before, after, hAction, hLedger, hLegacy, -, hAccepted⟩ :=
    hExecutes.accepted
  obtain rfl := hPerforms.inj hAction
  obtain ⟨-, hOperands, debit', r, hRead', hVerify⟩ := hAccepted.allowed
  simp only [Disk.ReadContract, hLedger, hLegacy] at hRead'
  obtain rfl := Except.ok.inj (hRead.symm.trans hRead')
  obtain ⟨source', hSource', hPath⟩ := Credit.Verify_path (readContract_begins hRead) hOperands hVerify
  obtain rfl := Except.ok.inj (hSource.symm.trans hSource')
  rwa [hLedger] at hPath

theorem keepsToken_iff (hExecutes : Executes disk call disk') :
    KeepsToken disk call ↔ NativeOutput disk call := by
  constructor
  · intro hKeeps credit debit hashTo nAmount hRefers
    rw [hKeeps credit debit _ hRefers, valueToken, if_pos rfl]
  · intro hNative credit debit source hRefers
    cases credit_path hExecutes hRefers with
    | coinbase hGenesis hAmount hToken => exact hToken
    | output hFrom hTo hProof hAmount =>
        rw [valueToken, if_pos hFrom]
        exact hNative credit debit _ _ (hFrom ▸ hRefers)
    | full hFrom hToken hSome hProof hAmount => rw [valueToken, if_neg hFrom, hToken]
    | share hFrom hToken hSome hObject hAmount => rw [valueToken, if_neg hFrom, hToken]

/-! ## Balances -/

/-- The state is an account or a token register of `hashToken` with the balance `nBalance`. -/
def Holds (state : State) (hashToken : Uint256) (nBalance : UInt64) : Prop :=
  ∃ object, Object.Parse ⟨state, []⟩ = .ok object ∧ object.Base = .ACCOUNT ∧
    object.Read Uint256 token = .ok hashToken ∧ object.Read UInt64 balance = .ok nBalance

/-- The register at an address has a balance of a token. -/
def HeldAt (states : States) (hashAddress : Address) (hashToken : Uint256) (nBalance : UInt64) :
    Prop :=
  ∃ state, states hashAddress = some state ∧ Holds state hashToken nBalance

/-- A balance of a token other than the native one was there before, or is of a new register
and then zero or the supply of a new token, or was credited from a debit of the token. -/
def GrowsByDebits (states : States) (x : Connection) (states' : States) : Prop :=
  ∀ hashAddress hashToken nBalance', hashToken ≠ 0 →
    HeldAt states' hashAddress hashToken nBalance' →
      (∃ nBalance, HeldAt states hashAddress hashToken nBalance ∧ nBalance' ≤ nBalance) ∨
      (states hashAddress = none ∧ (nBalance' = 0 ∨ hashAddress = hashToken)) ∨
      ∃ credit debit hashFrom hashTo nAmount nBalance,
        Refers x.disk x.call credit debit (.DEBIT hashFrom hashTo nAmount) ∧
          debit.token = some hashToken ∧ credit.hashAccount = hashAddress ∧
          HeldAt states hashAddress hashToken nBalance ∧ nBalance' = nBalance + credit.nCredit

variable {states states' : States} {contract : Contract} {action : Action} {state after : State}
  {hashAddress : Address} {hashToken : Uint256} {nBalance nBalance' : UInt64}

/-- A balance does not depend on the checksum. -/
theorem Holds.checksum {nChecksum : UInt64} (hSize : state.vchState.length ≤ 2 ^ 16)
    (h : Holds { state with hashChecksum := nChecksum } hashToken nBalance) :
    Holds state hashToken nBalance := by
  obtain ⟨object, hParse, hBase, hToken, hBalance⟩ := h
  have hFields : SameFields (fun _ => False) ({ state with hashChecksum := nChecksum } : State).vchState
      state.vchState := SameFields.refl ..
  obtain ⟨object', hParse', -, hBase', hReads⟩ := hFields.parse rfl hSize hParse
  exact ⟨object', hParse', hBase' ▸ hBase, (hReads id).mpr hToken, (hReads id).mpr hBalance⟩

/-- The balance of a new register. -/
theorem holds_create {nType : UInt8} {vchData : List UInt8}
    (h : Accepted rt disk contract (.CREATE hashAddress nType vchData)
      (createdState nType contract.hashCaller) state disk')
    (hHolds : Holds state hashToken nBalance) : nBalance = 0 ∨ hashAddress = hashToken := by
  have hWell := wellFormed_create h
  obtain ⟨object, hParse, hBase, hToken, hBalance⟩ := hHolds
  have hObject := hWell.object hParse
  obtain ⟨-, hRun, hCommit, -, -, hSize⟩ := h
  obtain ⟨-, hType, hData, hCheck⟩ := createExecute_ok hRun
  have hKind := checkObject_ok (hSize.trans (by decide)) hType hData (hCheck (hType ▸ hObject)) hParse
  rcases Object.standard_of_base hBase with hStandard | hStandard | hStandard
  · rw [hStandard] at hKind
    exact .inl (Except.ok.inj (hBalance.symm.trans hKind))
  · simp only [Action.commit, Create.Commit, Create.commitType, Create.commitObject, map_eq_ok,
      bind_eq_ok, Prod.exists, ite_eq_ok, orError_eq_ok] at hCommit
    obtain ⟨_, _, ⟨_, ⟨-, object', hParse', _, -, _, -, _, hCommitToken, -⟩ | ⟨hOther, -⟩, -⟩, -⟩ :=
      hCommit
    · obtain rfl := Except.ok.inj (hParse.symm.trans hParse')
      simp only [hStandard, Create.commitToken, bind_eq_ok, get_eq_ok, reject_eq_ok,
        not_not] at hCommitToken
      obtain ⟨hashIdentifier, hRead, _, rfl, -⟩ := hCommitToken
      exact .inr (Except.ok.inj (hRead.symm.trans hToken))
    · exact absurd hObject hOther
  · rw [hStandard] at hKind
    exact .inl (Except.ok.inj (hBalance.symm.trans hKind.1))

/-- What an action does to a balance. -/
def Action.moves (nBalance nBalance' : UInt64) : Action → Prop
  | .CREDIT credit => nBalance' = nBalance + credit.nCredit
  | _ => nBalance' ≤ nBalance

/-- An accepted action on an account keeps its token, and raises its balance only if it is a
credit. -/
theorem holds_move (hWell : WellFormed hashAddress state)
    (hOther : ∀ hashAddress nType vchData, action ≠ .CREATE hashAddress nType vchData)
    (h : Accepted rt disk contract action state after disk') (hNative : hashToken ≠ 0)
    (hHolds : Holds after hashToken nBalance') :
    ∃ nBalance, Holds state hashToken nBalance ∧ Action.moves nBalance nBalance' action := by
  have hSize : state.vchState.length ≤ 2 ^ 16 := hWell.size.trans (by decide)
  have hKeeps := h.keeps hSize hOther
  obtain ⟨object', hParse', hBase', hToken', hBalance'⟩ := hHolds
  have hObject : state.nType = REGISTER.OBJECT :=
    hKeeps.type.symm.trans ((hWell.keeps hKeeps).object hParse')
  obtain ⟨object, hParse, -⟩ := hWell.parses hObject
  obtain ⟨object'', hParse'', hStandard, hBase, hReads⟩ :=
    (hKeeps.fields hObject).parse hKeeps.type hSize hParse
  obtain rfl := Except.ok.inj (hParse'.symm.trans hParse'')
  have hToken : object.Read Uint256 token = .ok hashToken := (hReads not_touches_token).mp hToken'
  -- a balance that is read from the pre-state, by whatever calculation
  have hHeld : ∀ nBalance, object.Read UInt64 balance = .ok nBalance →
      Holds state hashToken nBalance := fun nBalance hBalance =>
    ⟨object, hParse, hBase ▸ hBase', hToken, hBalance⟩
  have hPaid : ∀ nBefore nAfter, Pays state nBefore nAfter after →
      Holds state hashToken nBefore ∧ nBalance' = nAfter := by
    rintro nBefore nAfter ⟨-, ⟨object₁, hParse₁, -, hBefore⟩, object₂, hParse₂, hAfter⟩
    obtain rfl := Except.ok.inj (hParse.symm.trans hParse₁)
    obtain rfl := Except.ok.inj (hParse'.symm.trans hParse₂)
    exact ⟨hHeld _ hBefore, Except.ok.inj (hBalance'.symm.trans hAfter)⟩
  have hSame : ¬ action.touches balance → ∃ nBalance, Holds state hashToken nBalance ∧
      nBalance' ≤ nBalance := fun hTouches =>
    ⟨nBalance', hHeld _ ((hReads hTouches).mp hBalance'), UInt64.le_refl _⟩
  have hDebit : ∀ nAmount, (∃ nBefore, nAmount ≤ nBefore ∧
      Pays state nBefore (nBefore - nAmount) after) →
      ∃ nBalance, Holds state hashToken nBalance ∧ nBalance' ≤ nBalance := by
    rintro nAmount ⟨nBefore, hAmount, hPays⟩
    obtain ⟨hBefore, rfl⟩ := hPaid _ _ hPays
    exact ⟨nBefore, hBefore, UInt64.sub_le hAmount⟩
  have hStaked : Stakes state after → ∃ nBalance, Holds state hashToken nBalance ∧
      nBalance' ≤ nBalance := by
    rintro ⟨-, object₁, hParse₁, hTrust⟩
    exact absurd (Except.ok.inj ((hWell.trust object₁ hParse₁ hTrust).symm.trans
      (Except.ok.inj (hParse.symm.trans hParse₁) ▸ hToken))).symm hNative
  have hRun := h.run
  cases action with
  | CREATE _ _ _ => exact absurd rfl (hOther _ _ _)
  | TRUST nScore nStakeChange nReward => exact hStaked (Trust.Execute_ok hSize hRun)
  | GENESIS nReward => exact hStaked (Genesis.Execute_ok hSize hRun)
  | MIGRATE hashTx migrate => exact hStaked (Migrate.Execute_ok hSize hRun)
  | DEBIT hashFrom hashTo nAmount => exact hDebit _ (executeDebit_ok hSize hRun)
  | FEE hashAddress nFees => exact hDebit _ (executeDebit_ok hSize hRun)
  | LEGACY hashAddress nAmount => exact hDebit _ (executeDebit_ok hSize hRun)
  | CREDIT credit =>
      obtain ⟨nBefore, hPays⟩ := Credit.Execute_ok hSize hRun
      obtain ⟨hBefore, rfl⟩ := hPaid _ _ hPays
      exact ⟨nBefore, hBefore, rfl⟩
  | WRITE _ _ => exact hSame (show ¬ Write.Reserved balance = false by decide)
  | _ => exact hSame id

/-- What an accepted credit refers to, by its path. -/
theorem exists_refers {credit : Credit.Operands} (hPerforms : call.contract.Performs (.CREDIT credit))
    (hExecutes : Executes disk call disk') : ∃ debit source, Refers disk call credit debit source := by
  obtain ⟨action, disk₁, before, after, hAction, hLedger, hLegacy, -, hAccepted⟩ :=
    hExecutes.accepted
  obtain rfl := hPerforms.inj hAction
  obtain ⟨-, hOperands, debit, r, hRead, hVerify⟩ := hAccepted.allowed
  simp only [Disk.ReadContract, hLedger, hLegacy] at hRead
  obtain ⟨source, hSource, -⟩ := Credit.Verify_path (readContract_begins hRead) hOperands hVerify
  exact ⟨debit, source, hPerforms, hRead, hSource⟩

/-- One connected contract on well-formed registers. -/
theorem growsByDebits {x : Connection} (hAll : AllWellFormed states) (h : Connects states x states')
    (hHash : Distinguishes x.call.rt states x.call.contract) (hNative : NativeOutput x.disk x.call) :
    GrowsByDebits states x states' := by
  intro hashOther hashToken nBalance' hToken hHeld
  obtain ⟨action, disk, hPerforms, -, -, -, hEffect⟩ := h.effect hHash
  obtain ⟨disk', hExecutes, -⟩ := h.executes
  have hBefore : HeldAt states hashOther hashToken nBalance' →
      ∃ nBalance, HeldAt states hashOther hashToken nBalance ∧ nBalance' ≤ nBalance :=
    fun hSame => ⟨nBalance', hSame, UInt64.le_refl _⟩
  obtain ⟨state, hState, hHolds⟩ := hHeld
  cases hEffect with
  | idle hTarget => exact .inl (hBefore ⟨state, hState, hHolds⟩)
  | @create hashAddress nType vchData after disk' hFree hAccepted =>
      by_cases hSame : hashOther = hashAddress
      · subst hSame
        rw [Function.update_self] at hState
        obtain rfl := Option.some.inj hState
        exact .inr (.inl ⟨hFree, holds_create hAccepted hHolds⟩)
      · rw [Function.update_of_ne hSame] at hState
        exact .inl (hBefore ⟨state, hState, hHolds⟩)
  | @move action hashAddress current before after disk' hTarget hOther hCurrent hChecksum hAccepted =>
      by_cases hSame : hashOther = hashAddress
      · subst hSame
        rw [Function.update_self] at hState
        obtain rfl := Option.some.inj hState
        have hWell : WellFormed hashOther before := hChecksum ▸ (hAll _ _ hCurrent).checksum
        obtain ⟨nBalance, hHolds₀, hMoves⟩ := holds_move hWell hOther hAccepted hToken hHolds
        have hCurrentHolds : HeldAt states hashOther hashToken nBalance := by
          have hHolds₁ := hHolds₀
          rw [hChecksum] at hHolds₁
          exact ⟨current, hCurrent, hHolds₁.checksum ((hAll _ _ hCurrent).size.trans (by decide))⟩
        by_cases hCredit : ∃ credit, action = .CREDIT credit
        · obtain ⟨credit, rfl⟩ := hCredit
          obtain ⟨debit, source, hRefers⟩ := exists_refers hPerforms hExecutes
          have hKept := (keepsToken_iff hExecutes).mpr hNative credit debit source hRefers
          have hPre : x.call.contract.token = some hashToken := by
            have hStart : x.call.contract.prestate = some before := hAccepted.start
            obtain ⟨object, hParse, -, hRead, -⟩ := hHolds₀
            rw [Contract.token, hStart]
            exact tokenOf_eq_some.mpr ⟨object, hParse, hRead⟩
          rw [hPre] at hKept
          cases source with
          | COINBASE hashGenesis nAmount => exact absurd (Option.some.inj hKept) hToken
          | DEBIT hashFrom hashTo nAmount =>
              rw [valueToken] at hKept
              split_ifs at hKept with hFrom
              · exact absurd (Option.some.inj hKept) hToken
              · exact .inr (.inr ⟨credit, debit, hashFrom, hashTo, nAmount, nBalance, hRefers,
                  hKept.symm, Option.some.inj hTarget, hCurrentHolds, hMoves⟩)
        · refine .inl ⟨nBalance, hCurrentHolds, ?_⟩
          cases action with
          | CREDIT credit => exact absurd ⟨credit, rfl⟩ hCredit
          | _ => exact hMoves
      · rw [Function.update_of_ne hSame] at hState
        exact .inl (hBefore ⟨state, hState, hHolds⟩)

/-! ## Runs -/

/-- A connected contract that meets the condition: its pre-state is not confused with another
state, and it credits no legacy output to a foreign account. -/
def NativeConnects (states : States) (x : Connection) (states' : States) : Prop :=
  Connects states x states' ∧ Distinguishes x.call.rt states x.call.contract ∧
    NativeOutput x.disk x.call

/-- A connected contract keeps the token of what it credits, and makes no balance of a token
but from debits of the token. -/
def TokenLaw (states : States) (x : Connection) (states' : States) : Prop :=
  KeepsToken x.disk x.call ∧ GrowsByDebits states x states'

theorem credit_token_iff {xs : List Connection} (hExecutes : Executes disk call disk')
    (hRun : Run NativeConnects (fun _ => none) xs states) :
    (KeepsToken disk call ↔ NativeOutput disk call) ∧ Run TokenLaw (fun _ => none) xs states := by
  refine ⟨keepsToken_iff hExecutes, ?_⟩
  refine hRun.strengthen (I := AllWellFormed) ?_ ?_ (fun _ _ hNone => by cases hNone)
  · intro states x states' hAll hStep
    obtain ⟨hConnects, hHash, -⟩ := hStep
    obtain ⟨action, disk, -, -, -, -, hEffect⟩ := hConnects.effect hHash
    exact hEffect.wellFormed hAll
  · intro states x states' hAll hStep
    obtain ⟨hConnects, hHash, hNative⟩ := hStep
    obtain ⟨disk', hExecutes, -⟩ := hConnects.executes
    exact ⟨(keepsToken_iff hExecutes).mpr hNative, growsByDebits hAll hConnects hHash hNative⟩

/-! ## A token, an account, a payment -/

/-- A field in the data of an object. -/
def fieldBytes (strName : String) (fMutable : Bool) (nType : UInt8) (vchValue : List UInt8) :
    List UInt8 :=
  serializeBytes (bytesOf strName) ++ (if fMutable then [TYPES.MUTABLE] else []) ++ [nType] ++ vchValue

def accountData (hashToken : Uint256) (nBalance : UInt64) : List UInt8 :=
  fieldBytes "token" false TYPES.UINT256_T (FixedWidth.encode hashToken) ++
    fieldBytes "balance" true TYPES.UINT64_T (FixedWidth.encode nBalance)

def tokenData (hashToken : Uint256) (nSupply nBalance : UInt64) : List UInt8 :=
  accountData hashToken nBalance ++
    fieldBytes "supply" false TYPES.UINT64_T (FixedWidth.encode nSupply) ++
    fieldBytes "decimals" false TYPES.UINT8_T [2]

/-- An object register with its checksum. -/
def objectState (hashOwner : Uint256) (nCreated nModified : UInt64) (vchState : List UInt8) : State :=
  State.SetChecksum exampleRuntime
    { nVersion := 1, nType := REGISTER.OBJECT, hashOwner, nCreated, nModified, vchState }

def silver : Address := SetType 20 Address.TOKEN
def purse : Address := SetType 21 Address.ACCOUNT

/-- An account of alice. -/
def pocket : Address := SetType 31 Address.ACCOUNT

def createContract (hashAddress : Address) (state : State) : Contract where
  ssOperation :=
    { vchData := FixedWidth.encode OP.CREATE ++ FixedWidth.encode hashAddress ++ [REGISTER.OBJECT] ++
        serializeBytes state.vchState }
  ssRegister :=
    { vchData := FixedWidth.encode STATES.POSTSTATE ++
        FixedWidth.encode (state.GetHash exampleRuntime) }
  hashCaller := state.hashOwner
  nTimestamp := state.nCreated
  nVersion := 2

/-- Alice pays 7 silver to the purse. -/
def payment : Transaction where
  vContracts :=
    [{ ssOperation :=
        { vchData := FixedWidth.encode OP.DEBIT ++ FixedWidth.encode silver ++
            FixedWidth.encode purse ++ FixedWidth.encode (7 : UInt64) ++
            FixedWidth.encode (0 : UInt64) }
       ssRegister := script (objectState alice 10 10 (tokenData silver 100 100))
         (objectState alice 10 30 (tokenData silver 100 93)) }]
  nVersion := 2
  hashGenesis := alice
  nTimestamp := 30

/-- A credit of an amount to the purse of bob. -/
def creditPurse (hashTx : Uint512) (hashProof : Uint256) (nAmount : UInt64) : Contract where
  ssOperation :=
    { vchData := FixedWidth.encode OP.CREDIT ++ FixedWidth.encode hashTx ++
        FixedWidth.encode (0 : UInt32) ++ FixedWidth.encode purse ++ FixedWidth.encode hashProof ++
        FixedWidth.encode nAmount }
  ssRegister := script (objectState bob 20 20 (accountData silver 0))
    (objectState bob 20 40 (accountData silver nAmount))
  hashCaller := bob
  nTimestamp := 40
  nVersion := 2

/-- The ledger after the payment of alice. -/
def paidLedger : LedgerDB where
  txs := Function.update (fun _ => none) (payment.GetHash exampleRuntime) (some payment)

/-- A contract connected on some register states. -/
def connection (states : States) (contract : Contract) : Connection where
  disk := { register := { states }, ledger := paidLedger }
  call := { rt := exampleRuntime, contract }

@[irreducible]
def Connection.apply (x : Connection) : States := (x.call.apply x.disk).register.states

def silverCreated : Connection :=
  connection (fun _ => none) (createContract silver (objectState alice 10 10 (tokenData silver 100 100)))

def purseCreated : Connection :=
  connection (Connection.apply silverCreated)
    (createContract purse (objectState bob 20 20 (accountData silver 0)))

def silverPaid : Connection :=
  connection (Connection.apply purseCreated)
    ((payment.contract exampleRuntime 0).toOption.getD {})

def silverCredited : Connection :=
  connection (Connection.apply silverPaid)
    (creditPurse (payment.GetHash exampleRuntime) silver 7)

/-- Alice has 100 silver, bob an empty purse. -/
def fundedDisk : Disk where
  register.states :=
    Function.update
      (Function.update (fun _ => none) silver
        (some (objectState alice 10 10 (tokenData silver 100 100))))
      purse (some (objectState bob 20 20 (accountData silver 0)))

/-- The pre-state has the fields of the state that an action moves, computed. -/
def sameFields (rt : Runtime) (states : States) (contract : Contract) (action : Action) :
    Option Bool := do
  let hashAddress ← action.target rt contract.hashCaller
  let prestate ← contract.prestate
  let current ← states hashAddress
  return prestate.hashBytes == current.hashBytes

theorem distinguishes_of_sameFields (hPerforms : contract.Performs action)
    (h : sameFields rt states contract action ≠ some false) : Distinguishes rt states contract := by
  intro action' hashAddress prestate current hPerforms' hTarget hPre hCurrent _
  obtain rfl := hPerforms.inj hPerforms'
  simpa [sameFields, hTarget, hPre, hCurrent] using h

/-- The checks of `NativeConnects`, computed. -/
theorem nativeConnects_apply {x : Connection} {action : Action}
    (hPerforms : x.call.contract.Performs action) (hMap : x.mapStates = fun _ => none)
    (hVerify : (Verify x.call.rt x.disk (fun _ => none) x.call.contract).isOk = true)
    (hExecute : (Execute x.call.rt x.disk x.call.contract x.call.nCost).isOk = true)
    (hHash : sameFields x.call.rt x.disk.register.states x.call.contract action ≠ some false)
    (hNative : ∀ credit, action = .CREDIT credit → ∀ debit hashTo nAmount,
      x.disk.ReadContract x.call.rt credit.hashTx credit.nContract = .ok debit →
        readSource debit ≠ .ok (.DEBIT WILDCARD_ADDRESS hashTo nAmount)) :
    NativeConnects x.disk.register.states x (Connection.apply x) := by
  refine ⟨⟨rfl, fun hashAddress => ?_, ?_, _, executes_apply hExecute, by rw [Connection.apply]⟩, ?_,
    ?_⟩
  · rw [readState, hMap]
    rfl
  · rw [hMap]
    cases h : Verify x.call.rt x.disk (fun _ => none) x.call.contract with
    | ok mapStates' => exact ⟨mapStates', rfl⟩
    | error e =>
        rw [h] at hVerify
        cases hVerify
  · exact distinguishes_of_sameFields hPerforms hHash
  · rintro credit debit hashTo nAmount ⟨hPerforms', hRead, hSource⟩
    exact absurd hSource (hNative credit (hPerforms.inj hPerforms') debit hashTo nAmount hRead)

theorem readSource_payment {debit : Contract} {hashTo : Address} {nAmount : UInt64}
    (h : silverCredited.disk.ReadContract exampleRuntime (payment.GetHash exampleRuntime) 0 =
      .ok debit) : readSource debit ≠ .ok (.DEBIT WILDCARD_ADDRESS hashTo nAmount) := by
  have hSource : ((silverCredited.disk.ReadContract exampleRuntime
      (payment.GetHash exampleRuntime) 0).bind readSource).toOption =
        some (.DEBIT silver purse 7) := by decide +kernel
  rw [h] at hSource
  intro hWildcard
  simp only [Except.bind, hWildcard, Except.toOption, Option.some.injEq, Source.DEBIT.injEq] at hSource
  exact absurd hSource.1 (by decide)

theorem silverCreated_connects :
    NativeConnects (fun _ => none) silverCreated (Connection.apply silverCreated) := by
  have hPerforms : silverCreated.call.contract.Performs
      (.CREATE silver REGISTER.OBJECT (tokenData silver 100 100)) :=
    Contract.performs_of_decode (by decide +kernel)
  exact nativeConnects_apply hPerforms rfl (by decide +kernel) (by decide +kernel) (by decide +kernel)
    (fun _ h => by cases h)

theorem purseCreated_connects :
    NativeConnects (Connection.apply silverCreated) purseCreated (Connection.apply purseCreated) := by
  have hPerforms : purseCreated.call.contract.Performs
      (.CREATE purse REGISTER.OBJECT (accountData silver 0)) :=
    Contract.performs_of_decode (by decide +kernel)
  exact nativeConnects_apply hPerforms rfl (by decide +kernel) (by decide +kernel) (by decide +kernel)
    (fun _ h => by cases h)

theorem silverPaid_connects :
    NativeConnects (Connection.apply purseCreated) silverPaid (Connection.apply silverPaid) := by
  have hPerforms : silverPaid.call.contract.Performs (.DEBIT silver purse 7) :=
    Contract.performs_of_decode (by decide +kernel)
  exact nativeConnects_apply hPerforms rfl (by decide +kernel) (by decide +kernel) (by decide +kernel)
    (fun _ h => by cases h)

/-- Alice creates the silver, bob his purse, she pays and he credits. -/
theorem credit_token_iff_silver :
    (KeepsToken silverCredited.disk silverCredited.call ↔
      NativeOutput silverCredited.disk silverCredited.call) ∧
    Run TokenLaw (fun _ => none) [silverCreated, purseCreated, silverPaid, silverCredited]
      (Connection.apply silverCredited) := by
  have hPerforms : silverCredited.call.contract.Performs
      (.CREDIT ⟨payment.GetHash exampleRuntime, 0, purse, silver, 7⟩) :=
    Contract.performs_of_decode (by decide +kernel)
  have hCredited : NativeConnects (Connection.apply silverPaid) silverCredited
      (Connection.apply silverCredited) := by
    refine nativeConnects_apply hPerforms rfl (by decide +kernel) (by decide +kernel)
      (by decide +kernel) ?_
    intro credit hEq debit hashTo nAmount hRead
    obtain rfl := Action.CREDIT.inj hEq
    exact readSource_payment hRead
  have hExecutes : Executes silverCredited.disk silverCredited.call
      (silverCredited.call.apply silverCredited.disk) := executes_apply (by decide +kernel)
  exact credit_token_iff hExecutes (.cons silverCreated_connects (.cons purseCreated_connects
    (.cons silverPaid_connects (.single hCredited))))

/-! ## A legacy output to an account of a token -/

/-- A legacy transaction that pays 5 to the purse. -/
def outputTx : Uint512 := SetType 77 LEGACY

def outputDisk : Disk where
  register.states := Function.update (fun _ => none) purse (some (objectState bob 20 20 (accountData silver 0)))
  legacy.vout :=
    Function.update (fun _ => none) outputTx
      (some [⟨5, [0x20] ++ FixedWidth.encode purse ++ [OP_RETURN]⟩])

def creditOutput : Call where
  rt := exampleRuntime
  contract := creditPurse outputTx WILDCARD_ADDRESS 5

/-- The output becomes 5 silver. -/
theorem credit_of_output :
    Executes outputDisk creditOutput (creditOutput.apply outputDisk) ∧
      ¬ KeepsToken outputDisk creditOutput := by
  refine ⟨executes_apply (by decide +kernel), fun hKeeps => ?_⟩
  have hSource : ∃ debit, outputDisk.ReadContract exampleRuntime outputTx 0 = .ok debit ∧
      readSource debit = .ok (.DEBIT WILDCARD_ADDRESS purse 5) :=
    ⟨legacyContract purse 5, by decide +kernel, by decide +kernel⟩
  obtain ⟨debit, hRead, hSource⟩ := hSource
  have hToken := hKeeps ⟨outputTx, 0, purse, WILDCARD_ADDRESS, 5⟩ debit _
    ⟨Contract.performs_of_decode (by decide +kernel), hRead, hSource⟩
  rw [valueToken, if_pos rfl] at hToken
  have hSilver : creditOutput.contract.token = some silver := by decide +kernel
  rw [hSilver] at hToken
  exact absurd (Option.some.inj hToken) (by decide)

end Nexus.Safety
