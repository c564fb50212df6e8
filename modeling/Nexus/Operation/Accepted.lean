import Nexus.Operation.Action

/-!
# Accepted contracts

What an accepting `Execute` did: it decoded the contract, recorded the contract
that the prefix validates, checked that the action is allowed, calculated the
post-state from the pre-state in the script, and committed it.  Every later
result about executed contracts starts from `Execute.accepted`; nothing after
this file unfolds a `Verify` or an `execute` function.

## Main results

* `executePrimitive_accepted`: the sixteen primitives in the terms of `Action`.
* `Execute.accepted`: a whole contract.
-/

namespace Nexus.Operation

open Nexus.Lib.Bytes
open Nexus.Lib.Checked
open Nexus.Util
open Nexus.Register
open Nexus.LLD

variable {rt : Runtime} {disk disk' : Disk} {contract c : Contract} {state : State}
  {nCost nCost' : UInt64}

@[simp] theorem orError_eq_ok {α : Type} {strMessage : String} {x : Result α} {a : α} :
    orError strMessage x = .ok a ↔ x = .ok a := by
  unfold orError
  split <;> simp

@[simp] theorem catching_eq_ok {α : Type} {x : Result α} {a : α} :
    catching x = .ok a ↔ x = .ok a := by
  unfold catching
  split <;> simp

/-! ## The verifications -/

/-- `beginVerify` checks the operation code and leaves the cursor where it was. -/
theorem beginVerify_ok {nOP : UInt8} (h : beginVerify nOP contract = .ok c) :
    c = contract.resetRegisters := by
  simp only [beginVerify, bind_eq_ok, Prod.exists, pure_eq_ok, Contract.extract_eq_ok] at h
  obtain ⟨c₀, hRewind, nOp, c₁, ⟨-, -, rfl⟩, u, -, rfl⟩ := h
  rw [Contract.rewind_eq_ok hRewind]
  rfl

theorem verifyState_ok (h0 : contract.resetRegisters = contract)
    (h : verifyState rt contract = .ok (state, c)) :
    contract.prestate = some state ∧ state.IsValid rt = true ∧ ∃ n, c = contract.scan n := by
  simp only [verifyState, bind_eq_ok, Prod.exists, pure_eq_ok, Prod.mk.injEq, reject_eq_ok,
    Bool.not_eq_false] at h
  obtain ⟨state', c', hRead, u, hValid, rfl, rfl⟩ := h
  obtain ⟨hPre, n, rfl⟩ := Contract.preState_eq_ok h0 hRead
  exact ⟨hPre, hValid, n, rfl⟩

theorem verifyOwned_ok (h0 : contract.resetRegisters = contract)
    (h : verifyOwned rt contract = .ok c) :
    ∃ state, contract.prestate = some state ∧ state.IsValid rt = true ∧
      state.hashOwner = contract.hashCaller ∧ ∃ n, c = contract.scan n := by
  simp only [verifyOwned, bind_eq_ok, Prod.exists, pure_eq_ok, reject_eq_ok, not_not] at h
  obtain ⟨state, c', hRead, u, hOwner, rfl⟩ := h
  obtain ⟨hPre, hValid, n, rfl⟩ := verifyState_ok h0 hRead
  exact ⟨state, hPre, hValid, hOwner, n, rfl⟩

/-- The end of a `Verify`: back over the operands, to the beginning of the register
script. -/
theorem endVerify (n : Nat) {m : Nat} (h : ((contract.skip n).scan m).rewind n = .ok c) :
    c.resetRegisters = contract.resetRegisters := by
  rw [← Contract.skip_scan] at h
  rw [Contract.rewind_skip h, Contract.resetRegisters_scan]

theorem Write.Verify_ok (h : Write.Verify rt contract = .ok c) :
    c = contract.resetRegisters ∧ ∃ state, contract.prestate = some state ∧
      state.IsValid rt = true ∧ state.hashOwner = contract.hashCaller := by
  simp only [Write.Verify, bind_eq_ok, Prod.exists, pure_eq_ok, reject_eq_ok, not_not,
    Contract.extract_eq_ok] at h
  obtain ⟨c₁, hBegin, hashAddress, c₂, ⟨-, -, rfl⟩, u, -, state, c₃, hState, v, hType, w, hOwner,
    c₄, hRewind, rfl⟩ := h
  obtain rfl := beginVerify_ok hBegin
  obtain ⟨hPre, hValid, n, rfl⟩ := verifyState_ok rfl hState
  have hEnd := endVerify 32 hRewind
  exact ⟨hEnd, state, hPre, hValid, hOwner.symm⟩

theorem Append.Verify_ok (h : Append.Verify rt contract = .ok c) :
    c = contract.resetRegisters ∧ ∃ state, contract.prestate = some state ∧
      state.IsValid rt = true ∧ state.hashOwner = contract.hashCaller ∧
      (state.nType = REGISTER.RAW ∨ state.nType = REGISTER.APPEND) := by
  simp only [Append.Verify, bind_eq_ok, Prod.exists, pure_eq_ok, reject_eq_ok, not_not,
    Contract.extract_eq_ok] at h
  obtain ⟨c₁, hBegin, hashAddress, c₂, ⟨-, -, rfl⟩, u, -, state, c₃, hState, v, hType, w, hOwner,
    c₄, hRewind, rfl⟩ := h
  obtain rfl := beginVerify_ok hBegin
  obtain ⟨hPre, hValid, n, rfl⟩ := verifyState_ok rfl hState
  have hEnd := endVerify 32 hRewind
  refine ⟨hEnd, state, hPre, hValid, hOwner.symm, ?_⟩
  tauto

/-- Rewinding by the bytes that a compact size needs restores the cursor, unless it was
written in more bytes than that.  Then the cursor is among its high bytes, which are
zero. -/
theorem rewindSize_ok {n : Nat} {c' : Contract}
    (hSize : contract.readCompactSize = .ok (n, c')) (hMax : n ≤ 1024)
    (hBack : c' = c.skip (getSizeOfCompactSize n)) :
    c = contract ∨ c.peek UInt8 0 = 0 ∨ (c.peek UInt8 1 = 0 ∧ c.Fits 3) := by
  simp only [Contract.readCompactSize, map_eq_ok, Prod.exists, Prod.mk.injEq] at hSize
  obtain ⟨n', ss, hSize, rfl, rfl⟩ := hSize
  have hShift : ∀ m k, contract.skip (m + k) = c.skip k → c = contract.skip m := by
    intro m k h
    rw [← Contract.skip_skip] at h
    exact (Contract.skip_inj h).symm
  have hSmall : n' < 253 → getSizeOfCompactSize n' = 1 := fun h => if_pos h
  have hMiddle : ¬ n' < 253 → getSizeOfCompactSize n' = 3 := fun h => by
    rw [getSizeOfCompactSize, if_neg h, if_pos (by omega)]
  have hZero : ∀ (α : Type) [FixedWidth α] (i : Nat),
      contract.Fits (1 + FixedWidth.width α) → i < FixedWidth.width α →
      FixedWidth.toNat (contract.ssOperation.peek α 1) < 256 ^ i →
      (contract.skip i).peek UInt8 1 = 0 := by
    intro α _ i hFits hi hLt
    rw [Contract.peek_skip, Nat.add_comm]
    exact Stream.peek_byte_eq_zero hFits hi hLt
  obtain ⟨-, h1, ⟨hByte, rfl, rfl⟩ | ⟨h3, rfl, rfl⟩ | ⟨h5, rfl, rfl⟩ | ⟨h9, rfl, rfl⟩⟩ :=
    Stream.readCompactSize_cases hSize
  · rw [hSmall (UInt8.lt_iff_toNat_lt.mp hByte)] at hBack
    exact .inl (hShift 0 1 hBack)
  · by_cases hLt : (contract.ssOperation.peek UInt16 1).toNat < 253
    · rw [hSmall hLt] at hBack
      obtain rfl := hShift 2 1 hBack
      have := hZero UInt16 1 h3 (by decide) (hLt.trans (by decide))
      exact .inr (.inl (by simpa using this))
    · rw [hMiddle hLt] at hBack
      exact .inl (hShift 0 3 hBack)
  · by_cases hLt : (contract.ssOperation.peek UInt32 1).toNat < 253
    · rw [hSmall hLt] at hBack
      obtain rfl := hShift 4 1 hBack
      have := hZero UInt32 3 h5 (by decide) (hLt.trans (by decide))
      exact .inr (.inl (by simpa using this))
    · rw [hMiddle hLt] at hBack
      obtain rfl := hShift 2 3 hBack
      have := hZero UInt32 2 h5 (by decide) (hMax.trans_lt (by decide))
      exact .inr (.inr ⟨by simpa using this, (Contract.fits_skip ..).mpr h5⟩)
  · by_cases hLt : (contract.ssOperation.peek UInt64 1).toNat < 253
    · rw [hSmall hLt] at hBack
      obtain rfl := hShift 8 1 hBack
      have := hZero UInt64 7 h9 (by decide) (hLt.trans (by decide))
      exact .inr (.inl (by simpa using this))
    · rw [hMiddle hLt] at hBack
      obtain rfl := hShift 6 3 hBack
      have := hZero UInt64 5 h9 (by decide) (hMax.trans_lt (by decide))
      exact .inr (.inl (by simpa using this))

/-- The verification of a creation takes the type byte for a compact size.  It leaves the
cursor where it was, unless that size is written in more bytes than it needs; then
the type that is read next is invalid, or the data that is read next is empty and
not at the end. -/
theorem Create.Verify_ok (h : Create.Verify contract = .ok c) :
    (c = contract ∧ Address.IsValid (contract.peek Uint256 0) = true ∧
        Register.Reserved (contract.peek Uint256 0) = false ∧
        contract.peek Uint256 0 ≠ WILDCARD_ADDRESS) ∨
      c.peek UInt8 32 = 0 ∨ (c.peek UInt8 33 = 0 ∧ c.Fits 35) := by
  simp only [Create.Verify, bind_eq_ok, Prod.exists, reject_eq_ok, Contract.extract_eq_ok,
    Bool.not_eq_true, Bool.not_eq_false] at h
  obtain ⟨c₀, hBegin, nOP, c₁, ⟨-, -, rfl⟩, u, -, address, c₂, ⟨-, rfl, rfl⟩, v, hValid, w,
    hReserved, x, hWildcard, nSize, c₃, hSize, y, hMax, hRewind⟩ := h
  obtain rfl := Contract.rewind_eq_ok hBegin
  have hBack := Contract.rewind_eq_ok hRewind
  rw [← Contract.skip_skip] at hBack
  rcases rewindSize_ok hSize (Nat.not_lt.mp hMax) hBack with hSame | hType | ⟨hData, hMore⟩
  · exact .inl ⟨Contract.skip_inj hSame, hValid, hReserved, hWildcard⟩
  · exact .inr (.inl (by simpa using hType))
  · exact .inr (.inr ⟨by simpa using hData, (Contract.fits_skip ..).mp hMore⟩)

theorem Transfer.Verify_ok (h : Transfer.Verify rt contract = .ok c) :
    c = contract.resetRegisters ∧ ∃ state, contract.prestate = some state ∧
      state.IsValid rt = true ∧ state.hashOwner = contract.hashCaller := by
  simp only [Transfer.Verify, bind_eq_ok, Prod.exists, pure_eq_ok, reject_eq_ok, not_not,
    Contract.extract_eq_ok] at h
  obtain ⟨c₁, hBegin, hashAddress, c₂, ⟨-, -, rfl⟩, u, -, hashTransfer, c₃, ⟨-, -, rfl⟩, v, -,
    state, c₄, hState, w, -, x, -, y, hOwner, c₅, hRewind, rfl⟩ := h
  obtain rfl := beginVerify_ok hBegin
  obtain ⟨hPre, hValid, n, rfl⟩ := verifyState_ok rfl hState
  have hEnd := endVerify 64 hRewind
  exact ⟨hEnd, state, hPre, hValid, hOwner.symm⟩

theorem Debit.Verify_ok (h : Debit.Verify rt contract = .ok c) :
    c = contract.resetRegisters ∧ contract.peek Uint256 0 ≠ contract.peek Uint256 32 ∧
      ∃ state, contract.prestate = some state ∧ state.IsValid rt = true ∧
        state.hashOwner = contract.hashCaller := by
  simp only [Debit.Verify, bind_eq_ok, Prod.exists, pure_eq_ok, reject_eq_ok,
    Contract.extract_eq_ok] at h
  obtain ⟨c₁, hBegin, hashFrom, c₂, ⟨-, rfl, rfl⟩, u, -, hashTo, c₃, ⟨-, rfl, rfl⟩, v, -, w, -, x,
    -, y, hSelf, c₄, hOwned, c₅, hRewind, rfl⟩ := h
  obtain rfl := beginVerify_ok hBegin
  obtain ⟨state, hPre, hValid, hOwner, n, rfl⟩ := verifyOwned_ok rfl hOwned
  have hEnd := endVerify 64 hRewind
  exact ⟨hEnd, hSelf, state, hPre, hValid, hOwner⟩

theorem Fee.Verify_ok (h : Fee.Verify rt contract = .ok c) :
    c = contract.resetRegisters ∧ ∃ state, contract.prestate = some state ∧
      state.IsValid rt = true ∧ state.hashOwner = contract.hashCaller := by
  simp only [Fee.Verify, bind_eq_ok, Prod.exists, pure_eq_ok, reject_eq_ok,
    Contract.extract_eq_ok] at h
  obtain ⟨c₁, hBegin, hashFrom, c₂, ⟨-, rfl, rfl⟩, u, -, nFees, c₃, ⟨-, -, rfl⟩, c₄, hOwned, c₅,
    hRewind, rfl⟩ := h
  obtain rfl := beginVerify_ok hBegin
  obtain ⟨state, hPre, hValid, hOwner, n, rfl⟩ := verifyOwned_ok rfl hOwned
  have hEnd := endVerify 40 hRewind
  exact ⟨hEnd, state, hPre, hValid, hOwner⟩

theorem Legacy.Verify_ok (h : Legacy.Verify rt contract = .ok c) :
    c = contract.resetRegisters ∧ ∃ state, contract.prestate = some state ∧
      state.IsValid rt = true ∧ state.hashOwner = contract.hashCaller := by
  simp only [Legacy.Verify, bind_eq_ok, Prod.exists, pure_eq_ok, reject_eq_ok,
    Contract.extract_eq_ok] at h
  obtain ⟨c₁, hBegin, hashFrom, c₂, ⟨-, rfl, rfl⟩, u, -, c₄, hOwned, c₅, hRewind, rfl⟩ := h
  obtain rfl := beginVerify_ok hBegin
  obtain ⟨state, hPre, hValid, hOwner, n, rfl⟩ := verifyOwned_ok rfl hOwned
  have hEnd := endVerify 32 hRewind
  exact ⟨hEnd, state, hPre, hValid, hOwner⟩

theorem Trust.verifyOP_ok {nOP : UInt8} (h : Trust.verifyOP rt nOP contract = .ok c) :
    c = contract.resetRegisters ∧ ∃ state, contract.prestate = some state ∧
      state.IsValid rt = true ∧ state.hashOwner = contract.hashCaller := by
  simp only [Trust.verifyOP, bind_eq_ok, pure_eq_ok] at h
  obtain ⟨c₁, hBegin, c₂, hOwned, rfl⟩ := h
  obtain rfl := beginVerify_ok hBegin
  obtain ⟨state, hPre, hValid, hOwner, n, rfl⟩ := verifyOwned_ok rfl hOwned
  exact ⟨rfl, state, hPre, hValid, hOwner⟩

theorem Coinbase.Verify_ok (h : Coinbase.Verify rt contract = .ok c) : c = contract := by
  simp only [Coinbase.Verify, bind_eq_ok, Prod.exists, Contract.extract_eq_ok] at h
  obtain ⟨c₀, hBegin, nOP, c₁, ⟨-, -, rfl⟩, u, -, hashGenesis, c₂, ⟨-, -, rfl⟩, v, -, hRewind⟩ := h
  rw [Contract.rewind_skip hRewind, Contract.rewind_eq_ok hBegin]
  rfl

/-- A credit verifies at the beginning of the operations, and keeps the streams of the
debit. -/
theorem Credit.Verify_ok {debit debit' : Contract} (hBase : contract.reset = contract) {n : Nat}
    (h : Credit.Verify disk (contract.skip n) debit = .ok (c, debit')) :
    contract.peek UInt8 0 = OP.CREDIT ∧ c = contract.skip 141 ∧ debit'.reset = debit.reset ∧
      ∃ state, contract.prestate = some state ∧ state.hashOwner = contract.hashCaller := by
  have hReset : (contract.skip n).resetOperations.resetRegisters = contract := by
    have hOperation : contract.ssOperation.reset = contract.ssOperation :=
      congrArg Contract.ssOperation hBase
    have hRegister : contract.ssRegister.reset = contract.ssRegister :=
      congrArg Contract.ssRegister hBase
    show { contract with
      ssOperation := contract.ssOperation.reset, ssRegister := contract.ssRegister.reset } = contract
    rw [hOperation, hRegister]
  have hBegin : contract.resetRegisters = contract := by
    rw [← hBase, Contract.resetRegisters_reset]
  simp only [Credit.Verify, hReset, bind_eq_ok, Prod.exists, Contract.extract_eq_ok, reject_eq_ok,
    not_not, Credit.operands_eq_ok, pure_eq_ok, Prod.mk.injEq] at h
  obtain ⟨nOP, c₁, ⟨-, rfl, rfl⟩, u, hOP, credit, c₂, ⟨-, -, rfl⟩, state, c₃, hState, v, hOwner,
    account, -, debit₁, hSeek, nOP', debit₂, ⟨-, -, rfl⟩, w, -, rfl, rfl⟩ := h
  rw [Contract.skip_skip] at hState
  obtain ⟨hPre, m, rfl⟩ := Contract.preState_eq_ok (Contract.begins_skip hBegin _) hState
  obtain ⟨k, rfl⟩ := Contract.seekToPrimitive_skip hSeek
  refine ⟨hOP, ?_, rfl, state, hPre, hOwner.symm⟩
  rw [Contract.resetRegisters_scan, Contract.begins_skip hBegin]
  rfl

/-- The debit matters for the commit only from its beginning. -/
theorem Credit.Commit_debit {debit debit' : Contract} (h : debit'.reset = debit.reset)
    {hashAddress hashProof : Uint256} {hashTx : Uint512} {nContract : UInt32} {nAmount : UInt64} :
    Credit.Commit rt disk state debit' hashAddress hashProof hashTx nContract nAmount =
      Credit.Commit rt disk state debit hashAddress hashProof hashTx nContract nAmount := by
  simp only [Credit.Commit, Credit.commitClaimed, h]

theorem Migrate.operands_skip {migrate : Migrate.Operands}
    (h : Migrate.operands contract = .ok (migrate, c)) : c = contract.skip 180 := by
  simp only [Migrate.operands, bind_eq_ok, Prod.exists, Contract.extract_eq_ok, pure_eq_ok,
    Prod.mk.injEq] at h
  obtain ⟨_, _, ⟨-, -, rfl⟩, _, _, ⟨-, -, rfl⟩, _, _, ⟨-, -, rfl⟩, _, _, ⟨-, -, rfl⟩, _, _,
    ⟨-, -, rfl⟩, -, rfl⟩ := h
  simp only [Contract.skip_skip]
  rfl

/-- A migration verifies at the beginning of the operations. -/
theorem Migrate.Verify_ok {debit : Contract} (hBase : contract.reset = contract) {n : Nat} {u : Unit}
    (h : Migrate.Verify disk (contract.skip n) debit = .ok u) :
    contract.peek UInt8 0 = OP.MIGRATE ∧ disk.register.HasTrust contract.hashCaller = false ∧
      (∃ state, contract.prestate = some state ∧ state.hashOwner = contract.hashCaller) ∧
      ∀ migrate, Migrate.operands (contract.skip 65) = .ok (migrate, contract.skip 245) →
        disk.legacy.HasTrustConversion migrate.hashTrust = false := by
  simp only [Migrate.Verify, Contract.reset_skip, hBase, bind_eq_ok, Prod.exists,
    Contract.extract_eq_ok, reject_eq_ok, not_not, Contract.seek_eq_ok] at h
  obtain ⟨nOP, c₁, ⟨-, rfl, rfl⟩, v, hOP, w, -, x, -, c₂, ⟨-, rfl⟩, migrate, c₃, hOperands, y,
    hAccount, hDebit⟩ := h
  obtain rfl := Migrate.operands_skip hOperands
  simp only [Migrate.verifyAccount, bind_eq_ok, Prod.exists, reject_eq_ok, not_not,
    Bool.not_eq_true] at hAccount
  obtain ⟨state, c₄, hState, z, hOwner, account, -, hTrust⟩ := hAccount
  have hBegin : contract.resetRegisters = contract := by
    rw [← hBase, Contract.resetRegisters_reset]
  simp only [Contract.skip_skip] at hState hOperands
  obtain ⟨hPre, m, rfl⟩ := Contract.preState_eq_ok (Contract.begins_skip hBegin _) hState
  refine ⟨hOP, hTrust, ⟨state, hPre, hOwner.symm⟩, fun migrate' hOperands' => ?_⟩
  obtain rfl : migrate = migrate' :=
    congrArg Prod.fst (Except.ok.inj (hOperands.symm.trans hOperands'))
  simp only [Migrate.verifyDebit, bind_eq_ok, Prod.exists, reject_eq_ok, Bool.not_eq_true] at hDebit
  obtain ⟨_, _, -, _, -, _, _, -, _, _, -, _, _, -, _, -, _, _, -, _, _, -, _, _, -, _, -, _, -, _,
    hConversion, -⟩ := hDebit
  exact hConversion

/-! ## Allowed actions -/

/-- What `Execute` checks of an action, besides its calculation. -/
def Action.Allowed (rt : Runtime) (disk : Disk) (contract : Contract) (before after : State) :
    Action → Prop
  | .WRITE _ _ => before.hashOwner = contract.hashCaller
  | .APPEND _ _ =>
      before.hashOwner = contract.hashCaller ∧
        (before.nType = REGISTER.RAW ∨ before.nType = REGISTER.APPEND) ∧
        after.vchState.length ≤ MAX_REGISTER_SIZE
  | .CREATE hashAddress _ vchData =>
      Address.IsValid hashAddress = true ∧ hashAddress ≠ WILDCARD_ADDRESS ∧
        vchData.length ≤ MAX_REGISTER_SIZE
  | .TRANSFER _ _ _ => before.hashOwner = contract.hashCaller
  | .CLAIM hashTx nContract _ =>
      ∃ transfer transfer', disk.ReadContract rt hashTx nContract = .ok transfer ∧
        Claim.Verify rt contract transfer = .ok transfer'
  | .COINBASE _ => True
  | .TRUST _ _ _ => before.hashOwner = contract.hashCaller
  | .GENESIS _ => before.hashOwner = contract.hashCaller
  | .DEBIT hashFrom hashTo _ => before.hashOwner = contract.hashCaller ∧ hashFrom ≠ hashTo
  | .CREDIT credit =>
      before.hashOwner = contract.hashCaller ∧
        Credit.operands (contract.reset.skip 1) = .ok (credit, contract.reset.skip 141) ∧
        ∃ debit r, disk.ReadContract rt credit.hashTx credit.nContract = .ok debit ∧
          Credit.Verify disk contract.reset debit = .ok r
  | .MIGRATE _ migrate =>
      before.hashOwner = contract.hashCaller ∧
        disk.register.HasTrust contract.hashCaller = false ∧
        disk.legacy.HasTrustConversion migrate.hashTrust = false
  | .AUTHORIZE => True
  | .FEE _ _ => before.hashOwner = contract.hashCaller
  | .LEGACY _ _ => before.hashOwner = contract.hashCaller

/-- An action that was allowed, calculated and committed. -/
structure Accepted (rt : Runtime) (disk : Disk) (contract : Contract) (action : Action)
    (before after : State) (disk' : Disk) : Prop where
  start : action.before contract = some before
  run : action.run rt contract before = .ok after
  commit : action.commit rt disk contract after = .ok disk'
  allowed : action.Allowed rt disk contract before after

/-- A primitive was executed: its operands were read, and its action accepted. -/
def Executed.Accepts (rt : Runtime) (disk : Disk) (contract : Contract) (op : Primitive)
    (executed : Executed) : Prop :=
  ∃ action c before after, contract.readAction op = .ok (action, c) ∧
    c.atEnd = executed.1.atEnd ∧
    Accepted rt disk contract action before after executed.2.1

variable {executed : Executed}

theorem calculate_ok {strOP : String} {f : State → Result State}
    (h0 : contract.resetRegisters = contract)
    (h : calculate rt strOP f contract = .ok (state, c)) :
    ∃ before, contract.prestate = some before ∧ f before = .ok state ∧ ∃ n, c = contract.scan n := by
  simp only [calculate, bind_eq_ok, Prod.exists, pure_eq_ok, Prod.mk.injEq] at h
  obtain ⟨before, c₁, hRead, after, hRun, c₂, hPost, rfl, rfl⟩ := h
  obtain ⟨hPre, n, rfl⟩ := Contract.preState_eq_ok h0 hRead
  obtain ⟨m, rfl⟩ := Contract.postState_scan hPost
  exact ⟨before, hPre, hRun, _, Contract.scan_scan ..⟩

/-! ## Register operations -/

theorem executeWRITE_accepts (h0 : contract.resetRegisters = contract)
    (h : executeWRITE rt disk contract nCost = .ok executed) :
    executed.Accepts rt disk contract .WRITE := by
  simp only [executeWRITE, bind_eq_ok, Prod.exists, pure_eq_ok] at h
  obtain ⟨u, -, c₁, hVerify, hashAddress, c₂, hAddress, vchData, c₃, hData, after, c₄, hCalc, rfl⟩ := h
  obtain ⟨rfl, before, hPre, -, hOwner⟩ := Write.Verify_ok hVerify
  rw [h0] at hAddress
  obtain ⟨-, -, rfl⟩ := Contract.extract_eq_ok.mp hAddress
  obtain ⟨n, -, rfl⟩ := Contract.extractBytes_skip hData
  obtain ⟨before', hPre', hRun, m, rfl⟩ := calculate_ok (Contract.begins_skip (Contract.begins_skip h0 _) _) hCalc
  obtain rfl := Option.some.inj (hPre.symm.trans hPre')
  refine ⟨.WRITE hashAddress vchData, (contract.skip 32).skip n, before, after, ?_, rfl, hPre, hRun, rfl, hOwner⟩
  simp only [Contract.readAction, hAddress, ok_bind, hData]
  rfl

theorem executeAPPEND_accepts (h0 : contract.resetRegisters = contract)
    (h : executeAPPEND rt disk contract nCost = .ok executed) :
    executed.Accepts rt disk contract .APPEND := by
  simp only [executeAPPEND, bind_eq_ok, Prod.exists, pure_eq_ok] at h
  obtain ⟨u, -, c₁, hVerify, hashAddress, c₂, hAddress, vchData, c₃, hData, after, c₄, hCalc, rfl⟩ := h
  obtain ⟨rfl, before, hPre, -, hOwner, hType⟩ := Append.Verify_ok hVerify
  rw [h0] at hAddress
  obtain ⟨-, -, rfl⟩ := Contract.extract_eq_ok.mp hAddress
  obtain ⟨n, -, rfl⟩ := Contract.extractBytes_skip hData
  obtain ⟨before', hPre', hRun, m, rfl⟩ := calculate_ok (Contract.begins_skip (Contract.begins_skip h0 _) _) hCalc
  obtain rfl := Option.some.inj (hPre.symm.trans hPre')
  simp only [appendState, bind_eq_ok, reject_eq_ok, pure_eq_ok, Nat.not_lt] at hRun
  obtain ⟨after', hRun, v, hSize, rfl⟩ := hRun
  refine ⟨.APPEND hashAddress vchData, (contract.skip 32).skip n, before, after', ?_, rfl, hPre, hRun, rfl, hOwner, hType, hSize⟩
  simp only [Contract.readAction, hAddress, ok_bind, hData]
  rfl

/-- What a creation writes does not depend on the cost so far. -/
theorem Create.Commit_cost {hashAddress : Address} {r : Disk × UInt64}
    (h : Create.Commit rt disk state hashAddress nCost = .ok r) :
    (Create.Commit rt disk state hashAddress 0).map (fun (disk, _) => disk) = .ok r.1 := by
  have hType : ∀ {n : UInt64}, Create.commitType rt disk state hashAddress nCost = .ok n →
      ∃ m, Create.commitType rt disk state hashAddress 0 = .ok m := by
    intro n hn
    simp only [Create.commitType, Create.commitObject, ite_eq_ok, bind_eq_ok, pure_eq_ok] at hn ⊢
    rcases hn with ⟨hObject, object, hParse, nFee, hCost, u, hAddress, v, hKind, -⟩ |
      ⟨hObject, u, hReadonly, v, hAppend, w, hRaw, -⟩
    · exact ⟨_, .inl ⟨hObject, object, hParse, nFee, hCost, u, hAddress, v, hKind, rfl⟩⟩
    · exact ⟨_, .inr ⟨hObject, u, hReadonly, v, hAppend, w, hRaw, rfl⟩⟩
  simp only [Create.Commit, bind_eq_ok, map_eq_ok, pure_eq_ok] at h ⊢
  obtain ⟨n, hn, u, hHas, rfl⟩ := h
  obtain ⟨m, hm⟩ := hType hn
  exact ⟨_, ⟨m, hm, u, hHas, rfl⟩, rfl⟩

theorem Create.Execute_range {nType : UInt8} {hashOwner : Uint256} {vchData : List UInt8}
    {nTimestamp : UInt64}
    (h : Create.Execute rt (createdState nType hashOwner) vchData nTimestamp = .ok state) :
    nType ≠ 0 := by
  rintro rfl
  simp only [Create.Execute, bind_eq_ok, reject_eq_ok] at h
  obtain ⟨u, hRange, -⟩ := h
  exact hRange (show Range 0 = false by decide)

/-- A creation that is accepted verified at its own cursor. -/
theorem executeCREATE_accepts
    (h : executeCREATE rt disk contract nCost = .ok executed) (hEnd : executed.1.atEnd = true) :
    executed.Accepts rt disk contract .CREATE := by
  simp only [executeCREATE, bind_eq_ok, Prod.exists, pure_eq_ok, reject_eq_ok, Nat.not_lt] at h
  obtain ⟨u, -, c₁, hVerify, hashAddress, c₂, hAddress, nType, c₃, hType, vchData, c₄, hData, v,
    hSize, after, hRun, c₅, hPost, disk', nCost', hCommit, rfl⟩ := h
  obtain ⟨m, rfl⟩ := Contract.postState_scan hPost
  obtain ⟨hFits, rfl, rfl⟩ := Contract.extract_eq_ok.mp hAddress
  obtain ⟨hFits', rfl, rfl⟩ := Contract.extract_eq_ok.mp hType
  rcases Create.Verify_ok hVerify with ⟨rfl, hValid, -, hWildcard⟩ | hZero | ⟨hNone, hMore⟩
  · obtain ⟨n, -, rfl⟩ := Contract.extractBytes_skip hData
    refine ⟨.CREATE _ _ vchData, (c₁.skip 33).skip n, _, after, ?_, rfl, rfl, hRun,
      Create.Commit_cost hCommit, hValid, hWildcard, hSize⟩
    simp only [Contract.readAction, hAddress, ok_bind, hType, hData]
    rfl
  · exact absurd (by simpa using hZero) (Create.Execute_range hRun)
  · have hFits33 : (c₁.skip 33).ssOperation.Fits 1 :=
      (Contract.fits_skip ..).mpr (hMore.mono (by decide))
    have hRead := Stream.extractBytes_zero hFits33 (by simpa [Contract.peek] using hNone)
    have hData' : (c₁.skip 33).extractBytes = .ok ([], c₁.skip 34) := by
      rw [Contract.extractBytes, hRead, map_ok]
      rfl
    obtain ⟨rfl, rfl⟩ := Prod.mk.inj (Except.ok.inj (hData'.symm.trans hData))
    have hSizeEnd : c₁.ssOperation.nReadPos + 34 = c₁.ssOperation.size := beq_iff_eq.mp hEnd
    have hMore' : c₁.ssOperation.nReadPos + 35 ≤ c₁.ssOperation.size := hMore
    omega

theorem executeTRANSFER_accepts (h0 : contract.resetRegisters = contract)
    (h : executeTRANSFER rt disk contract nCost = .ok executed) :
    executed.Accepts rt disk contract .TRANSFER := by
  simp only [executeTRANSFER, bind_eq_ok, Prod.exists, pure_eq_ok] at h
  obtain ⟨c₁, hVerify, hashAddress, c₂, hAddress, hashTransfer, c₃, hTransfer, nType, c₄, hType,
    after, c₅, hCalc, rfl⟩ := h
  obtain ⟨rfl, before, hPre, -, hOwner⟩ := Transfer.Verify_ok hVerify
  rw [h0] at hAddress
  obtain ⟨-, -, rfl⟩ := Contract.extract_eq_ok.mp hAddress
  obtain ⟨-, -, rfl⟩ := Contract.extract_eq_ok.mp hTransfer
  obtain ⟨-, -, rfl⟩ := Contract.extract_eq_ok.mp hType
  simp only [Contract.skip_skip] at *
  obtain ⟨before', hPre', hRun, m, rfl⟩ := calculate_ok (Contract.begins_skip h0 _) hCalc
  obtain rfl := Option.some.inj (hPre.symm.trans hPre')
  refine ⟨.TRANSFER hashAddress hashTransfer nType, contract.skip 65, before, after, ?_, rfl, hPre, hRun, rfl, hOwner⟩
  simp only [Contract.readAction, hAddress, ok_bind, hTransfer, hType]
  rfl

/-- The conditions of a claim are those of its reference. -/
theorem executeCLAIM_accepts (h0 : contract.resetRegisters = contract)
    (h : executeCLAIM rt disk contract nCost = .ok executed) :
    executed.Accepts rt disk contract .CLAIM := by
  simp only [executeCLAIM, calculateClaim, bind_eq_ok, Prod.exists, pure_eq_ok, Prod.mk.injEq] at h
  obtain ⟨u, -, hashTx, c₁, hTx, nContract, c₂, hContract, hashAddress, c₃, hAddress, transfer,
    hRead, transfer', hVerify, nCost', -, after, c₄, ⟨before, c₅, hState, after', hRun, c₆, hPost,
    rfl, rfl⟩, disk', hCommit, rfl⟩ := h
  obtain ⟨-, -, rfl⟩ := Contract.extract_eq_ok.mp hTx
  obtain ⟨-, -, rfl⟩ := Contract.extract_eq_ok.mp hContract
  obtain ⟨-, -, rfl⟩ := Contract.extract_eq_ok.mp hAddress
  simp only [Contract.skip_skip] at *
  obtain ⟨hPre, n, rfl⟩ := Contract.preState_eq_ok (Contract.begins_skip h0 _) hState
  obtain ⟨m, rfl⟩ := Contract.postState_scan hPost
  refine ⟨.CLAIM hashTx nContract hashAddress, contract.skip 100, before, after', ?_, rfl, hPre,
    hRun, hCommit, transfer, transfer', hRead, hVerify⟩
  simp only [Contract.readAction, hTx, ok_bind, hContract, hAddress]
  rfl

/-! ## Coinbase and stake -/

theorem executeCOINBASE_accepts {fValidate : Bool}
    (h : executeCOINBASE rt disk fValidate contract nCost = .ok executed) :
    executed.Accepts rt disk contract .COINBASE := by
  simp only [executeCOINBASE, bind_eq_ok, Prod.exists, pure_eq_ok] at h
  obtain ⟨u, -, c₁, hVerify, hashGenesis, c₂, hGenesis, c₃, hSeek, rfl⟩ := h
  obtain rfl := Coinbase.Verify_ok hVerify
  obtain ⟨-, -, rfl⟩ := Contract.extract_eq_ok.mp hGenesis
  obtain ⟨-, rfl⟩ := Contract.seek_eq_ok.mp hSeek
  refine ⟨.COINBASE hashGenesis, (c₁.skip 32).skip 16, {}, {}, ?_, rfl, rfl, rfl, rfl, trivial⟩
  simp only [Contract.readAction, hGenesis, ok_bind, hSeek]
  rfl

theorem executeStake_accepts {strOP : String} {nOP : UInt8} {nSeek : Nat} {fValidate : Bool}
    {op : Primitive} (hOP : contract.readAction op = contract.readStake nSeek)
    (h0 : contract.resetRegisters = contract)
    (h : executeStake rt strOP (fun rt => Trust.verifyOP rt nOP) nSeek disk fValidate contract
      nCost = .ok executed) :
    executed.Accepts rt disk contract op := by
  simp only [executeStake, bind_eq_ok, Prod.exists, pure_eq_ok] at h
  obtain ⟨u, -, v, -, c₁, hVerify, c₂, hSeek, nScore, c₃, hScore, nStakeChange, c₄, hChange,
    nReward, c₅, hReward, after, c₆, hCalc, disk', hCommit, rfl⟩ := h
  obtain ⟨rfl, before, hPre, -, hOwner⟩ := Trust.verifyOP_ok hVerify
  rw [h0] at hSeek
  obtain ⟨-, rfl⟩ := Contract.seek_eq_ok.mp hSeek
  obtain ⟨-, -, rfl⟩ := Contract.extract_eq_ok.mp hScore
  obtain ⟨-, -, rfl⟩ := Contract.extract_eq_ok.mp hChange
  obtain ⟨-, -, rfl⟩ := Contract.extract_eq_ok.mp hReward
  simp only [Contract.skip_skip] at *
  obtain ⟨before', hPre', hRun, m, rfl⟩ := calculate_ok (Contract.begins_skip h0 _) hCalc
  obtain rfl := Option.some.inj (hPre.symm.trans hPre')
  refine ⟨.TRUST nScore nStakeChange nReward, contract.skip (nSeek + 8 + 8 + 8), before, after, ?_,
    rfl, hPre, hRun, hCommit, hOwner⟩
  simp only [hOP, Contract.readStake, hSeek, ok_bind, hScore, hChange, hReward]
  rfl

theorem executeFirstStake_accepts {strOP : String} {nOP : UInt8} {nSeek : Nat} {fValidate : Bool}
    {op : Primitive} (hOP : contract.readAction op = contract.readFirstStake nSeek)
    (h0 : contract.resetRegisters = contract)
    (h : executeFirstStake rt strOP (fun rt => Trust.verifyOP rt nOP) nSeek disk fValidate contract
      nCost = .ok executed) :
    executed.Accepts rt disk contract op := by
  simp only [executeFirstStake, bind_eq_ok, Prod.exists, pure_eq_ok] at h
  obtain ⟨u, -, v, -, c₁, hVerify, c₂, hSeek, nReward, c₃, hReward, after, c₄, hCalc, disk',
    hCommit, rfl⟩ := h
  obtain ⟨rfl, before, hPre, -, hOwner⟩ := Trust.verifyOP_ok hVerify
  rw [h0] at hSeek
  obtain ⟨-, rfl⟩ := Contract.seek_eq_ok.mp hSeek
  obtain ⟨-, -, rfl⟩ := Contract.extract_eq_ok.mp hReward
  simp only [Contract.skip_skip] at *
  obtain ⟨before', hPre', hRun, m, rfl⟩ := calculate_ok (Contract.begins_skip h0 _) hCalc
  obtain rfl := Option.some.inj (hPre.symm.trans hPre')
  refine ⟨.GENESIS nReward, contract.skip (nSeek + 8), before, after, ?_,
    rfl, hPre, hRun, hCommit, hOwner⟩
  simp only [hOP, Contract.readFirstStake, hSeek, ok_bind, hReward]
  rfl

/-! ## Finance -/

theorem executeDEBIT_accepts (h0 : contract.resetRegisters = contract)
    (h : executeDEBIT rt disk contract nCost = .ok executed) :
    executed.Accepts rt disk contract .DEBIT := by
  simp only [executeDEBIT, bind_eq_ok, Prod.exists, pure_eq_ok] at h
  obtain ⟨c₁, hVerify, hashFrom, c₂, hFrom, hashTo, c₃, hTo, nAmount, c₄, hAmount, nReference, c₅,
    hReference, after, c₆, hCalc, disk', hCommit, rfl⟩ := h
  obtain ⟨rfl, hSelf, before, hPre, -, hOwner⟩ := Debit.Verify_ok hVerify
  rw [h0] at hFrom
  obtain ⟨-, rfl, rfl⟩ := Contract.extract_eq_ok.mp hFrom
  obtain ⟨-, rfl, rfl⟩ := Contract.extract_eq_ok.mp hTo
  obtain ⟨-, rfl, rfl⟩ := Contract.extract_eq_ok.mp hAmount
  obtain ⟨hFits, -, rfl⟩ := Contract.extract_eq_ok.mp hReference
  have hSeek := Contract.seek_eq_ok.mpr ⟨hFits, rfl⟩
  simp only [Contract.skip_skip] at *
  obtain ⟨before', hPre', hRun, m, rfl⟩ := calculate_ok (Contract.begins_skip h0 _) hCalc
  obtain rfl := Option.some.inj (hPre.symm.trans hPre')
  refine ⟨.DEBIT _ _ _, contract.skip 80, before, after, ?_, rfl, hPre, hRun, hCommit, hOwner,
    hSelf⟩
  simp only [Contract.readAction, hFrom, ok_bind, hTo, hAmount]
  exact bind_eq_ok.mpr ⟨_, hSeek, rfl⟩

theorem executeFEE_accepts (h0 : contract.resetRegisters = contract)
    (h : executeFEE rt disk contract nCost = .ok executed) :
    executed.Accepts rt disk contract .FEE := by
  simp only [executeFEE, bind_eq_ok, Prod.exists, pure_eq_ok] at h
  obtain ⟨u, -, c₁, hVerify, hashAddress, c₂, hAddress, nFees, c₃, hFees, after, c₄, hCalc, rfl⟩ := h
  obtain ⟨rfl, before, hPre, -, hOwner⟩ := Fee.Verify_ok hVerify
  rw [h0] at hAddress
  obtain ⟨-, -, rfl⟩ := Contract.extract_eq_ok.mp hAddress
  obtain ⟨-, -, rfl⟩ := Contract.extract_eq_ok.mp hFees
  simp only [Contract.skip_skip] at *
  obtain ⟨before', hPre', hRun, m, rfl⟩ := calculate_ok (Contract.begins_skip h0 _) hCalc
  obtain rfl := Option.some.inj (hPre.symm.trans hPre')
  refine ⟨.FEE hashAddress nFees, contract.skip 40, before, after, ?_, rfl, hPre, hRun, rfl, hOwner⟩
  simp only [Contract.readAction, hAddress, ok_bind, hFees]
  rfl

theorem executeAUTHORIZE_accepts (h : executeAUTHORIZE disk contract nCost = .ok executed) :
    executed.Accepts rt disk contract .AUTHORIZE := by
  simp only [executeAUTHORIZE, bind_eq_ok, pure_eq_ok] at h
  obtain ⟨c₁, hSeek, rfl⟩ := h
  refine ⟨.AUTHORIZE, c₁, {}, {}, ?_, rfl, rfl, rfl, rfl, trivial⟩
  simp only [Contract.readAction, hSeek, ok_bind]
  rfl

/-- The script of a payment to a legacy output is read after the calculation. -/
theorem executeLEGACY_accepts (h0 : contract.resetRegisters = contract)
    (h : executeLEGACY rt disk contract nCost = .ok executed) :
    executed.Accepts rt disk contract .LEGACY := by
  simp only [executeLEGACY, bind_eq_ok, Prod.exists, pure_eq_ok] at h
  obtain ⟨u, -, c₁, hVerify, hashAddress, c₂, hAddress, nAmount, c₃, hAmount, after, c₄, hCalc,
    vch, c₅, hScript, rfl⟩ := h
  obtain ⟨rfl, before, hPre, -, hOwner⟩ := Legacy.Verify_ok hVerify
  rw [h0] at hAddress
  obtain ⟨-, -, rfl⟩ := Contract.extract_eq_ok.mp hAddress
  obtain ⟨-, -, rfl⟩ := Contract.extract_eq_ok.mp hAmount
  simp only [Contract.skip_skip] at *
  obtain ⟨before', hPre', hRun, m, rfl⟩ := calculate_ok (Contract.begins_skip h0 _) hCalc
  obtain rfl := Option.some.inj (hPre.symm.trans hPre')
  obtain ⟨c₆, hScript', rfl⟩ := Contract.extractBytes_scan hScript
  refine ⟨.LEGACY hashAddress nAmount, c₆, before, after, ?_, rfl, hPre, hRun, rfl, hOwner⟩
  simp only [Contract.readAction, hAddress, ok_bind, hAmount, hScript']
  rfl

/-- Migrations and credits read from the beginning of the operations, so they have no
prefix. -/
theorem executeMIGRATE_accepts {n : Nat} (hBase : contract.reset = contract)
    (hOP : contract.peek UInt8 0 = OP.MIGRATE → n = 1)
    (h : executeMIGRATE rt disk (contract.skip n) nCost = .ok executed) :
    executed.Accepts rt disk (contract.skip n) .MIGRATE := by
  simp only [executeMIGRATE, bind_eq_ok, Prod.exists, pure_eq_ok] at h
  obtain ⟨u, -, hashTx, c₁, hTx, debit, hRead, debit', hBuild, v, hVerify, c₂, hSeek, migrate, c₃,
    hOperands, after, c₄, hCalc, disk', hCommit, rfl⟩ := h
  obtain ⟨-, -, rfl⟩ := Contract.extract_eq_ok.mp hTx
  rw [Contract.skip_skip] at hVerify hSeek
  obtain ⟨hCode, hTrust, ⟨before, hPre, hOwner⟩, hConversion⟩ := Migrate.Verify_ok hBase hVerify
  obtain rfl := hOP hCode
  rw [Contract.reset_skip, hBase] at hSeek
  obtain ⟨-, rfl⟩ := Contract.seek_eq_ok.mp hSeek
  obtain rfl := Migrate.operands_skip hOperands
  have hBegin : contract.resetRegisters = contract := by
    rw [← hBase, Contract.resetRegisters_reset]
  rw [Contract.skip_skip] at hCalc hOperands
  obtain ⟨before', hPre', hRun, m, rfl⟩ := calculate_ok (Contract.begins_skip hBegin _) hCalc
  obtain rfl := Option.some.inj (hPre.symm.trans hPre')
  refine ⟨.MIGRATE hashTx migrate, contract.skip 245, before, after, ?_, rfl, hPre, hRun, hCommit,
    hOwner, hTrust, hConversion migrate hOperands⟩
  simp only [Contract.readAction, hTx, ok_bind, Contract.skip_skip]
  exact bind_eq_ok.mpr ⟨_, hOperands, rfl⟩

theorem executeCREDIT_accepts {n : Nat} (hBase : contract.reset = contract)
    (hOP : contract.peek UInt8 0 = OP.CREDIT → n = 1)
    (h : executeCREDIT rt disk (contract.skip n) nCost = .ok executed) :
    executed.Accepts rt disk (contract.skip n) .CREDIT := by
  simp only [executeCREDIT, bind_eq_ok, Prod.exists, pure_eq_ok] at h
  obtain ⟨u, -, credit, c₁, hOperands, debit, hRead, c₂, debit', hVerify, nCost', -, after, c₃,
    hCalc, disk', hCommit, rfl⟩ := h
  obtain ⟨-, -, rfl⟩ := Credit.operands_eq_ok.mp hOperands
  rw [Contract.skip_skip] at hVerify
  obtain ⟨hCode, rfl, hDebit, before, hPre, hOwner⟩ := Credit.Verify_ok hBase hVerify
  obtain rfl := hOP hCode
  have hBegin : contract.resetRegisters = contract := by
    rw [← hBase, Contract.resetRegisters_reset]
  obtain ⟨before', hPre', hRun, m, rfl⟩ := calculate_ok (Contract.begins_skip hBegin _) hCalc
  obtain rfl := Option.some.inj (hPre.symm.trans hPre')
  rw [Credit.Commit_debit hDebit] at hCommit
  have hAction : (contract.skip 1).readAction .CREDIT = .ok (.CREDIT credit, contract.skip 141) := by
    simp only [Contract.readAction, hOperands, ok_bind]
    rfl
  refine ⟨.CREDIT credit, contract.skip 141, before, after, hAction, rfl, hPre, hRun,
    bind_eq_ok.mpr ⟨debit, hRead, hCommit⟩, hOwner, ?_, debit, (contract.skip 141, debit'), hRead,
    ?_⟩
  · rw [Contract.reset_skip, hBase]
    exact hOperands
  · rw [Contract.reset_skip, hBase]
    exact hVerify

/-! ## Whole contracts -/

theorem executePrimitive_accepts {n : Nat} {op : Primitive} {fValidate : Bool}
    (hBase : contract.reset = contract)
    (hFirst : contract.peek UInt8 0 = OP.CREDIT ∨ contract.peek UInt8 0 = OP.MIGRATE → n = 1)
    (h : executePrimitive rt disk fValidate (contract.skip n) nCost op = .ok executed)
    (hEnd : executed.1.atEnd = true) : executed.Accepts rt disk (contract.skip n) op := by
  have h0 : (contract.skip n).resetRegisters = contract.skip n := by
    rw [← hBase]
    rfl
  cases op with
  | WRITE => exact executeWRITE_accepts h0 h
  | APPEND => exact executeAPPEND_accepts h0 h
  | CREATE => exact executeCREATE_accepts h hEnd
  | TRANSFER => exact executeTRANSFER_accepts h0 h
  | CLAIM => exact executeCLAIM_accepts h0 h
  | COINBASE => exact executeCOINBASE_accepts h
  | TRUST => exact executeStake_accepts rfl h0 h
  | TRUSTPOOL => exact executeStake_accepts rfl h0 h
  | GENESIS => exact executeFirstStake_accepts rfl h0 h
  | GENESISPOOL => exact executeFirstStake_accepts rfl h0 h
  | DEBIT => exact executeDEBIT_accepts h0 h
  | CREDIT => exact executeCREDIT_accepts hBase (fun hOP => hFirst (.inl hOP)) h
  | MIGRATE => exact executeMIGRATE_accepts hBase (fun hOP => hFirst (.inr hOP)) h
  | AUTHORIZE => exact executeAUTHORIZE_accepts h
  | FEE => exact executeFEE_accepts h0 h
  | LEGACY => exact executeLEGACY_accepts h0 h

/-- Record the contract that the prefix validates. -/
def validate (disk : Disk) (contract : Contract) : Option ContractKey → Result Disk
  | none => .ok disk
  | some (hashTx, nContract) => Validate.Commit disk hashTx nContract contract.hashCaller

theorem executePrefix_ok {nOP : UInt8} {fValidate : Bool}
    (h : executePrefix rt disk contract nCost = .ok (nOP, fValidate, executed)) :
    ∃ validated n, contract.readPrefix = .ok ((nOP, validated), contract.skip n) ∧
      executed.1 = contract.skip n ∧ validate disk contract validated = .ok executed.2.1 ∧
      (contract.peek UInt8 0 ≠ OP.CONDITION ∧ contract.peek UInt8 0 ≠ OP.VALIDATE → n = 1) := by
  simp only [executePrefix, bind_eq_ok, Prod.exists, Contract.extract_eq_ok, ite_eq_ok,
    pure_eq_ok, Prod.mk.injEq, Except.ok.injEq] at h
  simp only [Contract.readPrefix, bind_eq_ok, Prod.exists, Contract.extract_eq_ok, ite_eq_ok,
    pure_eq_ok, Prod.mk.injEq]
  obtain ⟨nFirst, c₁, ⟨hFits, rfl, rfl⟩, h⟩ := h
  rcases h with ⟨hCondition, nOP', c₂, ⟨hFits', rfl, rfl⟩, u, -, rfl, -, rfl⟩ |
    ⟨hCondition, ⟨hValidate, hashTx, c₂, ⟨hTx, rfl, rfl⟩, nContract, c₃, ⟨hContract, rfl, rfl⟩,
      condition, -, nCost', -, disk₁, hCommit, nOP', c₄, ⟨hFits', rfl, rfl⟩, rfl, -, rfl⟩ |
    ⟨hValidate, rfl, -, rfl⟩⟩
  · refine ⟨none, 2, ⟨_, _, ⟨hFits, rfl, rfl⟩, .inl ⟨hCondition, _, _, ⟨hFits', rfl, rfl⟩, ⟨rfl, rfl⟩, ?_⟩⟩,
      ?_, rfl, fun hNone => absurd hCondition hNone.1⟩
    · exact Contract.skip_skip ..
    · exact Contract.skip_skip ..
  · refine ⟨some (_, _), 70, ⟨_, _, ⟨hFits, rfl, rfl⟩, .inr ⟨hCondition, .inl ⟨hValidate, _, _,
      ⟨hTx, rfl, rfl⟩, _, _, ⟨hContract, rfl, rfl⟩, _, _, ⟨hFits', rfl, rfl⟩, ⟨rfl, rfl⟩, ?_⟩⟩⟩, ?_,
      hCommit, fun hNone => absurd hValidate hNone.2⟩
    · simp only [Contract.skip_skip]
      rfl
    · simp only [Contract.skip_skip]
      rfl
  · exact ⟨none, 1, ⟨_, _, ⟨hFits, rfl, rfl⟩, .inr ⟨hCondition, .inr ⟨hValidate, ⟨rfl, rfl⟩, rfl⟩⟩⟩, rfl,
      rfl, fun _ => rfl⟩

/-- What an action does to the databases does not depend on the cursors. -/
theorem Accepted.congr {action : Action} {before after : State} {n : Nat}
    (h : Accepted rt disk (contract.reset.skip n) action before after disk') :
    Accepted rt disk contract action before after disk' := by
  obtain ⟨hStart, hRun, hCommit, hAllowed⟩ := h
  cases action <;> exact ⟨hStart, hRun, hCommit, hAllowed⟩

/-- What an accepting `Execute` did. -/
theorem Execute.accepted (h : Execute rt disk contract nCost = .ok (disk', nCost')) :
    ∃ d c disk₁ before after, contract.decode = .ok (d, c) ∧ c.atEnd = true ∧
      validate disk contract d.validated = .ok disk₁ ∧
      Accepted rt disk₁ contract d.action before after disk' := by
  simp only [Execute, catching_eq_ok, executeBody, bind_eq_ok, Prod.exists, demand_eq_ok,
    reject_eq_ok, pure_eq_ok, Prod.mk.injEq, Bool.not_eq_false] at h
  obtain ⟨nOP, fValidate, c₁, disk₁, nCost₁, hPrefix, op, hOP, c₂, disk₂, nCost₂, hPrimitive, u,
    hEnd, rfl, rfl⟩ := h
  obtain ⟨validated, n, hRead, rfl, hValidate, hFirst⟩ := executePrefix_ok hPrefix
  have hNone : contract.reset.peek UInt8 0 = OP.CREDIT ∨ contract.reset.peek UInt8 0 = OP.MIGRATE →
      n = 1 := by
    intro hCode
    apply hFirst
    rcases hCode with hCode | hCode <;> rw [hCode] <;> decide
  obtain ⟨action, c, before, after, hAction, hSame, hAccepted⟩ :=
    executePrimitive_accepts rfl hNone hPrimitive hEnd
  refine ⟨⟨validated, op, action⟩, c, disk₁, before, after, ?_, hSame.trans hEnd, hValidate,
    hAccepted.congr⟩
  simp only [Contract.decode, hRead, ok_bind, hOP, demand_some, hAction]
  rfl

end Nexus.Operation
