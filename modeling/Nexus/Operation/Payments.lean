import Nexus.Operation.Calculations

/-!
# The paths of a credit

A credit refers to a coinbase or to a debit.  `Credit::Verify` accepts it on one
of five paths: a coinbase, a legacy output, a credit in full (one-to-one, by
anybody, or back to the sender), and a share of a payment to a tokenised object.
`CreditPath` lists them with what each one checks.

## Main results

* `Credit.Verify_path`: an accepted credit took one of the paths.
-/

namespace Nexus.Operation

open Nexus.Lib.Bytes
open Nexus.Lib.Checked
open Nexus.Util
open Nexus.Register
open Nexus.LLD

/-- What a credit can refer to. -/
inductive Source where
  | COINBASE (hashGenesis : Uint256) (nAmount : UInt64)
  | DEBIT (hashFrom hashTo : Address) (nAmount : UInt64)
  deriving DecidableEq, Repr

/-- The operands of the coinbase or the debit in a contract. -/
def readSource (debit : Contract) : Result Source := do
  let debit ← debit.seekToPrimitive
  let (nOP, debit) ← debit.extract UInt8
  if nOP = OP.COINBASE then do
    let (hashGenesis, debit) ← debit.extract Uint256
    let (nAmount, _) ← debit.extract UInt64
    return .COINBASE hashGenesis nAmount
  else do
    reject (nOP ≠ OP.DEBIT) (.error "")
    let (hashFrom, debit) ← debit.extract Uint256
    let (hashTo, debit) ← debit.extract Uint256
    let (nAmount, _) ← debit.extract UInt64
    return .DEBIT hashFrom hashTo nAmount

/-- The token of a state, if it is an object with that field. -/
def tokenOf (state : State) : Option Uint256 :=
  (Object.Parse ⟨state, []⟩ >>= fun object => object.get Uint256 (bytesOf "token")).toOption

/-- The token of the pre-state of a contract. -/
def Contract.token (contract : Contract) : Option Uint256 := contract.prestate >>= tokenOf

theorem tokenOf_eq_some {state : State} {hashToken : Uint256} :
    tokenOf state = some hashToken ↔ ∃ object, Object.Parse ⟨state, []⟩ = .ok object ∧
      object.Read Uint256 (bytesOf "token") = .ok hashToken := by
  simp only [tokenOf, toOption_eq_some, bind_eq_ok, get_eq_ok]

/-- The ways to accept a credit of `credit.nCredit` to an account of the token `hashToken`. -/
inductive CreditPath (ledger : LedgerDB) (hashCaller : Uint256) (hashToken : Option Uint256)
    (debit : Contract) (credit : Credit.Operands) : Source → Prop
  | coinbase {hashGenesis : Uint256} {nAmount : UInt64} (hGenesis : hashGenesis = hashCaller)
      (hAmount : credit.nCredit = nAmount) (hToken : hashToken = some 0) :
      CreditPath ledger hashCaller hashToken debit credit (.COINBASE hashGenesis nAmount)
  | output {hashFrom hashTo : Address} {nAmount : UInt64} (hFrom : hashFrom = WILDCARD_ADDRESS)
      (hTo : hashTo = credit.hashAccount) (hProof : credit.hashProof = hashFrom)
      (hAmount : credit.nCredit = nAmount) :
      CreditPath ledger hashCaller hashToken debit credit (.DEBIT hashFrom hashTo nAmount)
  | full {hashFrom hashTo : Address} {nAmount : UInt64} (hFrom : hashFrom ≠ WILDCARD_ADDRESS)
      (hToken : hashToken = debit.token) (hSome : hashToken.isSome) (hProof : credit.hashProof = hashFrom)
      (hAmount : Credit.checkAmount ledger hashTo credit nAmount = .ok ()) :
      CreditPath ledger hashCaller hashToken debit credit (.DEBIT hashFrom hashTo nAmount)
  | share {hashFrom hashTo : Address} {nAmount : UInt64} (hFrom : hashFrom ≠ WILDCARD_ADDRESS)
      (hToken : hashToken = debit.token) (hSome : hashToken.isSome) (hObject : Address.IsObject hashTo = true)
      (hAmount : ¬ nAmount <
        (ledger.ReadClaimed credit.hashTx credit.nContract).getD 0 + credit.nCredit) :
      CreditPath ledger hashCaller hashToken debit credit (.DEBIT hashFrom hashTo nAmount)

variable {disk : Disk} {contract debit c : Contract} {credit : Credit.Operands}
  {r : Contract × Contract}

theorem readSource_coinbase (hSeek : debit.seekToPrimitive = .ok c)
    (hOP : c.peek UInt8 0 = OP.COINBASE) (hFits : c.Fits 41) :
    readSource debit = .ok (.COINBASE (c.peek Uint256 1) (c.peek UInt64 33)) := by
  simp only [readSource, bind_eq_ok, Prod.exists, ite_eq_ok, Contract.extract_eq_ok, pure_eq_ok]
  refine ⟨c, hSeek, _, _, ⟨hFits.mono (by decide), rfl, rfl⟩, .inl ⟨hOP, _, _, ⟨?_, rfl, rfl⟩, _, _,
    ⟨?_, rfl, rfl⟩, ?_⟩⟩
  · exact (Contract.fits_skip ..).mpr (hFits.mono (by decide))
  · simpa using hFits
  · simp

theorem readSource_debit (hSeek : debit.seekToPrimitive = .ok c)
    (hOP : c.peek UInt8 0 = OP.DEBIT) (hFits : c.Fits 73) :
    readSource debit =
      .ok (.DEBIT (c.peek Uint256 1) (c.peek Uint256 33) (c.peek UInt64 65)) := by
  have hOther : c.peek UInt8 0 ≠ OP.COINBASE := by
    rw [hOP]
    decide
  simp only [readSource, bind_eq_ok, Prod.exists, ite_eq_ok, Contract.extract_eq_ok, pure_eq_ok,
    reject_eq_ok, not_not]
  refine ⟨c, hSeek, _, _, ⟨hFits.mono (by decide), rfl, rfl⟩, .inr ⟨hOther, (), hOP, _, _, ⟨?_, rfl, rfl⟩,
    _, _, ⟨?_, rfl, rfl⟩, _, _, ⟨?_, rfl, rfl⟩, ?_⟩⟩
  · exact (Contract.fits_skip ..).mpr (hFits.mono (by decide))
  · simpa using hFits.mono (show 65 ≤ 73 by decide)
  · simpa using hFits
  · simp

/-- Where the operands of a debit are. -/
theorem readSource_eq_debit {hashFrom hashTo : Address} {nAmount : UInt64}
    (h : readSource debit = .ok (.DEBIT hashFrom hashTo nAmount)) :
    ∃ c, debit.seekToPrimitive = .ok c ∧ c.peek UInt8 0 = OP.DEBIT ∧ c.Fits 73 ∧
      hashFrom = c.peek Uint256 1 ∧ hashTo = c.peek Uint256 33 ∧ nAmount = c.peek UInt64 65 := by
  simp only [readSource, bind_eq_ok, Prod.exists, ite_eq_ok, Contract.extract_eq_ok, pure_eq_ok,
    reject_eq_ok, not_not, reduceCtorEq, and_false, exists_false, false_or, Source.DEBIT.injEq] at h
  obtain ⟨c, hSeek, nOP, _, ⟨-, rfl, rfl⟩, -, _, hOP, _, _, ⟨-, rfl, rfl⟩, _, _, ⟨-, rfl, rfl⟩, _, _,
    ⟨hFits, rfl, rfl⟩, rfl, rfl, rfl⟩ := h
  refine ⟨c, hSeek, hOP, ?_, ?_, ?_, ?_⟩
  · simpa using hFits
  · simp
  · simp
  · simp

theorem token_eq_some {state : State} {account : Object} {hashToken : Uint256}
    (hPre : contract.prestate = some state) (hParse : Object.Parse ⟨state, []⟩ = .ok account)
    (hToken : account.get Uint256 (bytesOf "token") = .ok hashToken) :
    contract.token = some hashToken := by
  rw [Contract.token, hPre]
  exact tokenOf_eq_some.mpr ⟨account, hParse, get_eq_ok.mp hToken⟩

theorem verifyCoinbase_path {hashCaller : Uint256} {state : State} {account : Object}
    {ledger : LedgerDB} {u : Unit} (hPre : contract.prestate = some state)
    (hParse : Object.Parse ⟨state, []⟩ = .ok account) (hSeek : debit.seekToPrimitive = .ok c)
    (hOP : c.peek UInt8 0 = OP.COINBASE)
    (h : Credit.verifyCoinbase hashCaller account credit (c.skip 1) = .ok u) :
    ∃ source, readSource debit = .ok source ∧
      CreditPath ledger hashCaller contract.token debit credit source := by
  simp only [Credit.verifyCoinbase, bind_eq_ok, Prod.exists, reject_eq_ok, not_not,
    Contract.extract_eq_ok] at h
  obtain ⟨_, -, hashPublic, _, ⟨-, rfl, rfl⟩, _, hPublic, nCoinbase, _, ⟨hFits, rfl, rfl⟩, _,
    hAmount, hashToken, hToken, hZero⟩ := h
  subst hZero
  refine ⟨_, readSource_coinbase hSeek hOP ?_, .coinbase ?_ ?_ (token_eq_some hPre hParse hToken)⟩
  · simpa using hFits
  · simpa using hPublic
  · simpa using hAmount

theorem verifyOutput_path {hashCaller : Uint256} {hashToken : Option Uint256} {ledger : LedgerDB}
    {u : Unit} (hSeek : debit.seekToPrimitive = .ok c) (hOP : c.peek UInt8 0 = OP.DEBIT)
    (hFrom : c.peek Uint256 1 = WILDCARD_ADDRESS)
    (h : Credit.verifyOutput (c.peek Uint256 1) (c.peek Uint256 33) credit (c.skip 65) = .ok u) :
    ∃ source, readSource debit = .ok source ∧
      CreditPath ledger hashCaller hashToken debit credit source := by
  simp only [Credit.verifyOutput, bind_eq_ok, Prod.exists, reject_eq_ok, not_not,
    Contract.extract_eq_ok] at h
  obtain ⟨_, hProof, _, hTo, nDebit, _, ⟨hFits, rfl, rfl⟩, hAmount⟩ := h
  refine ⟨_, readSource_debit hSeek hOP ?_, .output hFrom hTo hProof ?_⟩
  · simpa using hFits
  · simpa using hAmount.symm

theorem verifyAccount_path {hashCaller : Uint256} {state : State} {account : Object} {u : Unit}
    (h0 : c.resetRegisters = c) (hSame : c.prestate = debit.prestate)
    (hPre : contract.prestate = some state) (hParse : Object.Parse ⟨state, []⟩ = .ok account)
    (hSeek : debit.seekToPrimitive = .ok c) (hOP : c.peek UInt8 0 = OP.DEBIT)
    (hFrom : c.peek Uint256 1 ≠ WILDCARD_ADDRESS)
    (h : Credit.verifyAccount disk hashCaller account (c.peek Uint256 1) (c.peek Uint256 33) credit
      (c.skip 65) = .ok u) :
    ∃ source, readSource debit = .ok source ∧
      CreditPath disk.ledger hashCaller contract.token debit credit source := by
  simp only [Credit.verifyAccount, bind_eq_ok, Prod.exists, reject_eq_ok, not_not, ite_eq_ok,
    orError_eq_ok] at h
  obtain ⟨stateFrom, c₁, hState, accountFrom, hParseFrom, _, -, hashTokenFrom, hTokenFrom, hashToken,
    hToken, _, rfl, hPath⟩ := h
  obtain ⟨hPreFrom, m, rfl⟩ := Contract.preState_eq_ok (Contract.begins_skip h0 _) hState
  have hAccount := token_eq_some hPre hParse hToken
  have hDebit : debit.token = some hashTokenFrom := by
    refine token_eq_some ?_ hParseFrom hTokenFrom
    rw [← hSame]
    exact hPreFrom
  have hEq : contract.token = debit.token := hAccount.trans hDebit.symm
  have hSome : contract.token.isSome := by
    rw [hAccount]
    rfl
  rcases hPath with ⟨-, hFull⟩ | ⟨-, hShare⟩
  · simp only [Credit.verifyFull, bind_eq_ok, Prod.exists, reject_eq_ok, not_not,
      Contract.extract_eq_ok] at hFull
    obtain ⟨_, hProof, nDebit, _, ⟨hFits, rfl, rfl⟩, hAmount⟩ := hFull
    refine ⟨_, readSource_debit hSeek hOP ?_, .full hFrom hEq hSome hProof ?_⟩
    · simpa using hFits
    · simpa using hAmount
  · simp only [Credit.verifyPartial, bind_eq_ok, Prod.exists, reject_eq_ok,
      Contract.extract_eq_ok, Bool.not_eq_false] at hShare
    obtain ⟨_, hObject, _, -, _, -, _, -, _, -, _, -, _, -, _, -, _, -, _, -, _, -, _, -, _, -, _, -,
      nDebit, _, ⟨hFits, rfl, rfl⟩, _, -, _, -, _, -, _, -, hAmount⟩ := hShare
    refine ⟨_, readSource_debit hSeek hOP ?_, .share hFrom hEq hSome hObject ?_⟩
    · simpa using hFits
    · simpa using hAmount

/-- An accepted credit took one of the paths. -/
theorem Credit.Verify_path (h0 : debit.resetRegisters = debit)
    (hOperands : Credit.operands (contract.reset.skip 1) = .ok (credit, c))
    (h : Credit.Verify disk contract.reset debit = .ok r) :
    ∃ source, readSource debit = .ok source ∧
      CreditPath disk.ledger contract.hashCaller contract.token debit credit source := by
  have hReset : contract.reset.resetOperations.resetRegisters = contract.reset := rfl
  simp only [Credit.Verify, hReset, bind_eq_ok, Prod.exists, reject_eq_ok, ite_eq_ok, orError_eq_ok,
    Contract.extract_eq_ok, not_not] at h
  obtain ⟨nOP, c₁, ⟨-, -, rfl⟩, u, -, credit', c₂, hOperands', state, c₃, hState, v, hOwner, account,
    hParse, debit₁, hSeek, nOP', debit₂, ⟨hFits, rfl, rfl⟩, w, hPath, -⟩ := h
  obtain ⟨rfl, rfl⟩ := Prod.mk.inj (Except.ok.inj (hOperands.symm.trans hOperands'))
  obtain ⟨-, -, rfl⟩ := Credit.operands_eq_ok.mp hOperands
  obtain ⟨hPre, m, rfl⟩ := Contract.preState_eq_ok rfl hState
  obtain ⟨n, rfl⟩ := Contract.seekToPrimitive_skip hSeek
  rcases hPath with ⟨hOP, hPath⟩ | ⟨-, _, hOP, hPath⟩
  · exact verifyCoinbase_path hPre hParse hSeek hOP hPath
  · simp only [Credit.verifyDebit, bind_eq_ok, Prod.exists, reject_eq_ok, ite_eq_ok,
      Contract.extract_eq_ok] at hPath
    obtain ⟨hashFrom, _, ⟨-, rfl, rfl⟩, _, -, hashTo, _, ⟨-, rfl, rfl⟩, _, -, ⟨hFrom, hPath⟩ | ⟨hFrom, hPath⟩⟩ := hPath
    · exact verifyOutput_path hSeek hOP hFrom hPath
    · have hBegin : debit.resetOperations.resetRegisters = debit.resetOperations :=
        congrArg Contract.resetOperations h0
      have hSame : (debit.resetOperations.skip n).prestate = debit.prestate := rfl
      exact verifyAccount_path (Contract.begins_skip hBegin n) hSame hPre hParse hSeek hOP
        hFrom hPath

end Nexus.Operation
