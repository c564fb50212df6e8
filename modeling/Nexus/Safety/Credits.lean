import Nexus.Lib.Run
import Nexus.Operation.Payments
import Nexus.Safety.Tokens

/-!
# The amounts of credits

Two records keep a debit from being credited twice: the proofs, and for a debit
to an object the claimed amount.  They bound the sum of its credits, but for
three slips: the first credit back to the sender of a debit to an object may be
of any amount, the claimed amount wraps, and it is not recorded at all when the
debit begins with a condition or a validation.

## Main results

* `credits_bounded`: in a run without the slips, the credits of a debit sum to at
  most its amount, and each raises a balance by exactly its amount.
* `credit_of_any_amount`: a credit of more than the debit.
-/

namespace Nexus.Safety

open Nexus.Lib
open Nexus.Lib.Bytes
open Nexus.Lib.Checked
open Nexus.Util
open Nexus.Register
open Nexus.Operation
open Nexus.LLD
open Nexus.Ledger

/-- A debit on the ledger. -/
structure Debited where
  key : ContractKey
  debit : Contract
  hashFrom : Address
  hashTo : Address
  nAmount : UInt64
  source : readSource debit = .ok (.DEBIT hashFrom hashTo nAmount)

namespace Debited

/-- The debit is to an object, whose owners may share it. -/
def Shared (d : Debited) : Prop :=
  d.hashFrom ≠ WILDCARD_ADDRESS ∧ Address.IsObject d.hashTo = true

/-- No condition and no validation stand before the debit. -/
def Bare (d : Debited) : Prop := d.debit.reset.peek UInt8 0 = OP.DEBIT

end Debited

/-- The records that credits of a debit share. -/
structure Records where
  proofs : Uint256 → Bool := fun _ => false
  claimed : Option UInt64 := none

def recordsOf (ledger : LedgerDB) (key : ContractKey) : Records where
  proofs hashProof := ledger.proofs (hashProof, key)
  claimed := ledger.claimed key

/-- The claimed amount; no record is none. -/
def Records.nClaimed (r : Records) : UInt64 := r.claimed.getD 0

/-- A credit to execute. -/
structure Payout where
  disk : Disk
  call : Call
  credit : Credit.Operands

/-- The credit refers to the debit, and `Execute` accepts it on the current records.  Other
records may be as they like. -/
structure Credits (d : Debited) (r : Records) (x : Payout) (r' : Records) : Prop where
  start : recordsOf x.disk.ledger d.key = r
  debit : x.disk.ReadContract x.call.rt d.key.1 d.key.2 = .ok d.debit
  performs : x.call.contract.Performs (.CREDIT x.credit)
  refers : (x.credit.hashTx, x.credit.nContract) = d.key
  executes : ∃ disk', Executes x.disk x.call disk' ∧ recordsOf disk'.ledger d.key = r'

/-- The balance of a state, if it is an object with that field. -/
def balanceOf (state : State) : Option UInt64 :=
  (Object.Parse ⟨state, []⟩ >>= fun object => object.get UInt64 balance).toOption

/-- The credit raises the balance of its account by exactly its amount. -/
def RaisesBalance (x : Payout) : Prop :=
  ∃ before after nBalance nBalance' disk', Executes x.disk x.call disk' ∧
    x.call.contract.prestate = some before ∧
    disk'.register.ReadState x.credit.hashAccount = some after ∧
    balanceOf before = some nBalance ∧ balanceOf after = some nBalance' ∧
    nBalance'.toNat = nBalance.toNat + x.credit.nCredit.toNat

/-- The condition on a credit: its account is a register within the bound whose balance does
not wrap; and a credit of a shared debit is of no more than the debit, does not wrap
the claimed amount, and is the first one or of a debit whose claimed amount is recorded. -/
structure Sound (d : Debited) (r : Records) (x : Payout) : Prop where
  size : ∀ before, x.call.contract.prestate = some before →
    before.vchState.length ≤ MAX_REGISTER_SIZE
  balance : ∀ before nBalance, x.call.contract.prestate = some before →
    balanceOf before = some nBalance → nBalance.toNat + x.credit.nCredit.toNat < 2 ^ 64
  amount : d.Shared → x.credit.nCredit ≤ d.nAmount
  claimed : d.Shared → r.nClaimed.toNat + x.credit.nCredit.toNat < 2 ^ 64
  recorded : d.Shared → d.Bare ∨ ∀ hashProof, r.proofs hashProof = false

variable {d : Debited} {r r' : Records} {x : Payout} {n : Nat}

/-! ## One credit -/

/-- The primitive of a bare debit is at the beginning. -/
theorem Debited.operands (d : Debited) (hBare : d.Bare) :
    d.debit.reset.Fits 73 ∧ d.hashTo = d.debit.reset.peek Uint256 33 := by
  obtain ⟨c, hSeek, -, hFits, -, hTo, -⟩ := readSource_eq_debit d.source
  have hByte : (d.debit.reset.peek UInt8 0) ≠ OP.CONDITION ∧
      (d.debit.reset.peek UInt8 0) ≠ OP.VALIDATE := by
    rw [show d.debit.reset.peek UInt8 0 = OP.DEBIT from hBare]
    decide
  simp only [Contract.seekToPrimitive, bind_eq_ok, reject_eq_ok, Stream.get, demand_eq_ok,
    ite_eq_ok, Contract.seek_eq_ok, Except.ok.injEq] at hSeek
  obtain ⟨_, hSize, nOP, hGet, hSeek⟩ := hSeek
  have hFirst : nOP = d.debit.reset.peek UInt8 0 := by
    have hFits₁ : d.debit.ssOperation.reset.Fits (0 + 1) := by
      unfold Stream.Fits Stream.size at *
      simp only [Stream.reset]
      omega
    exact Option.some.inj (hGet.symm.trans (Stream.peek_uint8 hFits₁))
  rcases hSeek with ⟨hOP, -⟩ | ⟨-, ⟨hOP, -⟩ | ⟨-, rfl⟩⟩
  · exact absurd (hFirst.symm.trans hOP) hByte.1
  · exact absurd (hFirst.symm.trans hOP) hByte.2
  · exact ⟨hFits, hTo⟩

/-- The claimed amount is recorded for a bare debit to an object. -/
theorem commitClaimed_ok {ledger ledger' : LedgerDB} {nAmount : UInt64}
    (h : Credit.commitClaimed ledger d.debit d.key.1 d.key.2 nAmount = .ok ledger') :
    ledger'.proofs = ledger.proofs ∧
      (d.Bare → Address.IsObject d.hashTo = true →
        ledger'.claimed d.key = some ((ledger.claimed d.key).getD 0 + nAmount)) := by
  simp only [Credit.commitClaimed, bind_eq_ok, Prod.exists, ite_eq_ok, Contract.extract_eq_ok,
    Except.ok.injEq] at h
  obtain ⟨nType, _, ⟨-, rfl, rfl⟩, ⟨hOP, _, _, ⟨-, rfl, rfl⟩, hashTo, _, ⟨-, rfl, rfl⟩,
    ⟨hObject, rfl⟩ | ⟨hObject, rfl⟩⟩ | ⟨hOP, rfl⟩⟩ := h
  · exact ⟨rfl, fun _ _ => Function.update_self ..⟩
  · refine ⟨rfl, fun hBare hTo => absurd ?_ hObject⟩
    rw [(d.operands hBare).2] at hTo
    simpa using hTo
  · exact ⟨rfl, fun hBare => absurd hBare hOP⟩

/-- What an accepted credit found in the records and left there. -/
structure Recorded (d : Debited) (r : Records) (credit : Credit.Operands) (r' : Records) : Prop where
  new : r.proofs credit.hashProof = false
  proof : r'.proofs credit.hashProof = true
  claimed : d.Bare → Address.IsObject d.hashTo = true →
    r'.nClaimed = r.nClaimed + credit.nCredit

theorem Credits.recorded (h : Credits d r x r') : Recorded d r x.credit r' := by
  obtain ⟨rfl, hRead, hPerforms, hKey, disk', hExecutes, rfl⟩ := h
  obtain ⟨action, disk₁, before, after, hAction, hLedger, hLegacy, -, hAccepted⟩ :=
    hExecutes.accepted
  obtain rfl := hPerforms.inj hAction
  obtain ⟨hTx, hContract⟩ := Prod.mk.inj hKey
  have hCommit := hAccepted.commit
  simp only [Action.commit, Credit.Commit, bind_eq_ok, reject_eq_ok, pure_eq_ok,
    Bool.not_eq_true, hTx, hContract] at hCommit
  obtain ⟨debit, hRead', _, hNew, ledger, hClaimed, rfl⟩ := hCommit
  simp only [Disk.ReadContract, hLedger, hLegacy] at hRead'
  obtain rfl := Except.ok.inj (hRead.symm.trans hRead')
  obtain ⟨hProofs, hRecorded⟩ := commitClaimed_ok hClaimed
  rw [hLedger] at hNew hProofs hRecorded
  refine ⟨hNew, ?_, fun hBare hObject => ?_⟩
  · show ledger.proofs (x.credit.hashProof, d.key) = true
    rw [hProofs]
    exact Function.update_self ..
  · show (ledger.claimed d.key).getD 0 = _
    rw [hRecorded hBare hObject]
    rfl

theorem Credits.path (h : Credits d r x r') :
    CreditPath x.disk.ledger x.call.contract.hashCaller x.call.contract.token d.debit x.credit
      (.DEBIT d.hashFrom d.hashTo d.nAmount) := by
  obtain ⟨rfl, hRead, hPerforms, hKey, disk', hExecutes, rfl⟩ := h
  refine credit_path hExecutes ⟨hPerforms, ?_, d.source⟩
  rw [← hKey] at hRead
  exact hRead

/-- A credit of a debit that is not shared has its proof at the sender, and is of the amount
of the debit. -/
theorem Credits.whole (h : Credits d r x r') (hShared : ¬ d.Shared) :
    x.credit.hashProof = d.hashFrom ∧ x.credit.nCredit = d.nAmount := by
  cases h.path with
  | output hFrom hTo hProof hAmount => exact ⟨hProof, hAmount⟩
  | full hFrom hToken hSome hProof hAmount =>
      have hObject : ¬ Address.IsObject d.hashTo = true := fun hObject => hShared ⟨hFrom, hObject⟩
      simp only [Credit.checkAmount, if_neg hObject, reject_eq_ok, not_not] at hAmount
      exact ⟨hProof, hAmount.symm⟩
  | share hFrom hToken hSome hObject hAmount => exact absurd ⟨hFrom, hObject⟩ hShared

/-- A credit of a shared debit is checked against the claimed amount, unless nothing is
claimed. -/
theorem Credits.part (h : Credits d r x r') (hShared : d.Shared)
    (hSound : Sound d r x) : r.nClaimed.toNat + x.credit.nCredit.toNat ≤ d.nAmount.toNat := by
  have hClaimed := hSound.claimed hShared
  have hAmount := hSound.amount hShared
  have hStart := h.start
  have hKey := h.refers
  -- without a wrap the sum that the code compares is the sum
  have hSum : ∀ nClaimed : UInt64, nClaimed.toNat + x.credit.nCredit.toNat < 2 ^ 64 →
      ¬ d.nAmount < nClaimed + x.credit.nCredit →
      nClaimed.toNat + x.credit.nCredit.toNat ≤ d.nAmount.toNat := by
    intro nClaimed hWrap hNot
    rw [UInt64.lt_iff_toNat_lt, UInt64.toNat_add, Nat.mod_eq_of_lt hWrap] at hNot
    omega
  have hRead : x.disk.ledger.ReadClaimed x.credit.hashTx x.credit.nContract = r.claimed := by
    rw [← hStart, ← hKey]
    rfl
  cases h.path with
  | output hFrom hTo hProof hAmount => exact absurd hFrom hShared.1
  | full hFrom hToken hSome hProof hCheck =>
      simp only [Credit.checkAmount, if_pos hShared.2, hRead] at hCheck
      cases hNone : r.claimed with
      | none =>
          rw [Records.nClaimed, hNone, Option.getD_none]
          rw [UInt64.le_iff_toNat_le] at hAmount
          simpa using hAmount
      | some nClaimed =>
          simp only [hNone, bind_eq_ok, reject_eq_ok] at hCheck
          obtain ⟨_, -, hNot⟩ := hCheck
          rw [Records.nClaimed, hNone, Option.getD_some] at hClaimed ⊢
          exact hSum _ hClaimed hNot
  | share hFrom hToken hSome hObject hNot =>
      rw [hRead] at hNot
      exact hSum _ hClaimed hNot

/-- The credit raises the balance of its account. -/
theorem Credits.raises (h : Credits d r x r') (hSound : Sound d r x) : RaisesBalance x := by
  obtain ⟨-, -, hPerforms, -, disk', hExecutes, -⟩ := h
  obtain ⟨action, disk₁, before, after, hAction, -, -, -, hAccepted⟩ := hExecutes.accepted
  obtain rfl := hPerforms.inj hAction
  have hPre : x.call.contract.prestate = some before := hAccepted.start
  have hSize : before.vchState.length ≤ 2 ^ 16 := (hSound.size before hPre).trans (by decide)
  obtain ⟨nBalance, -, ⟨object, hParse, -, hBefore⟩, object', hParse', hAfter⟩ :=
    Credit.Execute_ok hSize hAccepted.run
  have hBalance : balanceOf before = some nBalance := by
    simp [balanceOf, hParse, get_eq_ok.mpr hBefore, Except.toOption]
  have hBalance' : balanceOf after = some (nBalance + x.credit.nCredit) := by
    simp [balanceOf, hParse', get_eq_ok.mpr hAfter, Except.toOption]
  refine ⟨before, after, nBalance, _, disk', hExecutes, hPre, ?_, hBalance, hBalance', ?_⟩
  · have hMoved := hAccepted.moved
    rw [RegisterDB.ReadState, hMoved.1]
    exact Function.update_self ..
  · rw [UInt64.toNat_add, Nat.mod_eq_of_lt (hSound.balance before nBalance hPre hBalance)]

/-! ## Runs of credits -/

/-- The records account for `n` credited: nothing yet, or no more than the debit, with a
record that stops or counts the next credit. -/
def Balanced (d : Debited) (r : Records) (n : Nat) : Prop :=
  n = 0 ∧ r.nClaimed = 0 ∨
    n ≤ d.nAmount.toNat ∧
      (¬ d.Shared ∧ r.proofs d.hashFrom = true ∨
        d.Shared ∧ ¬ d.Bare ∧ (∃ hashProof, r.proofs hashProof = true) ∨
        d.Shared ∧ d.Bare ∧ r.nClaimed.toNat = n)

/-- A credit keeps the account. -/
theorem Balanced.credits (hBalanced : Balanced d r n) (h : Credits d r x r') (hSound : Sound d r x) :
    Balanced d r' (n + x.credit.nCredit.toNat) := by
  have hRecorded := h.recorded
  by_cases hShared : d.Shared
  · have hPart := h.part hShared hSound
    have hNext : d.Bare → r'.nClaimed.toNat = r.nClaimed.toNat + x.credit.nCredit.toNat := by
      intro hBare
      rw [hRecorded.claimed hBare hShared.2, UInt64.toNat_add,
        Nat.mod_eq_of_lt (hSound.claimed hShared)]
    rcases hBalanced with ⟨rfl, hNone⟩ | ⟨-, ⟨hNot, -⟩ | ⟨-, hBare, hashProof, hProof⟩ |
      ⟨-, hBare, rfl⟩⟩
    · have hZero : r.nClaimed.toNat = 0 := by
        rw [hNone]
        rfl
      rw [hZero] at hPart hNext
      by_cases hBare : d.Bare
      · exact .inr ⟨hPart, .inr (.inr ⟨hShared, hBare, hNext hBare⟩)⟩
      · exact .inr ⟨hPart, .inr (.inl ⟨hShared, hBare, _, hRecorded.proof⟩)⟩
    · exact absurd hShared hNot
    · rcases hSound.recorded hShared with hBare' | hNone
      · exact absurd hBare' hBare
      · rw [hNone hashProof] at hProof
        cases hProof
    · exact .inr ⟨hPart, .inr (.inr ⟨hShared, hBare, hNext hBare⟩)⟩
  · obtain ⟨hProof, hAmount⟩ := h.whole hShared
    rcases hBalanced with ⟨rfl, -⟩ | ⟨-, ⟨-, hUsed⟩ | ⟨hYes, -⟩ | ⟨hYes, -⟩⟩
    · refine .inr ⟨?_, .inl ⟨hShared, hProof ▸ hRecorded.proof⟩⟩
      rw [hAmount, Nat.zero_add]
    · rw [← hProof, hRecorded.new] at hUsed
      cases hUsed
    · exact absurd hYes hShared
    · exact absurd hYes hShared

/-- The credits of a debit sum to at most its amount, and each raises a balance by exactly
its own. -/
theorem credits_bounded {xs : List Payout}
    (hRun : Run (fun r x r' => Credits d r x r' ∧ Sound d r x) {} xs r) :
    (xs.map fun x => x.credit.nCredit.toNat).sum ≤ d.nAmount.toNat ∧
      ∀ x ∈ xs, RaisesBalance x := by
  refine ⟨?_, hRun.labels fun r x r' ⟨hCredits, hSound⟩ => hCredits.raises hSound⟩
  have hTotal : Balanced d r (0 + (xs.map fun x => x.credit.nCredit.toNat).sum) :=
    hRun.total (fun r n x r' hBalanced ⟨hCredits, hSound⟩ => hBalanced.credits hCredits hSound)
      (.inl ⟨rfl, rfl⟩)
  rw [Nat.zero_add] at hTotal
  rcases hTotal with ⟨hZero, -⟩ | ⟨hLe, -⟩
  · exact hZero.trans_le (Nat.zero_le _)
  · exact hLe

/-! ## A credit of more than the debit -/

def gem : Address := SetType 30 Address.OBJECT

/-- Alice pays 7 silver to the owners of the gem. -/
def gemPayment : Transaction where
  vContracts :=
    [{ ssOperation :=
        { vchData := FixedWidth.encode OP.DEBIT ++ FixedWidth.encode silver ++
            FixedWidth.encode gem ++ FixedWidth.encode (7 : UInt64) ++
            FixedWidth.encode (0 : UInt64) }
       ssRegister := script (objectState alice 10 10 (tokenData silver 100 100))
         (objectState alice 10 30 (tokenData silver 100 93)) }]
  nVersion := 2
  hashGenesis := alice
  nTimestamp := 30

def gemDisk : Disk where
  ledger.txs :=
    Function.update (fun _ => none) (gemPayment.GetHash exampleRuntime) (some gemPayment)

/-- Alice credits an amount of it back to herself. -/
def gemReturn (nAmount : UInt64) : Payout where
  disk := gemDisk
  call :=
    { rt := exampleRuntime
      contract :=
        { ssOperation :=
            { vchData := FixedWidth.encode OP.CREDIT ++
                FixedWidth.encode (gemPayment.GetHash exampleRuntime) ++
                FixedWidth.encode (0 : UInt32) ++ FixedWidth.encode silver ++
                FixedWidth.encode silver ++ FixedWidth.encode nAmount }
          ssRegister := script (objectState alice 10 30 (tokenData silver 100 93))
            (objectState alice 10 40 (tokenData silver 100 (93 + nAmount)))
          hashCaller := alice
          nTimestamp := 40
          nVersion := 2 } }
  credit := ⟨gemPayment.GetHash exampleRuntime, 0, silver, silver, nAmount⟩

/-- The payment to the gem, as it is read. -/
def gemDebit : Debited where
  key := (gemPayment.GetHash exampleRuntime, 0)
  debit := (gemPayment.contract exampleRuntime 0).toOption.getD {}
  hashFrom := silver
  hashTo := gem
  nAmount := 7
  source := by decide +kernel

theorem gemReturn_key (nAmount : UInt64) :
    ((gemReturn nAmount).credit.hashTx, (gemReturn nAmount).credit.nContract) = gemDebit.key := rfl

/-- The ledger after a credit. -/
@[irreducible]
def Payout.after (x : Payout) : LedgerDB := (x.call.apply x.disk).ledger

/-- A credit of the payment that `Execute` accepts. -/
theorem gem_credits (hRead : x.disk.ReadContract x.call.rt gemDebit.key.1 gemDebit.key.2 = .ok gemDebit.debit)
    (hPerforms : x.call.contract.Performs (.CREDIT x.credit))
    (hKey : (x.credit.hashTx, x.credit.nContract) = gemDebit.key)
    (hExecute : (Execute x.call.rt x.disk x.call.contract x.call.nCost).isOk = true) :
    Credits gemDebit (recordsOf x.disk.ledger gemDebit.key) x (recordsOf x.after gemDebit.key) := by
  have hAfter : x.after = (x.call.apply x.disk).ledger := by
    unfold Payout.after
    rfl
  refine ⟨rfl, hRead, hPerforms, hKey, _, executes_apply hExecute, ?_⟩
  rw [hAfter]

/-- The gem belongs to the silver, of which bob has 43 and alice 30. -/
def ownersDisk (ledger : LedgerDB) : Disk where
  ledger := ledger
  register.states :=
    Function.update
      (Function.update
        (Function.update
          (Function.update (fun _ => none) gem
            (some (objectState silver 15 15 (fieldBytes "data" false TYPES.UINT8_T [1]))))
          silver (some (objectState alice 10 30 (tokenData silver 100 93))))
        purse (some (objectState bob 20 20 (accountData silver 43))))
      pocket (some (objectState alice 20 20 (accountData silver 30)))

/-- The owner of an account credits it its share of the payment. -/
def shareOf (ledger : LedgerDB) (hashOwner : Uint256) (hashAccount : Address)
    (nBalance nAmount : UInt64) : Payout where
  disk := ownersDisk ledger
  call :=
    { rt := exampleRuntime
      contract :=
        { ssOperation :=
            { vchData := FixedWidth.encode OP.CREDIT ++
                FixedWidth.encode (gemPayment.GetHash exampleRuntime) ++
                FixedWidth.encode (0 : UInt32) ++ FixedWidth.encode hashAccount ++
                FixedWidth.encode hashAccount ++ FixedWidth.encode nAmount }
          ssRegister := script (objectState hashOwner 20 20 (accountData silver nBalance))
            (objectState hashOwner 20 40 (accountData silver (nBalance + nAmount)))
          hashCaller := hashOwner
          nTimestamp := 40
          nVersion := 2 } }
  credit := ⟨gemPayment.GetHash exampleRuntime, 0, hashAccount, hashAccount, nAmount⟩

def bobShare : Payout := shareOf gemDisk.ledger bob purse 43 3
def aliceShare : Payout := shareOf bobShare.after alice pocket 30 2

/-- The conditions of a share, of which only the balances and the claimed amount depend on it. -/
theorem shareOf_sound {ledger : LedgerDB} {hashOwner : Uint256} {hashAccount : Address}
    {nBalance nAmount : UInt64}
    (hPre : (shareOf ledger hashOwner hashAccount nBalance nAmount).call.contract.prestate =
      some (objectState hashOwner 20 20 (accountData silver nBalance)))
    (hSize : (objectState hashOwner 20 20 (accountData silver nBalance)).vchState.length ≤ MAX_REGISTER_SIZE)
    (hBalance : balanceOf (objectState hashOwner 20 20 (accountData silver nBalance)) = some nBalance)
    (hFits : nBalance.toNat + nAmount.toNat < 2 ^ 64) (hAmount : nAmount ≤ 7)
    (hClaimed : r.nClaimed.toNat + nAmount.toNat < 2 ^ 64) :
    Sound gemDebit r (shareOf ledger hashOwner hashAccount nBalance nAmount) := by
  refine ⟨fun before hBefore => ?_, fun before n hBefore hRead => ?_, fun _ => hAmount, fun _ => hClaimed,
    fun _ => .inl (by unfold Debited.Bare; decide +kernel)⟩
  · obtain rfl := Option.some.inj (hPre.symm.trans hBefore)
    exact hSize
  · obtain rfl := Option.some.inj (hPre.symm.trans hBefore)
    obtain rfl := Option.some.inj (hBalance.symm.trans hRead)
    exact hFits

theorem shareOf_key (ledger : LedgerDB) (hashOwner : Uint256) (hashAccount : Address)
    (nBalance nAmount : UInt64) :
    ((shareOf ledger hashOwner hashAccount nBalance nAmount).credit.hashTx,
      (shareOf ledger hashOwner hashAccount nBalance nAmount).credit.nContract) = gemDebit.key := rfl

theorem gem_unclaimed : recordsOf gemDisk.ledger gemDebit.key = {} := rfl

/-- Of the payment to the gem bob credits his share of 3, and after him alice hers of 2. -/
theorem credits_bounded_owners :
    ([bobShare, aliceShare].map fun x => x.credit.nCredit.toNat).sum ≤ gemDebit.nAmount.toNat ∧
      ∀ x ∈ [bobShare, aliceShare], RaisesBalance x := by
  have hBob : Credits gemDebit {} bobShare (recordsOf bobShare.after gemDebit.key) := by
    rw [← gem_unclaimed]
    exact gem_credits (x := bobShare) (by decide +kernel)
      (Contract.performs_of_decode (by decide +kernel)) (shareOf_key ..) (by decide +kernel)
  have hAlice : Credits gemDebit (recordsOf bobShare.after gemDebit.key) aliceShare
      (recordsOf aliceShare.after gemDebit.key) :=
    gem_credits (x := aliceShare) (by decide +kernel)
      (Contract.performs_of_decode (by decide +kernel)) (shareOf_key ..) (by decide +kernel)
  have hClaimed : (recordsOf bobShare.after gemDebit.key).nClaimed = 3 := by decide +kernel
  have hSound : Sound gemDebit {} bobShare :=
    shareOf_sound (by decide +kernel) (by decide +kernel) (by decide +kernel) (by decide) (by decide)
      (by decide)
  have hSound' : Sound gemDebit (recordsOf bobShare.after gemDebit.key) aliceShare :=
    shareOf_sound (by decide +kernel) (by decide +kernel) (by decide +kernel) (by decide) (by decide)
      (by rw [hClaimed]; decide)
  exact credits_bounded (.cons ⟨hBob, hSound⟩ (.single ⟨hAlice, hSound'⟩))

/-- Alice may credit back more than she paid. -/
theorem credit_of_any_amount :
    Run (Credits gemDebit) {} [gemReturn 1000] (recordsOf (gemReturn 1000).after gemDebit.key) ∧
      gemDebit.nAmount.toNat < ([gemReturn 1000].map fun x => x.credit.nCredit.toNat).sum := by
  have hCredits : Credits gemDebit {} (gemReturn 1000)
      (recordsOf (gemReturn 1000).after gemDebit.key) := by
    rw [← gem_unclaimed]
    exact gem_credits (x := gemReturn 1000) (by decide +kernel)
      (Contract.performs_of_decode (by decide +kernel)) (gemReturn_key 1000) (by decide +kernel)
  exact ⟨.single hCredits, by decide⟩

end Nexus.Safety
