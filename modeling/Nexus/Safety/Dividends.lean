import Mathlib.Algebra.Order.BigOperators.Group.List
import Nexus.Safety.Tokens

/-!
# Partial payments

A debit to an object that a token owns is paid in parts to the holders of the
token, each by the balance of his account.  `Credit::Verify` calculates the part
as the product of balance and debit over the supply, and the product is a 64-bit
word.  It is the share as long as the product is, and less than the share from
there on; so the parts never sum to more than the debit.

## Main results

* `share_exact_iff`: the part that is required is the exact share exactly when the
  supply is not zero and the product fits in a word; the parts sum to at most the
  debit in any case.
* `share_wraps`: a tenth of a token is paid less than a tenth of a debit.
-/

namespace Nexus.Safety

open Nexus.Lib.Bytes
open Nexus.Lib.Checked
open Nexus.Util
open Nexus.Register
open Nexus.Operation
open Nexus.LLD

/-! ## Products that wrap -/

/-- A product that wrapped has another quotient. -/
theorem mod_div_eq_iff {x n s : Nat} (hPos : 0 < s) (hLe : s ≤ n) : x % n / s = x / s ↔ x < n := by
  constructor
  · intro h
    apply Classical.byContradiction
    intro hLarge
    have hWrapped : x % n + n ≤ x := by
      have hDiv := Nat.mod_add_div x n
      have hOne : n * 1 ≤ n * (x / n) := Nat.mul_le_mul_left n (Nat.div_pos (by omega) (by omega))
      omega
    have hNext : x % n / s + 1 ≤ x / s := by
      rw [← Nat.add_div_right _ hPos]
      exact Nat.div_le_div_right (by omega)
    omega
  · intro h
    rw [Nat.mod_eq_of_lt h]

/-- The exact shares of a debit sum to at most the debit. -/
theorem sum_shares_le (vBalances : List Nat) (nDebit nSupply : Nat) :
    (vBalances.map fun nBalance => nBalance * nDebit / nSupply).sum ≤
      vBalances.sum * nDebit / nSupply := by
  induction vBalances with
  | nil => exact Nat.zero_le _
  | cons nBalance vBalances ih =>
      rw [List.map_cons, List.sum_cons, List.sum_cons, Nat.add_mul]
      calc nBalance * nDebit / nSupply + (vBalances.map fun n => n * nDebit / nSupply).sum
        _ ≤ nBalance * nDebit / nSupply + vBalances.sum * nDebit / nSupply := by omega
        _ ≤ (nBalance * nDebit + vBalances.sum * nDebit) / nSupply := Nat.div_add_div_le_add_div

/-! ## What a partial payment requires -/

/-- The credit takes the path of a partial payment up to the calculation, which then reads the
balance of the proof, the amount of the debit and the supply of the token. -/
structure SharesIn (disk : Disk) (hashCaller : Uint256) (hashTo : Address)
    (credit : Credit.Operands) (debit : Contract) (nBalance nDebit nSupply : UInt64) : Prop where
  object : Address.IsObject hashTo = true
  registers : ∃ stateTo stateProof stateToken proof tokenObject hashToken,
    disk.register.ReadState hashTo = some stateTo ∧ Range stateTo.nType = true ∧
    disk.register.ReadState credit.hashProof = some stateProof ∧
    Object.Parse { state := stateProof } = .ok proof ∧ proof.state.nModified ≤ debit.nTimestamp ∧
    proof.Standard = .ACCOUNT ∧ proof.state.hashOwner = hashCaller ∧
    disk.register.ReadState stateTo.hashOwner = some stateToken ∧
    Object.Parse { state := stateToken } = .ok tokenObject ∧ tokenObject.Standard = .TOKEN ∧
    proof.get Uint256 (bytesOf "token") = .ok hashToken ∧
    tokenObject.get Uint256 (bytesOf "token") = .ok hashToken ∧
    proof.get UInt64 (bytesOf "balance") = .ok nBalance ∧
    tokenObject.get UInt64 (bytesOf "supply") = .ok nSupply
  amount : ∃ debit', debit.extract UInt64 = .ok (nDebit, debit')

variable {disk : Disk} {hashCaller : Uint256} {hashTo : Address} {credit : Credit.Operands}
  {debit : Contract} {nBalance nDebit nSupply nCredit : UInt64}

/-- `Verify` of the partial payment, for a credit of some amount. -/
def verifyShare (disk : Disk) (hashCaller : Uint256) (hashTo : Address) (credit : Credit.Operands)
    (debit : Contract) (nCredit : UInt64) : Result Unit :=
  Credit.verifyPartial disk hashCaller hashTo { credit with nCredit } debit

/-- The credit is refused for its amount. -/
def Mismatch (disk : Disk) (hashCaller : Uint256) (hashTo : Address) (credit : Credit.Operands)
    (debit : Contract) (nCredit : UInt64) : Prop :=
  verifyShare disk hashCaller hashTo credit debit nCredit =
    .error (.error "partial credit mismatch with claimed proof")

/-- The amount required is the share over the natural numbers; without a supply every credit
is rejected. -/
structure ExactShare (disk : Disk) (hashCaller : Uint256) (hashTo : Address)
    (credit : Credit.Operands) (debit : Contract) (nBalance nDebit nSupply : UInt64) : Prop where
  share : nSupply ≠ 0 → ∀ nCredit, Mismatch disk hashCaller hashTo credit debit nCredit ↔
    nCredit.toNat ≠ nBalance.toNat * nDebit.toNat / nSupply.toNat
  rejected : nSupply = 0 → ∀ nCredit, ∃ strMessage,
    verifyShare disk hashCaller hashTo credit debit nCredit = .error (.error strMessage)

/-- The rest of `Verify` from the calculation on. -/
def checkShare (disk : Disk) (credit : Credit.Operands) (nBalance nDebit nSupply nCredit : UInt64) :
    Result Unit := do
  let nShare ← Credit.nPartial nBalance nDebit nSupply
  reject (nCredit ≠ nShare) (.error "partial credit mismatch with claimed proof")
  reject (nDebit < (disk.ledger.ReadClaimed credit.hashTx credit.nContract).getD 0 + nCredit)
    (.error "credit is beyond claimable debit amount")

theorem verifyShare_eq (h : SharesIn disk hashCaller hashTo credit debit nBalance nDebit nSupply) :
    verifyShare disk hashCaller hashTo credit debit nCredit =
      checkShare disk credit nBalance nDebit nSupply nCredit := by
  obtain ⟨hObject, ⟨stateTo, stateProof, stateToken, proof, tokenObject, hashToken, hTo, hRange, hProof,
    hParse, hTime, hAccount, hOwner, hToken, hParseToken, hStandard, hProofToken, hTokenToken, hBalance,
    hSupply⟩, debit', hAmount⟩ := h
  have hFresh : ¬ debit.nTimestamp < proof.state.nModified := UInt64.not_lt.mpr hTime
  simp [verifyShare, Credit.verifyPartial, checkShare, hObject, hTo, hRange, hProof, hParse, hFresh,
    hAccount, hOwner, hToken, hParseToken, hStandard, hProofToken, hTokenToken, hBalance, hSupply,
    hAmount, demand, orError, reject]

theorem checkShare_zero (h : nSupply = 0) :
    checkShare disk credit nBalance nDebit nSupply nCredit = .error (.exception "division by zero") := by
  simp [checkShare, Credit.nPartial, reject, h]

/-- Only another amount than the calculated one is a mismatch. -/
theorem checkShare_mismatch (h : nSupply ≠ 0) :
    checkShare disk credit nBalance nDebit nSupply nCredit =
        .error (.error "partial credit mismatch with claimed proof") ↔
      nCredit ≠ nBalance * nDebit / nSupply := by
  have hShare : Credit.nPartial nBalance nDebit nSupply = .ok (nBalance * nDebit / nSupply) := by
    simp [Credit.nPartial, reject, h]
  by_cases hCredit : nCredit = nBalance * nDebit / nSupply
  · simp only [checkShare, hShare, ok_bind, reject, hCredit, ne_eq, not_true_eq_false, if_false,
      iff_false]
    split <;> simp
  · simp [checkShare, hShare, reject, hCredit]

theorem nPartial_toNat :
    (nBalance * nDebit / nSupply).toNat =
      nBalance.toNat * nDebit.toNat % 2 ^ 64 / nSupply.toNat := by
  rw [UInt64.toNat_div, UInt64.toNat_mul]

theorem exactShare_iff (h : SharesIn disk hashCaller hashTo credit debit nBalance nDebit nSupply) :
    ExactShare disk hashCaller hashTo credit debit nBalance nDebit nSupply ↔
      nSupply ≠ 0 ∧ nBalance.toNat * nDebit.toNat < 2 ^ 64 := by
  have hPos (hSupply : nSupply ≠ 0) : 0 < nSupply.toNat := by
    have hNat : nSupply.toNat ≠ 0 := fun hZero => hSupply (UInt64.toNat_inj.mp hZero)
    omega
  have hLe : nSupply.toNat ≤ 2 ^ 64 := nSupply.toNat_lt.le
  constructor
  · intro hExact
    have hSupply : nSupply ≠ 0 := by
      intro hZero
      obtain ⟨strMessage, hRejected⟩ := hExact.rejected hZero 0
      rw [verifyShare_eq h, checkShare_zero hZero] at hRejected
      cases hRejected
    refine ⟨hSupply, (mod_div_eq_iff (hPos hSupply) hLe).mp ?_⟩
    -- the calculated amount is no mismatch, so it is the share
    have hShare := hExact.share hSupply (nBalance * nDebit / nSupply)
    rw [Mismatch, verifyShare_eq h, checkShare_mismatch hSupply, nPartial_toNat] at hShare
    apply Classical.byContradiction
    intro hNe
    exact hShare.mpr hNe (Eq.refl _)
  · rintro ⟨hSupply, hFits⟩
    refine ⟨fun _ nCredit => ?_, fun hZero => absurd hZero hSupply⟩
    rw [Mismatch, verifyShare_eq h, checkShare_mismatch hSupply,
      ← (mod_div_eq_iff (hPos hSupply) hLe).mpr hFits, ← nPartial_toNat]
    exact not_congr UInt64.toNat_inj.symm

/-! ## The parts of a debit -/

/-- A holder of the token, and his credit. -/
structure Holder where
  disk : Disk
  hashCaller : Uint256
  credit : Credit.Operands
  nBalance : UInt64

/-- The credit of a holder was accepted. -/
def Holder.Accepted (hashTo : Address) (debit : Contract) (nDebit nSupply : UInt64) (x : Holder) :
    Prop :=
  SharesIn x.disk x.hashCaller hashTo x.credit debit x.nBalance nDebit nSupply ∧
    verifyShare x.disk x.hashCaller hashTo x.credit debit x.credit.nCredit = .ok ()

theorem Holder.Accepted.le {x : Holder} (h : x.Accepted hashTo debit nDebit nSupply) :
    nSupply ≠ 0 ∧ x.credit.nCredit.toNat ≤ x.nBalance.toNat * nDebit.toNat / nSupply.toNat := by
  obtain ⟨hShares, hOk⟩ := h
  rw [verifyShare_eq hShares] at hOk
  have hSupply : nSupply ≠ 0 := by
    intro hZero
    rw [checkShare_zero hZero] at hOk
    cases hOk
  have hCredit : x.credit.nCredit = x.nBalance * nDebit / nSupply := by
    apply Classical.byContradiction
    intro hNe
    rw [(checkShare_mismatch hSupply).mpr hNe] at hOk
    cases hOk
  refine ⟨hSupply, ?_⟩
  rw [hCredit, nPartial_toNat]
  exact Nat.div_le_div_right (Nat.mod_le ..)

/-- No product that wraps pays more than the share. -/
theorem sum_credits_le {holders : List Holder}
    (hSum : (holders.map fun x => x.nBalance.toNat).sum ≤ nSupply.toNat)
    (hAccepted : ∀ x ∈ holders, x.Accepted hashTo debit nDebit nSupply) :
    (holders.map fun x => x.credit.nCredit.toNat).sum ≤ nDebit.toNat := by
  cases holders with
  | nil => exact Nat.zero_le _
  | cons x rest =>
      have hSupply := (hAccepted x (by simp)).le.1
      have hPos : 0 < nSupply.toNat := by
        have hNat : nSupply.toNat ≠ 0 := fun hZero => hSupply (UInt64.toNat_inj.mp hZero)
        omega
      generalize x :: rest = holders at hSum hAccepted
      calc (holders.map fun x => x.credit.nCredit.toNat).sum
        _ ≤ (holders.map fun x => x.nBalance.toNat * nDebit.toNat / nSupply.toNat).sum :=
            List.sum_le_sum fun x hx => (hAccepted x hx).le.2
        _ = ((holders.map fun x => x.nBalance.toNat).map
              fun nBalance => nBalance * nDebit.toNat / nSupply.toNat).sum := by
            rw [List.map_map, Function.comp_def]
        _ ≤ (holders.map fun x => x.nBalance.toNat).sum * nDebit.toNat / nSupply.toNat :=
            sum_shares_le ..
        _ ≤ nSupply.toNat * nDebit.toNat / nSupply.toNat :=
            Nat.div_le_div_right (Nat.mul_le_mul_right _ hSum)
        _ = nDebit.toNat := Nat.mul_div_cancel_left _ hPos

theorem share_exact_iff (h : SharesIn disk hashCaller hashTo credit debit nBalance nDebit nSupply) :
    (ExactShare disk hashCaller hashTo credit debit nBalance nDebit nSupply ↔
      nSupply ≠ 0 ∧ nBalance.toNat * nDebit.toNat < 2 ^ 64) ∧
    ∀ holders : List Holder,
      (holders.map fun x => x.nBalance.toNat).sum ≤ nSupply.toNat →
        (∀ x ∈ holders, x.Accepted hashTo debit nDebit nSupply) →
          (holders.map fun x => x.credit.nCredit.toNat).sum ≤ nDebit.toNat :=
  ⟨exactShare_iff h, fun _ hSum hAccepted => sum_credits_le hSum hAccepted⟩

/-! ## An asset of a token -/

def asset : Address := SetType 30 Address.OBJECT

/-- The silver owns the asset; bob has some of the silver, and alice 45 of it. -/
def assetDisk (nSupply nBalance : UInt64) : Disk where
  register.states :=
    Function.update
      (Function.update
        (Function.update
          (Function.update (fun _ => none) asset
            (some (objectState silver 15 15 (fieldBytes "data" false TYPES.UINT8_T [1]))))
          silver (some (objectState alice 10 10 (tokenData silver nSupply 0))))
        purse (some (objectState bob 20 20 (accountData silver nBalance))))
      pocket (some (objectState alice 20 20 (accountData silver 45)))

/-- A debit to the asset, read up to its amount. -/
def assetDebit (nDebit : UInt64) : Contract where
  ssOperation :=
    { vchData := FixedWidth.encode OP.DEBIT ++ FixedWidth.encode gold ++ FixedWidth.encode asset ++
        FixedWidth.encode nDebit ++ FixedWidth.encode (0 : UInt64)
      nReadPos := 65 }
  hashCaller := alice
  nTimestamp := 30
  nVersion := 2

/-- A credit of the debit, for the silver of an account. -/
def assetCredit (hashProof : Address) (nCredit : UInt64) : Credit.Operands where
  hashTx := 5
  nContract := 0
  hashAccount := SetType 22 Address.ACCOUNT
  hashProof := hashProof
  nCredit := nCredit

/-- The disk on which alice claims, once bob has 6 of the debit. -/
def claimedDisk : Disk :=
  { assetDisk 100 33 with ledger := (assetDisk 100 33).ledger.WriteClaimed 5 0 6 }

def holders : List Holder :=
  [⟨assetDisk 100 33, bob, assetCredit purse 6, 33⟩, ⟨claimedDisk, alice, assetCredit pocket 9, 45⟩]

/-- Silver of supply 100: in a debit of 20 the holder of 33 has a share of 6, the holder of 45
a share of 9. -/
theorem share_exact_iff_silver :
    ExactShare (assetDisk 100 33) bob asset (assetCredit purse 6) (assetDebit 20) 33 20 100 ∧
      (holders.map fun x => x.credit.nCredit.toNat).sum ≤ (20 : UInt64).toNat := by
  have hBob : SharesIn (assetDisk 100 33) bob asset (assetCredit purse 6) (assetDebit 20) 33 20 100 :=
    ⟨by decide, ⟨_, _, _, _, _, silver, rfl, by decide, rfl, rfl, by decide +kernel, by decide +kernel,
      by decide +kernel, rfl, rfl, by decide +kernel, by decide +kernel, by decide +kernel,
      by decide +kernel, by decide +kernel⟩, (assetDebit 20).skip 8, by decide +kernel⟩
  have hAlice : SharesIn claimedDisk alice asset (assetCredit pocket 9) (assetDebit 20) 45 20 100 :=
    ⟨by decide, ⟨_, _, _, _, _, silver, rfl, by decide, rfl, rfl, by decide +kernel, by decide +kernel,
      by decide +kernel, rfl, rfl, by decide +kernel, by decide +kernel, by decide +kernel,
      by decide +kernel, by decide +kernel⟩, (assetDebit 20).skip 8, by decide +kernel⟩
  have hAccepted : ∀ x ∈ holders, x.Accepted asset (assetDebit 20) 20 100 :=
    List.forall_mem_cons.mpr ⟨⟨hBob, by decide +kernel⟩,
      List.forall_mem_singleton.mpr ⟨hAlice, by decide +kernel⟩⟩
  have hLaw := share_exact_iff hBob
  exact ⟨hLaw.1.mpr ⟨by decide, by decide⟩, hLaw.2 holders (by decide) hAccepted⟩

/-- A tenth of a supply of 10^12 is paid 7766279 of 10^9. -/
theorem share_wraps :
    SharesIn (assetDisk 1000000000000 100000000000) bob asset (assetCredit purse 0) (assetDebit 1000000000)
        100000000000 1000000000 1000000000000 ∧
      ¬ ExactShare (assetDisk 1000000000000 100000000000) bob asset (assetCredit purse 0)
        (assetDebit 1000000000) 100000000000 1000000000 1000000000000 := by
  refine ⟨⟨by decide, ⟨_, _, _, _, _, silver, rfl, by decide, rfl, rfl, by decide +kernel,
    by decide +kernel, by decide +kernel, rfl, rfl, by decide +kernel, by decide +kernel,
    by decide +kernel, by decide +kernel, by decide +kernel⟩,
    (assetDebit 1000000000).skip 8, by decide +kernel⟩, fun hExact => ?_⟩
  have hPaid : verifyShare (assetDisk 1000000000000 100000000000) bob asset (assetCredit purse 0)
      (assetDebit 1000000000) 7766279 = .ok () := by
    decide +kernel
  have hMismatch := (hExact.share (by decide) 7766279).mpr (by decide)
  rw [Mismatch, hPaid] at hMismatch
  cases hMismatch

end Nexus.Safety
