import Nexus.Operation.Runs

/-!
# Claims of transferred registers

A claim names a register and refers to a transfer.  `Claim::Verify` checks that
the referenced contract is a transfer that the caller may claim, but never that
the transfer is of the register that the claim names, so any open transfer
authorises the claim of any register that is pending.

## Main results

* `claim_authorised_iff`: in every run, an accepted claim has the authority of a
  transfer of its own register exactly when the two addresses are the same.
* `claim_of_other_register`: a claim of a register by the transfer of another.
-/

namespace Nexus.Safety

open Nexus.Lib
open Nexus.Lib.Bytes
open Nexus.Lib.Checked
open Nexus.Util
open Nexus.Register
open Nexus.Operation
open Nexus.LLD
open Nexus.Ledger

/-- The register and the recipient of a transfer. -/
def transferOperands (transfer : Contract) : Result (Address × Uint256) := do
  let transfer ← transfer.seekToPrimitive
  let (nOP, transfer) ← transfer.extract UInt8
  reject (nOP ≠ OP.TRANSFER) (.error "")
  let (hashAddress, transfer) ← transfer.extract Uint256
  let (hashTransfer, _) ← transfer.extract Uint256
  return (hashAddress, hashTransfer)

/-- The referenced contract is a transfer of `hashAddress` that is to the caller, to
everybody, or by the caller. -/
def Authorised (disk : Disk) (call : Call) (hashTx : Uint512) (nContract : UInt32)
    (hashAddress : Address) : Prop :=
  ∃ transfer hashTransfer state,
    disk.ReadContract call.rt hashTx nContract = .ok transfer ∧
    transferOperands transfer = .ok (hashAddress, hashTransfer) ∧
    transfer.prestate = some state ∧
    (hashTransfer = call.contract.hashCaller ∨ hashTransfer = WILDCARD_ADDRESS ∨
      state.hashOwner = call.contract.hashCaller)

/-- The operand of the claim is the operand of the transfer it refers to. -/
def SameRegister (disk : Disk) (call : Call) (hashTx : Uint512) (nContract : UInt32)
    (hashAddress : Address) : Prop :=
  ∃ transfer hashTransfer, disk.ReadContract call.rt hashTx nContract = .ok transfer ∧
    transferOperands transfer = .ok (hashAddress, hashTransfer)

/-- What `Claim::Verify` checks. -/
theorem claimVerify_ok {rt : Runtime} {contract transfer transfer' : Contract}
    (h : Claim.Verify rt contract transfer = .ok transfer') :
    ∃ hashAddress hashTransfer state,
      transferOperands transfer = .ok (hashAddress, hashTransfer) ∧
      transfer.prestate = some state ∧
      (hashTransfer = contract.hashCaller ∨ hashTransfer = WILDCARD_ADDRESS ∨
        state.hashOwner = contract.hashCaller) := by
  simp only [Claim.Verify, bind_eq_ok, Prod.exists, reject_eq_ok, Contract.extract_eq_ok,
    not_not] at h
  obtain ⟨c₁, hSeek, nOP, c₂, ⟨hFits, rfl, rfl⟩, u, hOP, hashAddress, c₃, ⟨hFits', hAddress, rfl⟩,
    v, -, hashTransfer, c₄, ⟨hFits'', hTransfer, rfl⟩, state, c₅, hState, w, hAuthority, x, -, -⟩ := h
  obtain ⟨c, hSeek', rfl⟩ := Contract.seekToPrimitive_resetRegisters hSeek
  obtain ⟨n, rfl⟩ := Contract.seekToPrimitive_skip hSeek'
  refine ⟨hashAddress, hashTransfer, state, ?_, (Contract.preState_eq_ok rfl hState).1, ?_⟩
  · simp only [transferOperands, bind_eq_ok, Prod.exists, reject_eq_ok, Contract.extract_eq_ok,
      not_not, pure_eq_ok]
    exact ⟨_, hSeek', _, _, ⟨hFits, rfl, rfl⟩, u, hOP, _, _, ⟨hFits', hAddress, rfl⟩, _, _,
      ⟨hFits'', hTransfer, rfl⟩, rfl⟩
  · tauto

/-- A step of a run and the law of its claim, if it is one: the claim makes the caller the
owner of its register, and it is authorised exactly when it refers to a transfer of
that register. -/
def ClaimLaw (disk : Disk) (call : Call) (disk' : Disk) : Prop :=
  Executes disk call disk' ∧ ∀ hashTx nContract hashAddress,
    call.contract.Performs (.CLAIM hashTx nContract hashAddress) →
      (∃ state, disk'.register.ReadState hashAddress = some state ∧
        state.hashOwner = call.contract.hashCaller) ∧
      (Authorised disk call hashTx nContract hashAddress ↔
        SameRegister disk call hashTx nContract hashAddress)

theorem claim_authorised_iff {disk disk' : Disk} {calls : List Call}
    (hRun : Run Executes disk calls disk') : Run ClaimLaw disk calls disk' := by
  refine hRun.mono fun disk call disk' hExecutes => ⟨hExecutes, ?_⟩
  intro hashTx nContract hashAddress hPerforms
  obtain ⟨action, disk₁, before, after, hAction, hLedger, hLegacy, -, hAccepted⟩ :=
    hExecutes.accepted
  obtain rfl := hPerforms.inj hAction
  have hRead : disk₁.ReadContract call.rt hashTx nContract =
      disk.ReadContract call.rt hashTx nContract := by
    simp only [Disk.ReadContract, hLedger, hLegacy]
  obtain ⟨transfer, transfer', hTransfer, hVerify⟩ := hAccepted.allowed
  rw [hRead] at hTransfer
  constructor
  · have hRunClaim : Claim.Execute call.rt before call.contract.hashCaller
        call.contract.nTimestamp = .ok after := hAccepted.run
    have hCommit : Claim.Commit call.rt disk₁ after hashAddress hashTx nContract = .ok disk' :=
      hAccepted.commit
    simp only [Claim.Execute, bind_eq_ok, finish_eq_ok] at hRunClaim
    obtain ⟨u, -, rfl, -⟩ := hRunClaim
    simp only [Claim.Commit, bind_eq_ok, pure_eq_ok] at hCommit
    obtain ⟨v, -, rfl⟩ := hCommit
    exact ⟨_, Function.update_self .., rfl⟩
  · constructor
    · rintro ⟨t, hashTransfer, state, hT, hOperands, -⟩
      exact ⟨t, hashTransfer, hT, hOperands⟩
    · rintro ⟨t, hashTransfer, hT, hOperands⟩
      obtain rfl := Except.ok.inj (hT.symm.trans hTransfer)
      obtain ⟨hashAddress', hashTransfer', state, hOperands', hState, hAuthority⟩ :=
        claimVerify_ok hVerify
      obtain ⟨rfl, rfl⟩ := Prod.mk.inj (Except.ok.inj (hOperands.symm.trans hOperands'))
      exact ⟨t, hashTransfer, state, hT, hOperands, hState, hAuthority⟩

/-! ## A claim of a register by the transfer of another -/

/-- An environment with a toy hash, for concrete runs. -/
def exampleRuntime : Runtime where
  unifiedtimestamp := 1000
  startBlockTimelock8 := 0
  fTestNet := false
  fTrustBoost := false
  transactionVersionActive _ _ := true
  log10 _ := 0
  heap _ _ := 0
  nBestHeight := 0
  nBestMoneySupply := 0
  nBestTime := 0
  SK64 bytes := UInt64.ofNat (leNat bytes % (2 ^ 64 - 59))
  SK256 bytes := BitVec.ofNat 256 (leNat bytes % (2 ^ 256 - 189))
  SK512 bytes := BitVec.ofNat 512 (leNat bytes % (2 ^ 512 - 569))

def alice : Uint256 := SetType 1 0xa1
def bob : Uint256 := SetType 2 0xa1
def mallory : Uint256 := SetType 3 0xa1

/-- A raw register with its checksum. -/
def rawState (hashOwner : Uint256) (nModified : UInt64) (vchState : List UInt8) : State :=
  State.SetChecksum exampleRuntime
    { nVersion := 1, nType := REGISTER.RAW, hashOwner, nCreated := 10, nModified, vchState }

/-- A register script: the pre-state and the checksum of the post-state. -/
def script (state state' : State) : Stream where
  vchData := FixedWidth.encode STATES.PRESTATE ++ state.serialize ++
    FixedWidth.encode STATES.POSTSTATE ++ FixedWidth.encode (state'.GetHash exampleRuntime)

def gold : Address := SetType 10 Address.RAW
def dross : Address := SetType 11 Address.RAW

/-- A raw register that its owner transferred. -/
def pending (state : State) : State := rawState (SetType state.hashOwner 0) 30 state.vchState

/-- A transfer to bob, by the owner of `state`. -/
def transferToBob (hashAddress : Address) (state : State) : Transaction where
  vContracts :=
    [{ ssOperation :=
        { vchData := FixedWidth.encode OP.TRANSFER ++ FixedWidth.encode hashAddress ++
            FixedWidth.encode bob ++ FixedWidth.encode Transfer.CLAIM }
       ssRegister := script state (pending state) }]
  nVersion := 2
  hashGenesis := state.hashOwner
  nTimestamp := 30

def goldState : State := rawState alice 20 [7, 7, 7]
def drossState : State := rawState mallory 20 [1]
def goldTransfer : Transaction := transferToBob gold goldState
def drossTransfer : Transaction := transferToBob dross drossState

/-- Alice transferred her gold to bob, and mallory his dross. -/
def transferredDisk : Disk where
  register.states :=
    Function.update (Function.update (fun _ => none) gold (some (pending goldState)))
      dross (some (pending drossState))
  ledger.txs :=
    Function.update
      (Function.update (fun _ => none) (drossTransfer.GetHash exampleRuntime) (some drossTransfer))
      (goldTransfer.GetHash exampleRuntime) (some goldTransfer)

/-- A claim of the gold that refers to a transfer. -/
def claimGold (hashCaller : Uint256) (tx : Transaction) : Call where
  rt := exampleRuntime
  contract :=
    { ssOperation :=
        { vchData := FixedWidth.encode OP.CLAIM ++ FixedWidth.encode (tx.GetHash exampleRuntime) ++
            FixedWidth.encode (0 : UInt32) ++ FixedWidth.encode gold }
      ssRegister := script (pending goldState) (rawState hashCaller 40 goldState.vchState)
      hashCaller
      nTimestamp := 40
      nVersion := 2 }

/-- Bob claims his gold. -/
theorem claim_authorised_iff_bob :
    Run ClaimLaw transferredDisk [claimGold bob goldTransfer]
      ((claimGold bob goldTransfer).apply transferredDisk) :=
  claim_authorised_iff (Run.single (executes_apply (by decide +kernel)))

/-- Mallory claims the gold by the transfer of his dross, which he may take back. -/
theorem claim_of_other_register :
    Executes transferredDisk (claimGold mallory drossTransfer)
        ((claimGold mallory drossTransfer).apply transferredDisk) ∧
      (claimGold mallory drossTransfer).contract.Performs
        (.CLAIM (drossTransfer.GetHash exampleRuntime) 0 gold) ∧
      ¬ Authorised transferredDisk (claimGold mallory drossTransfer)
        (drossTransfer.GetHash exampleRuntime) 0 gold := by
  refine ⟨executes_apply (by decide +kernel), Contract.performs_of_decode (by decide +kernel), ?_⟩
  rintro ⟨transfer, hashTransfer, state, hRead, hOperands, -⟩
  have hDross : ((transferredDisk.ReadContract exampleRuntime
      (drossTransfer.GetHash exampleRuntime) 0).bind transferOperands).toOption.map Prod.fst =
      some dross := by decide +kernel
  have hGold : (Disk.ReadContract exampleRuntime transferredDisk
      (drossTransfer.GetHash exampleRuntime) 0) = .ok transfer := hRead
  rw [hGold] at hDross
  simp only [Except.bind, hOperands] at hDross
  have hSame : gold = dross := Option.some.inj hDross
  exact absurd hSame (by decide)

end Nexus.Safety
