import Nexus.Safety.Tokens

/-!
# The cursor of a verification

A `Verify` is called with the operations behind the primitive, reads the operands
that it checks, and goes back over them.  The verification of a credit and of a
migration reads the operations from their beginning instead, and leaves the cursor
behind the operands, which `Execute` has read before, or reads again.
-/

namespace Nexus.Safety

open Nexus.Lib.Checked
open Nexus.Util
open Nexus.Register
open Nexus.Operation
open Nexus.LLD

variable {rt : Runtime} {disk : Disk} {contract c : Contract}

/-- A verification leaves the operations at the byte at which it was called. -/
def KeepsCursor (verify : Contract → Result Contract) : Prop :=
  ∀ contract c, verify contract = .ok c → c.ssOperation = contract.ssOperation

/-- A size that `ReadCompactSize` reads here is written in the bytes that it needs. -/
def Canonical (contract : Contract) : Prop :=
  ∀ nSize c, contract.readCompactSize = .ok (nSize, c) →
    c = contract.skip (getSizeOfCompactSize nSize)

theorem create_keeps (hCanonical : Canonical (contract.skip 32))
    (h : Create.Verify contract = .ok c) : c.ssOperation = contract.ssOperation := by
  simp only [Create.Verify, bind_eq_ok, Prod.exists, reject_eq_ok, Contract.extract_eq_ok] at h
  obtain ⟨c₀, hBegin, nOP, c₁, ⟨-, -, rfl⟩, -, -, address, c₂, ⟨-, rfl, rfl⟩, -, -, -, -, -, -,
    nSize, c₃, hSize, -, -, hRewind⟩ := h
  obtain rfl := Contract.rewind_eq_ok hBegin
  have hForward := hCanonical nSize c₃ hSize
  rw [hForward, Contract.skip_skip] at hRewind
  have hBack := Contract.rewind_skip hRewind
  rw [hBack]

/-- The operands of a credit are read before it is verified, and the cursor stays behind them. -/
theorem credit_keeps {debit debit' : Contract} {credit : Credit.Operands} {c₁ : Contract}
    (hBase : contract.reset = contract)
    (hOperands : Credit.operands (contract.skip 1) = .ok (credit, c₁))
    (h : Credit.Verify disk c₁ debit = .ok (c, debit')) :
    contract.peek UInt8 0 = OP.CREDIT ∧ c.ssOperation = c₁.ssOperation := by
  simp only [Credit.operands_eq_ok] at hOperands
  obtain ⟨-, -, rfl⟩ := hOperands
  rw [Contract.skip_skip] at h
  obtain ⟨hOP, rfl, -, -⟩ := Credit.Verify_ok hBase h
  exact ⟨hOP, rfl⟩

/-- The operands of a migration that are verified are those that are read after it. -/
theorem migrate_reads {debit : Contract} {u : Unit} (h : Migrate.Verify disk contract debit = .ok u) :
    contract.reset.peek UInt8 0 = OP.MIGRATE ∧
      ∃ c₁ migrate c₂, contract.reset.seek 65 = .ok c₁ ∧
        Migrate.operands c₁ = .ok (migrate, c₂) ∧ Migrate.verifyDebit disk migrate debit = .ok () := by
  simp only [Migrate.Verify, bind_eq_ok, Prod.exists, Contract.extract_eq_ok, reject_eq_ok, not_not,
    Contract.seek_eq_ok] at h
  obtain ⟨nOP, c₀, ⟨-, rfl, rfl⟩, -, hOP, -, -, -, -, c₁, ⟨hFits, rfl⟩, migrate, c₂, hOperands, -,
    -, hDebit⟩ := h
  rw [Contract.skip_skip] at hOperands
  refine ⟨hOP, contract.reset.skip 65, migrate, c₂, ?_, hOperands, hDebit⟩
  rw [Contract.seek_eq_ok]
  exact ⟨(Contract.fits_skip ..).mp hFits, rfl⟩

/-- **A verification does not move the execution**: what it has checked is what is read after it. -/
theorem verify_keeps (rt : Runtime) (disk : Disk) :
    KeepsCursor (Write.Verify rt) ∧ KeepsCursor (Append.Verify rt) ∧
      KeepsCursor (Transfer.Verify rt) ∧ KeepsCursor (Debit.Verify rt) ∧
      KeepsCursor (Fee.Verify rt) ∧ KeepsCursor (Legacy.Verify rt) ∧
      KeepsCursor (Coinbase.Verify rt) ∧ KeepsCursor (Trust.Verify rt) ∧
      KeepsCursor (Genesis.Verify rt) ∧ KeepsCursor (Trustpool.Verify rt) ∧
      KeepsCursor (Genesispool.Verify rt) ∧
      (∀ claim, KeepsCursor fun contract => (Claim.Verify rt contract claim).map fun _ => contract) ∧
      (∀ contract c : Contract, Canonical (contract.skip 32) → Create.Verify contract = .ok c →
        c.ssOperation = contract.ssOperation) ∧
      (∀ (contract c₁ debit c debit' : Contract) (credit : Credit.Operands), contract.reset = contract →
        Credit.operands (contract.skip 1) = .ok (credit, c₁) →
          Credit.Verify disk c₁ debit = .ok (c, debit') →
            contract.peek UInt8 0 = OP.CREDIT ∧ c.ssOperation = c₁.ssOperation) ∧
      ∀ (contract debit : Contract) (u : Unit), Migrate.Verify disk contract debit = .ok u →
        contract.reset.peek UInt8 0 = OP.MIGRATE ∧
          ∃ c₁ migrate c₂, contract.reset.seek 65 = .ok c₁ ∧
            Migrate.operands c₁ = .ok (migrate, c₂) ∧
              Migrate.verifyDebit disk migrate debit = .ok () := by
  refine ⟨?_, ?_, ?_, ?_, ?_, ?_, ?_, ?_, ?_, ?_, ?_, ?_, ?_, ?_, ?_⟩
  · intro contract c h
    rw [(Write.Verify_ok h).1]
    rfl
  · intro contract c h
    rw [(Append.Verify_ok h).1]
    rfl
  · intro contract c h
    rw [(Transfer.Verify_ok h).1]
    rfl
  · intro contract c h
    rw [(Debit.Verify_ok h).1]
    rfl
  · intro contract c h
    rw [(Fee.Verify_ok h).1]
    rfl
  · intro contract c h
    rw [(Legacy.Verify_ok h).1]
    rfl
  · intro contract c h
    rw [Coinbase.Verify_ok h]
  · intro contract c h
    rw [(Trust.verifyOP_ok h).1]
    rfl
  · intro contract c h
    rw [(Trust.verifyOP_ok h).1]
    rfl
  · intro contract c h
    rw [(Trust.verifyOP_ok h).1]
    rfl
  · intro contract c h
    rw [(Trust.verifyOP_ok h).1]
    rfl
  · intro claim contract c h
    rw [map_eq_ok] at h
    obtain ⟨claim', -, rfl⟩ := h
    rfl
  · intro contract c hCanonical h
    exact create_keeps hCanonical h
  · intro contract c₁ debit c debit' credit hBase hOperands h
    exact credit_keeps hBase hOperands h
  · intro contract debit u h
    exact migrate_reads h

/-- The creation of a token, read up to its opcode. -/
def creation : Contract :=
  (createContract silver (objectState alice 10 10 (tokenData silver 100 100))).skip 1

theorem creation_canonical : Canonical (creation.skip 32) := by
  intro nSize c h
  have hRead : (creation.skip 32).readCompactSize = .ok (4, (creation.skip 32).skip 1) := by
    decide +kernel
  obtain ⟨rfl, rfl⟩ := Prod.mk.inj (Except.ok.inj (hRead.symm.trans h))
  rfl

/-- A creation is verified with the cursor where it was; the credit of an output is verified behind
its operands. -/
theorem verify_keeps_output :
    (∃ c, Create.Verify creation = .ok c ∧ c.ssOperation = creation.ssOperation) ∧
      ∃ c debit', Credit.Verify outputDisk (creditOutput.contract.skip 141) (legacyContract purse 5) =
          .ok (c, debit') ∧
        creditOutput.contract.peek UInt8 0 = OP.CREDIT ∧
          c.ssOperation = (creditOutput.contract.skip 141).ssOperation := by
  have hKeeps := verify_keeps exampleRuntime outputDisk
  constructor
  · have hCreate : Create.Verify creation = .ok creation := by decide +kernel
    exact ⟨creation, hCreate,
      hKeeps.2.2.2.2.2.2.2.2.2.2.2.2.1 creation creation creation_canonical hCreate⟩
  · have hBase : creditOutput.contract.reset = creditOutput.contract := by decide +kernel
    have hOperands : Credit.operands (creditOutput.contract.skip 1) =
        .ok (⟨outputTx, 0, purse, WILDCARD_ADDRESS, 5⟩, creditOutput.contract.skip 141) := by
      decide +kernel
    have hVerify : Credit.Verify outputDisk (creditOutput.contract.skip 141) (legacyContract purse 5) =
        .ok (creditOutput.contract.skip 141, legacyContract purse 5) := by
      decide +kernel
    generalize creditOutput.contract.skip 141 = c₁ at *
    generalize creditOutput.contract = contract at *
    exact ⟨_, _, hVerify,
      hKeeps.2.2.2.2.2.2.2.2.2.2.2.2.2.1 contract c₁ _ _ _ _ hBase hOperands hVerify⟩

/-- Called at the byte after its opcode, the verification of a credit leaves the cursor 140 bytes
further. -/
theorem credit_moves_cursor :
    ((Credit.Verify outputDisk (creditOutput.contract.skip 1) (legacyContract purse 5)).map
      fun r => r.1.ssOperation.nReadPos) = .ok 141 := by
  decide +kernel

end Nexus.Safety
