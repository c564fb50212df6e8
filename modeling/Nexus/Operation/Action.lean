import Nexus.Operation.Execute

/-!
# What contracts mean

The abstract layer over the four traversals of a contract (`Execute`, `Verify`,
`Build` and `Rollback`).  A contract is an optional prefix and an action: a
primitive with its operands.  An action moves at most one register, from the
pre-state in the register script to a post-state that a pure calculation gives,
and commits it to the databases.
-/

namespace Nexus.Operation

open Nexus.Lib.Bytes
open Nexus.Lib.Checked
open Nexus.Util
open Nexus.Register
open Nexus.LLD

/-! ## Actions -/

/-- A primitive with its operands.  The solo and the pooled stake operations are the
same action. -/
inductive Action where
  | WRITE (hashAddress : Address) (vchData : List UInt8)
  | APPEND (hashAddress : Address) (vchData : List UInt8)
  | CREATE (hashAddress : Address) (nType : UInt8) (vchData : List UInt8)
  | TRANSFER (hashAddress hashTransfer : Uint256) (nType : UInt8)
  | CLAIM (hashTx : Uint512) (nContract : UInt32) (hashAddress : Address)
  | COINBASE (hashGenesis : Uint256)
  | TRUST (nScore : UInt64) (nStakeChange : Int64) (nReward : UInt64)
  | GENESIS (nReward : UInt64)
  | DEBIT (hashFrom hashTo : Address) (nAmount : UInt64)
  | CREDIT (credit : Credit.Operands)
  | MIGRATE (hashTx : Uint512) (migrate : Migrate.Operands)
  | AUTHORIZE
  | FEE (hashAddress : Address) (nFees : UInt64)
  | LEGACY (hashAddress : Address) (nAmount : UInt64)
  deriving DecidableEq, Repr

namespace Action

/-- The register that an action moves. -/
def target (rt : Runtime) (hashCaller : Uint256) : Action → Option Address
  | WRITE hashAddress _ => some hashAddress
  | APPEND hashAddress _ => some hashAddress
  | CREATE hashAddress _ _ => some hashAddress
  | TRANSFER hashAddress _ _ => some hashAddress
  | CLAIM _ _ hashAddress => some hashAddress
  | COINBASE _ => none
  | TRUST _ _ _ => some (RegisterDB.trustAddress rt hashCaller)
  | GENESIS _ => some (RegisterDB.trustAddress rt hashCaller)
  | DEBIT hashFrom _ _ => some hashFrom
  | CREDIT credit => some credit.hashAccount
  | MIGRATE _ migrate => some migrate.hashAccount
  | AUTHORIZE => none
  | FEE hashAddress _ => some hashAddress
  | LEGACY hashAddress _ => some hashAddress

/-- The calculation of the post-state. -/
def run (rt : Runtime) (contract : Contract) : Action → State → Result State
  | WRITE _ vchData, state => Write.Execute rt state vchData contract.nTimestamp
  | APPEND _ vchData, state => Append.Execute rt state vchData contract.nTimestamp
  | CREATE _ _ vchData, state => Create.Execute rt state vchData contract.nTimestamp
  | TRANSFER _ hashTransfer nType, state =>
      Transfer.Execute rt state
        (transferOwner contract.nVersion contract.hashCaller hashTransfer nType)
        contract.nTimestamp
  | CLAIM _ _ _, state => Claim.Execute rt state contract.hashCaller contract.nTimestamp
  | TRUST nScore nStakeChange nReward, state =>
      Trust.Execute rt state nReward nScore nStakeChange contract.nTimestamp
  | GENESIS nReward, state => Genesis.Execute rt state nReward contract.nTimestamp
  | DEBIT _ _ nAmount, state => Debit.Execute rt state nAmount contract.nTimestamp
  | CREDIT credit, state => Credit.Execute rt state credit.nCredit contract.nTimestamp
  | MIGRATE _ migrate, state =>
      Migrate.Execute rt state migrate.nAmount migrate.nScore contract.nTimestamp
  | FEE _ nFees, state => Fee.Execute rt state nFees contract.nTimestamp
  | LEGACY _ nAmount, state => Legacy.Execute rt state nAmount contract.nTimestamp
  | COINBASE _, state => .ok state
  | AUTHORIZE, state => .ok state

/-- The writes of an action to the databases. -/
def commit (rt : Runtime) (disk : Disk) (contract : Contract) (state : State) :
    Action → Result Disk
  | WRITE hashAddress _ => .ok (commitState rt disk state hashAddress)
  | APPEND hashAddress _ => .ok (commitState rt disk state hashAddress)
  | CREATE hashAddress _ _ =>
      (Create.Commit rt disk state hashAddress 0).map fun (disk, _) => disk
  | TRANSFER hashAddress hashTransfer _ =>
      .ok (Transfer.Commit rt disk state contract.hashTx hashAddress hashTransfer)
  | CLAIM hashTx nContract hashAddress =>
      Claim.Commit rt disk state hashAddress hashTx nContract
  | COINBASE hashGenesis =>
      .ok (if contract.hashCaller ≠ hashGenesis then
        Coinbase.Commit disk hashGenesis contract.hashTx else disk)
  | TRUST _ _ _ => Trust.Commit rt disk state
  | GENESIS _ => Genesis.Commit rt disk state
  | DEBIT hashFrom hashTo _ => Debit.Commit rt disk state contract.hashTx hashFrom hashTo
  | CREDIT credit => do
      let debit ← disk.ReadContract rt credit.hashTx credit.nContract
      Credit.Commit rt disk state debit credit.hashAccount credit.hashProof credit.hashTx
        credit.nContract credit.nCredit
  | MIGRATE hashTx migrate =>
      Migrate.Commit rt disk state migrate.hashAccount contract.hashCaller hashTx
        migrate.hashTrust migrate.hashLast
  | AUTHORIZE => .ok disk
  | FEE hashAddress _ => .ok (commitState rt disk state hashAddress)
  | LEGACY hashAddress _ => .ok (commitState rt disk state hashAddress)

end Action

/-! ## Reading a contract -/

theorem Credit.operands_eq_ok {contract c : Contract} {credit : Credit.Operands} :
    Credit.operands contract = .ok (credit, c) ↔
      contract.Fits 140 ∧ credit = ⟨contract.peek Uint512 0, contract.peek UInt32 64,
        contract.peek Uint256 68, contract.peek Uint256 100, contract.peek UInt64 132⟩ ∧
        c = contract.skip 140 := by
  simp only [Credit.operands, bind_eq_ok, Prod.exists, Contract.extract_eq_ok, pure_eq_ok, Prod.mk.injEq,
    and_assoc, exists_and_left, exists_eq_left, Contract.skip_skip, Contract.peek_skip,
    Contract.fits_skip, width_uint512,
    width_uint256, width_uint64, width_uint32, Nat.reduceAdd]
  constructor
  · rintro ⟨-, -, -, -, hFits, rfl, rfl⟩
    exact ⟨hFits, rfl, rfl⟩
  · rintro ⟨hFits, rfl, rfl⟩
    exact ⟨hFits.mono (by decide), hFits.mono (by decide), hFits.mono (by decide),
      hFits.mono (by decide), hFits, rfl, rfl⟩

namespace Contract

/-- The operation code past the prefix, and the contract that the prefix validates. -/
def readPrefix (contract : Contract) : Result ((UInt8 × Option ContractKey) × Contract) := do
  let (nOP, contract) ← contract.extract UInt8
  if nOP = OP.CONDITION then do
    let (nOP, contract) ← contract.extract UInt8
    return ((nOP, none), contract)
  else if nOP = OP.VALIDATE then do
    let (hashTx, contract) ← contract.extract Uint512
    let (nContract, contract) ← contract.extract UInt32
    let (nOP, contract) ← contract.extract UInt8
    return ((nOP, some (hashTx, nContract)), contract)
  else return ((nOP, none), contract)

/-- The operands of `TRUST` and `TRUSTPOOL`. -/
def readStake (nSeek : Nat) (contract : Contract) : Result (Action × Contract) := do
  let contract ← contract.seek nSeek
  let (nScore, contract) ← contract.extract UInt64
  let (nStakeChange, contract) ← contract.extract Int64
  let (nReward, contract) ← contract.extract UInt64
  return (.TRUST nScore nStakeChange nReward, contract)

/-- The operands of `GENESIS` and `GENESISPOOL`. -/
def readFirstStake (nSeek : Nat) (contract : Contract) : Result (Action × Contract) := do
  let contract ← contract.seek nSeek
  let (nReward, contract) ← contract.extract UInt64
  return (.GENESIS nReward, contract)

/-- The operands of a primitive. -/
def readAction (contract : Contract) : Primitive → Result (Action × Contract)
  | .WRITE => do
      let (hashAddress, contract) ← contract.extract Uint256
      let (vchData, contract) ← contract.extractBytes
      return (.WRITE hashAddress vchData, contract)
  | .APPEND => do
      let (hashAddress, contract) ← contract.extract Uint256
      let (vchData, contract) ← contract.extractBytes
      return (.APPEND hashAddress vchData, contract)
  | .CREATE => do
      let (hashAddress, contract) ← contract.extract Uint256
      let (nType, contract) ← contract.extract UInt8
      let (vchData, contract) ← contract.extractBytes
      return (.CREATE hashAddress nType vchData, contract)
  | .TRANSFER => do
      let (hashAddress, contract) ← contract.extract Uint256
      let (hashTransfer, contract) ← contract.extract Uint256
      let (nType, contract) ← contract.extract UInt8
      return (.TRANSFER hashAddress hashTransfer nType, contract)
  | .CLAIM => do
      let (hashTx, contract) ← contract.extract Uint512
      let (nContract, contract) ← contract.extract UInt32
      let (hashAddress, contract) ← contract.extract Uint256
      return (.CLAIM hashTx nContract hashAddress, contract)
  | .COINBASE => do
      let (hashGenesis, contract) ← contract.extract Uint256
      let contract ← contract.seek 16
      return (.COINBASE hashGenesis, contract)
  | .TRUST => readStake 64 contract
  | .TRUSTPOOL => readStake 112 contract
  | .GENESIS => readFirstStake 0 contract
  | .GENESISPOOL => readFirstStake 48 contract
  | .DEBIT => do
      let (hashFrom, contract) ← contract.extract Uint256
      let (hashTo, contract) ← contract.extract Uint256
      let (nAmount, contract) ← contract.extract UInt64
      let contract ← contract.seek 8
      return (.DEBIT hashFrom hashTo nAmount, contract)
  | .CREDIT => do
      let (credit, contract) ← Credit.operands contract
      return (.CREDIT credit, contract)
  | .MIGRATE => do
      let (hashTx, contract) ← contract.extract Uint512
      let (migrate, contract) ← Migrate.operands contract
      return (.MIGRATE hashTx migrate, contract)
  | .AUTHORIZE => do
      let contract ← contract.seek 96
      return (.AUTHORIZE, contract)
  | .FEE => do
      let (hashAddress, contract) ← contract.extract Uint256
      let (nFees, contract) ← contract.extract UInt64
      return (.FEE hashAddress nFees, contract)
  | .LEGACY => do
      let (hashAddress, contract) ← contract.extract Uint256
      let (nAmount, contract) ← contract.extract UInt64
      let (_, contract) ← contract.extractBytes
      return (.LEGACY hashAddress nAmount, contract)

/-! ### Layouts of operands of a fixed size -/

variable {contract c : Contract} {action : Action}

theorem readAction_TRANSFER : contract.readAction .TRANSFER = .ok (action, c) ↔
    contract.Fits 65 ∧ action = .TRANSFER (contract.peek Uint256 0) (contract.peek Uint256 32)
      (contract.peek UInt8 64) ∧ c = contract.skip 65 := by
  simp only [readAction, bind_eq_ok, Prod.exists, extract_eq_ok, pure_eq_ok, Prod.mk.injEq,
    and_assoc, exists_and_left, exists_eq_left, skip_skip, peek_skip, fits_skip, width_uint256,
    width_uint8, Nat.reduceAdd]
  constructor
  · rintro ⟨-, -, hFits, rfl, rfl⟩
    exact ⟨hFits, rfl, rfl⟩
  · rintro ⟨hFits, rfl, rfl⟩
    exact ⟨hFits.mono (by decide), hFits.mono (by decide), hFits, rfl, rfl⟩

theorem readAction_CLAIM : contract.readAction .CLAIM = .ok (action, c) ↔
    contract.Fits 100 ∧ action = .CLAIM (contract.peek Uint512 0) (contract.peek UInt32 64)
      (contract.peek Uint256 68) ∧ c = contract.skip 100 := by
  simp only [readAction, bind_eq_ok, Prod.exists, extract_eq_ok, pure_eq_ok, Prod.mk.injEq,
    and_assoc, exists_and_left, exists_eq_left, skip_skip, peek_skip, fits_skip, width_uint512,
    width_uint256, width_uint32, Nat.reduceAdd]
  constructor
  · rintro ⟨-, -, hFits, rfl, rfl⟩
    exact ⟨hFits, rfl, rfl⟩
  · rintro ⟨hFits, rfl, rfl⟩
    exact ⟨hFits.mono (by decide), hFits.mono (by decide), hFits, rfl, rfl⟩

theorem readAction_COINBASE : contract.readAction .COINBASE = .ok (action, c) ↔
    contract.Fits 48 ∧ action = .COINBASE (contract.peek Uint256 0) ∧ c = contract.skip 48 := by
  simp only [readAction, bind_eq_ok, Prod.exists, extract_eq_ok, seek_eq_ok, pure_eq_ok,
    Prod.mk.injEq, and_assoc, exists_and_left, exists_eq_left, skip_skip, fits_skip,
    width_uint256, Nat.reduceAdd]
  constructor
  · rintro ⟨-, hFits, rfl, rfl⟩
    exact ⟨hFits, rfl, rfl⟩
  · rintro ⟨hFits, rfl, rfl⟩
    exact ⟨hFits.mono (by decide), hFits, rfl, rfl⟩

theorem readStake_iff {nSeek : Nat} : contract.readStake nSeek = .ok (action, c) ↔
    contract.Fits (nSeek + 24) ∧ action = .TRUST (contract.peek UInt64 nSeek)
      (contract.peek Int64 (nSeek + 8)) (contract.peek UInt64 (nSeek + 16)) ∧
      c = contract.skip (nSeek + 24) := by
  simp only [readStake, bind_eq_ok, Prod.exists, extract_eq_ok, seek_eq_ok, pure_eq_ok,
    Prod.mk.injEq, and_assoc, exists_and_left, exists_eq_left, skip_skip, peek_skip, fits_skip,
    width_uint64, width_int64, Nat.add_zero]
  constructor
  · rintro ⟨-, -, -, hFits, rfl, rfl⟩
    exact ⟨hFits, rfl, rfl⟩
  · rintro ⟨hFits, rfl, rfl⟩
    exact ⟨hFits.mono (by omega), hFits.mono (by omega), hFits.mono (by omega), hFits, rfl, rfl⟩

theorem readFirstStake_iff {nSeek : Nat} : contract.readFirstStake nSeek = .ok (action, c) ↔
    contract.Fits (nSeek + 8) ∧ action = .GENESIS (contract.peek UInt64 nSeek) ∧
      c = contract.skip (nSeek + 8) := by
  simp only [readFirstStake, bind_eq_ok, Prod.exists, extract_eq_ok, seek_eq_ok, pure_eq_ok,
    Prod.mk.injEq, and_assoc, exists_and_left, exists_eq_left, skip_skip, peek_skip, fits_skip,
    width_uint64, Nat.add_zero]
  constructor
  · rintro ⟨-, hFits, rfl, rfl⟩
    exact ⟨hFits, rfl, rfl⟩
  · rintro ⟨hFits, rfl, rfl⟩
    exact ⟨hFits.mono (by omega), hFits, rfl, rfl⟩

theorem readAction_DEBIT : contract.readAction .DEBIT = .ok (action, c) ↔
    contract.Fits 80 ∧ action = .DEBIT (contract.peek Uint256 0) (contract.peek Uint256 32)
      (contract.peek UInt64 64) ∧ c = contract.skip 80 := by
  simp only [readAction, bind_eq_ok, Prod.exists, extract_eq_ok, seek_eq_ok, pure_eq_ok,
    Prod.mk.injEq, and_assoc, exists_and_left, exists_eq_left, skip_skip, peek_skip, fits_skip,
    width_uint256, width_uint64, Nat.reduceAdd]
  constructor
  · rintro ⟨-, -, -, hFits, rfl, rfl⟩
    exact ⟨hFits, rfl, rfl⟩
  · rintro ⟨hFits, rfl, rfl⟩
    exact ⟨hFits.mono (by decide), hFits.mono (by decide), hFits.mono (by decide), hFits, rfl, rfl⟩

theorem readAction_FEE : contract.readAction .FEE = .ok (action, c) ↔
    contract.Fits 40 ∧ action = .FEE (contract.peek Uint256 0) (contract.peek UInt64 32) ∧
      c = contract.skip 40 := by
  simp only [readAction, bind_eq_ok, Prod.exists, extract_eq_ok, pure_eq_ok, Prod.mk.injEq,
    and_assoc, exists_and_left, exists_eq_left, skip_skip, peek_skip, fits_skip, width_uint256,
    width_uint64, Nat.reduceAdd]
  constructor
  · rintro ⟨-, hFits, rfl, rfl⟩
    exact ⟨hFits, rfl, rfl⟩
  · rintro ⟨hFits, rfl, rfl⟩
    exact ⟨hFits.mono (by decide), hFits, rfl, rfl⟩

theorem readAction_AUTHORIZE : contract.readAction .AUTHORIZE = .ok (action, c) ↔
    contract.Fits 96 ∧ action = .AUTHORIZE ∧ c = contract.skip 96 := by
  simp only [readAction, bind_eq_ok, seek_eq_ok, pure_eq_ok, Prod.mk.injEq, and_assoc,
    exists_and_left, exists_eq_left]
  constructor
  · rintro ⟨hFits, rfl, rfl⟩
    exact ⟨hFits, rfl, rfl⟩
  · rintro ⟨hFits, rfl, rfl⟩
    exact ⟨hFits, rfl, rfl⟩

theorem readAction_CREDIT : contract.readAction .CREDIT = .ok (action, c) ↔
    contract.Fits 140 ∧ action = .CREDIT ⟨contract.peek Uint512 0, contract.peek UInt32 64,
      contract.peek Uint256 68, contract.peek Uint256 100, contract.peek UInt64 132⟩ ∧
      c = contract.skip 140 := by
  simp only [readAction, bind_eq_ok, Prod.exists, Credit.operands_eq_ok, pure_eq_ok, Prod.mk.injEq,
    and_assoc, exists_and_left, exists_eq_left]
  constructor
  · rintro ⟨hFits, rfl, rfl⟩
    exact ⟨hFits, rfl, rfl⟩
  · rintro ⟨hFits, rfl, rfl⟩
    exact ⟨hFits, rfl, rfl⟩

theorem readAction_MIGRATE : contract.readAction .MIGRATE = .ok (action, c) ↔
    contract.Fits 244 ∧ action = .MIGRATE (contract.peek Uint512 0) ⟨contract.peek Uint256 64,
      contract.peek Uint576 96, contract.peek UInt64 168, contract.peek UInt32 176,
      contract.peek Uint512 180⟩ ∧ c = contract.skip 244 := by
  simp only [readAction, Migrate.operands, bind_eq_ok, Prod.exists, extract_eq_ok, pure_eq_ok,
    Prod.mk.injEq, and_assoc, exists_and_left, exists_eq_left, skip_skip, peek_skip, fits_skip,
    width_uint512, width_uint256, width_uint576, width_uint64, width_uint32, Nat.reduceAdd]
  constructor
  · rintro ⟨-, -, -, -, -, hFits, _, rfl, _, rfl, rfl, rfl⟩
    exact ⟨hFits, rfl, rfl⟩
  · rintro ⟨hFits, rfl, rfl⟩
    exact ⟨hFits.mono (by decide), hFits.mono (by decide), hFits.mono (by decide),
      hFits.mono (by decide), hFits.mono (by decide), hFits, _, rfl, _, rfl, rfl, rfl⟩

/-- A contract as its prefix, its primitive and its action. -/
structure Decoded where
  validated : Option ContractKey
  op : Primitive
  action : Action
  deriving DecidableEq, Repr

/-- Read a contract from the beginning.  The result has the cursor after the operands. -/
def decode (contract : Contract) : Result (Decoded × Contract) := do
  let ((nOP, validated), contract) ← contract.reset.readPrefix
  let op ← demand (Primitive.ofOP nOP) (.error "")
  let (action, contract) ← contract.readAction op
  return ({ validated, op, action }, contract)

end Contract

/-- The state that an action starts from: a new one for a creation, otherwise the
pre-state in the script. -/
def Action.before (contract : Contract) : Action → Option State
  | .CREATE _ nType _ => some (createdState nType contract.hashCaller)
  | .COINBASE _ => some {}
  | .AUTHORIZE => some {}
  | _ => contract.prestate

/-- What an action does to the databases. -/
def Action.effect (rt : Runtime) (disk : Disk) (contract : Contract) (action : Action) :
    Result Disk := do
  let before ← demand (action.before contract) (.error "")
  let state ← action.run rt contract before
  action.commit rt disk contract state

end Nexus.Operation
