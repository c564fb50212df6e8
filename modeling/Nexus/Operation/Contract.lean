import Nexus.Register.Fields

/-!
# Contracts

A contract is three byte streams, the operation, its conditions and its register
scripts, with the transaction it is bound to.  Validation reads the streams
through their cursors and never writes them, so every function that reads a
contract returns it with the cursors where it left them.

The file gives the cursor rules of a contract: what a read from one stream
does, that it leaves the other streams and the binding alone, and that a
rewind undoes it.
-/

namespace Nexus.Operation

open Nexus.Lib.Bytes
open Nexus.Lib.Checked
open Nexus.Util
open Nexus.Register

/-! ## Operation codes -/

namespace OP

def WRITE : UInt8 := 0x01
def CREATE : UInt8 := 0x02
def AUTHORIZE : UInt8 := 0x03
def TRANSFER : UInt8 := 0x04
def CLAIM : UInt8 := 0x05
def APPEND : UInt8 := 0x06
def DEBIT : UInt8 := 0x10
def CREDIT : UInt8 := 0x11
def COINBASE : UInt8 := 0x12
def GENESIS : UInt8 := 0x13
def TRUST : UInt8 := 0x14
def GENESISPOOL : UInt8 := 0x15
def TRUSTPOOL : UInt8 := 0x16
def FEE : UInt8 := 0x17
def VALIDATE : UInt8 := 0x40
def CONDITION : UInt8 := 0x41
def LEGACY : UInt8 := 0x50
def MIGRATE : UInt8 := 0x51
def RESERVED : UInt8 := 0xff

/-! Types of the values in write streams and conditions. -/

def TYPES.UINT8_T : UInt8 := 0x70
def TYPES.UINT16_T : UInt8 := 0x71
def TYPES.UINT32_T : UInt8 := 0x72
def TYPES.UINT64_T : UInt8 := 0x73
def TYPES.UINT256_T : UInt8 := 0x74
def TYPES.UINT512_T : UInt8 := 0x75
def TYPES.UINT1024_T : UInt8 := 0x76
def TYPES.STRING : UInt8 := 0x77
def TYPES.BYTES : UInt8 := 0x78

end OP

/-- The primitive operations that contracts execute. -/
inductive Primitive where
  | WRITE
  | APPEND
  | CREATE
  | TRANSFER
  | CLAIM
  | COINBASE
  | TRUST
  | TRUSTPOOL
  | GENESIS
  | GENESISPOOL
  | DEBIT
  | CREDIT
  | MIGRATE
  | AUTHORIZE
  | FEE
  | LEGACY
  deriving DecidableEq, Repr

namespace Primitive

/-- The operation code of a primitive. -/
def toOP : Primitive → UInt8
  | WRITE => OP.WRITE
  | APPEND => OP.APPEND
  | CREATE => OP.CREATE
  | TRANSFER => OP.TRANSFER
  | CLAIM => OP.CLAIM
  | COINBASE => OP.COINBASE
  | TRUST => OP.TRUST
  | TRUSTPOOL => OP.TRUSTPOOL
  | GENESIS => OP.GENESIS
  | GENESISPOOL => OP.GENESISPOOL
  | DEBIT => OP.DEBIT
  | CREDIT => OP.CREDIT
  | MIGRATE => OP.MIGRATE
  | AUTHORIZE => OP.AUTHORIZE
  | FEE => OP.FEE
  | LEGACY => OP.LEGACY

def all : List Primitive :=
  [WRITE, APPEND, CREATE, TRANSFER, CLAIM, COINBASE, TRUST, TRUSTPOOL, GENESIS, GENESISPOOL,
    DEBIT, CREDIT, MIGRATE, AUTHORIZE, FEE, LEGACY]

/-- The primitive a `switch` on the operation code selects. -/
def ofOP (nOP : UInt8) : Option Primitive := all.find? fun op => op.toOP == nOP

theorem ofOP_eq_some {nOP : UInt8} {op : Primitive} (h : ofOP nOP = some op) : nOP = op.toOP := by
  unfold ofOP at h
  have hOP := List.find?_some h
  exact (beq_iff_eq.mp hOP).symm

end Primitive

/-! ## Contracts -/

structure Contract where
  ssOperation : Stream := {}
  ssCondition : Stream := {}
  ssRegister : Stream := {}
  /-- The genesis of the calling transaction. -/
  hashCaller : Uint256 := 0
  nTimestamp : UInt64 := 0
  hashTx : Uint512 := 0
  nVersion : UInt32 := 0
  deriving DecidableEq, Repr

namespace Contract

/-- `operator>>`: read from the operation stream. -/
def extract (α : Type) [FixedWidth α] (contract : Contract) : Result (α × Contract) :=
  (contract.ssOperation.extract α).map fun (a, ss) => (a, { contract with ssOperation := ss })

/-- `operator>>` for byte vectors and scripts. -/
def extractBytes (contract : Contract) : Result (List UInt8 × Contract) :=
  contract.ssOperation.extractBytes.map fun (vch, ss) =>
    (vch, { contract with ssOperation := ss })

/-- `operator>>=`: read from the register stream. -/
def extractRegister (α : Type) [FixedWidth α] (contract : Contract) : Result (α × Contract) :=
  (contract.ssRegister.extract α).map fun (a, ss) => (a, { contract with ssRegister := ss })

/-- `operator>>=` for states. -/
def extractState (contract : Contract) : Result (State × Contract) :=
  (Register.extractState contract.ssRegister).map fun (state, ss) =>
    (state, { contract with ssRegister := ss })

/-- `Reset(OPERATIONS)`. -/
def resetOperations (contract : Contract) : Contract :=
  { contract with ssOperation := contract.ssOperation.reset }

/-- `Reset(REGISTERS)`. -/
def resetRegisters (contract : Contract) : Contract :=
  { contract with ssRegister := contract.ssRegister.reset }

/-- `Reset()`. -/
def reset (contract : Contract) : Contract :=
  { contract with
    ssOperation := contract.ssOperation.reset
    ssCondition := contract.ssCondition.reset
    ssRegister := contract.ssRegister.reset }

/-- `Empty(CONDITIONS)`. -/
def noConditions (contract : Contract) : Bool := contract.ssCondition.size == 0

/-- `End()`. -/
def atEnd (contract : Contract) : Bool := contract.ssOperation.atEnd

/-- `Seek(nPos)`. -/
def seek (contract : Contract) (nPos : Nat) : Result Contract :=
  (contract.ssOperation.seek nPos).map fun ss => { contract with ssOperation := ss }

/-- `Rewind(nPos, OPERATIONS)`. -/
def rewind (contract : Contract) (nPos : Nat) : Result Contract :=
  (contract.ssOperation.rewind nPos).map fun ss => { contract with ssOperation := ss }

/-- `ReadCompactSize(OPERATIONS)`. -/
def readCompactSize (contract : Contract) : Result (Nat × Contract) :=
  contract.ssOperation.readCompactSize.map fun (nSize, ss) =>
    (nSize, { contract with ssOperation := ss })

/-- `SeekToPrimitive`: past a condition or a validation at the beginning. -/
def seekToPrimitive (contract : Contract) : Result Contract := do
  reject (contract.ssOperation.size = 0) (.exception "cannot get primitive when empty")
  let nOP ← contract.ssOperation.get 0
  if nOP = OP.CONDITION then contract.resetOperations.seek 1
  else if nOP = OP.VALIDATE then contract.resetOperations.seek 69
  else .ok contract.resetOperations

/-- `Primitive`: the operation code past a condition or a validation. -/
def primitive (contract : Contract) : Result UInt8 := do
  reject (contract.ssOperation.size = 0) (.exception "cannot get primitive when empty")
  let nOP ← contract.ssOperation.get 0
  if nOP = OP.CONDITION then contract.ssOperation.get 1
  else if nOP = OP.VALIDATE then contract.ssOperation.get 69
  else .ok nOP

/-- The bytes between the operation code and the value that an operation moves. -/
def valueOffset (nOP : UInt8) : Option Nat :=
  if nOP = OP.DEBIT then some 64
  else if nOP = OP.CREDIT then some 132
  else if nOP = OP.COINBASE then some 32
  else if nOP = OP.TRUST then some 80
  else if nOP = OP.GENESIS then some 0
  else if nOP = OP.TRUSTPOOL then some 128
  else if nOP = OP.GENESISPOOL then some 48
  else if nOP = OP.FEE then some 32
  else none

/-- `Value`: the value that the contract moves, 0 when it moves none. -/
def Value (contract : Contract) : Result UInt64 := do
  let contract ← contract.seekToPrimitive
  let (nOP, contract) ← contract.extract UInt8
  match valueOffset nOP with
  | none => return 0
  | some nSeek =>
      let contract ← contract.seek nSeek
      let (nValue, _) ← contract.extract UInt64
      return nValue

/-- `Previous`: the transaction that the contract refers to.  The call fails when it is 0. -/
def Previous (contract : Contract) : Result Uint512 := do
  let (nOP, contract) ← contract.resetOperations.extract UInt8
  if nOP = OP.VALIDATE then do
    let (hashPrev, _) ← contract.extract Uint512
    reject (hashPrev = 0) (.error "")
    return hashPrev
  else do
    let (nOP, contract) ← if nOP = OP.CONDITION then contract.extract UInt8
      else .ok (nOP, contract)
    reject (nOP ≠ OP.CLAIM ∧ nOP ≠ OP.CREDIT ∧ nOP ≠ OP.TRUST ∧ nOP ≠ OP.TRUSTPOOL) (.error "")
    let (hashPrev, _) ← contract.extract Uint512
    reject (hashPrev = 0) (.error "")
    return hashPrev

/-- `Dependant`: the contract that a claim or a credit depends on. -/
def Dependant (contract : Contract) : Result (Option (Uint512 × UInt32)) := do
  let contract ← contract.seekToPrimitive
  let (nOP, contract) ← contract.extract UInt8
  if nOP = OP.CLAIM ∨ nOP = OP.CREDIT then do
    let (hashPrev, contract) ← contract.extract Uint512
    let (nContract, _) ← contract.extract UInt32
    return some (hashPrev, nContract)
  else return none

/-- A pre-state in a register script: its marker, then the state. -/
def extractPreState (strError : String) (s : Stream) : Result (State × Stream) := do
  let (nState, s) ← s.extract UInt8
  reject (nState ≠ STATES.PRESTATE) (.error strError)
  Register.extractState s

/-- Read the pre-state. -/
def preState (contract : Contract) (strError : String) : Result (State × Contract) :=
  (extractPreState strError contract.ssRegister).map fun (state, ss) =>
    (state, { contract with ssRegister := ss })

/-- Read the post-state: its marker, then its checksum, which must be the hash of
the calculated state. -/
def postState (rt : Runtime) (contract : Contract) (state : State) (strMissing strInvalid : String) :
    Result Contract := do
  let (nState, contract) ← contract.extractRegister UInt8
  reject (nState ≠ STATES.POSTSTATE) (.error strMissing)
  let (nChecksum, contract) ← contract.extractRegister UInt64
  reject (nChecksum ≠ state.GetHash rt) (.error strInvalid)
  return contract

/-- The pre-state at the beginning of the register script. -/
def prestate (contract : Contract) : Option State :=
  (extractPreState "" contract.ssRegister.reset).toOption.map fun (state, _) => state

/-! ## Cursor rules -/

variable {contract contract' : Contract} {α : Type} [FixedWidth α]

/-- The contract with the operation cursor moved forward. -/
def skip (contract : Contract) (n : Nat) : Contract :=
  { contract with ssOperation := contract.ssOperation.advance n }

/-- The operation cursor can move `n` bytes forward. -/
def Fits (contract : Contract) (n : Nat) : Prop := contract.ssOperation.Fits n

/-- The operand `n` bytes after the operation cursor. -/
def peek (α : Type) [FixedWidth α] (contract : Contract) (n : Nat) : α :=
  contract.ssOperation.peek α n

@[simp] theorem skip_zero : contract.skip 0 = contract := rfl

@[simp] theorem skip_skip (m n : Nat) : (contract.skip m).skip n = contract.skip (m + n) := by
  simp [skip]

@[simp] theorem peek_skip (m n : Nat) : (contract.skip m).peek α n = contract.peek α (m + n) := by
  simp [peek, skip]

@[simp] theorem fits_skip (m n : Nat) : (contract.skip m).Fits n ↔ contract.Fits (m + n) := by
  simp [Fits, skip]

theorem Fits.mono {m n : Nat} (h : contract.Fits n) (hmn : m ≤ n) : contract.Fits m :=
  Stream.Fits.mono h hmn

@[simp] theorem ssRegister_skip (n : Nat) : (contract.skip n).ssRegister = contract.ssRegister := rfl

@[simp] theorem ssCondition_skip (n : Nat) :
    (contract.skip n).ssCondition = contract.ssCondition := rfl

@[simp] theorem ssOperation_skip (n : Nat) :
    (contract.skip n).ssOperation = contract.ssOperation.advance n := rfl

@[simp] theorem hashCaller_skip (n : Nat) : (contract.skip n).hashCaller = contract.hashCaller := rfl

@[simp] theorem nTimestamp_skip (n : Nat) : (contract.skip n).nTimestamp = contract.nTimestamp := rfl

@[simp] theorem hashTx_skip (n : Nat) : (contract.skip n).hashTx = contract.hashTx := rfl

@[simp] theorem nVersion_skip (n : Nat) : (contract.skip n).nVersion = contract.nVersion := rfl

@[simp] theorem noConditions_skip (n : Nat) :
    (contract.skip n).noConditions = contract.noConditions := rfl

@[simp] theorem resetOperations_skip (n : Nat) :
    (contract.skip n).resetOperations = contract.resetOperations := rfl

@[simp] theorem reset_skip (n : Nat) : (contract.skip n).reset = contract.reset := rfl

@[simp] theorem skip_resetRegisters (n : Nat) :
    contract.resetRegisters.skip n = (contract.skip n).resetRegisters := rfl

@[simp] theorem peek_resetRegisters (n : Nat) :
    contract.resetRegisters.peek α n = contract.peek α n := rfl

@[simp] theorem fits_resetRegisters (n : Nat) :
    contract.resetRegisters.Fits n ↔ contract.Fits n := Iff.rfl

@[simp] theorem resetRegisters_idem :
    contract.resetRegisters.resetRegisters = contract.resetRegisters := rfl

@[simp] theorem resetRegisters_reset : contract.reset.resetRegisters = contract.reset := rfl

theorem extract_eq_ok {a : α} :
    contract.extract α = .ok (a, contract') ↔
      contract.Fits (FixedWidth.width α) ∧ a = contract.peek α 0 ∧
        contract' = contract.skip (FixedWidth.width α) := by
  simp only [extract, map_eq_ok, Prod.exists, Stream.extract_eq_ok, Prod.mk.injEq]
  constructor
  · rintro ⟨a', ss, ⟨hFits, rfl, rfl⟩, rfl, rfl⟩
    exact ⟨hFits, rfl, rfl⟩
  · rintro ⟨hFits, rfl, rfl⟩
    exact ⟨_, _, ⟨hFits, rfl, rfl⟩, rfl, rfl⟩

theorem seek_eq_ok {n : Nat} :
    contract.seek n = .ok contract' ↔ contract.Fits n ∧ contract' = contract.skip n := by
  simp only [seek, map_eq_ok, Stream.seek_eq_ok]
  constructor
  · rintro ⟨ss, ⟨hFits, rfl⟩, rfl⟩
    exact ⟨hFits, rfl⟩
  · rintro ⟨hFits, rfl⟩
    exact ⟨_, ⟨hFits, rfl⟩, rfl⟩

theorem seekToPrimitive_skip (h : contract.seekToPrimitive = .ok contract') :
    ∃ n, contract' = contract.resetOperations.skip n := by
  simp only [seekToPrimitive, bind_eq_ok, ite_eq_ok, seek_eq_ok, Except.ok.injEq] at h
  obtain ⟨u, -, nOP, -, ⟨-, -, rfl⟩ | ⟨-, ⟨-, -, rfl⟩ | ⟨-, rfl⟩⟩⟩ := h
  · exact ⟨1, rfl⟩
  · exact ⟨69, rfl⟩
  · exact ⟨0, rfl⟩

/-- The seek does not depend on the register cursor. -/
theorem seekToPrimitive_resetRegisters
    (h : contract.resetRegisters.seekToPrimitive = .ok contract') :
    ∃ c, contract.seekToPrimitive = .ok c ∧ contract' = c.resetRegisters := by
  simp only [seekToPrimitive, bind_eq_ok, ite_eq_ok, seek_eq_ok, Except.ok.injEq] at h ⊢
  obtain ⟨u, hSize, nOP, hGet, ⟨hOP, hFits, rfl⟩ | ⟨hOP, ⟨hOP', hFits, rfl⟩ | ⟨hOP', rfl⟩⟩⟩ := h
  · exact ⟨_, ⟨u, hSize, nOP, hGet, .inl ⟨hOP, hFits, rfl⟩⟩, rfl⟩
  · exact ⟨_, ⟨u, hSize, nOP, hGet, .inr ⟨hOP, .inl ⟨hOP', hFits, rfl⟩⟩⟩, rfl⟩
  · exact ⟨_, ⟨u, hSize, nOP, hGet, .inr ⟨hOP, .inr ⟨hOP', rfl⟩⟩⟩, rfl⟩

/-- What a rewind steps back over is what would be skipped. -/
theorem rewind_eq_ok {n : Nat} (h : contract.rewind n = .ok contract') :
    contract = contract'.skip n := by
  simp only [rewind, Stream.rewind, map_eq_ok, ite_eq_ok, Except.ok.injEq, reduceCtorEq, and_false,
    or_false] at h
  obtain ⟨ss, ⟨hPos, rfl⟩, rfl⟩ := h
  simp [skip, Stream.advance, Nat.sub_add_cancel hPos.1]

theorem skip_inj {n : Nat} (h : contract.skip n = contract'.skip n) : contract = contract' := by
  obtain ⟨⟨vch, nPos⟩, ssCondition, ssRegister, hashCaller, nTimestamp, hashTx, nVersion⟩ := contract
  obtain ⟨⟨vch', nPos'⟩, _, _, _, _, _, _⟩ := contract'
  simpa [skip, Stream.advance] using h

/-- Rewinding what was read restores the cursor. -/
theorem rewind_skip {n : Nat} (h : (contract.skip n).rewind n = .ok contract') :
    contract' = contract :=
  (skip_inj (rewind_eq_ok h)).symm

/-- A variable-size operand moves the operation cursor and nothing else. -/
theorem extractBytes_skip {vch : List UInt8} (h : contract.extractBytes = .ok (vch, contract')) :
    ∃ n, contract.Fits n ∧ contract' = contract.skip n := by
  simp only [extractBytes, map_eq_ok, Prod.exists, Prod.mk.injEq] at h
  obtain ⟨vch', ss, hRead, rfl, rfl⟩ := h
  obtain ⟨n, hFits, rfl, -⟩ := Stream.extractBytes_advance hRead
  exact ⟨n, hFits, rfl⟩

/-- A script is read, or seeked over by its size. -/
theorem exists_extractBytes :
    (∃ vch, contract.extractBytes = .ok (vch, contract')) ↔
      ∃ nSize c, contract.readCompactSize = .ok (nSize, c) ∧ c.seek nSize = .ok contract' := by
  simp only [extractBytes, readCompactSize, Stream.extractBytes, map_eq_ok, bind_eq_ok, Prod.exists,
    Stream.read_eq_ok, Prod.mk.injEq, seek_eq_ok]
  constructor
  · rintro ⟨_, vch, ss, ⟨nSize, s, hSize, hFits, rfl, rfl⟩, rfl, rfl⟩
    exact ⟨nSize, _, ⟨_, _, hSize, rfl, rfl⟩, hFits, rfl⟩
  · rintro ⟨_, _, ⟨nSize, s, hSize, rfl, rfl⟩, hFits, rfl⟩
    exact ⟨_, _, _, ⟨nSize, s, hSize, hFits, rfl, rfl⟩, rfl, rfl⟩

/-! ### The register script -/

/-- The contract with the register cursor moved forward. -/
def scan (contract : Contract) (n : Nat) : Contract :=
  { contract with ssRegister := contract.ssRegister.advance n }

@[simp] theorem ssOperation_scan (n : Nat) :
    (contract.scan n).ssOperation = contract.ssOperation := rfl

@[simp] theorem ssCondition_scan (n : Nat) :
    (contract.scan n).ssCondition = contract.ssCondition := rfl

@[simp] theorem hashCaller_scan (n : Nat) : (contract.scan n).hashCaller = contract.hashCaller := rfl

@[simp] theorem nTimestamp_scan (n : Nat) : (contract.scan n).nTimestamp = contract.nTimestamp := rfl

@[simp] theorem hashTx_scan (n : Nat) : (contract.scan n).hashTx = contract.hashTx := rfl

@[simp] theorem nVersion_scan (n : Nat) : (contract.scan n).nVersion = contract.nVersion := rfl

@[simp] theorem scan_scan (m n : Nat) : (contract.scan m).scan n = contract.scan (m + n) := by
  simp [scan]

@[simp] theorem skip_scan (m n : Nat) : (contract.scan m).skip n = (contract.skip n).scan m := rfl

@[simp] theorem peek_scan (m n : Nat) : (contract.scan m).peek α n = contract.peek α n := rfl

@[simp] theorem fits_scan (m n : Nat) : (contract.scan m).Fits n ↔ contract.Fits n := Iff.rfl

@[simp] theorem resetRegisters_scan (n : Nat) :
    (contract.scan n).resetRegisters = contract.resetRegisters := rfl

@[simp] theorem resetOperations_scan (n : Nat) :
    (contract.scan n).resetOperations = contract.resetOperations.scan n := rfl

@[simp] theorem reset_scan (n : Nat) : (contract.scan n).reset = contract.reset := rfl

@[simp] theorem atEnd_scan (n : Nat) : (contract.scan n).atEnd = contract.atEnd := rfl

theorem extractBytes_scan {vch : List UInt8} {n : Nat}
    (h : (contract.scan n).extractBytes = .ok (vch, contract')) :
    ∃ c, contract.extractBytes = .ok (vch, c) ∧ contract' = c.scan n := by
  simp only [extractBytes, map_eq_ok, Prod.exists, Prod.mk.injEq] at h ⊢
  obtain ⟨vch', ss, hRead, rfl, rfl⟩ := h
  exact ⟨_, ⟨vch', ss, hRead, rfl, rfl⟩, rfl⟩

theorem extractRegister_scan {a : α} (h : contract.extractRegister α = .ok (a, contract')) :
    contract' = contract.scan (FixedWidth.width α) := by
  simp only [extractRegister, map_eq_ok, Prod.exists, Stream.extract_eq_ok, Prod.mk.injEq] at h
  obtain ⟨a', ss, ⟨-, rfl, rfl⟩, rfl, rfl⟩ := h
  rfl

@[simp] theorem prestate_skip (n : Nat) : (contract.skip n).prestate = contract.prestate := rfl

@[simp] theorem prestate_scan (n : Nat) : (contract.scan n).prestate = contract.prestate := rfl

@[simp] theorem prestate_reset : contract.reset.prestate = contract.prestate := rfl

@[simp] theorem prestate_resetRegisters :
    contract.resetRegisters.prestate = contract.prestate := rfl

/-- Reading operands leaves the register script at its beginning. -/
theorem begins_skip (h0 : contract.resetRegisters = contract) (n : Nat) :
    (contract.skip n).resetRegisters = contract.skip n := by
  rw [← skip_resetRegisters, h0]

/-- The error message of a pre-state read does not matter when it succeeds. -/
theorem extractPreState_message {strError strError' : String} {s : Stream} {r : State × Stream}
    (h : extractPreState strError s = .ok r) : extractPreState strError' s = .ok r := by
  simp only [extractPreState, bind_eq_ok, Prod.exists, reject_eq_ok] at h ⊢
  exact h

theorem extractPreState_advance {strError : String} {s s' : Stream} {state : State}
    (h : extractPreState strError s = .ok (state, s')) : ∃ n, s' = s.advance n := by
  simp only [extractPreState, Register.extractState, bind_eq_ok, Prod.exists,
    Stream.extract_eq_ok, pure_eq_ok, Prod.mk.injEq] at h
  obtain ⟨_, _, ⟨-, -, rfl⟩, u, -, _, _, ⟨-, -, rfl⟩, _, _, ⟨-, -, rfl⟩, _, _, ⟨-, -, rfl⟩, _, _,
    ⟨-, -, rfl⟩, _, _, ⟨-, -, rfl⟩, vch, ss, hBytes, _, _, ⟨-, -, rfl⟩, -, rfl⟩ := h
  obtain ⟨n, -, rfl, -⟩ := Stream.extractBytes_advance hBytes
  simp only [Stream.advance_advance]
  exact ⟨_, rfl⟩

/-- Reading the pre-state moves the register cursor and nothing else. -/
theorem preState_scan {strError : String} {state : State}
    (h : contract.preState strError = .ok (state, contract')) :
    ∃ n, contract' = contract.scan n := by
  simp only [preState, map_eq_ok, Prod.exists, Prod.mk.injEq] at h
  obtain ⟨state', ss, hRead, -, rfl⟩ := h
  obtain ⟨n, rfl⟩ := extractPreState_advance hRead
  exact ⟨n, rfl⟩

/-- What a read at the beginning of the register script finds is the pre-state. -/
theorem preState_eq_ok (h0 : contract.resetRegisters = contract) {strError : String}
    {state : State} (h : contract.preState strError = .ok (state, contract')) :
    contract.prestate = some state ∧ ∃ n, contract' = contract.scan n := by
  refine ⟨?_, preState_scan h⟩
  simp only [preState, map_eq_ok, Prod.exists, Prod.mk.injEq] at h
  obtain ⟨state', ss, hRead, rfl, -⟩ := h
  have hReset : contract.ssRegister.reset = contract.ssRegister := congrArg Contract.ssRegister h0
  rw [prestate, hReset, extractPreState_message hRead]
  rfl

/-- The pre-state is what a read at the beginning of the register script finds. -/
theorem preState_of_prestate (h0 : contract.resetRegisters = contract) {state : State}
    (h : contract.prestate = some state) (strError : String) :
    ∃ n, contract.preState strError = .ok (state, contract.scan n) := by
  rw [prestate] at h
  cases hRead : extractPreState "" contract.ssRegister.reset with
  | error e =>
      rw [hRead] at h
      cases h
  | ok r =>
      obtain ⟨state', ss⟩ := r
      rw [hRead] at h
      obtain rfl := Option.some.inj h
      have hReset : contract.ssRegister.reset = contract.ssRegister :=
        congrArg Contract.ssRegister h0
      rw [hReset] at hRead
      obtain ⟨n, rfl⟩ := extractPreState_advance hRead
      exact ⟨n, by rw [preState, extractPreState_message hRead]; rfl⟩

/-- A read of the pre-state and the pre-state it finds. -/
theorem preState_iff (h0 : contract.resetRegisters = contract) {strError : String}
    {state : State} :
    (∃ c, contract.preState strError = .ok (state, c)) ↔ contract.prestate = some state := by
  constructor
  · rintro ⟨c, h⟩
    exact (preState_eq_ok h0 h).1
  · intro h
    obtain ⟨n, hRead⟩ := preState_of_prestate h0 h strError
    exact ⟨_, hRead⟩

theorem postState_scan {rt : Runtime} {state : State} {strMissing strInvalid : String}
    (h : contract.postState rt state strMissing strInvalid = .ok contract') :
    ∃ n, contract' = contract.scan n := by
  simp only [postState, bind_eq_ok, Prod.exists, pure_eq_ok] at h
  obtain ⟨nState, c, hMark, u, -, nChecksum, c', hSum, v, -, rfl⟩ := h
  obtain rfl := extractRegister_scan hMark
  obtain rfl := extractRegister_scan hSum
  exact ⟨_, scan_scan ..⟩

end Contract

end Nexus.Operation
