import Nexus.Ledger.Transaction

/-!
# The databases of a full node

The register, ledger, contract and legacy databases as their records on disk.
Each function is the `FLAGS::BLOCK` path of its source; inside a database
transaction the pending records read back as written, so every record type is a
partial map.  Of the memory overlays only the states of the pool are here, which
a lookup reads before the disk.

`IndexTrust` writes no record of its own: the `genesis` key is an alias of the
state record it points at.
-/

namespace Nexus.LLD

open Nexus.Lib.Bytes
open Nexus.Lib.Checked
open Nexus.Util
open Nexus.Register
open Nexus.Operation
open Nexus.Ledger

/-! ## Register database -/

structure RegisterDB where
  /-- `("state", hashRegister)`. -/
  states : Uint256 → Option State := fun _ => none
  /-- `("genesis", hashGenesis)`, by the address of the state it is an alias of. -/
  trust : Uint256 → Option Address := fun _ => none
  /-- The pending states of the memory pool. -/
  memory : Uint256 → Option State := fun _ => none
  /-- The addresses of the states written, in order, as the journal records them. -/
  journal : List Address := []

namespace RegisterDB

def ReadState (db : RegisterDB) (hashRegister : Address) : Option State := db.states hashRegister

def HasState (db : RegisterDB) (hashRegister : Address) : Bool := (db.states hashRegister).isSome

/-- `ReadState` with `FLAGS::LOOKUP`. -/
def LookupState (db : RegisterDB) (hashRegister : Address) : Option State :=
  db.memory hashRegister <|> db.states hashRegister

/-- A pending state that equals the one written is dropped from the pool. -/
def WriteState (rt : Runtime) (db : RegisterDB) (hashRegister : Address) (state : State) :
    RegisterDB :=
  { db with
    states := Function.update db.states hashRegister (some state)
    memory :=
      if (db.memory hashRegister).any (State.Equal rt state) then
        Function.update db.memory hashRegister none
      else db.memory
    journal := db.journal ++ [hashRegister] }

def EraseState (db : RegisterDB) (hashRegister : Address) : RegisterDB :=
  { db with
    states := Function.update db.states hashRegister none
    memory := Function.update db.memory hashRegister none }

def IndexTrust (db : RegisterDB) (hashGenesis : Uint256) (hashRegister : Address) : RegisterDB :=
  { db with trust := Function.update db.trust hashGenesis (some hashRegister) }

def HasTrust (db : RegisterDB) (hashGenesis : Uint256) : Bool := (db.trust hashGenesis).isSome

/-- The address of the trust account of a genesis. -/
def trustAddress (rt : Runtime) (hashGenesis : Uint256) : Address :=
  Address.ofKey rt (bytesOf "trust") hashGenesis Address.TRUST

/-- `WriteTrust` writes the state and wipes the pending one. -/
def WriteTrust (rt : Runtime) (db : RegisterDB) (hashGenesis : Uint256) (state : State) :
    RegisterDB :=
  { db with
    states := Function.update db.states (trustAddress rt hashGenesis) (some state)
    memory := Function.update db.memory (trustAddress rt hashGenesis) none
    journal := db.journal ++ [trustAddress rt hashGenesis] }

def ReadTrust (db : RegisterDB) (hashGenesis : Uint256) : Option State :=
  db.trust hashGenesis >>= db.states

def EraseTrust (db : RegisterDB) (hashGenesis : Uint256) : RegisterDB :=
  { db with trust := Function.update db.trust hashGenesis none }

end RegisterDB

/-! ## Ledger database -/

/-- Key of a temporal proof. -/
abbrev ProofKey := Uint256 × Uint512 × UInt32

/-- Key of a contract of a transaction. -/
abbrev ContractKey := Uint512 × UInt32

structure LedgerDB where
  /-- Transactions by hash. -/
  txs : Uint512 → Option Transaction := fun _ => none
  /-- Temporal proofs. -/
  proofs : ProofKey → Bool := fun _ => false
  /-- The claimed part of a debit. -/
  claimed : ContractKey → Option UInt64 := fun _ => none
  /-- `("sequence", hashAddress)`: the number of events of an address. -/
  sequence : Uint256 → Option UInt32 := fun _ => none
  /-- The events of an address, as aliases of transactions. -/
  events : Uint256 × UInt32 → Option Uint512 := fun _ => none
  /-- `("stake", hashGenesis)`: the last stake transaction. -/
  stake : Uint256 → Option Uint512 := fun _ => none

namespace LedgerDB

def ReadTx (db : LedgerDB) (hashTx : Uint512) : Option Transaction := db.txs hashTx

def HasProof (db : LedgerDB) (hashProof : Uint256) (hashTx : Uint512) (nContract : UInt32) : Bool :=
  db.proofs (hashProof, hashTx, nContract)

def WriteProof (db : LedgerDB) (hashProof : Uint256) (hashTx : Uint512) (nContract : UInt32) :
    LedgerDB :=
  { db with proofs := Function.update db.proofs (hashProof, hashTx, nContract) true }

def EraseProof (db : LedgerDB) (hashProof : Uint256) (hashTx : Uint512) (nContract : UInt32) :
    LedgerDB :=
  { db with proofs := Function.update db.proofs (hashProof, hashTx, nContract) false }

def ReadClaimed (db : LedgerDB) (hashTx : Uint512) (nContract : UInt32) : Option UInt64 :=
  db.claimed (hashTx, nContract)

def WriteClaimed (db : LedgerDB) (hashTx : Uint512) (nContract : UInt32) (nClaimed : UInt64) :
    LedgerDB :=
  { db with claimed := Function.update db.claimed (hashTx, nContract) (some nClaimed) }

def ReadSequence (db : LedgerDB) (hashAddress : Uint256) : Option UInt32 := db.sequence hashAddress

def WriteSequence (db : LedgerDB) (hashAddress : Uint256) (nSequence : UInt32) : LedgerDB :=
  { db with sequence := Function.update db.sequence hashAddress (some nSequence) }

def WriteEvent (db : LedgerDB) (hashAddress : Uint256) (hashTx : Uint512) : LedgerDB :=
  let nSequence := (db.ReadSequence hashAddress).getD 0
  let db := db.WriteSequence hashAddress (nSequence + 1)
  { db with events := Function.update db.events (hashAddress, nSequence) (some hashTx) }

/-- `EraseEvent` fails when the address has no sequence record. -/
def EraseEvent (db : LedgerDB) (hashAddress : Uint256) : Option LedgerDB :=
  (db.ReadSequence hashAddress).map fun nSequence =>
    let db := db.WriteSequence hashAddress (nSequence - 1)
    { db with events := Function.update db.events (hashAddress, nSequence - 1) none }

def WriteStake (db : LedgerDB) (hashGenesis : Uint256) (hashLast : Uint512) : LedgerDB :=
  { db with stake := Function.update db.stake hashGenesis (some hashLast) }

def EraseStake (db : LedgerDB) (hashGenesis : Uint256) : LedgerDB :=
  { db with stake := Function.update db.stake hashGenesis none }

end LedgerDB

/-! ## Contract database -/

structure ContractDB where
  /-- The caller that fulfilled a conditional contract. -/
  contracts : ContractKey → Option Uint256 := fun _ => none

namespace ContractDB

def HasContract (db : ContractDB) (key : ContractKey) : Bool := (db.contracts key).isSome

def ReadContract (db : ContractDB) (key : ContractKey) : Option Uint256 := db.contracts key

def WriteContract (db : ContractDB) (key : ContractKey) (hashCaller : Uint256) : ContractDB :=
  { db with contracts := Function.update db.contracts key (some hashCaller) }

def EraseContract (db : ContractDB) (key : ContractKey) : ContractDB :=
  { db with contracts := Function.update db.contracts key none }

end ContractDB

/-! ## Legacy database -/

/-- An output of a legacy transaction. -/
structure TxOut where
  nValue : Int64
  scriptPubKey : List UInt8
  deriving DecidableEq, Repr

structure LegacyDB where
  /-- The outputs of legacy transactions, by hash. -/
  vout : Uint512 → Option (List TxOut) := fun _ => none
  /-- Converted trust keys. -/
  trustConversion : Uint576 → Bool := fun _ => false
  /-- What `BuildMigrateDebit` finds for a migration transaction: the trust score, the
  last stake and the trust key. -/
  migration : Uint512 → Option (UInt32 × Uint512 × Uint576) := fun _ => none

namespace LegacyDB

def HasTrustConversion (db : LegacyDB) (hashTrust : Uint576) : Bool := db.trustConversion hashTrust

def WriteTrustConversion (db : LegacyDB) (hashTrust : Uint576) : LegacyDB :=
  { db with trustConversion := Function.update db.trustConversion hashTrust true }

def EraseTrustConversion (db : LegacyDB) (hashTrust : Uint576) : LegacyDB :=
  { db with trustConversion := Function.update db.trustConversion hashTrust false }

end LegacyDB

/-- The databases of a node. -/
structure Disk where
  register : RegisterDB := {}
  ledger : LedgerDB := {}
  contract : ContractDB := {}
  legacy : LegacyDB := {}

/-! ## Reading contracts -/

def OP_RETURN : UInt8 := 0x6a

/-- The contract `ReadContract` makes of a legacy output: a debit from the wildcard
address to the register the script names. -/
def legacyContract (hashAccount : Uint256) (nValue : UInt64) : Contract where
  ssOperation :=
    { vchData := FixedWidth.encode OP.DEBIT ++ FixedWidth.encode WILDCARD_ADDRESS ++
        FixedWidth.encode hashAccount ++ FixedWidth.encode nValue ++
        FixedWidth.encode (0 : UInt64) }
  nVersion := 2

/-- `LedgerDB::ReadContract`. -/
def Disk.ReadContract (rt : Runtime) (disk : Disk) (hashTx : Uint512) (nContract : UInt32) :
    Result Contract :=
  if GetType hashTx = TRITIUM then do
    let tx ← demand (disk.ledger.ReadTx hashTx) (.exception "failed to read contract")
    tx.contract rt nContract
  else if GetType hashTx = LEGACY then do
    let vout ← demand (disk.legacy.vout hashTx) (.exception "failed to get legacy transaction")
    let txout ← demand vout[nContract.toNat]? (.exception "contract output out of bounds")
    reject (txout.scriptPubKey.length ≠ 34) (.exception "invalid script size ")
    reject (txout.scriptPubKey[33]? ≠ some OP_RETURN) (.exception "last OP has to be OP_RETURN")
    return legacyContract (FixedWidth.decode ((txout.scriptPubKey.drop 1).take 32))
      txout.nValue.toUInt64
  else .error (.exception "invalid txid type")

end Nexus.LLD
