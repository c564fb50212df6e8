import Nexus.Legacy.Transaction

/-!
# Trust keys

The databases of the older ledger, and the record of a trust key: the block of its
first coinstake, and of its last, with the stake rate then.  The rate of a block is
that of the trust score that its coinstake states; scores are calculated from the
time since the last stake block of the key.
-/

namespace Nexus.Legacy

open Nexus.Lib.Bytes
open Nexus.Lib.Checked
open Nexus.Util
open Nexus.Ledger
open Nexus.LLD

/-! ## Databases -/

/-- The records of the legacy database that no contract reads.  They are written inside a
database transaction, where a write and an erase succeed. -/
structure LegacyRecords where
  /-- `("tx", hashTx)`. -/
  txs : Uint512 → Option Transaction := fun _ => none
  /-- `(hashTx, nOutput)`: the outputs that are spent. -/
  spends : Uint512 × UInt32 → Bool := fun _ => false
  /-- `("sequence", hashAddress)`. -/
  sequence : Uint256 → Option UInt32 := fun _ => none
  /-- `(hashAddress, nSequence)`: the events of an address, as aliases of transactions. -/
  events : Uint256 × UInt32 → Option Uint512 := fun _ => none

namespace LegacyRecords

variable (db : LegacyRecords)

def ReadTx (hashTx : Uint512) : Option Transaction := db.txs hashTx

def IsSpent (hashTx : Uint512) (nOutput : UInt32) : Bool := db.spends (hashTx, nOutput)

def WriteSpend (hashTx : Uint512) (nOutput : UInt32) : LegacyRecords :=
  { db with spends := Function.update db.spends (hashTx, nOutput) true }

def EraseSpend (hashTx : Uint512) (nOutput : UInt32) : LegacyRecords :=
  { db with spends := Function.update db.spends (hashTx, nOutput) false }

/-- The sequence of an address without one is 0. -/
def ReadSequence (hashAddress : Uint256) : UInt32 := (db.sequence hashAddress).getD 0

def WriteEvent (hashAddress : Uint256) (hashTx : Uint512) : LegacyRecords :=
  let nSequence := db.ReadSequence hashAddress
  { db with
    sequence := Function.update db.sequence hashAddress (some (nSequence + 1))
    events := Function.update db.events (hashAddress, nSequence) (some hashTx) }

def EraseEvent (hashAddress : Uint256) : Option LegacyRecords :=
  (db.sequence hashAddress).map fun nSequence =>
    { db with
      sequence := Function.update db.sequence hashAddress (some (nSequence - 1))
      events := Function.update db.events (hashAddress, nSequence - 1) none }

end LegacyRecords

/-- The record of a trust key.  The stake rate is a double, held by its bits. -/
structure TrustKey where
  vchPubKey : List UInt8 := []
  nVersion : UInt32 := 1
  hashGenesisBlock : Uint1024 := 0
  hashGenesisTx : Uint512 := 0
  nGenesisTime : UInt32 := 0
  hashLastBlock : Uint1024 := 0
  nLastBlockTime : UInt64 := 0
  nStakeRate : UInt64 := 0
  deriving DecidableEq, Repr

/-- The legacy databases and the trust database. -/
structure LegacySide where
  legacy : LegacyRecords := {}
  trust : Uint576 → Option TrustKey := fun _ => none

namespace LegacySide

variable (side : LegacySide)

def ReadTrustKey (cKey : Uint576) : Option TrustKey := side.trust cKey

def WriteTrustKey (cKey : Uint576) (trustKey : TrustKey) : LegacySide :=
  { side with trust := Function.update side.trust cKey (some trustKey) }

def EraseTrustKey (cKey : Uint576) : LegacySide :=
  { side with trust := Function.update side.trust cKey none }

@[simp] theorem trust_write (cKey : Uint576) (trustKey : TrustKey) :
    (side.WriteTrustKey cKey trustKey).trust = Function.update side.trust cKey (some trustKey) :=
  rfl

@[simp] theorem trust_erase (cKey : Uint576) :
    (side.EraseTrustKey cKey).trust = Function.update side.trust cKey none := rfl

end LegacySide

/-! ## Environment -/

/-- What `Solver` matches a script with. -/
inductive TransactionType where
  | TX_PUBKEY
  | TX_PUBKEYHASH
  | TX_SCRIPTHASH
  | TX_MULTISIG
  deriving DecidableEq

structure LegacyRuntime extends ChainRuntime where
  /-- `Solver`: the type of a script, and what it pushes. -/
  Solver : Script → Option (TransactionType × List (List UInt8))
  /-- `VerifySignature` of an input, with the transaction that it spends from. -/
  VerifySignature : Transaction → Transaction → Nat → Bool
  /-- `VerifyScript` of an input, with the script that it spends. -/
  VerifyScript : Script → Script → Transaction → Nat → Bool
  /-- `CoinstakeReward`, which is calculated in floating point. -/
  CoinstakeReward : Records → LegacySide → BlockState → Transaction → Result UInt64
  /-- The stake rate of a trust score. -/
  trustRate : UInt32 → UInt64
  /-- `ChainState::Synchronizing()`. -/
  Synchronizing : Bool
  /-- `ChainState`. -/
  chain : ChainState
  /-- `TAO::Ledger::hashGenesis`. -/
  hashFirst : Uint1024
  /-- The number of blocks that a search goes back. -/
  nFuel : Nat

/-- `uint576_t::SetBytes`: 18 words of 4 bytes each, the lowest word first. -/
def SetBytes (rt : Runtime) (vch : List UInt8) : Uint576 :=
  let byte (i : Nat) : Nat := (vch[i]?.getD (rt.heap vch i)).toNat
  BitVec.ofNat 576 (leNat ((List.range 72).map fun i =>
    UInt8.ofNat (byte (4 * (i / 4) + (3 - i % 4)))))

/-- `TrustKey` of a coinstake: the key that its output pays. -/
def Transaction.TrustKey (rt : LegacyRuntime) (tx : Transaction) : Result (List UInt8) := do
  let txout ← demand tx.vout.head? (.exception "vector::front")
  let (whichType, vSolutions) ← demand (rt.Solver txout.scriptPubKey)
    (.error "couldn't find trust key in script")
  reject (whichType ≠ .TX_PUBKEY) (.error "key not of public key type")
  demand vSolutions.head? (.exception "vector::front")

def TRUST_KEY_TIMESPAN : UInt32 := 259200
def TRUST_KEY_TIMESPAN_TESTNET : UInt32 := 10800
def TRUST_SCORE_MAX : UInt32 := 31449600
def TRUST_SCORE_MAX_TESTNET : UInt32 := 1310400

def trustTimespan (rt : Runtime) : UInt32 :=
  if rt.fTestNet then TRUST_KEY_TIMESPAN_TESTNET else TRUST_KEY_TIMESPAN

/-- The bits of 0.005. -/
def GENESIS_RATE : UInt64 := 0x3f747ae147ae147b

/-- `MinStakeInterval`. -/
def MinStakeInterval (rt : Runtime) (block : Block) : UInt32 :=
  if rt.fTestNet then 10
  else if block.nVersion < 7 then 120
  else if block.nVersion < 9 then 250
  else 60

namespace TrustKey

variable (rt : LegacyRuntime) (trustKey : TrustKey)

def IsNull : Prop :=
  trustKey.hashGenesisBlock = 0 ∧ trustKey.hashGenesisTx = 0 ∧ trustKey.nGenesisTime = 0 ∧
    trustKey.vchPubKey = []

instance : Decidable trustKey.IsNull := by
  unfold IsNull
  infer_instance

def Age (nTime : UInt64) : UInt64 :=
  if nTime < trustKey.nGenesisTime.toUInt64 then 0 else nTime - trustKey.nGenesisTime.toUInt64

/-- `BlockAge`: 0 when the last block is not found. -/
def BlockAge (db : Records) (state : BlockState) : UInt64 :=
  match db.ReadBlock trustKey.hashLastBlock with
  | some stateLast => state.nTime - stateLast.nTime
  | none => 0

def Expired (db : Records) (state : BlockState) : Prop :=
  (trustTimespan rt.toRuntime).toUInt64 < trustKey.BlockAge db state

instance (db : Records) (state : BlockState) : Decidable (trustKey.Expired rt db state) := by
  unfold Expired
  infer_instance

def CheckGenesis (block : BlockState) : Result Unit := do
  reject trustKey.IsNull (.error "")
  reject (block.nChannel ≠ CHANNEL.STAKE) (.error "genesis has to be proof of stake")
  reject (trustKey.nGenesisTime.toUInt64 ≠ block.nTime) (.error "genesis time mismatch")
  let coinstake ← demand block.vtx.head? (.exception "vector::front")
  reject (coinstake.2 ≠ trustKey.hashGenesisTx) (.error "genesis coinstake hash mismatch")
  reject (block.GetHash rt.toLedgerRuntime ≠ trustKey.hashGenesisBlock)
    (.error "genesis hash mismatch")

/-- `StakeRate` of a coinstake: 0 when it cannot be calculated. -/
def coinstakeRate (coinstakeTx : Transaction) (nVersion nTime : UInt32) : UInt64 :=
  if ¬ coinstakeTx.IsCoinStake then 0
  else if coinstakeTx.IsGenesis then GENESIS_RATE
  else if nVersion < 4 then 0
  else if nVersion = 4 then rt.trustRate (nTime - trustKey.nGenesisTime)
  else
    match coinstakeTx.ExtractTrust with
    | .ok (_, _, nTrustScore) => rt.trustRate nTrustScore
    | .error _ => 0

/-- `StakeRate` of a block, with its coinstake from disk. -/
def StakeRate (legacy : LegacyRecords) (block : BlockState) (nTime : UInt32) : Result UInt64 := do
  let coinstake ← demand block.vtx.head? (.exception "vector::front")
  match legacy.ReadTx coinstake.2 with
  | some coinstakeTx => return trustKey.coinstakeRate rt coinstakeTx block.nVersion nTime
  | none => return 0

/-- The record after a coinstake in a block, whose rate is calculated last. -/
def staked (legacy : LegacyRecords) (hashLastBlock : Uint1024) (state : BlockState) :
    Result TrustKey := do
  let trustKey := { trustKey with hashLastBlock, nLastBlockTime := state.nTime }
  let nStakeRate ← trustKey.StakeRate rt legacy state state.nTime.toUInt32
  return { trustKey with nStakeRate }

end TrustKey

/-- `FindGenesis`: the first coinstake of a key, in the stake blocks before `state`. -/
def searchGenesis (rt : LegacyRuntime) (db : Records) (legacy : LegacyRecords) (cKey : Uint576) :
    Nat → BlockState → Result TrustKey
  | 0, _ => .error (.exception "out of fuel")
  | nFuel + 1, state => do
      let (state, fFound) ← (← state.Prev db).GetLastState db CHANNEL.STAKE rt.nFuel
      reject (fFound = false) (.error "couldn't find previous block")
      let coinstake ← demand state.vtx.head? (.exception "vector::front")
      let tx ← demand (legacy.ReadTx coinstake.2) (.error "failed to read coinstake from legacy DB")
      let vTrustKey ← tx.TrustKey rt
      if SetBytes rt.toRuntime vTrustKey = cKey ∧ tx.IsGenesis then
        return {
          vchPubKey := vTrustKey
          hashGenesisBlock := state.GetHash rt.toLedgerRuntime
          hashGenesisTx := tx.GetHash rt.toRuntime
          nGenesisTime := state.nTime.toUInt32 }
      else searchGenesis rt db legacy cKey nFuel state

def FindGenesis (rt : LegacyRuntime) (db : Records) (legacy : LegacyRecords) (cKey : Uint576)
    (hashTrustBlock : Uint1024) : Result TrustKey := do
  let state ← demand (db.ReadBlock hashTrustBlock) (.error "couldn't find hash trust block")
  reject (hashTrustBlock = rt.hashFirst) (.error "")
  searchGenesis rt db legacy cKey rt.nFuel state

namespace Transaction

variable (rt : LegacyRuntime) (db : Records) (legacy : LegacyRecords) (tx : Transaction)

/-- The score and the sequence that a coinstake continues, from the last one of its key. -/
def previousScore (stateLast : BlockState) (trustKey : Legacy.TrustKey) (txLast : Transaction)
    (nSequence : UInt32) : Result UInt32 := do
  if txLast.IsGenesis then
    reject (nSequence ≠ 1) (.error "first trust block and sequence is not 1: ")
    return 0
  else if stateLast.nVersion < 5 then
    reject (nSequence ≠ 1) (.error "version 4 block sequence number is ")
    reject (trustKey.Expired rt db rt.chain.stateBest) (.error "version 4 key expired")
    return (trustKey.Age rt.chain.stateBest.nTime).toUInt32
  else
    let (_, nSequencePrev, nScorePrev) ← txLast.ExtractTrust
    reject (nSequence ≠ nSequencePrev + 1) (.error "previous sequence broken")
    return nScorePrev

/-- The score after some time: it grows with the time, and shrinks past the timespan. -/
def nextScore (nScorePrev nTimespan : UInt32) : UInt32 :=
  let nScore :=
    if nTimespan < trustTimespan rt.toRuntime then nScorePrev + nTimespan
    else
      let nPenalty := (nTimespan - trustTimespan rt.toRuntime) * 3
      if nScorePrev < nPenalty then 0 else nScorePrev - nPenalty
  min nScore (if rt.fTestNet then TRUST_SCORE_MAX_TESTNET else TRUST_SCORE_MAX)

/-- `CheckTrust`.  That the script names another last block than the record is only logged. -/
def CheckTrust (state : BlockState) (trustKey : Legacy.TrustKey) : Result Unit := do
  let (hashLastBlock, nSequence, nTrustScore) ← tx.ExtractTrust
  let stateLast ← demand (db.ReadBlock hashLastBlock) (.error "last stake block not in database")
  let statePrev ← demand (db.ReadBlock state.hashPrevBlock) (.error "prev block not in database")
  let coinstake ← demand stateLast.vtx.head? (.exception "vector::front")
  let txLast ← demand (legacy.ReadTx coinstake.2) (.error "last state coinstake tx not found")
  reject (state.nHeight - stateLast.nHeight < MinStakeInterval rt.toRuntime state.toBlock)
    (.error "trust key interval below minimum interval ")
  let keyLast ← txLast.TrustKey rt
  reject (SetBytes rt.toRuntime keyLast ≠ SetBytes rt.toRuntime trustKey.vchPubKey)
    (.error "trust key in previous stake block ")
  let nScorePrev ← previousScore rt db stateLast trustKey txLast nSequence
  reject (nTrustScore ≠
      nextScore rt nScorePrev (statePrev.nTime - stateLast.nTime).toUInt32)
    (.error "published trust score ")

end Transaction

end Nexus.Legacy
