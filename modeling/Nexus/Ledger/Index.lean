import Mathlib.Data.Fin.VecNotation
import Nexus.Ledger.State
import Nexus.Legacy.Transaction

/-!
# Indexing a block

What `Index` calculates for a block before it is written: its place in its
channel, the reserves that its producer takes its rewards from, the pending
checkpoint, and its weight.  From version 7 on the producer is the last
transaction; its contracts pay the miner first, then the ambassadors and the
developers when they are due.  Then `Index` decides whether the block is better
than the best one.
-/

namespace Nexus.Ledger

open Nexus.Lib.Checked
open Nexus.Util
open Nexus.Register
open Nexus.Operation
open Nexus.LLD

def NXS_COIN : Int64 := 1000000
def AMBASSADOR_PAYOUT_THRESHOLD : UInt32 := 100
def AMBASSADOR_PAYOUT_THRESHOLD_TESTNET : UInt32 := 5
def DEVELOPER_PAYOUT_THRESHOLD : UInt32 := 1000
def DEVELOPER_PAYOUT_THRESHOLD_TESTNET : UInt32 := 10
def CHECKPOINT_TIMESPAN : UInt32 := 30

/-- `GenesisType`. -/
def GenesisType (rt : Runtime) : UInt8 := if rt.fTestNet then 0xa2 else 0xa1

/-! ## Reserves -/

/-- A reserve that signature chains are paid from at an interval of blocks. -/
structure Reserve where
  strName : String
  nType : Fin 3
  nThreshold : UInt32
  /-- What is left in the reserve. -/
  nKeep : Int64
  table : List Payout

def Ambassador (rt : LedgerRuntime) (nVersion : UInt32) : Reserve where
  strName := "ambassador"
  nType := 1
  nThreshold :=
    if rt.fTestNet then AMBASSADOR_PAYOUT_THRESHOLD_TESTNET else AMBASSADOR_PAYOUT_THRESHOLD
  nKeep := 33 * NXS_COIN
  table := rt.Ambassador nVersion

def Developer (rt : LedgerRuntime) (nVersion : UInt32) : Reserve where
  strName := "developer"
  nType := 2
  nThreshold :=
    if rt.fTestNet then DEVELOPER_PAYOUT_THRESHOLD_TESTNET else DEVELOPER_PAYOUT_THRESHOLD
  nKeep := 3 * NXS_COIN
  table := rt.Developer nVersion

namespace Reserve

variable (reserve : Reserve) (stateLast : BlockState)

/-- The total in the reserve. -/
def nBalance : Int64 := stateLast.nReleasedReserve reserve.nType - reserve.nKeep

/-- The chains that are paid after a block. -/
def due : List Payout :=
  if stateLast.nChannelHeight % reserve.nThreshold = 0 ∧ 0 < reserve.nBalance stateLast then
    reserve.table
  else []

/-- The total to be credited to a chain. -/
def nCredit (payout : Payout) : UInt64 :=
  (reserve.nBalance stateLast * payout.nShare.toUInt64.toInt64 / 1000).toUInt64

end Reserve

/-! ## Rewards -/

namespace Transaction

variable (rt : ChainRuntime) (tx : Transaction)

/-- The genesis that a coinbase contract names, and what follows it. -/
def coinbaseGenesis (strName : String) (n : UInt32) : Result (Uint256 × Stream) := do
  let contract ← tx.contract rt.toRuntime n
  let ss ← contract.ssOperation.seekBegin 1
  let (genesis, ss) ← ss.extract Uint256
  reject (GetType genesis ≠ GenesisType rt.toRuntime)
    (.error ("invalid " ++ strName ++ " genesis-id "))
  return (genesis, ss)

/-- The amount of a coinbase contract, which follows the genesis. -/
def coinbaseValue (n : UInt32) : Result UInt64 := do
  let (_, ss) ← coinbaseGenesis rt tx "coinbase" n
  let (nValue, _) ← ss.extract UInt64
  return nValue

/-- One chain is paid from a reserve, by the next contract. -/
def payChain (reserve : Reserve) (stateLast : BlockState) (x : UInt32 × UInt64)
    (payout : Payout) : Result (UInt32 × UInt64) := do
  let (genesis, ss) ← coinbaseGenesis rt tx reserve.strName x.1
  reject (genesis ≠ payout.hashGenesis) (.error (reserve.strName ++ " genesis mismatch "))
  let (nValue, _) ← ss.extract UInt64
  reject (nValue ≠ reserve.nCredit stateLast payout)
    (.error ("invalid " ++ reserve.strName ++ " rewards="))
  return (x.1 + 1, x.2 + nValue)

/-- The chains that are due are paid from a reserve: the next contract, and the sum. -/
def payReserve (reserve : Reserve) (stateLast : BlockState) (nContract : UInt32) :
    Result (UInt32 × UInt64) :=
  (reserve.due stateLast).foldlM (payChain rt tx reserve stateLast) (nContract, 0)

/-- The rewards of the first contracts, for the miner. -/
def minerRewards (nSize : UInt32) : Result UInt64 :=
  (List.range nSize.toNat).foldlM
    (fun nRewards n => (coinbaseValue rt tx (UInt32.ofNat n)).map (nRewards + ·)) 0

/-- The rewards of a producer, by type of reserve. -/
def coinbaseRewards (db : Records) (state statePrev stateLast : BlockState) :
    Result (Fin 3 → UInt64) := do
  let ambassador := Ledger.Ambassador rt.toLedgerRuntime state.nVersion
  let developer := Ledger.Developer rt.toLedgerRuntime state.nVersion
  let nSize := UInt32.ofNat tx.vContracts.length -
    UInt32.ofNat (ambassador.due stateLast).length - UInt32.ofNat (developer.due stateLast).length
  let (nContract, nAmbassador) ← payReserve rt tx ambassador stateLast nSize
  let (_, nDeveloper) ← payReserve rt tx developer stateLast nContract
  let nMiner ← minerRewards rt tx nSize
  reject (nMiner ≠ rt.GetCoinbaseReward db statePrev state.nChannel 0) (.error "miner reward=")
  return ![nMiner, nAmbassador, nDeveloper]

end Transaction

/-- The rewards of a legacy coinbase, by type of reserve: the last two outputs are of the
ambassadors and the developers.  Without two outputs the vector is read out of its bounds. -/
def legacyRewards (tx : Legacy.Transaction) : Result (Fin 3 → UInt64) := do
  let nSize := tx.vout.length
  let ambassador ← demand tx.vout[nSize - 2]? (.exception "vector::operator[]")
  reject (nSize < 2) (.exception "vector::operator[]")
  let developer ← demand tx.vout[nSize - 1]? (.exception "vector::operator[]")
  let nMiner := (tx.vout.take (nSize - 2)).foldl (fun n txout => n + txout.nValue.toUInt64) 0
  return ![nMiner, ambassador.nValue.toUInt64, developer.nValue.toUInt64]

/-- `IsNewTimespan`. -/
def IsNewTimespan (db : Records) (hashCheckpoint : Uint1024) (state : BlockState) : Bool :=
  if hashCheckpoint = 0 then true
  else
    match db.ReadBlock state.hashPrevBlock, db.ReadBlock state.hashCheckpoint with
    | none, _ => true
    | some _, none => false
    | some statePrev, some stateCheck =>
        let nFirstMinutes := ((state.nTime - stateCheck.nTime) / 60).toUInt32
        let nLastMinutes := ((statePrev.nTime - stateCheck.nTime) / 60).toUInt32
        nFirstMinutes != nLastMinutes && CHECKPOINT_TIMESPAN ≤ nFirstMinutes

namespace BlockState

variable {σ : Type} (rt : ChainRuntime) (readLegacy : σ → Uint512 → Option Legacy.Transaction)

/-- `ReadTx` with `FLAGS::MEMPOOL`. -/
def readPool (node : Node σ) (hash : Uint512) : Option Transaction :=
  node.pool.find hash <|> node.db.ledger.ReadTx hash

/-- The rewards of the producer of a block. -/
def rewards (node : Node σ) (state statePrev stateLast : BlockState) :
    Result (Fin 3 → UInt64) := do
  if state.nVersion < 7 then
    let proof ← demand state.vtx.head? (.exception "vector::operator[]")
    let tx ← demand (readLegacy node.side proof.2) (.error "cannot get legacy coinbase tx")
    reject (¬ tx.IsCoinBase) (.error "first tx must be coinbase")
    legacyRewards tx
  else
    let proof ← demand state.vtx.getLast? (.exception "vector::back")
    let tx ← demand (readPool node proof.2) (.error "cannot get ledger coinbase tx")
    reject ((← tx.IsCoinBase) = false) (.error "last tx must be producer")
    tx.coinbaseRewards rt node.db state statePrev stateLast

/-- The rewards of one type are taken from their reserve, and minted. -/
def release (db : Records) (stateLast : BlockState) (nCoinbaseRewards : Fin 3 → UInt64)
    (state : BlockState) (nType : Fin 3) : Result BlockState := do
  let nReserve := (stateLast.nReleasedReserve nType).toUInt64 +
    rt.GetReleasedReserve db state state.nChannel nType
  reject (state.nVersion ≠ 2 ∧ nReserve ≤ nCoinbaseRewards nType) (.error "out of reserve limits")
  return { state with
    nReleasedReserve :=
      Function.update state.nReleasedReserve nType (nReserve - nCoinbaseRewards nType).toInt64
    nMint := addMint state.nMint (nCoinbaseRewards nType) }

/-- The rewards of proof of work. -/
def releaseAll (node : Node σ) (statePrev stateLast state : BlockState) : Result BlockState := do
  if state.IsProofOfWork then
    let nCoinbaseRewards ← rewards rt readLegacy node state statePrev stateLast
    [0, 1, 2].foldlM (release rt node.db stateLast nCoinbaseRewards) state
  else return state

/-- The weight of a block is added to its channel. -/
def addWeight (db : Records) (state : BlockState) : Result BlockState := do
  if state.IsPrivate then return state
  else
    let nWeight ← rt.Weight db state
    if h : state.nChannel.toNat < 3 then
      let nChannel : Fin 3 := ⟨state.nChannel.toNat, h⟩
      return { state with
        nChannelWeight := Function.update state.nChannelWeight nChannel
          (state.nChannelWeight nChannel + BitVec.ofNat 128 nWeight.toNat) }
    else .error (.exception "nChannelWeight[nChannel]")

/-- What `Index` calculates before the block is written. -/
def indexed (nFuel : Nat) (node : Node σ) (state : BlockState) : Result BlockState := do
  let statePrev ← state.Prev node.db
  reject statePrev.IsNull (.error " block state not found")
  let (stateLast, _) ← GetLastState node.db state.nChannel nFuel statePrev
  let state := { state with
    nChannelWeight := statePrev.nChannelWeight
    nChannelHeight := stateLast.nChannelHeight + 1
    nFeeReserve := stateLast.nFeeReserve }
  let state ← releaseAll rt readLegacy node statePrev stateLast state
  let state := { state with
    hashCheckpoint :=
      if IsNewTimespan node.db node.chain.hashCheckpoint statePrev then
        state.GetHash rt.toLedgerRuntime
      else statePrev.hashCheckpoint }
  let state ← addWeight rt node.db state
  let nTrust ← state.Trust node.db
  return { state with nChainTrust := statePrev.nChainTrust + nTrust }

variable {rt} {db : Records} {state state' : BlockState}

/-- A weight is added to a channel, and nothing else is changed. -/
theorem addWeight_eq (h : addWeight rt db state = .ok state') :
    ∃ nChannelWeight, state' = { state with nChannelWeight } := by
  unfold addWeight at h
  split at h
  · exact ⟨_, (pure_eq_ok.mp h).symm⟩
  · rw [bind_eq_ok] at h
    obtain ⟨nWeight, -, h⟩ := h
    split at h
    · exact ⟨_, (pure_eq_ok.mp h).symm⟩
    · cases h

end BlockState

end Nexus.Ledger
