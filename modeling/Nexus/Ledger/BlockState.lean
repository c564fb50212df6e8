import Nexus.Util.Runtime

/-!
# Block states

A block with the chain state that is recorded for it.  The fields of a block and
its time are hashed and never change; the rest is written when the block is
indexed, connected, and connected or disconnected at its tip.

`operator==` compares less than the hash does: the prime offsets are hashed from
version 7 on, and not compared.
-/

namespace Nexus.Ledger

open Nexus.Lib.Bytes
open Nexus.Util

/-- Channels of a block. -/
def CHANNEL.STAKE : UInt32 := 0
def CHANNEL.PRIME : UInt32 := 1
def CHANNEL.HASH : UInt32 := 2
def CHANNEL.PRIVATE : UInt32 := 3

/-- Types of the transactions of a block. -/
def TRANSACTION.LEGACY : UInt8 := 0x00
def TRANSACTION.TRITIUM : UInt8 := 0x01

/-- A signature chain that is paid from a reserve: its genesis, the hash of its first key,
and its share in thousandths. -/
structure Payout where
  hashGenesis : Uint256
  hashKey : Uint256
  nShare : UInt32

/-- The environment of the ledger layer. -/
structure LedgerRuntime extends Runtime where
  /-- `LLC::SK1024` of some bytes. -/
  SK1024 : List UInt8 → Uint1024
  /-- `ChainState::Genesis()`. -/
  hashGenesis : Uint1024
  /-- `config::GetBoolArg("-private")`. -/
  fPrivate : Bool
  CurrentBlockVersion : UInt32
  StartBlockTimelock : UInt32 → UInt64
  /-- The tables of `ambassador.h` and `developer.h`, by block version. -/
  Ambassador : UInt32 → List Payout
  Developer : UInt32 → List Payout
  /-- The table `DEVELOPER`, which has no version. -/
  DEVELOPER : List Payout
  /-- `GetCoinstakeReward`, which is calculated in floating point. -/
  GetCoinstakeReward : UInt64 → UInt64 → UInt64 → Bool → UInt64

structure Block where
  nVersion : UInt32 := 0
  hashPrevBlock : Uint1024 := 0
  hashMerkleRoot : Uint512 := 0
  nChannel : UInt32 := 0
  nHeight : UInt32 := 0
  nBits : UInt32 := 0
  nNonce : UInt64 := 0
  vOffsets : List UInt8 := []
  vchBlockSig : List UInt8 := []
  /-- A transaction of the block is in conflict with another. -/
  fConflicted : Bool := false
  deriving DecidableEq

namespace Block

/-- The hashed fields, from `nVersion` to `nBits`. -/
def headerBytes (block : Block) : List UInt8 :=
  FixedWidth.encode block.nVersion ++ FixedWidth.encode block.hashPrevBlock ++
    FixedWidth.encode block.hashMerkleRoot ++ FixedWidth.encode block.nChannel ++
    FixedWidth.encode block.nHeight ++ FixedWidth.encode block.nBits

def IsNull (block : Block) : Prop := block.nBits = 0

instance (block : Block) : Decidable block.IsNull := by
  unfold IsNull
  infer_instance

def ProofHash (rt : LedgerRuntime) (block : Block) : Uint1024 :=
  if block.nChannel = CHANNEL.PRIME then rt.SK1024 block.headerBytes
  else rt.SK1024 (block.headerBytes ++ FixedWidth.encode block.nNonce)

def IsProofOfWork (block : Block) : Prop :=
  block.nChannel = CHANNEL.PRIME ∨ block.nChannel = CHANNEL.HASH

instance (block : Block) : Decidable block.IsProofOfWork := by
  unfold IsProofOfWork
  infer_instance

def IsPrivate (block : Block) : Prop := block.nChannel = CHANNEL.PRIVATE

instance (block : Block) : Decidable block.IsPrivate := by
  unfold IsPrivate
  infer_instance

end Block

/-- Weights and reserves are by channel and by type of reserve. -/
structure BlockState extends Block where
  nTime : UInt64 := 0
  /-- The transactions: the type and the hash of each. -/
  vtx : List (UInt8 × Uint512) := []
  nChainTrust : UInt64 := 0
  nMoneySupply : UInt64 := 0
  nMint : Int32 := 0
  nFees : UInt64 := 0
  nChannelHeight : UInt32 := 0
  nChannelWeight : Fin 3 → BitVec 128 := fun _ => 0
  nReleasedReserve : Fin 3 → Int64 := fun _ => 0
  nFeeReserve : UInt64 := 0
  hashNextBlock : Uint1024 := 0
  hashCheckpoint : Uint1024 := 0
  deriving DecidableEq

namespace BlockState

def SignatureHash (rt : LedgerRuntime) (state : BlockState) : Uint1024 :=
  if 7 ≤ state.nVersion then
    rt.SK1024 (state.headerBytes ++ FixedWidth.encode state.nNonce ++
      FixedWidth.encode state.nTime ++ serializeBytes state.vOffsets)
  else
    rt.SK1024 (state.headerBytes ++ FixedWidth.encode state.nNonce ++
      FixedWidth.encode state.nTime.toUInt32)

def GetHash (rt : LedgerRuntime) (state : BlockState) : Uint1024 :=
  if state.nVersion < 5 then state.ProofHash rt else state.SignatureHash rt

/-- `operator==`. -/
def Equal (state state' : BlockState) : Prop :=
  state.nVersion = state'.nVersion ∧ state.hashPrevBlock = state'.hashPrevBlock ∧
    state.hashMerkleRoot = state'.hashMerkleRoot ∧ state.nChannel = state'.nChannel ∧
    state.nHeight = state'.nHeight ∧ state.nBits = state'.nBits ∧
    state.nNonce = state'.nNonce ∧ state.nTime = state'.nTime

instance (state state' : BlockState) : Decidable (state.Equal state') := by
  unfold Equal
  infer_instance

/-- What is written to disk: the flag of a conflict is not. -/
def record (state : BlockState) : BlockState :=
  { state with fConflicted := false }

end BlockState

end Nexus.Ledger
