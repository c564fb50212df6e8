import Nexus.LLD.Records

/-!
# The chain of blocks

Reading back along the chain, and the state of the best chain that is held in
memory beside the records.
-/

namespace Nexus.Ledger

open Nexus.Lib.Checked
open Nexus.Util
open Nexus.LLD

/-- What is calculated from earlier blocks, in floating point or over the whole chain. -/
structure ChainRuntime extends LedgerRuntime where
  /-- `GetCoinbaseReward` after a block, by channel and type of reserve. -/
  GetCoinbaseReward : Records → BlockState → UInt32 → Fin 3 → UInt64
  /-- `GetReleasedReserve` of a block, by channel and type of reserve. -/
  GetReleasedReserve : Records → BlockState → UInt32 → Fin 3 → UInt64
  /-- `BlockState::Weight`. -/
  Weight : Records → BlockState → Result UInt64
  /-- `CheckConsistency` from a stake transaction: the score, if it was inconsistent. -/
  CheckConsistency : Records → Uint512 → Option UInt64

/-- `ChainState`, as far as a block is set to be the best with it. -/
structure ChainState where
  stateBest : BlockState := {}
  stateGenesis : Option BlockState := none
  hashBestChain : Uint1024 := 0
  hashCheckpoint : Uint1024 := 0
  nCheckpointHeight : UInt32 := 0
  nBestHeight : UInt32 := 0
  nBestChainTrust : UInt64 := 0

/-- The environment of a contract, which reads the best block as it is in memory. -/
def ChainState.runtime (chain : ChainState) (rt : LedgerRuntime) : Runtime :=
  { rt.toRuntime with
    nBestHeight := chain.stateBest.nHeight
    nBestMoneySupply := chain.stateBest.nMoneySupply
    nBestTime := chain.stateBest.nTime }

namespace BlockState

/-- `Prev`: the block before, or the null state before the first block. -/
def Prev (db : Records) (state : BlockState) : Result BlockState :=
  if state.hashPrevBlock = 0 then .ok {}
  else demand (db.ReadBlock state.hashPrevBlock) (.exception "failed to read previous block state ")

/-- `GetLastState`: the last block of a channel, from a block backwards.  Without one the search
ends at the first block. -/
def GetLastState (db : Records) (nChannel : UInt32) : Nat → BlockState → Result (BlockState × Bool)
  | 0, _ => .error (.exception "out of fuel")
  | nFuel + 1, state =>
      if state.nHeight = 0 then .ok (state, false)
      else if state.nChannel = nChannel then .ok (state, true)
      else do
        let state ← state.Prev db
        if state.IsNull then return (state, false) else GetLastState db nChannel nFuel state

/-- `Trust`: more for a block whose channel is not that of the block before. -/
def Trust (db : Records) (state : BlockState) : Result UInt64 := do
  let prev ← state.Prev db
  return if ¬ prev.IsNull ∧ prev.nChannel ≠ state.nChannel then 3 else 1

/-- `IsInMainChain`. -/
def IsInMainChain (rt : LedgerRuntime) (chain : ChainState) (state : BlockState) : Prop :=
  state.hashNextBlock ≠ 0 ∨ state.GetHash rt = chain.hashBestChain

end BlockState

def TESTNET_MATURITY_BLOCKS : UInt32 := 10
def NEXUS_MATURITY_LEGACY : UInt32 := 100
def NEXUS_MATURITY_COINBASE : UInt32 := 500

/-- `MaturityCoinBase`. -/
def MaturityCoinBase (rt : LedgerRuntime) (chain : ChainState) (block : BlockState) : UInt32 :=
  let nVersion := if block.IsNull then chain.stateBest.nVersion else block.nVersion
  if rt.fTestNet then TESTNET_MATURITY_BLOCKS
  else if nVersion < 7 then NEXUS_MATURITY_LEGACY
  else NEXUS_MATURITY_COINBASE

/-- `ReadConfirmations` of a transaction, at a block. -/
def ReadConfirmations (db : Records) (hashTx : Uint512) (block : BlockState) : Option UInt32 := do
  let state ← db.ReadBlockOf hashTx
  if block.nHeight < state.nHeight then none else some (block.nHeight - state.nHeight + 1)

end Nexus.Ledger
