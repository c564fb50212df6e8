import Nexus.LLD.Database
import Nexus.Lib.Overlay

/-!
# The memory overlays

The register, ledger and contract databases keep the records of the memory pool
in memory, over the records on disk: what transactions of the pool have
committed, and what the one that is open has written and erased.  A block writes
to disk, and hides the records of the pool that it confirms.

The `pMemory` object of a database is shared by the transactions of the pool and
those of a block.  The two maps of the ledger database are opened and closed
together.
-/

namespace Nexus.Ledger

/-- The databases that a call is made to. -/
inductive FLAGS where
  | BLOCK
  | MEMPOOL
  /-- The records of the pool are taken back to those on disk. -/
  | ERASE
  deriving DecidableEq

end Nexus.Ledger

namespace Nexus.LLD

open Nexus.Lib
open Nexus.Util
open Nexus.Register
open Nexus.Operation
open Nexus.Ledger

@[ext]
structure Memory where
  states : Overlay.Layers Uint256 State := {}
  claims : Overlay.Layers ContractKey UInt64 := {}
  proofs : Overlay.Layers ProofKey Unit := {}
  contracts : Overlay.Layers ContractKey Uint256 := {}

namespace Memory

variable (rt : Runtime) (memory : Memory) (nFlags : FLAGS)

/-! ## Register database -/

/-- A state of the pool is hidden if it equals the one that is written. -/
def WriteState (hashRegister : Address) (state : State) : Memory :=
  match nFlags with
  | .MEMPOOL => { memory with states := memory.states.write hashRegister state }
  | .BLOCK =>
      let states :=
        if (memory.states.commit hashRegister).any (fun stateCheck => stateCheck.Equal rt state) then
          memory.states.erase hashRegister
        else memory.states
      { memory with states := states.put hashRegister (some state) }
  | .ERASE =>
      if (memory.states.commit hashRegister).isSome then
        { memory with states := memory.states.erase hashRegister }
      else memory

def ReadState (hashRegister : Address) : Option State :=
  match nFlags with
  | .MEMPOOL => memory.states.read hashRegister
  | _ => memory.states.disk hashRegister

def HasState (hashRegister : Address) : Bool := (memory.ReadState nFlags hashRegister).isSome

def EraseState (hashRegister : Address) : Memory :=
  let states :=
    match nFlags with
    | .MEMPOOL => memory.states.erase hashRegister
    | _ =>
        if (memory.states.commit hashRegister).isSome then memory.states.erase hashRegister
        else memory.states
  match nFlags with
  | .BLOCK => { memory with states := states.put hashRegister none }
  | _ => { memory with states }

/-- `WriteTrust` erases the committed record, also while a transaction is open. -/
def WriteTrust (hashGenesis : Uint256) (state : State) : Memory :=
  let hashRegister := RegisterDB.trustAddress rt hashGenesis
  WriteState rt { memory with states := memory.states.drop hashRegister } .BLOCK hashRegister state

/-! ## Ledger database -/

def WriteClaimed (hashTx : Uint512) (nContract : UInt32) (nClaimed : UInt64) : Memory :=
  match nFlags with
  | .BLOCK =>
      let claims :=
        if memory.claims.commit (hashTx, nContract) = some nClaimed then
          memory.claims.erase (hashTx, nContract)
        else memory.claims
      { memory with claims := claims.put (hashTx, nContract) (some nClaimed) }
  | _ => { memory with claims := memory.claims.write (hashTx, nContract) nClaimed }

def ReadClaimed (hashTx : Uint512) (nContract : UInt32) : Option UInt64 :=
  match nFlags with
  | .BLOCK => memory.claims.disk (hashTx, nContract)
  | _ => memory.claims.read (hashTx, nContract)

def WriteProof (hashProof : Uint256) (hashTx : Uint512) (nContract : UInt32) : Memory :=
  let key := (hashProof, hashTx, nContract)
  match nFlags with
  | .MEMPOOL => { memory with proofs := memory.proofs.write key () }
  | .BLOCK => { memory with proofs := (memory.proofs.erase key).put key (some ()) }
  | .ERASE => { memory with proofs := memory.proofs.erase key }

def HasProof (hashProof : Uint256) (hashTx : Uint512) (nContract : UInt32) : Bool :=
  match nFlags with
  | .MEMPOOL => (memory.proofs.read (hashProof, hashTx, nContract)).isSome
  | _ => (memory.proofs.disk (hashProof, hashTx, nContract)).isSome

def EraseProof (hashProof : Uint256) (hashTx : Uint512) (nContract : UInt32) : Memory :=
  let key := (hashProof, hashTx, nContract)
  let proofs :=
    match nFlags with
    | .MEMPOOL => memory.proofs.erase key
    | _ => if (memory.proofs.commit key).isSome then memory.proofs.erase key else memory.proofs
  match nFlags with
  | .BLOCK => { memory with proofs := proofs.put key none }
  | _ => { memory with proofs }

/-! ## Contract database -/

def WriteContract (pair : ContractKey) (hashCaller : Uint256) : Memory :=
  match nFlags with
  | .MEMPOOL => { memory with contracts := memory.contracts.write pair hashCaller }
  | .BLOCK =>
      { memory with contracts := (memory.contracts.erase pair).put pair (some hashCaller) }
  | .ERASE => { memory with contracts := memory.contracts.erase pair }

def ReadContract (pair : ContractKey) : Option Uint256 :=
  match nFlags with
  | .MEMPOOL => memory.contracts.read pair
  | _ => memory.contracts.disk pair

def HasContract (pair : ContractKey) : Bool := (memory.ReadContract nFlags pair).isSome

def EraseContract (pair : ContractKey) : Memory :=
  let contracts :=
    match nFlags with
    | .MEMPOOL => memory.contracts.erase pair
    | _ =>
        if (memory.contracts.commit pair).isSome then memory.contracts.erase pair
        else memory.contracts
  match nFlags with
  | .BLOCK => { memory with contracts := contracts.put pair none }
  | _ => { memory with contracts }

/-! ## Transactions -/

def MemoryBegin : Memory where
  states := memory.states.memoryBegin
  claims := memory.claims.memoryBegin
  proofs := memory.proofs.memoryBegin
  contracts := memory.contracts.memoryBegin

def MemoryRelease : Memory where
  states := memory.states.memoryRelease
  claims := memory.claims.memoryRelease
  proofs := memory.proofs.memoryRelease
  contracts := memory.contracts.memoryRelease

def MemoryCommit : Memory where
  states := memory.states.memoryCommit
  claims := memory.claims.memoryCommit
  proofs := memory.proofs.memoryCommit
  contracts := memory.contracts.memoryCommit

def diskBegin : Memory where
  states := memory.states.diskBegin
  claims := memory.claims.diskBegin
  proofs := memory.proofs.diskBegin
  contracts := memory.contracts.diskBegin

def diskRelease : Memory where
  states := memory.states.diskRelease
  claims := memory.claims.diskRelease
  proofs := memory.proofs.diskRelease
  contracts := memory.contracts.diskRelease

def diskCommit : Memory where
  states := memory.states.diskCommit
  claims := memory.claims.diskCommit
  proofs := memory.proofs.diskCommit
  contracts := memory.contracts.diskCommit

def TxnBegin : Memory :=
  match nFlags with
  | .MEMPOOL => memory.MemoryBegin
  | _ => memory.MemoryBegin.diskBegin

def TxnAbort : Memory :=
  match nFlags with
  | .MEMPOOL => memory.MemoryRelease
  | _ => memory.MemoryRelease.diskRelease

def TxnCommit : Memory :=
  match nFlags with
  | .MEMPOOL => memory.MemoryCommit
  | _ => memory.MemoryCommit.diskCommit

/-! ## Calls -/

/-- The calls that write and erase with flags. -/
inductive Call where
  | WriteState (hashRegister : Address) (state : State)
  | EraseState (hashRegister : Address)
  | WriteClaimed (hashTx : Uint512) (nContract : UInt32) (nClaimed : UInt64)
  | WriteProof (hashProof : Uint256) (hashTx : Uint512) (nContract : UInt32)
  | EraseProof (hashProof : Uint256) (hashTx : Uint512) (nContract : UInt32)
  | WriteContract (pair : ContractKey) (hashCaller : Uint256)
  | EraseContract (pair : ContractKey)

def call (memory : Memory) : Call → Memory
  | .WriteState hashRegister state => memory.WriteState rt nFlags hashRegister state
  | .EraseState hashRegister => memory.EraseState nFlags hashRegister
  | .WriteClaimed hashTx nContract nClaimed => memory.WriteClaimed nFlags hashTx nContract nClaimed
  | .WriteProof hashProof hashTx nContract => memory.WriteProof nFlags hashProof hashTx nContract
  | .EraseProof hashProof hashTx nContract => memory.EraseProof nFlags hashProof hashTx nContract
  | .WriteContract pair hashCaller => memory.WriteContract nFlags pair hashCaller
  | .EraseContract pair => memory.EraseContract nFlags pair

/-- The calls of the pool, one after another. -/
def poolCalls (calls : List Call) : Memory := calls.foldl (call rt .MEMPOOL) memory

/-- The calls of a block. -/
inductive BlockCall where
  | call (c : Call)
  | WriteTrust (hashGenesis : Uint256) (state : State)

def blockCall (memory : Memory) : BlockCall → Memory
  | .call c => call rt .BLOCK memory c
  | .WriteTrust hashGenesis state => memory.WriteTrust rt hashGenesis state

def blockCalls (calls : List BlockCall) : Memory := calls.foldl (blockCall rt) memory

/-! ## Runs -/

/-- A transaction of the pool, that is committed or aborted. -/
structure PoolTxn where
  calls : List Call
  fCommit : Bool := true

def poolTxn (memory : Memory) (t : PoolTxn) : Memory :=
  let memory := (memory.TxnBegin .MEMPOOL).poolCalls rt t.calls
  if t.fCommit then memory.TxnCommit .MEMPOOL else memory.TxnAbort .MEMPOOL

/-- A block that is committed, with transactions of the pool before its commit. -/
def blockTxn (memory : Memory) (calls : List BlockCall) (ts : List PoolTxn) : Memory :=
  (ts.foldl (poolTxn rt) ((memory.TxnBegin .BLOCK).blockCalls rt calls)).TxnCommit .BLOCK

end Memory

end Nexus.LLD
