import Nexus.LLD.Memory

/-!
# Calls as edits of one map

Each call writes or erases one record of one of the four maps.  A list of calls
acts on a map as the edits that it makes of it, so what the calls do is what the
overlay of one map does.
-/

namespace Nexus.LLD.Memory

open Nexus.Lib.Overlay
open Nexus.Util
open Nexus.Register
open Nexus.Operation
open Nexus.Ledger

/-! ## The pool -/

namespace Call

def stateEdit : Call → Option (Edit Uint256 State)
  | .WriteState hashRegister state => some (hashRegister, some state)
  | .EraseState hashRegister => some (hashRegister, none)
  | _ => none

def claimEdit : Call → Option (Edit ContractKey UInt64)
  | .WriteClaimed hashTx nContract nClaimed => some ((hashTx, nContract), some nClaimed)
  | _ => none

def proofEdit : Call → Option (Edit ProofKey Unit)
  | .WriteProof hashProof hashTx nContract => some ((hashProof, hashTx, nContract), some ())
  | .EraseProof hashProof hashTx nContract => some ((hashProof, hashTx, nContract), none)
  | _ => none

def contractEdit : Call → Option (Edit ContractKey Uint256)
  | .WriteContract pair hashCaller => some (pair, some hashCaller)
  | .EraseContract pair => some (pair, none)
  | _ => none

end Call

variable (rt : Runtime) (memory : Memory)

theorem poolCalls_states (calls : List Call) :
    (memory.poolCalls rt calls).states =
      (calls.filterMap Call.stateEdit).foldl Layers.edit memory.states := by
  refine component_foldl states _ Call.stateEdit Layers.edit ?_ calls memory
  intro memory c
  cases c <;> rfl

theorem poolCalls_claims (calls : List Call) :
    (memory.poolCalls rt calls).claims =
      (calls.filterMap Call.claimEdit).foldl Layers.edit memory.claims := by
  refine component_foldl claims _ Call.claimEdit Layers.edit ?_ calls memory
  intro memory c
  cases c <;> rfl

theorem poolCalls_proofs (calls : List Call) :
    (memory.poolCalls rt calls).proofs =
      (calls.filterMap Call.proofEdit).foldl Layers.edit memory.proofs := by
  refine component_foldl proofs _ Call.proofEdit Layers.edit ?_ calls memory
  intro memory c
  cases c <;> rfl

theorem poolCalls_contracts (calls : List Call) :
    (memory.poolCalls rt calls).contracts =
      (calls.filterMap Call.contractEdit).foldl Layers.edit memory.contracts := by
  refine component_foldl contracts _ Call.contractEdit Layers.edit ?_ calls memory
  intro memory c
  cases c <;> rfl

/-! ## A block -/

def statePut (hashRegister : Address) (state : State) (dropped : Bool) : Put Uint256 State where
  key := hashRegister
  value := some state
  hide stateCheck := stateCheck.any fun stateCheck => stateCheck.Equal rt state
  dropped

namespace BlockCall

def statePut : BlockCall → Option (Put Uint256 State)
  | .call (.WriteState hashRegister state) => some (Memory.statePut rt hashRegister state false)
  | .call (.EraseState hashRegister) =>
      some { key := hashRegister, value := none, hide := Option.isSome }
  | .WriteTrust hashGenesis state =>
      some (Memory.statePut rt (RegisterDB.trustAddress rt hashGenesis) state true)
  | _ => none

def claimPut : BlockCall → Option (Put ContractKey UInt64)
  | .call (.WriteClaimed hashTx nContract nClaimed) =>
      some
        { key := (hashTx, nContract), value := some nClaimed
          hide := fun nMemoryClaimed => nMemoryClaimed = some nClaimed }
  | _ => none

def proofPut : BlockCall → Option (Put ProofKey Unit)
  | .call (.WriteProof hashProof hashTx nContract) =>
      some { key := (hashProof, hashTx, nContract), value := some (), hide := fun _ => true }
  | .call (.EraseProof hashProof hashTx nContract) =>
      some { key := (hashProof, hashTx, nContract), value := none, hide := Option.isSome }
  | _ => none

def contractPut : BlockCall → Option (Put ContractKey Uint256)
  | .call (.WriteContract pair hashCaller) =>
      some { key := pair, value := some hashCaller, hide := fun _ => true }
  | .call (.EraseContract pair) => some { key := pair, value := none, hide := Option.isSome }
  | _ => none

end BlockCall

theorem blockCalls_states (calls : List BlockCall) :
    (memory.blockCalls rt calls).states =
      (calls.filterMap (BlockCall.statePut rt)).foldl Layers.block memory.states := by
  refine component_foldl states _ (BlockCall.statePut rt) Layers.block ?_ calls memory
  intro memory c
  cases c with
  | call c => cases c <;> rfl
  | WriteTrust hashGenesis state =>
      simp only [blockCall, WriteTrust, WriteState, BlockCall.statePut, Memory.statePut,
        Layers.block, Option.map_some, Option.getD_some, if_true]

theorem blockCalls_claims (calls : List BlockCall) :
    (memory.blockCalls rt calls).claims =
      (calls.filterMap BlockCall.claimPut).foldl Layers.block memory.claims := by
  refine component_foldl claims _ BlockCall.claimPut Layers.block ?_ calls memory
  intro memory c
  cases c with
  | call c =>
      cases c with
      | WriteClaimed hashTx nContract nClaimed =>
          simp only [blockCall, call, WriteClaimed, BlockCall.claimPut, Layers.block,
            Option.map_some, Option.getD_some, Bool.false_eq_true, if_false, decide_eq_true_eq]
      | _ => rfl
  | WriteTrust hashGenesis state => rfl

theorem blockCalls_proofs (calls : List BlockCall) :
    (memory.blockCalls rt calls).proofs =
      (calls.filterMap BlockCall.proofPut).foldl Layers.block memory.proofs := by
  refine component_foldl proofs _ BlockCall.proofPut Layers.block ?_ calls memory
  intro memory c
  cases c with
  | call c => cases c <;> rfl
  | WriteTrust hashGenesis state => rfl

theorem blockCalls_contracts (calls : List BlockCall) :
    (memory.blockCalls rt calls).contracts =
      (calls.filterMap BlockCall.contractPut).foldl Layers.block memory.contracts := by
  refine component_foldl contracts _ BlockCall.contractPut Layers.block ?_ calls memory
  intro memory c
  cases c with
  | call c => cases c <;> rfl
  | WriteTrust hashGenesis state => rfl

/-! ## Runs -/

/-- A transaction of the pool, as the edits of one map. -/
def PoolTxn.edits {κ ν : Type} (f : Call → Option (Edit κ ν)) (t : PoolTxn) :
    List (Edit κ ν) × Bool :=
  (t.calls.filterMap f, t.fCommit)

/-- One of the four maps: the calls are edits of it, and a transaction of the overlay is one of the
map. -/
structure MapOf {κ ν : Type} [DecidableEq κ] (rt : Runtime) (map : Memory → Layers κ ν)
    (edit : Call → Option (Edit κ ν)) (put : BlockCall → Option (Put κ ν)) : Prop where
  poolCalls : ∀ (memory : Memory) (calls : List Call),
    map (memory.poolCalls rt calls) = (calls.filterMap edit).foldl Layers.edit (map memory)
  blockCalls : ∀ (memory : Memory) (calls : List BlockCall),
    map (memory.blockCalls rt calls) = (calls.filterMap put).foldl Layers.block (map memory)
  memoryBegin : ∀ memory : Memory, map memory.MemoryBegin = (map memory).memoryBegin
  memoryRelease : ∀ memory : Memory, map memory.MemoryRelease = (map memory).memoryRelease
  memoryCommit : ∀ memory : Memory, map memory.MemoryCommit = (map memory).memoryCommit
  diskBegin : ∀ memory : Memory, map (diskBegin memory) = (map memory).diskBegin
  diskCommit : ∀ memory : Memory, map (diskCommit memory) = (map memory).diskCommit

namespace MapOf

variable {κ ν : Type} [DecidableEq κ] {rt : Runtime} {map : Memory → Layers κ ν}
  {edit : Call → Option (Edit κ ν)} {put : BlockCall → Option (Put κ ν)}

/-- A transaction of the pool. -/
theorem poolTxn (h : MapOf rt map edit put) (memory : Memory) (t : PoolTxn) :
    map (Memory.poolTxn rt memory t) = (map memory).nested (t.edits edit) := by
  have hCalls := h.poolCalls memory.MemoryBegin t.calls
  rw [h.memoryBegin] at hCalls
  unfold Memory.poolTxn Layers.nested PoolTxn.edits
  rw [← hCalls]
  cases t.fCommit with
  | true => exact h.memoryCommit _
  | false => exact h.memoryRelease _

theorem poolTxns (h : MapOf rt map edit put) (memory : Memory) (ts : List PoolTxn) :
    map (ts.foldl (Memory.poolTxn rt) memory) =
      (ts.map (·.edits edit)).foldl Layers.nested (map memory) := by
  rw [List.foldl_map]
  exact (List.foldl_hom map fun memory t => (h.poolTxn memory t).symm).symm

/-- A block, with transactions of the pool before its commit. -/
theorem blockTxn (h : MapOf rt map edit put) (memory : Memory) (calls : List BlockCall)
    (ts : List PoolTxn) :
    map (Memory.blockTxn rt memory calls ts) =
      (map memory).commitNested (calls.filterMap put) (ts.map (·.edits edit)) := by
  unfold Memory.blockTxn Layers.commitNested
  rw [← h.memoryBegin, ← h.diskBegin, ← h.blockCalls, ← h.poolTxns, ← h.memoryCommit, ← h.diskCommit]
  rfl

end MapOf

theorem states_mapOf : MapOf rt states Call.stateEdit (BlockCall.statePut rt) :=
  ⟨poolCalls_states rt, blockCalls_states rt, fun _ => rfl, fun _ => rfl, fun _ => rfl, fun _ => rfl,
    fun _ => rfl⟩

theorem claims_mapOf : MapOf rt claims Call.claimEdit BlockCall.claimPut :=
  ⟨poolCalls_claims rt, blockCalls_claims rt, fun _ => rfl, fun _ => rfl, fun _ => rfl, fun _ => rfl,
    fun _ => rfl⟩

theorem proofs_mapOf : MapOf rt proofs Call.proofEdit BlockCall.proofPut :=
  ⟨poolCalls_proofs rt, blockCalls_proofs rt, fun _ => rfl, fun _ => rfl, fun _ => rfl, fun _ => rfl,
    fun _ => rfl⟩

theorem contracts_mapOf : MapOf rt contracts Call.contractEdit BlockCall.contractPut :=
  ⟨poolCalls_contracts rt, blockCalls_contracts rt, fun _ => rfl, fun _ => rfl, fun _ => rfl,
    fun _ => rfl, fun _ => rfl⟩

/-! ## The calls on one record -/

def Call.touchesState (hashRegister : Address) (c : Call) : Bool :=
  c.stateEdit.any fun e => e.1 = hashRegister

def Call.touchesClaim (key : ContractKey) (c : Call) : Bool :=
  c.claimEdit.any fun e => e.1 = key

def BlockCall.touchesState (hashRegister : Address) (c : BlockCall) : Bool :=
  (c.statePut rt).any fun p => p.key = hashRegister

def BlockCall.touchesClaim (key : ContractKey) (c : BlockCall) : Bool :=
  c.claimPut.any fun p => p.key = key

end Nexus.LLD.Memory
