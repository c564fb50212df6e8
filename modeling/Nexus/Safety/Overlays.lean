import Nexus.LLD.Edits
import Nexus.Safety.Claims

/-!
# The overlays of the memory pool

What a transaction of the pool reads of its own calls, what is left when it is
committed, and what is left of the records of the pool after blocks that are
aborted, committed, or committed with transactions of the pool inside them.
-/

namespace Nexus.Safety

open Nexus.Lib.Overlay
open Nexus.Util
open Nexus.Register
open Nexus.Ledger
open Nexus.LLD
open Nexus.LLD.Memory

variable (rt : Runtime) (memory : Memory)

/-! ## Reads inside a transaction -/

/-- The calls that read with `FLAGS::MEMPOOL`. -/
inductive Query where
  | ReadState (hashRegister : Address)
  | HasState (hashRegister : Address)
  | HasProof (hashProof : Uint256) (hashTx : Uint512) (nContract : UInt32)
  | ReadClaimed (hashTx : Uint512) (nContract : UInt32)
  | ReadContract (pair : ContractKey)
  | HasContract (pair : ContractKey)

/-- What a read returns. -/
inductive Answer where
  | state (state : Option State)
  | claimed (nClaimed : Option UInt64)
  | caller (hashCaller : Option Uint256)
  | found (fFound : Bool)
  deriving DecidableEq

def Query.answer (memory : Memory) : Query → Answer
  | .ReadState hashRegister => .state (memory.ReadState .MEMPOOL hashRegister)
  | .HasState hashRegister => .found (memory.HasState .MEMPOOL hashRegister)
  | .HasProof hashProof hashTx nContract =>
      .found (memory.HasProof .MEMPOOL hashProof hashTx nContract)
  | .ReadClaimed hashTx nContract => .claimed (memory.ReadClaimed .MEMPOOL hashTx nContract)
  | .ReadContract pair => .caller (memory.ReadContract .MEMPOOL pair)
  | .HasContract pair => .found (memory.HasContract .MEMPOOL pair)

/-- Where the last call on a committed record erases it, the disk has that record; or any
record, if only its existence is read. -/
def Query.Covered (calls : List Call) : Query → Prop
  | .ReadState hashRegister =>
      memory.states.Shows (calls.filterMap Call.stateEdit) hashRegister →
        memory.states.disk hashRegister = memory.states.commit hashRegister
  | .HasState hashRegister =>
      memory.states.Shows (calls.filterMap Call.stateEdit) hashRegister →
        (memory.states.disk hashRegister).isSome
  | .HasProof hashProof hashTx nContract =>
      memory.proofs.Shows (calls.filterMap Call.proofEdit) (hashProof, hashTx, nContract) →
        (memory.proofs.disk (hashProof, hashTx, nContract)).isSome
  | .ReadClaimed _ _ => True
  | .ReadContract pair =>
      memory.contracts.Shows (calls.filterMap Call.contractEdit) pair →
        memory.contracts.disk pair = memory.contracts.commit pair
  | .HasContract pair =>
      memory.contracts.Shows (calls.filterMap Call.contractEdit) pair →
        (memory.contracts.disk pair).isSome

/-- No call erases a claimed amount. -/
theorem not_shows_claim (calls : List Call) (key : ContractKey) :
    ¬ memory.claims.Shows (calls.filterMap Call.claimEdit) key := by
  intro hShows
  obtain ⟨hErased, -⟩ := hShows
  rw [last_eq_getLast?] at hErased
  have hMem := List.mem_of_getLast? hErased
  simp only [List.mem_filterMap] at hMem
  obtain ⟨e, ⟨c, -, hEdit⟩, hValue⟩ := hMem
  cases c with
  | WriteClaimed hashTx nContract nClaimed =>
      cases hEdit
      simp at hValue
  | _ => cases hEdit

/-- **A transaction of the pool reads its own writes, and not its own erases**: a read inside it
returns what it would with the calls made directly exactly where no erased record shows through. -/
theorem reads_own_writes_iff (calls : List Call) (query : Query) :
    query.answer ((memory.TxnBegin .MEMPOOL).poolCalls rt calls) =
        query.answer (memory.MemoryRelease.poolCalls rt calls) ↔
      query.Covered memory calls := by
  cases query with
  | ReadState hashRegister =>
      simp only [Query.answer, Query.Covered, Answer.state.injEq, ReadState, poolCalls_states]
      exact Layers.read_edits_eq_iff _ _ _
  | HasState hashRegister =>
      simp only [Query.answer, Query.Covered, Answer.found.injEq, HasState, ReadState,
        poolCalls_states]
      exact Layers.isSome_read_edits_eq_iff _ _ _
  | HasProof hashProof hashTx nContract =>
      simp only [Query.answer, Query.Covered, Answer.found.injEq, HasProof, poolCalls_proofs]
      exact Layers.isSome_read_edits_eq_iff _ _ _
  | ReadClaimed hashTx nContract =>
      simp only [Query.answer, Query.Covered, Answer.claimed.injEq, ReadClaimed,
        poolCalls_claims, iff_true]
      refine (Layers.read_edits_eq_iff _ _ _).mpr ?_
      intro hShows
      exact absurd hShows (not_shows_claim memory calls _)
  | ReadContract pair =>
      simp only [Query.answer, Query.Covered, Answer.caller.injEq, ReadContract,
        poolCalls_contracts]
      exact Layers.read_edits_eq_iff _ _ _
  | HasContract pair =>
      simp only [Query.answer, Query.Covered, Answer.found.injEq, HasContract, ReadContract,
        poolCalls_contracts]
      exact Layers.isSome_read_edits_eq_iff _ _ _

/-- A memory pool that has committed one state. -/
def pooledMemory : Memory where
  states := { commit := fun hashRegister => if hashRegister = 7 then some {} else none }

/-- A state that the transaction has erased is still there. -/
theorem hasState_of_erased :
    (Query.HasState 7).answer
        ((pooledMemory.TxnBegin .MEMPOOL).poolCalls exampleRuntime [.EraseState 7]) ≠
      (Query.HasState 7).answer
        (pooledMemory.MemoryRelease.poolCalls exampleRuntime [.EraseState 7]) := by
  decide

/-! ## Commits -/

/-- **A committed transaction is its calls, made directly.** -/
theorem commit_eq_direct (calls : List Call) :
    ((memory.TxnBegin .MEMPOOL).poolCalls rt calls).TxnCommit .MEMPOOL =
      memory.MemoryRelease.poolCalls rt calls := by
  apply Memory.ext
  · rw [poolCalls_states]
    change Layers.memoryCommit (poolCalls rt memory.MemoryBegin calls).states = _
    rw [poolCalls_states]
    exact Layers.memoryCommit_edits _ _
  · rw [poolCalls_claims]
    change Layers.memoryCommit (poolCalls rt memory.MemoryBegin calls).claims = _
    rw [poolCalls_claims]
    exact Layers.memoryCommit_edits _ _
  · rw [poolCalls_proofs]
    change Layers.memoryCommit (poolCalls rt memory.MemoryBegin calls).proofs = _
    rw [poolCalls_proofs]
    exact Layers.memoryCommit_edits _ _
  · rw [poolCalls_contracts]
    change Layers.memoryCommit (poolCalls rt memory.MemoryBegin calls).contracts = _
    rw [poolCalls_contracts]
    exact Layers.memoryCommit_edits _ _

/-! ## Blocks that are aborted -/

/-- The pool has committed the same records. -/
structure SameCommitted (memory memory' : Memory) : Prop where
  states : memory'.states.commit = memory.states.commit
  claims : memory'.claims.commit = memory.claims.commit
  proofs : memory'.proofs.commit = memory.proofs.commit
  contracts : memory'.contracts.commit = memory.contracts.commit

/-- A write that is no trust drops nothing. -/
theorem drops_eq_false {κ ν : Type} [DecidableEq κ] {f : BlockCall → Option (Put κ ν)}
    (hKeep : ∀ c p, f c = some p → p.dropped = false) (calls : List BlockCall) (key : κ) :
    Put.drops (calls.filterMap f) key = false := by
  rw [Put.drops, List.any_eq_false]
  intro p hMem
  obtain ⟨c, -, hPut⟩ := List.mem_filterMap.mp hMem
  simp [hKeep c p hPut]

theorem claimPut_dropped (c : BlockCall) (p : Put ContractKey UInt64) (h : c.claimPut = some p) :
    p.dropped = false := by
  cases c with
  | call c => cases c <;> cases h <;> rfl
  | WriteTrust hashGenesis state => cases h

theorem proofPut_dropped (c : BlockCall) (p : Put ProofKey Unit) (h : c.proofPut = some p) :
    p.dropped = false := by
  cases c with
  | call c => cases c <;> cases h <;> rfl
  | WriteTrust hashGenesis state => cases h

theorem contractPut_dropped (c : BlockCall) (p : Put ContractKey Uint256)
    (h : c.contractPut = some p) : p.dropped = false := by
  cases c with
  | call c => cases c <;> cases h <;> rfl
  | WriteTrust hashGenesis state => cases h

/-- The states that are dropped are those of the trust accounts that are written. -/
theorem drops_states (calls : List BlockCall) (hashRegister : Address) :
    Put.drops (calls.filterMap (BlockCall.statePut rt)) hashRegister = true ↔
      ∃ hashGenesis state, BlockCall.WriteTrust hashGenesis state ∈ calls ∧
        RegisterDB.trustAddress rt hashGenesis = hashRegister := by
  rw [Put.drops, List.any_eq_true]
  constructor
  · rintro ⟨p, hMem, hDrop⟩
    obtain ⟨c, hCall, hPut⟩ := List.mem_filterMap.mp hMem
    rw [Bool.and_eq_true, decide_eq_true_eq] at hDrop
    cases c with
    | call c => cases c <;> cases hPut <;> cases hDrop.1
    | WriteTrust hashGenesis state =>
        simp only [BlockCall.statePut, Option.some.injEq] at hPut
        rw [← hPut] at hDrop
        exact ⟨hashGenesis, state, hCall, hDrop.2⟩
  · rintro ⟨hashGenesis, state, hCall, hAddress⟩
    refine ⟨Memory.statePut rt (RegisterDB.trustAddress rt hashGenesis) state true, ?_, ?_⟩
    · exact List.mem_filterMap.mpr ⟨_, hCall, rfl⟩
    · rw [Bool.and_eq_true, decide_eq_true_eq]
      exact ⟨rfl, hAddress⟩

theorem abort_commit {κ ν : Type} [DecidableEq κ] (layers : Layers κ ν) (ps : List (Put κ ν)) :
    (ps.foldl Layers.block layers.memoryBegin.diskBegin).memoryRelease.diskRelease.commit =
      fun key => if Put.drops ps key then none else layers.commit key := by
  funext key
  exact Layers.memoryRelease_blocks_commit layers.diskBegin ps key

/-- **An aborted block leaves the records of the pool as they were exactly where it has written
no trust account that the pool has a state of.** -/
theorem abort_keeps_iff (calls : List BlockCall) :
    SameCommitted memory (((memory.TxnBegin .BLOCK).blockCalls rt calls).TxnAbort .BLOCK) ↔
      ∀ hashGenesis state, BlockCall.WriteTrust hashGenesis state ∈ calls →
        memory.states.commit (RegisterDB.trustAddress rt hashGenesis) = none := by
  have hStates : (((memory.TxnBegin .BLOCK).blockCalls rt calls).TxnAbort .BLOCK).states.commit =
      fun key => if Put.drops (calls.filterMap (BlockCall.statePut rt)) key then none
        else memory.states.commit key := by
    rw [← abort_commit]
    change (Memory.blockCalls rt _ calls).states.memoryRelease.diskRelease.commit = _
    rw [blockCalls_states]
    rfl
  constructor
  · intro hSame hashGenesis state hCall
    have hDrops := (drops_states rt calls _).mpr ⟨hashGenesis, state, hCall, rfl⟩
    have hKey := congrFun (hStates.symm.trans hSame.states)
      (RegisterDB.trustAddress rt hashGenesis)
    simp only [hDrops, if_true] at hKey
    exact hKey.symm
  · intro hNone
    refine ⟨?_, ?_, ?_, ?_⟩
    · rw [hStates]
      funext key
      by_cases hDrops : Put.drops (calls.filterMap (BlockCall.statePut rt)) key = true
      · obtain ⟨hashGenesis, state, hCall, hAddress⟩ := (drops_states rt calls key).mp hDrops
        have hGone := hNone hashGenesis state hCall
        rw [hAddress] at hGone
        rw [if_pos hDrops, hGone]
      · rw [if_neg hDrops]
    · change (Memory.blockCalls rt _ calls).claims.memoryRelease.diskRelease.commit = _
      rw [blockCalls_claims]
      refine (abort_commit _ _).trans ?_
      funext key
      rw [drops_eq_false claimPut_dropped]
      rfl
    · change (Memory.blockCalls rt _ calls).proofs.memoryRelease.diskRelease.commit = _
      rw [blockCalls_proofs]
      refine (abort_commit _ _).trans ?_
      funext key
      rw [drops_eq_false proofPut_dropped]
      rfl
    · change (Memory.blockCalls rt _ calls).contracts.memoryRelease.diskRelease.commit = _
      rw [blockCalls_contracts]
      refine (abort_commit _ _).trans ?_
      funext key
      rw [drops_eq_false contractPut_dropped]
      rfl

/-- The pool has a state of the trust account of a genesis. -/
def trustMemory : Memory where
  states :=
    { commit := Function.update (fun _ => none) (RegisterDB.trustAddress exampleRuntime alice)
        (some {}) }

/-- A block that writes a trust account and is aborted has erased the state of the pool. -/
theorem not_sameCommitted_of_writeTrust :
    ¬ SameCommitted trustMemory
      (((trustMemory.TxnBegin .BLOCK).blockCalls exampleRuntime
        [.WriteTrust alice {}]).TxnAbort .BLOCK) := by
  intro hSame
  have hKey := congrFun hSame.states (RegisterDB.trustAddress exampleRuntime alice)
  have hBefore : trustMemory.states.commit (RegisterDB.trustAddress exampleRuntime alice) ≠ none := by
    simp [trustMemory]
  have hAfter : (((trustMemory.TxnBegin .BLOCK).blockCalls exampleRuntime
      [.WriteTrust alice {}]).TxnAbort .BLOCK).states.commit
        (RegisterDB.trustAddress exampleRuntime alice) = none := by
    have hDrops := (drops_states exampleRuntime [.WriteTrust alice {}] _).mpr
      ⟨alice, {}, List.mem_singleton.mpr rfl, rfl⟩
    change (Memory.blockCalls exampleRuntime _ _).states.memoryRelease.diskRelease.commit _ = _
    rw [blockCalls_states]
    refine (congrFun (abort_commit _ _) _).trans ?_
    rw [hDrops, if_pos rfl]
  exact hBefore (hKey.symm.trans hAfter)

/-! ## Transactions of the pool in a block -/

/-- What is retired in one run is retired in another. -/
structure RetiresToo (memory alone together : Memory) : Prop where
  states : ∀ hashRegister state, memory.states.Retired alone.states hashRegister state →
    memory.states.Retired together.states hashRegister state
  claims : ∀ key nClaimed, memory.claims.Retired alone.claims key nClaimed →
    memory.claims.Retired together.claims key nClaimed
  proofs : ∀ key proof, memory.proofs.Retired alone.proofs key proof →
    memory.proofs.Retired together.proofs key proof
  contracts : ∀ pair hashCaller, memory.contracts.Retired alone.contracts pair hashCaller →
    memory.contracts.Retired together.contracts pair hashCaller

/-- No record that the block retires is left or written again by the transactions of the pool. -/
structure NothingLost (memory : Memory) (calls : List BlockCall) (ts : List PoolTxn) : Prop where
  states : ∀ hashRegister state, ¬ memory.states.Lost (calls.filterMap (BlockCall.statePut rt))
    (ts.map (·.edits Call.stateEdit)) hashRegister state
  claims : ∀ key nClaimed, ¬ memory.claims.Lost (calls.filterMap BlockCall.claimPut)
    (ts.map (·.edits Call.claimEdit)) key nClaimed
  proofs : ∀ key proof, ¬ memory.proofs.Lost (calls.filterMap BlockCall.proofPut)
    (ts.map (·.edits Call.proofEdit)) key proof
  contracts : ∀ pair hashCaller, ¬ memory.contracts.Lost (calls.filterMap BlockCall.contractPut)
    (ts.map (·.edits Call.contractEdit)) pair hashCaller

/-- **A transaction of the pool inside a block loses what the block retires**: all of it is retired
exactly where no such transaction runs, or those that run erase or replace it themselves. -/
theorem nested_retires_iff (calls : List BlockCall) (ts : List PoolTxn) :
    RetiresToo memory (blockTxn rt memory calls []) (blockTxn rt memory calls ts) ↔
      ts = [] ∨ NothingLost rt memory calls ts := by
  have hStates := memory.states.retired_iff (calls.filterMap (BlockCall.statePut rt))
    (ts.map (·.edits Call.stateEdit))
  have hClaims := memory.claims.retired_iff (calls.filterMap BlockCall.claimPut)
    (ts.map (·.edits Call.claimEdit))
  have hProofs := memory.proofs.retired_iff (calls.filterMap BlockCall.proofPut)
    (ts.map (·.edits Call.proofEdit))
  have hContracts := memory.contracts.retired_iff (calls.filterMap BlockCall.contractPut)
    (ts.map (·.edits Call.contractEdit))
  rw [List.map_eq_nil_iff] at hStates hClaims hProofs hContracts
  constructor
  · intro hRetires
    by_cases hNil : ts = []
    · exact .inl hNil
    · refine .inr ⟨?_, ?_, ?_, ?_⟩
      · refine (hStates.mp ?_).resolve_left hNil
        simpa only [(states_mapOf rt).blockTxn, List.map_nil] using hRetires.states
      · refine (hClaims.mp ?_).resolve_left hNil
        simpa only [(claims_mapOf rt).blockTxn, List.map_nil] using hRetires.claims
      · refine (hProofs.mp ?_).resolve_left hNil
        simpa only [(proofs_mapOf rt).blockTxn, List.map_nil] using hRetires.proofs
      · refine (hContracts.mp ?_).resolve_left hNil
        simpa only [(contracts_mapOf rt).blockTxn, List.map_nil] using hRetires.contracts
  · intro hCond
    refine ⟨?_, ?_, ?_, ?_⟩
    · simpa only [(states_mapOf rt).blockTxn, List.map_nil] using
        hStates.mpr (hCond.imp_right NothingLost.states)
    · simpa only [(claims_mapOf rt).blockTxn, List.map_nil] using
        hClaims.mpr (hCond.imp_right NothingLost.claims)
    · simpa only [(proofs_mapOf rt).blockTxn, List.map_nil] using
        hProofs.mpr (hCond.imp_right NothingLost.proofs)
    · simpa only [(contracts_mapOf rt).blockTxn, List.map_nil] using
        hContracts.mpr (hCond.imp_right NothingLost.contracts)

/-- The state that a block erases stays with the pool if a transaction of the pool runs before
the block is committed, even an empty one. -/
theorem not_retiresToo_of_nested :
    ¬ RetiresToo pooledMemory
      (blockTxn exampleRuntime pooledMemory [.call (.EraseState 7)] [])
      (blockTxn exampleRuntime pooledMemory [.call (.EraseState 7)] [{ calls := [] }]) := by
  intro hRetires
  have hAlone : pooledMemory.states.Retired
      (blockTxn exampleRuntime pooledMemory [.call (.EraseState 7)] []).states 7 {} :=
    ⟨rfl, nofun⟩
  have hTogether := hRetires.states 7 {} hAlone
  exact hTogether.2 rfl

/-! ## Blocks that confirm the pool -/

/-- The committed transactions of a pool, and then committed blocks. -/
def confirm (pool : List (List Call)) (blocks : List (List BlockCall)) : Memory :=
  let memory := pool.foldl (fun memory calls => poolTxn rt memory { calls }) memory
  blocks.foldl (fun memory calls => blockTxn rt memory calls []) memory

theorem confirm_map {κ ν : Type} [DecidableEq κ] {map : Memory → Layers κ ν}
    {edit : Call → Option (Edit κ ν)} {put : BlockCall → Option (Put κ ν)}
    (h : MapOf rt map edit put) (pool : List (List Call)) (blocks : List (List BlockCall)) :
    map (confirm rt memory pool blocks) =
      ((pool.map fun calls => (calls.filterMap edit, true)).foldl Layers.nested
        (map memory)).commitBlocks (blocks.map (·.filterMap put)) := by
  have hPool := h.poolTxns memory (pool.map fun calls => { calls })
  rw [List.foldl_map, List.map_map] at hPool
  have hBlocks : ∀ memory : Memory,
      map (blocks.foldl (fun memory calls => blockTxn rt memory calls []) memory) =
        (map memory).commitBlocks (blocks.map (·.filterMap put)) := by
    intro memory
    rw [Layers.commitBlocks, List.foldl_map]
    exact (List.foldl_hom map fun memory calls => (h.blockTxn memory calls []).symm).symm
  rw [confirm, hBlocks, hPool]
  rfl

/-- What a pool has written last to a key is committed. -/
theorem pool_committed {κ ν : Type} [DecidableEq κ] (layers : Layers κ ν)
    (f : Call → Option (Edit κ ν)) (pool : List (List Call)) {key : κ} {value : ν}
    (h : last (pool.flatten.filterMap f) key = some (some value)) :
    ((pool.map fun calls => (calls.filterMap f, true)).foldl Layers.nested layers).pending = none ∧
      ((pool.map fun calls => (calls.filterMap f, true)).foldl Layers.nested layers).commit key =
        some value := by
  have hNil : (pool.map fun calls => (calls.filterMap f, true)) ≠ [] := by
    intro hNil
    rw [List.map_eq_nil_iff] at hNil
    rw [hNil] at h
    cases h
  have hKept : Layers.kept (pool.map fun calls => (calls.filterMap f, true)) =
      pool.flatten.filterMap f := by
    rw [List.filterMap_flatten, Layers.kept, List.flatMap_def, List.map_map]
    rfl
  rw [Layers.nesteds_of_ne_nil layers hNil, hKept, Layers.edits_none _ _ rfl]
  exact ⟨rfl, congrArg (Option.getD · _) h⟩

theorem flatten_filterMap {α β : Type} (f : α → Option β) (ass : List (List α)) :
    (ass.map (·.filterMap f)).flatten = ass.flatten.filterMap f := by
  rw [List.filterMap_flatten]

/-- The last of the edits of a key that only writes. -/
theorem last_writes {κ ν : Type} [DecidableEq κ] (key : κ) (values : List ν) :
    last (values.map fun value => (key, some value)) key = values.getLast?.map some := by
  rw [last_eq_getLast?, List.filterMap_map]
  have hAll : ((fun e : Edit κ ν => if e.1 = key then some e.2 else none) ∘
      fun value => (key, some value)) = fun value => some (some value) := by
    funext value
    simp
  rw [hAll, ← List.getLast?_map, ← List.filterMap_eq_map]
  rfl

/-- What a pool and blocks make of a key, from the values that they write to it: the pool all of
them, and the blocks a beginning. -/
theorem confirmed_read {κ ν : Type} [DecidableEq κ] (layers : Layers κ ν)
    (f : Call → Option (Edit κ ν)) (g : BlockCall → Option (Put κ ν)) (pool : List (List Call))
    (blocks : List (List BlockCall)) {key : κ} (put : ν → Put κ ν) {values vDisk : List ν}
    {value : ν} (hKey : ∀ v, (put v).key = key) (hValue : ∀ v, (put v).value = some v)
    (hKeep : ∀ v, (put v).dropped = false)
    (hPool : (pool.flatten.filterMap f).filter (fun e => e.1 = key) =
      (values ++ [value]).map fun v => (key, some v))
    (hBlocks : (blocks.flatten.filterMap g).filter (fun p => p.key = key) = vDisk.map put) :
    (((pool.map fun calls => (calls.filterMap f, true)).foldl Layers.nested layers).commitBlocks
        (blocks.map (·.filterMap g))).read key =
      if vDisk.any (fun v => (put v).hide (some value)) then vDisk.getLast? else some value := by
  have hLast : last (pool.flatten.filterMap f) key = some (some value) := by
    rw [← last_filter, hPool, last_writes, List.getLast?_append]
    rfl
  obtain ⟨hPending, hCommit⟩ := pool_committed layers f pool hLast
  have hDrops : Put.drops (blocks.map (·.filterMap g)).flatten key = false := by
    rw [flatten_filterMap, ← Put.drops_filter, hBlocks, Put.drops, List.any_map, List.any_eq_false]
    intro v _
    simp [hKeep]
  have hHides : Put.hides (blocks.map (·.filterMap g)).flatten key value =
      vDisk.any fun v => (put v).hide (some value) := by
    rw [flatten_filterMap, ← Put.hides_filter, hBlocks, Put.hides, List.any_map]
    congr 1
    funext v
    simp [hKey]
  have hDisk : last ((blocks.map (·.filterMap g)).flatten.map Put.edit) key =
      vDisk.getLast?.map some := by
    rw [flatten_filterMap, ← last_filter, List.filter_map]
    change last (((blocks.flatten.filterMap g).filter fun p => p.key = key).map Put.edit) key = _
    rw [hBlocks, List.map_map, ← last_writes key]
    congr 2
    funext v
    rw [Function.comp_apply, Put.edit, hKey, hValue]
  rw [Layers.commitBlocks_read _ _ hPending hCommit hDrops, hHides]
  by_cases hAny : vDisk.any fun v => (put v).hide (some value)
  · rw [if_pos hAny, if_pos hAny]
    obtain ⟨v, hMem, -⟩ := List.any_eq_true.mp hAny
    have hGet := List.getLast?_eq_some_getLast (List.ne_nil_of_mem hMem)
    rw [hGet] at hDisk ⊢
    exact Layers.commitBlocks_disk _ _ hDisk
  · rw [if_neg hAny, if_neg hAny]

theorem le_getLast {values : List UInt64} {value last : UInt64} (hMono : values.Pairwise (· ≤ ·))
    (hMem : value ∈ values) (hLast : values.getLast? = some last) : value ≤ last := by
  obtain ⟨init, rfl⟩ := List.getLast?_eq_some_iff.mp hLast
  rcases List.mem_append.mp hMem with hInit | hEnd
  · exact (List.pairwise_append.mp hMono).2.2 value hInit last (List.mem_singleton.mpr rfl)
  · rw [List.mem_singleton.mp hEnd]
    exact UInt64.le_refl _

/-- **Confirming a beginning of what the pool has written to a register leaves what is read of it
exactly where no state of that beginning equals the last one, or the beginning ends with it; and
it leaves every claimed amount that does not decrease.** -/
theorem confirm_keeps_iff (pool : List (List Call)) (blocks : List (List BlockCall)) (k : Nat) :
    (∀ hashRegister vStates state,
      pool.flatten.filter (·.touchesState hashRegister) =
          (vStates ++ [state]).map (.WriteState hashRegister) →
        blocks.flatten.filter (·.touchesState rt hashRegister) =
            ((vStates ++ [state]).take k).map (.call <| .WriteState hashRegister ·) →
          ((confirm rt memory pool blocks).ReadState .MEMPOOL hashRegister = some state ↔
            ((∃ stateDisk ∈ (vStates ++ [state]).take k, state.Equal rt stateDisk) →
              ((vStates ++ [state]).take k).getLast? = some state))) ∧
    ∀ hashTx nContract vClaimed nClaimed,
      pool.flatten.filter (·.touchesClaim (hashTx, nContract)) =
          (vClaimed ++ [nClaimed]).map (.WriteClaimed hashTx nContract) →
        blocks.flatten.filter (·.touchesClaim (hashTx, nContract)) =
            ((vClaimed ++ [nClaimed]).take k).map (.call <| .WriteClaimed hashTx nContract ·) →
          (vClaimed ++ [nClaimed]).Pairwise (· ≤ ·) →
            (confirm rt memory pool blocks).ReadClaimed .MEMPOOL hashTx nContract =
              some nClaimed := by
  constructor
  · intro hashRegister vStates state hPool hBlocks
    have hEdits : (pool.flatten.filterMap Call.stateEdit).filter (fun e => e.1 = hashRegister) =
        (vStates ++ [state]).map fun v => (hashRegister, some v) := by
      rw [filter_filterMap]
      refine (congrArg (List.filterMap Call.stateEdit) hPool).trans ?_
      rw [List.filterMap_map, ← List.filterMap_eq_map]
      rfl
    have hPuts : (blocks.flatten.filterMap (BlockCall.statePut rt)).filter
        (fun p => p.key = hashRegister) =
          ((vStates ++ [state]).take k).map fun v => Memory.statePut rt hashRegister v false := by
      rw [filter_filterMap]
      refine (congrArg (List.filterMap (BlockCall.statePut rt)) hBlocks).trans ?_
      rw [List.filterMap_map, ← List.filterMap_eq_map]
      rfl
    have hRead := confirmed_read memory.states Call.stateEdit (BlockCall.statePut rt) pool blocks
      (fun v => Memory.statePut rt hashRegister v false) (fun _ => rfl) (fun _ => rfl) (fun _ => rfl) hEdits hPuts
    rw [ReadState, confirm_map rt memory (states_mapOf rt)]
    refine (Eq.congr_left hRead).trans ?_
    by_cases hAny : ∃ stateDisk ∈ (vStates ++ [state]).take k, state.Equal rt stateDisk
    · have hTrue := List.any_eq_true.mpr hAny
      simp only [Memory.statePut, Option.any_some, hTrue, if_true, hAny, true_imp_iff]
    · have hFalse := mt List.any_eq_true.mp hAny
      simp only [Memory.statePut, Option.any_some, hFalse, if_false, hAny, false_imp_iff,
        Bool.false_eq_true]
  · intro hashTx nContract vClaimed nClaimed hPool hBlocks hMono
    have hEdits : (pool.flatten.filterMap Call.claimEdit).filter
        (fun e => e.1 = (hashTx, nContract)) =
          (vClaimed ++ [nClaimed]).map fun v => ((hashTx, nContract), some v) := by
      rw [filter_filterMap]
      refine (congrArg (List.filterMap Call.claimEdit) hPool).trans ?_
      rw [List.filterMap_map, ← List.filterMap_eq_map]
      rfl
    have hPuts : (blocks.flatten.filterMap BlockCall.claimPut).filter
        (fun p => p.key = (hashTx, nContract)) =
          ((vClaimed ++ [nClaimed]).take k).map fun v =>
            Put.mk (hashTx, nContract) (some v) (fun nMemoryClaimed => nMemoryClaimed = some v)
              false := by
      rw [filter_filterMap]
      refine (congrArg (List.filterMap BlockCall.claimPut) hBlocks).trans ?_
      rw [List.filterMap_map, ← List.filterMap_eq_map]
      rfl
    have hRead := confirmed_read memory.claims Call.claimEdit BlockCall.claimPut pool blocks
      (fun v => Put.mk (hashTx, nContract) (some v) (fun nMemoryClaimed => nMemoryClaimed = some v)
        false) (fun _ => rfl) (fun _ => rfl) (fun _ => rfl) hEdits hPuts
    change (confirm rt memory pool blocks).claims.read (hashTx, nContract) = _
    rw [confirm_map rt memory (claims_mapOf rt)]
    refine hRead.trans ?_
    by_cases hAny : ((vClaimed ++ [nClaimed]).take k).any
        fun v => decide (some nClaimed = some v)
    · rw [if_pos hAny]
      obtain ⟨v, hMem, hValue⟩ := List.any_eq_true.mp hAny
      have hIn : nClaimed ∈ (vClaimed ++ [nClaimed]).take k := by
        rw [decide_eq_true_eq, Option.some.injEq] at hValue
        exact hValue ▸ hMem
      have hGet := List.getLast?_eq_some_getLast (List.ne_nil_of_mem hIn)
      have hUp := le_getLast (hMono.sublist (List.take_sublist _ _)) hIn hGet
      have hDown := le_getLast hMono (List.mem_of_mem_take (List.mem_of_getLast? hGet))
        List.getLast?_concat
      rw [hGet, UInt64.le_antisymm hDown hUp]
    · rw [if_neg hAny]

/-- Two states of a register. -/
def firstState : State := { nVersion := 1, nModified := 10 }
def secondState : State := { nVersion := 1, nModified := 20 }

/-- The pool writes the first state, the second, and the first again, and claims twice. -/
def statePool : List (List Call) :=
  [[.WriteState 7 firstState, .WriteClaimed 3 0 5], [.WriteState 7 secondState],
    [.WriteState 7 firstState, .WriteClaimed 3 0 9]]

/-- The first two states are confirmed, in two blocks. -/
def stateBlocks : List (List BlockCall) :=
  [[.call (.WriteState 7 firstState), .call (.WriteClaimed 3 0 5)],
    [.call (.WriteState 7 secondState), .call (.WriteClaimed 3 0 9)]]

theorem statePool_touches :
    statePool.flatten.filter (·.touchesState 7) =
        ([firstState, secondState] ++ [firstState]).map (.WriteState 7) ∧
      statePool.flatten.filter (·.touchesClaim (3, 0)) = ([(5 : UInt64)] ++ [9]).map (.WriteClaimed 3 0) := by
  simp [statePool, Call.touchesState, Call.stateEdit, Call.touchesClaim, Call.claimEdit]

theorem stateBlocks_touches (rt : Runtime) :
    stateBlocks.flatten.filter (·.touchesState rt 7) =
        (([firstState, secondState] ++ [firstState]).take 2).map (.call <| .WriteState 7 ·) ∧
      stateBlocks.flatten.filter (·.touchesClaim (3, 0)) =
        (([(5 : UInt64)] ++ [9]).take 2).map (.call <| .WriteClaimed 3 0 ·) := by
  simp [stateBlocks, BlockCall.touchesState, BlockCall.statePut, Memory.statePut,
    BlockCall.touchesClaim, BlockCall.claimPut]

theorem confirm_keeps_statePool :
    ((confirm exampleRuntime {} statePool stateBlocks).ReadState .MEMPOOL 7 = some firstState ↔
        ((∃ stateDisk ∈ [firstState, secondState], firstState.Equal exampleRuntime stateDisk) →
          some secondState = some firstState)) ∧
      (confirm exampleRuntime {} statePool stateBlocks).ReadClaimed .MEMPOOL 3 0 = some 9 := by
  have hConfirm := confirm_keeps_iff exampleRuntime {} statePool stateBlocks 2
  constructor
  · exact hConfirm.1 7 [firstState, secondState] firstState statePool_touches.1
      (stateBlocks_touches exampleRuntime).1
  · exact hConfirm.2 3 0 [5] 9 statePool_touches.2 (stateBlocks_touches exampleRuntime).2
      (by decide)

/-- The pool still holds the first state, and the second is read. -/
theorem confirm_of_repeated :
    (confirm exampleRuntime {} statePool stateBlocks).ReadState .MEMPOOL 7 ≠ some firstState := by
  decide +kernel

end Nexus.Safety
