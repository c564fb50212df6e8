import Nexus.Register.Chain
import Nexus.Safety.Reconnects

/-!
# Registers and their owners

Every operation but a claim is of the owner of its pre-state, and `Verify` holds the pre-state
against the current state by a hash of 64 bits.  So as long as the transactions of a chain of blocks
are of others, and none of them carries a second state of that hash, a register stays as it is.

## Main results

* `registers_kept`: a run of stored transactions and connected blocks, without transactions of the
  owner in the blocks, leaves a register.
-/

namespace Nexus.Safety

open Nexus.Lib
open Nexus.Lib.Bytes
open Nexus.Lib.Checked
open Nexus.Util
open Nexus.Register
open Nexus.Operation
open Nexus.LLD
open Nexus.Ledger

variable {σ : Type} {rt : LedgerRuntime} {disk disk' : Disk} {mapStates mapStates' : States}
  {contract : Contract} {action : Action} {hashAddress : Address} {state before after : State}
  {nCost nCost' : UInt64}

/-- No other state than `state` has its hash and is the pre-state of the contract. -/
def NoSecond (rt : Runtime) (state : State) (contract : Contract) : Prop :=
  ∀ prestate, contract.prestate = some prestate → prestate.GetHash rt = state.GetHash rt →
    prestate.hashBytes = state.hashBytes

/-- The state is owned by a user, and the caller is another. -/
def OfAnother (state : State) (hashCaller : Uint256) : Prop :=
  hashCaller ≠ state.hashOwner ∧ GetType state.hashOwner ≠ GENESIS.SYSTEM

/-! ## One contract -/

/-- The caller of an accepted action, unless it creates its register, is the owner of the pre-state, or
claims a register that no user owns. -/
theorem caller_of_accepted {rt : Runtime} (hAccepted : Accepted rt disk contract action before after disk')
    (hTarget : action.target rt contract.hashCaller = some hashAddress)
    (hOther : ∀ hashAddress nType vchData, action ≠ .CREATE hashAddress nType vchData) :
    contract.hashCaller = before.hashOwner ∨ GetType before.hashOwner = GENESIS.SYSTEM := by
  have hAllowed := hAccepted.allowed
  cases action with
  | CREATE _ _ _ => exact absurd rfl (hOther _ _ _)
  | COINBASE _ => cases hTarget
  | AUTHORIZE => cases hTarget
  | CLAIM _ _ _ =>
      have hRun : Claim.Execute rt before contract.hashCaller contract.nTimestamp = .ok after :=
        hAccepted.run
      simp only [Claim.Execute, bind_eq_ok, reject_eq_ok, not_not] at hRun
      obtain ⟨_, hSystem, -⟩ := hRun
      exact .inr hSystem
  | APPEND _ _ => exact .inl hAllowed.1.symm
  | DEBIT _ _ _ => exact .inl hAllowed.1.symm
  | CREDIT _ => exact .inl hAllowed.1.symm
  | MIGRATE _ _ => exact .inl hAllowed.1.symm
  | WRITE _ _ => exact .inl hAllowed.symm
  | TRANSFER _ _ _ => exact .inl hAllowed.symm
  | TRUST _ _ _ => exact .inl hAllowed.symm
  | GENESIS _ => exact .inl hAllowed.symm
  | FEE _ _ => exact .inl hAllowed.symm
  | LEGACY _ _ => exact .inl hAllowed.symm

/-- A new register has an address where none was. -/
theorem free_of_created {rt : Runtime} {nType : UInt8} {vchData : List UInt8}
    (hAccepted : Accepted rt disk contract (.CREATE hashAddress nType vchData) before after disk') :
    disk.register.ReadState hashAddress = none := by
  have hCommit := hAccepted.commit
  simp only [Action.commit, Create.Commit, map_eq_ok, bind_eq_ok, reject_eq_ok, Prod.exists,
    Bool.not_eq_true] at hCommit
  obtain ⟨_, _, ⟨_, -, _, hFree, -⟩, -⟩ := hCommit
  simpa [RegisterDB.HasState, RegisterDB.ReadState] using hFree

/-- The target of an action does not depend on the best block. -/
theorem target_runtime (chain : ChainState) (hashCaller : Uint256) :
    action.target (chain.runtime rt) hashCaller = action.target rt.toRuntime hashCaller := by
  cases action <;> rfl

/-- An action that moves the register of another is not both verified and accepted. -/
theorem target_ne {chain : ChainState} (hAnother : OfAnother state contract.hashCaller)
    (hSecond : NoSecond rt.toRuntime state contract)
    (hMap : readState disk mapStates hashAddress = some state)
    (hRead : disk'.register.ReadState hashAddress = some state)
    (hVerified : Verified rt.toRuntime disk mapStates contract mapStates' action) {disk'' : Disk}
    (hAccepted : Accepted (chain.runtime rt) disk' contract action before after disk'') :
    action.target rt.toRuntime contract.hashCaller ≠ some hashAddress := by
  intro hTarget
  have hTarget' := (target_runtime chain contract.hashCaller).trans hTarget
  by_cases hCreate : ∃ hashAddress nType vchData, action = .CREATE hashAddress nType vchData
  · obtain ⟨hashCreated, nType, vchData, rfl⟩ := hCreate
    obtain rfl := Option.some.inj hTarget
    rw [free_of_created hAccepted] at hRead
    cases hRead
  · simp only [not_exists] at hCreate
    obtain ⟨fOwner, prestate, current, -, hPre, hCurrent, hEqual, -⟩ :=
      hVerified.moves hTarget hCreate
    obtain rfl := Option.some.inj (hMap.symm.trans hCurrent)
    have hStart := hAccepted.start
    rw [before_eq_prestate hTarget' hCreate, hPre] at hStart
    obtain rfl := Option.some.inj hStart
    -- the pre-state has the hash of the current state, so it has its owner
    have hOwner : prestate.hashOwner = state.hashOwner := by
      rw [State.hashBytes_inj (hSecond _ hPre (beq_iff_eq.mp hEqual))]
    cases caller_of_accepted hAccepted hTarget' hCreate with
    | inl hCaller => exact hAnother.1 (hCaller.trans hOwner)
    | inr hSystem => exact hAnother.2 (hOwner ▸ hSystem)

/-- What `Verify` leaves in the map at an address that the action does not move. -/
theorem mapped_other {rt : Runtime} (h : Verified rt disk mapStates contract mapStates' action)
    (hTarget : action.target rt contract.hashCaller ≠ some hashAddress) :
    mapStates' hashAddress = mapStates hashAddress := by
  by_cases hCreate : ∃ hashAddress nType vchData, action = .CREATE hashAddress nType vchData
  · obtain ⟨hashCreated, nType, vchData, rfl⟩ := hCreate
    obtain ⟨created, -, rfl⟩ := h
    exact Function.update_of_ne (fun hSame => hTarget (congrArg some hSame.symm)) _ _
  · simp only [not_exists] at hCreate
    cases hMoved : action.target rt contract.hashCaller with
    | none =>
        cases action with
        | COINBASE _ => exact congrFun h _
        | AUTHORIZE => exact congrFun h _
        | _ => cases hMoved
    | some hashMoved =>
        obtain ⟨_, _, _, _, -, -, -, -, -, rfl⟩ := h.moves hMoved hCreate
        exact Function.update_of_ne (fun hSame => hTarget (hMoved.trans (congrArg some hSame.symm))) _ _

/-- What an accepted action leaves at an address that it does not move. -/
theorem moved_other {register register' : RegisterDB} {target : Option Address}
    (h : Moved register register' target after) (hTarget : target ≠ some hashAddress) :
    register'.ReadState hashAddress = register.ReadState hashAddress := by
  unfold RegisterDB.ReadState
  cases target with
  | none => rw [h.1]
  | some hashMoved =>
      rw [h.1]
      exact Function.update_of_ne (fun hSame => hTarget (congrArg some hSame.symm)) _ _

/-- A contract of another leaves the register, in the map of `Verify` and on disk. -/
theorem contract_keeps {chain : ChainState} {disk'' : Disk}
    (hAnother : OfAnother state contract.hashCaller)
    (hSecond : NoSecond rt.toRuntime state contract)
    (hMap : readState disk mapStates hashAddress = some state)
    (hRead : disk'.register.ReadState hashAddress = some state)
    (hVerify : Register.Verify rt.toRuntime disk mapStates contract = .ok mapStates')
    (hExecute : Execute (chain.runtime rt) disk' contract nCost = .ok (disk'', nCost')) :
    readState disk mapStates' hashAddress = some state ∧
      disk''.register.ReadState hashAddress = some state := by
  have hExecutes : Executes disk' ⟨chain.runtime rt, contract, nCost⟩ disk'' := ⟨nCost', hExecute⟩
  obtain ⟨action, disk₁, before, after, hPerforms, -, -, hRegister, hAccepted⟩ := hExecutes.accepted
  have hVerified := Verify.verified hVerify hPerforms
  rw [← hRegister] at hRead
  have hTarget := target_ne hAnother hSecond hMap hRead hVerified hAccepted
  constructor
  · rw [readState, mapped_other hVerified hTarget]
    exact hMap
  · have hMoved := hAccepted.moved
    rw [moved_other hMoved (by rwa [target_runtime])]
    exact hRead

/-! ## Transactions -/

/-- A transaction of another that carries no second state of the hash of `state`. -/
def Foreign (rt : LedgerRuntime) (state : State) (tx : Transaction) : Prop :=
  OfAnother state tx.hashGenesis ∧ ∀ contract ∈ tx.contracts rt, NoSecond rt.toRuntime state contract

/-- The two loops over the contracts of a transaction. -/
theorem contracts_keep {chain : ChainState} {block : BlockState} {fApplyTxFee : Bool}
    {contracts : List Contract} {x x' : Records × UInt64}
    (hForeign : ∀ contract ∈ contracts, OfAnother state contract.hashCaller ∧
      NoSecond rt.toRuntime state contract)
    (hMap : readState disk mapStates hashAddress = some state)
    (hRead : x.1.register.ReadState hashAddress = some state)
    (hVerify : contracts.foldlM (fun mapStates contract =>
      Register.Verify rt.toRuntime disk mapStates contract) mapStates = .ok mapStates')
    (hConnect : contracts.foldlM (Transaction.connectContract rt .BLOCK chain block fApplyTxFee) x =
      .ok x') :
    x'.1.register.ReadState hashAddress = some state := by
  induction contracts generalizing mapStates x with
  | nil =>
      rw [foldlM_nil_eq_ok] at hConnect
      rw [← hConnect]
      exact hRead
  | cons contract contracts ih =>
      rw [List.forall_mem_cons] at hForeign
      obtain ⟨mapStates₁, hFirst, hVerifyRest⟩ := foldlM_cons_eq_ok.mp hVerify
      obtain ⟨x₁, hTurn, hConnectRest⟩ := foldlM_cons_eq_ok.mp hConnect
      obtain ⟨disk₁, nCost, nCost', hExecute, rfl⟩ := connectContract_eq_ok hTurn
      obtain ⟨hMap₁, hRead₁⟩ := contract_keeps hForeign.1.1 hForeign.1.2 hMap hRead hFirst hExecute
      exact ih hForeign.2 hMap₁ hRead₁ hVerifyRest hConnectRest

/-- A connected transaction of another leaves the register. -/
theorem transaction_keeps {tx : Transaction} {chain : ChainState} {db db' : Records}
    {block : BlockState} (hForeign : Foreign rt state tx)
    (hRead : db.register.ReadState hashAddress = some state)
    (hVerify : tx.Verify rt db.toDisk = .ok mapStates)
    (hConnect : tx.Connect rt .BLOCK chain db block = .ok db') :
    db'.register.ReadState hashAddress = some state := by
  obtain ⟨db₁, fApplyTxFee, db₂, nCost, hChain, hContracts, rfl⟩ := Transaction.Connect_eq_ok hConnect
  have hRegister : db₁.register = db.register := by
    simp only [Transaction.connectChain, ite_eq_ok, bind_eq_ok, pure_eq_ok, Prod.mk.injEq] at hChain
    rcases hChain with ⟨-, _, -, rfl, -⟩ | ⟨-, _, -, _, -, rfl, -⟩
    · rfl
    · rfl
  rw [← hRegister] at hRead
  have hMap : readState db.toDisk (fun _ => none) hashAddress = some state := by
    rw [← hRead, hRegister]
    rfl
  refine contracts_keep (fun contract hMem => ⟨?_, hForeign.2 contract hMem⟩) hMap hRead hVerify
    hContracts
  obtain ⟨contract, -, rfl⟩ := List.mem_map.mp hMem
  exact hForeign.1

/-! ## Blocks -/

variable {crt : ChainRuntime} {side : Periphery σ} {node node' : Node σ} {block block' : BlockState}

/-- The transactions of a block are of others. -/
def ForeignBlock (rt : LedgerRuntime) (state : State) (txs : Uint512 → Option Transaction)
    (block : BlockState) : Prop :=
  ∀ proof ∈ block.vtx, proof.1 = TRANSACTION.TRITIUM → ∀ tx, txs proof.2 = some tx → Foreign rt state tx

theorem connectTx_keeps {x x' : BlockState.Connecting σ} {hashBlock : Uint1024}
    {hashBlockFinder : Uint512} {proof : UInt8 × Uint512}
    (hForeign : proof.1 = TRANSACTION.TRITIUM → ∀ tx, x.node.db.ledger.txs proof.2 = some tx →
      Foreign crt.toLedgerRuntime state tx)
    (hRead : x.node.db.register.ReadState hashAddress = some state)
    (h : BlockState.connectTx crt side hashBlock hashBlockFinder x proof = .ok x') :
    x'.node.db.register.ReadState hashAddress = some state ∧
      x'.node.db.ledger.txs = x.node.db.ledger.txs := by
  obtain ⟨nType, hash⟩ := proof
  simp only [BlockState.connectTx] at h
  by_cases hTritium : nType = TRANSACTION.TRITIUM
  · rw [if_pos hTritium] at h
    simp only [BlockState.connectTritium, bind_eq_ok, demand_eq_ok, pure_eq_ok, LedgerDB.ReadTx] at h
    obtain ⟨x₁, ⟨_, -, tx, hTx, _, -, mapStates, hVerify, db, hConnect, nFees, -, hStake⟩, rfl⟩ := h
    have hKept := transaction_keeps (hForeign hTritium tx hTx) hRead hVerify hConnect
    have hTxs := (Transaction.Connect_kept hConnect).txs
    obtain ⟨fCoinStake, -, hStake⟩ := bind_eq_ok.mp hStake
    cases fCoinStake with
    | true =>
        simp only [if_true, bind_eq_ok, Prod.exists, pure_eq_ok] at hStake
        obtain ⟨_, _, -, rfl⟩ := hStake
        exact ⟨hKept, hTxs⟩
    | false =>
        simp only [Bool.false_eq_true, if_false, pure_eq_ok] at hStake
        subst hStake
        exact ⟨hKept, hTxs⟩
  · rw [if_neg hTritium] at h
    by_cases hLegacy : nType = TRANSACTION.LEGACY
    · rw [if_pos hLegacy] at h
      simp only [BlockState.connectLegacy, bind_eq_ok, pure_eq_ok] at h
      obtain ⟨x₁, ⟨_, -, s, -, rfl⟩, rfl⟩ := h
      exact ⟨hRead, rfl⟩
    · rw [if_neg hLegacy] at h
      cases h

theorem connectTxs_keep {x x' : BlockState.Connecting σ} {hashBlock : Uint1024}
    {hashBlockFinder : Uint512} {vtx : List (UInt8 × Uint512)}
    (h : vtx.foldlM (BlockState.connectTx crt side hashBlock hashBlockFinder) x = .ok x')
    (hForeign : ∀ proof ∈ vtx, proof.1 = TRANSACTION.TRITIUM → ∀ tx,
      x.node.db.ledger.txs proof.2 = some tx → Foreign crt.toLedgerRuntime state tx)
    (hRead : x.node.db.register.ReadState hashAddress = some state) :
    x'.node.db.register.ReadState hashAddress = some state ∧
      x'.node.db.ledger.txs = x.node.db.ledger.txs := by
  induction vtx generalizing x with
  | nil =>
      rw [foldlM_nil_eq_ok] at h
      rw [← h]
      exact ⟨hRead, rfl⟩
  | cons proof vtx ih =>
      rw [List.forall_mem_cons] at hForeign
      obtain ⟨x₁, hFirst, hRest⟩ := foldlM_cons_eq_ok.mp h
      obtain ⟨hRead₁, hTxs₁⟩ := connectTx_keeps hForeign.1 hRead hFirst
      rw [← hTxs₁] at hForeign
      obtain ⟨hRead', hTxs'⟩ := ih hRest hForeign.2 hRead₁
      exact ⟨hRead', hTxs'.trans hTxs₁⟩

/-- A block is connected. -/
def ConnectsBlock (crt : ChainRuntime) (side : Periphery σ) (node : Node σ) (block : BlockState)
    (node' : Node σ) : Prop :=
  ∃ block', BlockState.Connect crt side node block = .ok (block', node')

/-- A block without transactions of the owner leaves the register, and every block the transactions. -/
theorem block_keeps (hForeign : ForeignBlock crt.toLedgerRuntime state node.db.ledger.txs block)
    (hRead : node.db.register.ReadState hashAddress = some state)
    (h : ConnectsBlock crt side node block node') :
    node'.db.register.ReadState hashAddress = some state ∧
      node'.db.ledger.txs = node.db.ledger.txs := by
  obtain ⟨block', h⟩ := h
  simp only [BlockState.Connect, bind_eq_ok, pure_eq_ok, Prod.mk.injEq] at h
  obtain ⟨finder, -, x, hTxs, prev, -, -, rfl⟩ := h
  have hKeeps := connectTxs_keep hTxs hForeign hRead
  split
  · exact hKeeps
  · exact hKeeps

/-! ## Runs of a node -/

/-- What a node does with its chain: it stores a transaction, or connects a block. -/
inductive ChainCall where
  | WriteTx (hash : Uint512) (tx : Transaction)
  | Connect (block : BlockState)

/-- A call leads from one node to another. -/
def Advances (crt : ChainRuntime) (side : Periphery σ) (node : Node σ) : ChainCall → Node σ → Prop
  | .WriteTx hash tx, node' => node' = { node with db := node.db.WriteTx hash tx }
  | .Connect block, node' => ConnectsBlock crt side node block node'

/-- A block that is connected has the transactions of others, as they are stored then. -/
def ForeignCall (rt : LedgerRuntime) (state : State) (txs : Uint512 → Option Transaction) :
    ChainCall → Prop
  | .WriteTx _ _ => True
  | .Connect block => ForeignBlock rt state txs block

theorem advance_keeps {call : ChainCall}
    (hForeign : ForeignCall crt.toLedgerRuntime state node.db.ledger.txs call)
    (hRead : node.db.register.ReadState hashAddress = some state)
    (h : Advances crt side node call node') : node'.db.register.ReadState hashAddress = some state := by
  cases call with
  | WriteTx hash tx =>
      obtain rfl := h
      exact hRead
  | Connect block => exact (block_keeps hForeign hRead h).1

/-- A register that a user owns is the same behind every run of stored transactions and connected
blocks, in which no block has a transaction of its owner. -/
theorem registers_kept {calls : List ChainCall}
    (hRun : Run (fun node call node' => Advances crt side node call node' ∧
      ForeignCall crt.toLedgerRuntime state node.db.ledger.txs call) node calls node')
    (hRead : node.db.register.ReadState hashAddress = some state) :
    node'.db.register.ReadState hashAddress = some state :=
  hRun.invariant (I := fun node => node.db.register.ReadState hashAddress = some state)
    (fun _ _ _ hRead hStep => advance_keeps hStep.2 hRead hStep.1) hRead

/-! ## A block of mallory -/

theorem writeTx_read (db : Records) (hashTx : Uint512) (tx : Transaction) :
    (db.WriteTx hashTx tx).ledger.txs hashTx = some tx := Function.update_self ..

/-- Gold of alice and dross of mallory. -/
def drossNode : Node Unit where
  db :=
    { blockRecords exampleLedger [firstBlock] with
      register.states :=
        Function.update (Function.update (fun _ => none) gold (some goldState)) dross (some drossState) }
  side := ()

/-- The node with the transaction by which mallory transfers his. -/
def transferNode : Node Unit :=
  { drossNode with db := drossNode.db.WriteTx (drossTransfer.GetHash exampleRuntime) drossTransfer }

def drossBlock : BlockState :=
  { minedBlock with vtx := [(TRANSACTION.TRITIUM, drossTransfer.GetHash exampleRuntime)] }

theorem drossTransfer_foreign : Foreign exampleLedger goldState drossTransfer := by
  refine ⟨⟨by decide +kernel, by decide +kernel⟩, fun contract hMem prestate hPre hSame => ?_⟩
  have hPrestates : (drossTransfer.contracts exampleLedger).map Contract.prestate = [some drossState] := by
    decide +kernel
  have hDross : contract.prestate ∈ [some drossState] :=
    hPrestates ▸ List.mem_map_of_mem hMem
  rw [hPre, List.mem_singleton] at hDross
  obtain rfl := Option.some.inj hDross
  exact absurd hSame (by decide +kernel)

/-- The transaction of mallory is stored, and its block moves his register and not the one of alice. -/
theorem registers_kept_gold :
    ∃ node', ConnectsBlock exampleChain exampleSide transferNode drossBlock node' ∧
      node'.db.register.ReadState gold = some goldState := by
  have hOk : (BlockState.Connect exampleChain exampleSide transferNode drossBlock).isOk = true := by
    decide +kernel
  cases hConnect : BlockState.Connect exampleChain exampleSide transferNode drossBlock with
  | error e =>
      rw [hConnect] at hOk
      cases hOk
  | ok r =>
      have hStep : ConnectsBlock exampleChain exampleSide transferNode drossBlock r.2 := ⟨r.1, hConnect⟩
      have hForeign : ForeignBlock exampleLedger goldState transferNode.db.ledger.txs drossBlock := by
        intro proof hProof _ tx hTx
        rw [List.mem_singleton.mp hProof] at hTx
        have hStored : transferNode.db.ledger.txs (drossTransfer.GetHash exampleRuntime) =
            some drossTransfer := writeTx_read drossNode.db _ _
        obtain rfl := Option.some.inj (hStored.symm.trans hTx)
        exact drossTransfer_foreign
      have hRun : Run (fun node call node' => Advances exampleChain exampleSide node call node' ∧
          ForeignCall exampleLedger goldState node.db.ledger.txs call) drossNode
          [.WriteTx (drossTransfer.GetHash exampleRuntime) drossTransfer, .Connect drossBlock] r.2 :=
        .cons ⟨rfl, trivial⟩ (.single ⟨hStep, hForeign⟩)
      exact ⟨r.2, hStep, registers_kept hRun (by decide +kernel)⟩

end Nexus.Safety
