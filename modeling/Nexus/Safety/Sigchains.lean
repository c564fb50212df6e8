import Nexus.Safety.Ownership

/-!
# The custody of signature chains

A transaction that is connected is the first of its chain, or follows the last one of it, with the
key that the last one announced or its recovery key.  So the last transaction of a genesis heads a
chain of stored transactions down to a first one, in which every key is the one announced before it.

## Main results

* `sigchains_kept`: every run of stored transactions and connected blocks keeps the signature chains.
-/

namespace Nexus.Safety

open Nexus.Lib
open Nexus.Lib.Checked
open Nexus.Util
open Nexus.LLD
open Nexus.Ledger

variable {σ : Type} {rt : LedgerRuntime} {crt : ChainRuntime} {side : Periphery σ}
  {node node' : Node σ} {block : BlockState} {db db' : Records} {tx prev : Transaction}
  {txs : Uint512 → Option Transaction} {hash : Uint512} {hashGenesis : Uint256}

/-- A transaction follows another one of its chain. -/
structure Succeeds (rt : LedgerRuntime) (prev tx : Transaction) : Prop where
  genesis : prev.hashGenesis = tx.hashGenesis
  sequence : prev.nSequence + 1 = tx.nSequence
  timestamp : prev.nTimestamp ≤ tx.nTimestamp
  /-- The key is the one that was announced, or the recovery key. -/
  key : tx.PrevHash rt = prev.hashNext ∨ tx.PrevHash rt = prev.hashRecovery ∧ prev.hashRecovery ≠ 0
  /-- Only the recovery key changes the recovery key. -/
  recovery : tx.PrevHash rt = prev.hashNext → prev.hashRecovery ≠ 0 → prev.hashRecovery = tx.hashRecovery

/-- A signature chain of a genesis that ends in a stored transaction. -/
inductive Sigchain (rt : LedgerRuntime) (txs : Uint512 → Option Transaction) (hashGenesis : Uint256) :
    Uint512 → Prop
  | first {hash : Uint512} {tx : Transaction} (hRead : txs hash = some tx)
      (hGenesis : tx.hashGenesis = hashGenesis) (hFirst : tx.IsFirst) :
      Sigchain rt txs hashGenesis hash
  | next {hash : Uint512} {tx prev : Transaction} (hRead : txs hash = some tx)
      (hGenesis : tx.hashGenesis = hashGenesis) (hPrev : txs tx.hashPrevTx = some prev)
      (hSucceeds : Succeeds rt prev tx) (hChain : Sigchain rt txs hashGenesis tx.hashPrevTx) :
      Sigchain rt txs hashGenesis hash

/-- The last transaction of every genesis heads a signature chain. -/
def Sigchains (rt : LedgerRuntime) (db : Records) : Prop :=
  ∀ hashGenesis hash, db.ReadLast hashGenesis = some hash →
    Sigchain rt db.ledger.txs hashGenesis hash

/-- Transactions are stored under their hashes. -/
def UnderHash (rt : LedgerRuntime) (txs : Uint512 → Option Transaction) : Prop :=
  ∀ hash tx, txs hash = some tx → tx.GetHash rt.toRuntime = hash

/-! ## One transaction -/

theorem succeeds_of_checkPrev {result : Unit} (h : tx.checkPrev rt prev = .ok result) :
    Succeeds rt prev tx := by
  simp only [Transaction.checkPrev, bind_eq_ok, reject_eq_ok, ite_eq_ok, pure_eq_ok, not_and,
    not_not] at h
  obtain ⟨_, hSequence, _, hTimestamp, ⟨hOther, _, hKey, _, hSome, -, -, -, -, hGenesis⟩ |
    ⟨hKey, fSecond, hSecond, _, hRecovery, hGenesis⟩⟩ := h
  · exact ⟨hGenesis, hSequence, UInt64.not_lt.mp hTimestamp, .inr ⟨hKey.symm, hSome⟩,
      fun hSame => absurd hSame.symm hOther⟩
  · refine ⟨hGenesis, hSequence, UInt64.not_lt.mp hTimestamp, .inl hKey.symm, fun _ hSome => ?_⟩
    by_contra hChanged
    exact hSome (hRecovery hSecond.symm hChanged)

/-- A contract that is executed leaves the last transactions. -/
theorem connectContracts_last {chain : ChainState} {fApplyTxFee : Bool}
    {vContracts : List Operation.Contract} {x x' : Records × UInt64}
    (h : vContracts.foldlM (Transaction.connectContract rt .BLOCK chain block fApplyTxFee) x =
      .ok x') : x'.1.last = x.1.last := by
  have hTrans {x y z : Records × UInt64} (h : y.1.last = x.1.last) (h' : z.1.last = y.1.last) :
      z.1.last = x.1.last := h'.trans h
  refine foldlM_keeps (fun x x' => x'.1.last = x.1.last) (fun _ => rfl) hTrans ?_ h
  intro x contract x' _ hTurn
  obtain ⟨_, _, _, -, rfl⟩ := connectContract_eq_ok hTurn
  rfl

/-- A transaction that is connected is the last one, and the first one of its chain or behind a
transaction that is stored. -/
theorem connect_last {chain : ChainState}
    (h : tx.Connect rt .BLOCK chain db block = .ok db') :
    db'.last = Function.update db.last tx.hashGenesis (some (tx.GetHash rt.toRuntime)) ∧
      (¬ tx.IsFirst → ∃ prev, db.ledger.txs tx.hashPrevTx = some prev ∧ Succeeds rt prev tx) := by
  obtain ⟨db₁, fApplyTxFee, db₂, nCost, hChain, hContracts, rfl⟩ := Transaction.Connect_eq_ok h
  have hLast : db₂.last = db₁.last := connectContracts_last hContracts
  simp only [Transaction.connectChain, ite_eq_ok, bind_eq_ok, pure_eq_ok, Prod.mk.injEq,
    demand_eq_ok] at hChain
  rcases hChain with ⟨hFirst, _, -, rfl, -⟩ | ⟨-, prev, hPrev, _, hCheck, rfl, -⟩
  · refine ⟨?_, fun hNot => absurd hFirst hNot⟩
    rw [if_pos rfl, Records.WriteLast, hLast]
    rfl
  · refine ⟨?_, fun _ => ⟨prev, hPrev, succeeds_of_checkPrev hCheck⟩⟩
    rw [if_pos rfl, Records.WriteLast, hLast]

/-- A chain of one genesis is prolonged by a transaction that is stored under its hash. -/
theorem sigchains_connect {chain : ChainState} (h : Sigchains rt db)
    (hRead : db.ledger.txs (tx.GetHash rt.toRuntime) = some tx)
    (hLast : ¬ tx.IsFirst → db.ReadLast tx.hashGenesis = some tx.hashPrevTx)
    (hConnect : tx.Connect rt .BLOCK chain db block = .ok db') : Sigchains rt db' := by
  obtain ⟨hWritten, hFollows⟩ := connect_last hConnect
  intro hashGenesis hash hReadLast
  rw [(Transaction.Connect_kept hConnect).txs]
  rw [Records.ReadLast, hWritten, Function.update_apply] at hReadLast
  by_cases hSame : hashGenesis = tx.hashGenesis
  · rw [if_pos hSame] at hReadLast
    obtain rfl := Option.some.inj hReadLast
    by_cases hFirst : tx.IsFirst
    · exact .first hRead hSame.symm hFirst
    · obtain ⟨prev, hPrev, hSucceeds⟩ := hFollows hFirst
      exact .next hRead hSame.symm hPrev hSucceeds (hSame ▸ h _ _ (hLast hFirst))
  · rw [if_neg hSame] at hReadLast
    exact h _ _ hReadLast

/-! ## Blocks -/

/-- The transactions that are stored stay, and so do the signature chains. -/
def KeepsChains (rt : LedgerRuntime) (db db' : Records) : Prop :=
  db'.ledger.txs = db.ledger.txs ∧ (UnderHash rt db.ledger.txs → Sigchains rt db → Sigchains rt db')

theorem KeepsChains.refl (db : Records) : KeepsChains rt db db := ⟨rfl, fun _ h => h⟩

theorem KeepsChains.trans {db'' : Records} (h : KeepsChains rt db db') (h' : KeepsChains rt db' db'') :
    KeepsChains rt db db'' :=
  ⟨h'.1.trans h.1, fun hUnder hChains => h'.2 (by rwa [h.1]) (h.2 hUnder hChains)⟩

theorem keepsChains_connectTx {x x' : BlockState.Connecting σ} {hashBlock : Uint1024}
    {hashBlockFinder : Uint512} {proof : UInt8 × Uint512}
    (h : BlockState.connectTx crt side hashBlock hashBlockFinder x proof = .ok x') :
    KeepsChains crt.toLedgerRuntime x.node.db x'.node.db := by
  obtain ⟨nType, hash⟩ := proof
  simp only [BlockState.connectTx] at h
  by_cases hTritium : nType = TRANSACTION.TRITIUM
  · rw [if_pos hTritium] at h
    simp only [BlockState.connectTritium, bind_eq_ok, demand_eq_ok, pure_eq_ok, LedgerDB.ReadTx] at h
    obtain ⟨x₁, ⟨_, -, tx, hTx, _, hCheck, _, -, db, hConnect, nFees, -, hStake⟩, rfl⟩ := h
    have hLast : ¬ tx.IsFirst → x.node.db.ReadLast tx.hashGenesis = some tx.hashPrevTx := by
      intro hNot
      simp only [BlockState.checkLast, if_pos hNot, bind_eq_ok, demand_eq_ok, reject_eq_ok,
        not_not] at hCheck
      obtain ⟨hashLast, hReadLast, hSame⟩ := hCheck
      rw [hReadLast, hSame]
    have hKeeps : KeepsChains crt.toLedgerRuntime x.node.db db :=
      ⟨(Transaction.Connect_kept hConnect).txs, fun hUnder hChains =>
        sigchains_connect hChains (by rw [hUnder hash tx hTx, hTx]) hLast hConnect⟩
    obtain ⟨fCoinStake, -, hStake⟩ := bind_eq_ok.mp hStake
    cases fCoinStake with
    | true =>
        simp only [if_true, bind_eq_ok, Prod.exists, pure_eq_ok] at hStake
        obtain ⟨_, _, -, rfl⟩ := hStake
        exact hKeeps
    | false =>
        simp only [Bool.false_eq_true, if_false, pure_eq_ok] at hStake
        subst hStake
        exact hKeeps
  · rw [if_neg hTritium] at h
    by_cases hLegacy : nType = TRANSACTION.LEGACY
    · rw [if_pos hLegacy] at h
      simp only [BlockState.connectLegacy, bind_eq_ok, pure_eq_ok] at h
      obtain ⟨x₁, ⟨_, -, s, -, rfl⟩, rfl⟩ := h
      exact .refl _
    · rw [if_neg hLegacy] at h
      cases h

theorem keepsChains_block (h : ConnectsBlock crt side node block node') :
    KeepsChains crt.toLedgerRuntime node.db node'.db := by
  obtain ⟨block', h⟩ := h
  simp only [BlockState.Connect, bind_eq_ok, pure_eq_ok, Prod.mk.injEq] at h
  obtain ⟨finder, -, x, hTxs, prev, -, -, rfl⟩ := h
  have hKeeps := foldlM_keeps (fun x x' => KeepsChains crt.toLedgerRuntime x.node.db x'.node.db)
    (fun x => .refl x.node.db) KeepsChains.trans (fun _ _ _ _ hTurn => keepsChains_connectTx hTurn) hTxs
  split
  · exact hKeeps
  · exact hKeeps

/-! ## Runs of a node -/

/-- A transaction is stored under its hash, where no other one is. -/
def StoredOnce (rt : LedgerRuntime) (txs : Uint512 → Option Transaction) : ChainCall → Prop
  | .WriteTx hash tx => tx.GetHash rt.toRuntime = hash ∧ ∀ tx', txs hash = some tx' → tx' = tx
  | .Connect _ => True

/-- A signature chain is one where more transactions are stored. -/
theorem Sigchain.mono {txs' : Uint512 → Option Transaction} (h : Sigchain rt txs hashGenesis hash)
    (hGrows : ∀ hash tx, txs hash = some tx → txs' hash = some tx) :
    Sigchain rt txs' hashGenesis hash := by
  induction h with
  | first hRead hGenesis hFirst => exact .first (hGrows _ _ hRead) hGenesis hFirst
  | next hRead hGenesis hPrev hSucceeds _ ih =>
      exact .next (hGrows _ _ hRead) hGenesis (hGrows _ _ hPrev) hSucceeds ih

theorem writeTx_apply (db : Records) (hashTx : Uint512) (tx : Transaction) (hash : Uint512) :
    (db.WriteTx hashTx tx).ledger.txs hash =
      if hash = hashTx then some tx else db.ledger.txs hash :=
  Function.update_apply ..

theorem sigchains_advance {call : ChainCall} (hUnder : UnderHash crt.toLedgerRuntime node.db.ledger.txs)
    (hChains : Sigchains crt.toLedgerRuntime node.db)
    (hOnce : StoredOnce crt.toLedgerRuntime node.db.ledger.txs call)
    (h : Advances crt side node call node') :
    UnderHash crt.toLedgerRuntime node'.db.ledger.txs ∧ Sigchains crt.toLedgerRuntime node'.db := by
  cases call with
  | WriteTx hashTx tx =>
      obtain ⟨hHash, hSame⟩ := hOnce
      obtain rfl := h
      have hTxs := writeTx_apply node.db hashTx tx
      constructor
      · intro hash tx' hRead
        rw [hTxs] at hRead
        split at hRead
        · rename_i hAt
          rw [← Option.some.inj hRead, hHash, hAt]
        · exact hUnder hash tx' hRead
      · intro hashGenesis hash hLast
        refine (hChains hashGenesis hash hLast).mono fun hash' tx' hRead => ?_
        rw [hTxs]
        split
        · rename_i hAt
          rw [hSame tx' (hAt ▸ hRead)]
        · exact hRead
  | Connect block =>
      obtain ⟨hTxs, hKeeps⟩ := keepsChains_block h
      exact ⟨by rwa [hTxs], hKeeps hUnder hChains⟩

/-- Where the last transaction of every genesis heads a signature chain, it does so behind every run
of stored transactions and connected blocks. -/
theorem sigchains_kept {calls : List ChainCall}
    (hRun : Run (fun node call node' => Advances crt side node call node' ∧
      StoredOnce crt.toLedgerRuntime node.db.ledger.txs call) node calls node')
    (hUnder : UnderHash crt.toLedgerRuntime node.db.ledger.txs)
    (hChains : Sigchains crt.toLedgerRuntime node.db) : Sigchains crt.toLedgerRuntime node'.db :=
  (hRun.invariant (I := fun node => UnderHash crt.toLedgerRuntime node.db.ledger.txs ∧
      Sigchains crt.toLedgerRuntime node.db)
    (fun _ _ _ hKept hStep => sigchains_advance hKept.1 hKept.2 hStep.2 hStep.1)
    ⟨hUnder, hChains⟩).2

/-! ## A block with a first transaction and the next -/

/-- The first transaction of alice, which announces the key 7. -/
def openingTx : Transaction := { hashGenesis := alice, hashNext := exampleRuntime.SK256 [7] }

/-- Her second one, with that key. -/
def secondTx : Transaction :=
  { hashGenesis := alice, nSequence := 1, hashPrevTx := openingTx.GetHash exampleRuntime,
    vchPubKey := [7] }

/-- The two are stored one after the other. -/
def openedNode : Node Unit where
  db := blockRecords exampleLedger [firstBlock]
  side := ()

def openedOnce : Node Unit :=
  { openedNode with db := openedNode.db.WriteTx (openingTx.GetHash exampleRuntime) openingTx }

def openingNode : Node Unit :=
  { openedOnce with db := openedOnce.db.WriteTx (secondTx.GetHash exampleRuntime) secondTx }

def openingBlock : BlockState :=
  { minedBlock with
    vtx := [(TRANSACTION.TRITIUM, openingTx.GetHash exampleRuntime),
      (TRANSACTION.TRITIUM, secondTx.GetHash exampleRuntime)] }

/-- The two transactions are stored, and behind the block the second one heads the signature chain of alice. -/
theorem sigchains_kept_opening :
    ∃ node', ConnectsBlock exampleChain exampleSide openingNode openingBlock node' ∧
      node'.db.ReadLast alice = some (secondTx.GetHash exampleRuntime) ∧
      Sigchains exampleLedger node'.db := by
  have hLast : ((BlockState.Connect exampleChain exampleSide openingNode openingBlock).toOption.bind
      fun r => r.2.db.ReadLast alice) = some (secondTx.GetHash exampleRuntime) := by
    decide +kernel
  cases hConnect : BlockState.Connect exampleChain exampleSide openingNode openingBlock with
  | error e =>
      rw [hConnect] at hLast
      cases hLast
  | ok r =>
      rw [hConnect] at hLast
      have hStep : ConnectsBlock exampleChain exampleSide openingNode openingBlock r.2 :=
        ⟨r.1, hConnect⟩
      have hNone : ∀ hash, openedNode.db.ledger.txs hash = none := fun _ => rfl
      have hSecond : openedOnce.db.ledger.txs (secondTx.GetHash exampleRuntime) = none := by
        have hNe : secondTx.GetHash exampleRuntime ≠ openingTx.GetHash exampleRuntime := by
          decide +kernel
        exact (writeTx_apply openedNode.db _ openingTx _).trans (if_neg hNe)
      have hRun : Run (fun node call node' => Advances exampleChain exampleSide node call node' ∧
          StoredOnce exampleLedger node.db.ledger.txs call) openedNode
          [.WriteTx (openingTx.GetHash exampleRuntime) openingTx,
            .WriteTx (secondTx.GetHash exampleRuntime) secondTx, .Connect openingBlock] r.2 := by
        refine .cons ⟨rfl, rfl, fun tx' hRead => ?_⟩ (.cons ⟨rfl, rfl, fun tx' hRead => ?_⟩
          (.single ⟨hStep, trivial⟩))
        · rw [hNone] at hRead
          cases hRead
        · exact absurd (hSecond.symm.trans hRead) (by simp)
      have hUnder : UnderHash exampleLedger openedNode.db.ledger.txs := by
        intro hash tx hRead
        rw [hNone] at hRead
        cases hRead
      have hChains : Sigchains exampleLedger openedNode.db := by
        intro hashGenesis hash hRead
        cases hRead
      exact ⟨r.2, hStep, hLast, sigchains_kept hRun hUnder hChains⟩

end Nexus.Safety
