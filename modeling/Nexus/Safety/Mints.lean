import Nexus.Ledger.Connected
import Nexus.Legacy.Values
import Nexus.Safety.Rewards
import Nexus.Safety.Stakes

/-!
# What a block mints

`nMint` has 32 bits, and takes the low bits of what is added to it: the rewards of a
coinbase when the block is indexed, those of coinstakes and the values of legacy
transactions when it is connected.  It is the number of coins that the block creates
less those it destroys, modulo 2^32.

## Main results

* `mint_of_tally`: the mint of the transactions of a block.
* `mint_exact_iff`: the blocks whose mint and money supply are exact.
-/

namespace Nexus.Safety

open Nexus.Lib.Checked
open Nexus.Lib.Words
open Nexus.Util
open Nexus.Operation
open Nexus.LLD
open Nexus.Legacy
open Nexus.Ledger

/-- The legacy branch of a block on a node, with what the transactions on disk mint. -/
def mintingSide (rt : LegacyRuntime) (rest : Periphery LegacySide) (node : Node LegacySide) :
    Periphery LegacySide :=
  rt.side { rest with
    legacyMint := fun hash =>
      match node.side.legacy.ReadTx hash with
      | some tx => tx.mint rt node.db node.side.legacy
      | none => .add 0 }

/-- The coins that a transaction of a block creates, less those it destroys: the reward of a
coinstake, and the values of a legacy transaction. -/
def createdBy (rt : LegacyRuntime) (node : Node LegacySide) (proof : UInt8 × Uint512) : Int :=
  if proof.1 = Ledger.TRANSACTION.TRITIUM then
    match node.db.ledger.ReadTx proof.2 with
    | some tx =>
        if tx.IsCoinStake = .ok true then (tx.claimedReward.toOption.getD 0).toNat else 0
    | none => 0
  else
    match node.side.legacy.ReadTx proof.2 with
    | some tx => tx.created rt node.db node.side.legacy
    | none => 0

/-- A legacy coinbase. -/
def IsLegacyBase (node : Node LegacySide) (proof : UInt8 × Uint512) : Prop :=
  proof.1 ≠ Ledger.TRANSACTION.TRITIUM ∧
    ∃ tx ∈ node.side.legacy.ReadTx proof.2, tx.IsCoinBase

instance (node : Node LegacySide) (proof : UInt8 × Uint512) :
    Decidable (IsLegacyBase node proof) :=
  decidable_of_iff (proof.1 ≠ Ledger.TRANSACTION.TRITIUM ∧
    ((node.side.legacy.ReadTx proof.2).any fun tx => decide tx.IsCoinBase) = true)
    (by simp only [IsLegacyBase, Option.any_eq_true, decide_eq_true_eq, Option.mem_def])

variable {rt : LegacyRuntime} {rest : Periphery LegacySide} {node node' node₀ : Node LegacySide}
  {state state₁ state₂ prev : BlockState} {x x' : BlockState.Connecting LegacySide}
  {proof : UInt8 × Uint512} {vtx : List (UInt8 × Uint512)} {t t' : Tally}

/-! ## Legacy transactions -/

/-- What a legacy transaction mints is what it creates, in 32 bits. -/
def MintsCreated (rt : LegacyRuntime) (node : Node LegacySide) (proof : UInt8 × Uint512) : Prop :=
  proof.1 ≠ Ledger.TRANSACTION.TRITIUM → ∃ tx, node.side.legacy.ReadTx proof.2 = some tx ∧
    tx.mint rt node.db node.side.legacy =
      (if tx.IsCoinBase then Mint.set else Mint.add)
        (Int32.ofInt (tx.created rt node.db node.side.legacy))

theorem connectTritium_side {hash finder : Uint512}
    (h : BlockState.connectTritium rt.toChainRuntime x hash finder = .ok x') :
    x'.node.side = x.node.side := by
  simp only [BlockState.connectTritium, bind_eq_ok, BlockState.connectStake] at h
  obtain ⟨_, -, tx, -, _, -, _, -, db, -, nFees, -, fCoinStake, -, hStake⟩ := h
  simp only [ite_eq_ok, bind_eq_ok, pure_eq_ok] at hStake
  rcases hStake with ⟨-, _, -, rfl⟩ | ⟨-, rfl⟩
  · rfl
  · rfl

/-- The transactions on disk are those of the node. -/
structure SameDisk (node : Node LegacySide) (x : BlockState.Connecting LegacySide) : Prop where
  ledger : x.node.db.ledger.txs = node.db.ledger.txs
  legacy : x.node.side.legacy.txs = node.side.legacy.txs

/-- A legacy transaction that is connected. -/
theorem connectLegacy_mints {hash : Uint512} (hDisk : SameDisk node x)
    (h : BlockState.connectLegacy (mintingSide rt rest node) x hash = .ok x') :
    MintsCreated rt node (Ledger.TRANSACTION.LEGACY, hash) ∧
      x'.node.side.legacy.txs = node.side.legacy.txs := by
  simp only [BlockState.connectLegacy, mintingSide, LegacyRuntime.side, bind_eq_ok, demand_eq_ok,
    Prod.exists, pure_eq_ok] at h
  obtain ⟨_, -, side, ⟨tx, hRead, inputs, hInputs, side', mint, hConnect, rfl⟩, rfl⟩ := h
  have hRead' : node.side.legacy.ReadTx hash = some tx := by
    rw [LegacyRecords.ReadTx, ← hDisk.legacy]
    exact hRead
  obtain ⟨hMint, hCreated⟩ := Legacy.Transaction.Connect_mint hInputs hConnect
  rw [hMint, Legacy.Transaction.mint_congr hDisk.ledger hDisk.legacy,
    Legacy.Transaction.created_congr hDisk.ledger hDisk.legacy] at hCreated
  exact ⟨fun _ => ⟨tx, hRead', hCreated⟩,
    (Legacy.Transaction.consumes_of_connect hConnect).txs.trans hDisk.legacy⟩

theorem connectTx_mints {hash : Uint1024} {finder : Uint512}
    (hConnects : BlockState.Connects node state t x) (hDisk : SameDisk node x)
    (h : BlockState.connectTx rt.toChainRuntime (mintingSide rt rest node) hash finder x proof =
      .ok x') : MintsCreated rt node proof ∧ SameDisk node x' := by
  obtain ⟨_, -, hConnects'⟩ := BlockState.connectTx_ok hConnects h
  have hLedger : x'.node.db.ledger.txs = node.db.ledger.txs := hConnects'.kept.txs
  obtain ⟨nType, hashTx⟩ := proof
  simp only [BlockState.connectTx] at h
  by_cases hTritium : nType = Ledger.TRANSACTION.TRITIUM
  · rw [if_pos hTritium] at h
    simp only [bind_eq_ok, pure_eq_ok] at h
    obtain ⟨x₁, hConnect, rfl⟩ := h
    refine ⟨fun hNot => absurd hTritium hNot, hLedger, ?_⟩
    show x₁.node.side.legacy.txs = _
    rw [connectTritium_side hConnect, hDisk.legacy]
  · rw [if_neg hTritium] at h
    by_cases hLegacy : nType = Ledger.TRANSACTION.LEGACY
    · subst hLegacy
      simp only [if_true, bind_eq_ok, pure_eq_ok] at h
      obtain ⟨x₁, hConnect, rfl⟩ := h
      obtain ⟨hMints, hSide⟩ := connectLegacy_mints hDisk hConnect
      exact ⟨hMints, hLedger, hSide⟩
    · rw [if_neg hLegacy] at h
      cases h

theorem connectTxs_mints {hash : Uint1024} {finder : Uint512}
    (hConnects : BlockState.Connects node state t x) (hDisk : SameDisk node x)
    (h : vtx.foldlM (BlockState.connectTx rt.toChainRuntime (mintingSide rt rest node) hash finder)
      x = .ok x') : ∀ proof ∈ vtx, MintsCreated rt node proof := by
  induction vtx generalizing t x with
  | nil => exact fun _ hMem => absurd hMem List.not_mem_nil
  | cons first vtx ih =>
      obtain ⟨x₁, hFirst, hRest⟩ := foldlM_cons_eq_ok.mp h
      obtain ⟨t₁, -, hConnects₁⟩ := BlockState.connectTx_ok hConnects hFirst
      obtain ⟨hMints, hDisk₁⟩ := connectTx_mints hConnects hDisk hFirst
      intro proof hMem
      cases List.mem_cons.mp hMem with
      | inl hSelf =>
          rw [hSelf]
          exact hMints
      | inr hMem => exact ih hConnects₁ hDisk₁ hRest proof hMem

/-! ## Tallies -/

theorem claimed_low {tx : Ledger.Transaction} {nReward : UInt64}
    (h : tx.claimedReward = .ok nReward) :
    nReward.toUInt32.toInt32 = Int32.ofInt (tx.claimedReward.toOption.getD 0).toNat := by
  rw [h]
  exact low_eq nReward

/-- One transaction adds what it creates, in 32 bits; a legacy coinbase sets it. -/
theorem mint_of_tallyTx (hMints : MintsCreated rt node proof)
    (h : tallyTx (mintingSide rt rest node) node.db.ledger.txs t proof = .ok t') :
    (¬ IsLegacyBase node proof ∧
        t'.mint = t.mint.comp (.add (Int32.ofInt (createdBy rt node proof)))) ∨
      (IsLegacyBase node proof ∧ t'.mint = .set (Int32.ofInt (createdBy rt node proof))) := by
  by_cases hTritium : proof.1 = Ledger.TRANSACTION.TRITIUM
  · simp only [tallyTx, if_pos hTritium, bind_eq_ok, demand_eq_ok] at h
    obtain ⟨tx, hRead, nFees, -, fCoinStake, hCoinStake, hTally⟩ := h
    have hRead' : node.db.ledger.ReadTx proof.2 = some tx := hRead
    left
    refine ⟨fun hBase => hBase.1 hTritium, ?_⟩
    simp only [createdBy, if_pos hTritium, hRead', hCoinStake]
    cases fCoinStake with
    | true =>
        simp only [if_true, bind_eq_ok, map_eq_ok, pure_eq_ok] at hTally
        obtain ⟨_, ⟨nReward, hReward, rfl⟩, rfl⟩ := hTally
        rw [claimed_low hReward]
        rfl
    | false =>
        obtain rfl := Except.ok.inj hTally
        rfl
  · obtain ⟨tx, hRead, hMint⟩ := hMints hTritium
    simp only [tallyTx, if_neg hTritium, Except.ok.injEq] at h
    subst h
    have hSide : (mintingSide rt rest node).legacyMint proof.2 =
        tx.mint rt node.db node.side.legacy := by
      simp only [mintingSide, LegacyRuntime.side, hRead]
    simp only [createdBy, if_neg hTritium, hRead, hSide, hMint]
    by_cases hBase : tx.IsCoinBase
    · right
      rw [if_pos hBase]
      exact ⟨⟨hTritium, tx, hRead, hBase⟩, by cases t.mint <;> rfl⟩
    · left
      rw [if_neg hBase]
      refine ⟨fun hIs => ?_, rfl⟩
      obtain ⟨-, tx', hRead', hBase'⟩ := hIs
      rw [hRead] at hRead'
      cases hRead'
      exact hBase hBase'

/-- The mint of some transactions that are no legacy coinbases. -/
theorem mint_of_tally (hMints : ∀ proof ∈ vtx, MintsCreated rt node proof)
    (hNone : ∀ proof ∈ vtx, ¬ IsLegacyBase node proof) (nMint : Int32)
    (h : vtx.foldlM (tallyTx (mintingSide rt rest node) node.db.ledger.txs) t = .ok t') :
    t'.mint.apply nMint =
      t.mint.apply nMint + Int32.ofInt (vtx.map (createdBy rt node)).sum := by
  induction vtx generalizing t with
  | nil =>
      rw [foldlM_nil_eq_ok] at h
      subst h
      exact (Int32.add_zero _).symm
  | cons proof vtx ih =>
      obtain ⟨t₁, hFirst, hRest⟩ := foldlM_cons_eq_ok.mp h
      have hBase := hNone proof List.mem_cons_self
      have hTail := ih (fun proof hMem => hMints proof (List.mem_cons_of_mem _ hMem))
        (fun proof hMem => hNone proof (List.mem_cons_of_mem _ hMem)) hRest
      rw [hTail, List.map_cons, List.sum_cons, Int32.ofInt_add, ← Int32.add_assoc]
      have hTurn := mint_of_tallyTx (hMints proof List.mem_cons_self) hFirst
      rcases hTurn with ⟨-, hAdd⟩ | ⟨hIs, -⟩
      · rw [hAdd, Mint.apply_comp]
        rfl
      · exact absurd hIs hBase

/-! ## Blocks -/

/-- The blocks that pass the checks before they are accepted: a legacy coinbase is the first
transaction of a block before version 7, and the first one of proof of work then is one. -/
structure BaseFirst (node : Node LegacySide) (state : BlockState) : Prop where
  rest : ∀ proof ∈ state.vtx.tail, ¬ IsLegacyBase node proof
  first : ∀ proof ∈ state.vtx.head?, IsLegacyBase node proof ↔
    state.nVersion < 7 ∧ state.IsProofOfWork

/-- The mint of a block that is connected, from the one it was indexed with. -/
theorem mint_of_connect (hFirst : BaseFirst node state)
    (h : BlockState.Connect rt.toChainRuntime (mintingSide rt rest node) node state =
      .ok (state₂, node')) (hPrev : state.Prev node.db = .ok prev) :
    state₂.nMint =
        (if state.nVersion < 7 ∧ state.IsProofOfWork then 0 else state.nMint) +
          Int32.ofInt (state.vtx.map (createdBy rt node)).sum ∧
      state₂.nMoneySupply = (if prev.IsNull then 0 else prev.nMoneySupply) +
        state₂.nMint.toInt64.toUInt64 := by
  obtain ⟨t, prev', hTally, hPrev', rfl, -⟩ := BlockState.Connect_ok h
  rw [hPrev] at hPrev'
  obtain rfl := Except.ok.inj hPrev'
  refine ⟨?_, rfl⟩
  have hMints : ∀ proof ∈ state.vtx, MintsCreated rt node proof := by
    simp only [BlockState.Connect, bind_eq_ok] at h
    obtain ⟨finder, -, x, hTxs, -⟩ := h
    have hStart : BlockState.Connects node state ({} : Tally)
        { state := { state with nFees := 0 }, node, nPoolFeeTotal := 0 } := by
      refine ⟨?_, Kept.refl _, rfl, rfl⟩
      simp only [Tally.onto, Mint.apply_zero]
    exact connectTxs_mints hStart ⟨rfl, rfl⟩ hTxs
  show t.mint.apply state.nMint = _
  cases hVtx : state.vtx with
  | nil =>
      simp only [BlockState.Connect, bind_eq_ok, demand_eq_ok, hVtx] at h
      obtain ⟨finder, hNone, -⟩ := h
      cases hNone
  | cons proof vtx =>
      rw [hVtx] at hMints
      have hRest : ∀ proof ∈ vtx, ¬ IsLegacyBase node proof := by
        have hTail := hFirst.rest
        rwa [hVtx] at hTail
      have hHead : IsLegacyBase node proof ↔ state.nVersion < 7 ∧ state.IsProofOfWork :=
        hFirst.first proof (by rw [hVtx]; rfl)
      rw [tally, hVtx] at hTally
      obtain ⟨t₁, hOne, hMore⟩ := foldlM_cons_eq_ok.mp hTally
      have hSum := mint_of_tally (fun proof hMem => hMints proof (List.mem_cons_of_mem _ hMem))
        hRest state.nMint hMore
      rw [hSum, List.map_cons, List.sum_cons, Int32.ofInt_add, ← Int32.add_assoc]
      congr 1
      have hTurn := mint_of_tallyTx (hMints proof List.mem_cons_self) hOne
      rcases hTurn with ⟨hNot, hAdd⟩ | ⟨hIs, hSet⟩
      · rw [hAdd, Mint.apply_comp, Mint.apply_zero, if_neg fun hBase => hNot (hHead.mpr hBase)]
        rfl
      · rw [hSet, if_pos (hHead.mp hIs), Int32.zero_add]
        rfl

/-! ## Producers -/

/-- The transaction that `Index` takes for the producer of a block. -/
def producerOf (node : Node LegacySide) (state : BlockState) : Option Ledger.Transaction :=
  state.vtx.getLast?.bind fun proof => BlockState.readPool node proof.2

/-- The coins that the producer of a block of proof of work creates. -/
def producerCreated (node : Node LegacySide) (state : BlockState) : Int :=
  if state.IsProofOfWork ∧ 7 ≤ state.nVersion then
    match producerOf node state with
    | some tx => total (tx.vContracts.map fun contract => contract.Value.toOption.getD 0)
    | none => 0
  else 0

/-- A producer that passes its own checks: the number of its contracts, each of which is a
coinbase without a condition before it. -/
structure PlainProducer (tx : Ledger.Transaction) : Prop where
  size : tx.vContracts.length < 2 ^ 32
  plain : ∀ contract ∈ tx.vContracts, contract.ssOperation.vchData.head? = some OP.COINBASE

variable {readLegacy : LegacySide → Uint512 → Option Legacy.Transaction} {nFuel : Nat}
  {statePrev stateLast state' : BlockState} {r : Fin 3 → UInt64}

/-- The low words of three sums are that of the sum of all. -/
theorem low_total {a b c : Nat} {x y z : UInt64} (hx : x.toNat = a % 2 ^ 64)
    (hy : y.toNat = b % 2 ^ 64) (hz : z.toNat = c % 2 ^ 64) :
    low x + low y + low z = Int32.ofInt ((a + b + c : Nat) : Int) := by
  rw [← low_add, ← low_add, low_eq]
  apply ofInt_congr
  rw [UInt64.toNat_add, UInt64.toNat_add, hx, hy, hz]
  omega

theorem values_eq {vContracts : List Contract} {vAmounts : List UInt64}
    (h : List.Forall₂ (fun contract nValue => contract.Value = .ok nValue) vContracts vAmounts) :
    (vContracts.map fun contract => contract.Value.toOption.getD 0) = vAmounts := by
  induction h with
  | nil => rfl
  | cons hValue _ ih =>
      rw [List.map_cons, ih, hValue]
      rfl

/-- The rewards of a producer are the coins it creates, in 32 bits. -/
theorem rewards_low (hVersion : 7 ≤ state.nVersion) (hWork : state.IsProofOfWork)
    (hTables : Bounded rt.toChainRuntime state.nVersion)
    (hProducer : ∀ tx ∈ producerOf node state, PlainProducer tx)
    (h : BlockState.rewards rt.toChainRuntime readLegacy node state statePrev stateLast = .ok r) :
    low (r 0) + low (r 1) + low (r 2) = Int32.ofInt (producerCreated node state) := by
  have hNew : ¬ state.nVersion < 7 := UInt32.not_lt.mpr hVersion
  simp only [BlockState.rewards, hNew, if_false, bind_eq_ok, demand_eq_ok] at h
  obtain ⟨proof, hLast, tx, hTx, _, -, _, -, hRewards⟩ := h
  have hOf : producerOf node state = some tx := by
    rw [producerOf, hLast]
    exact hTx
  have hPlain := hProducer tx hOf
  obtain ⟨vMiner, -, -, hMiner, hAmbassador, hDeveloper, hLength, hAmounts⟩ :=
    coinbaseRewards_ok hPlain.size hTables hRewards
  have hValues := values_eq (values_of_amounts hAmounts (by
    rw [List.length_append, List.length_append, hLength]) hPlain.size hPlain.plain)
  rw [low_total hMiner hAmbassador hDeveloper]
  simp only [producerCreated, hWork, hVersion, true_and, if_true, hOf, hValues, total_append]

/-! ## Indexing -/

/-- The fields that say which block it is, and its transactions. -/
structure SameBlock (state state' : BlockState) : Prop where
  toBlock : state'.toBlock = state.toBlock
  vtx : state'.vtx = state.vtx

theorem release_ok {nType : Fin 3} {db : Records}
    (h : BlockState.release rt.toChainRuntime db stateLast r state nType = .ok state') :
    state'.nMint = state.nMint + low (r nType) ∧ SameBlock state state' := by
  simp only [BlockState.release, bind_eq_ok, pure_eq_ok] at h
  obtain ⟨_, -, rfl⟩ := h
  exact ⟨rfl, rfl, rfl⟩

/-- Proof of work mints its rewards. -/
theorem releaseAll_ok (h : BlockState.releaseAll rt.toChainRuntime readLegacy node statePrev
    stateLast state = .ok state') :
    SameBlock state state' ∧ (¬ state.IsProofOfWork → state'.nMint = state.nMint) ∧
      (state.IsProofOfWork → ∃ r,
        BlockState.rewards rt.toChainRuntime readLegacy node state statePrev stateLast = .ok r ∧
        state'.nMint = state.nMint + (low (r 0) + low (r 1) + low (r 2))) := by
  by_cases hWork : state.IsProofOfWork
  · simp only [BlockState.releaseAll, if_pos hWork, bind_eq_ok] at h
    obtain ⟨r, hRewards, hRelease⟩ := h
    obtain ⟨s₁, h₁, hRelease⟩ := foldlM_cons_eq_ok.mp hRelease
    obtain ⟨s₂, h₂, hRelease⟩ := foldlM_cons_eq_ok.mp hRelease
    obtain ⟨s₃, h₃, hRelease⟩ := foldlM_cons_eq_ok.mp hRelease
    obtain rfl := foldlM_nil_eq_ok.mp hRelease
    obtain ⟨hMint₁, hSame₁⟩ := release_ok h₁
    obtain ⟨hMint₂, hSame₂⟩ := release_ok h₂
    obtain ⟨hMint₃, hSame₃⟩ := release_ok h₃
    refine ⟨⟨?_, ?_⟩, fun hNot => absurd hWork hNot, fun _ => ⟨r, hRewards, ?_⟩⟩
    · rw [hSame₃.toBlock, hSame₂.toBlock, hSame₁.toBlock]
    · rw [hSame₃.vtx, hSame₂.vtx, hSame₁.vtx]
    · rw [hMint₃, hMint₂, hMint₁, Int32.add_assoc, Int32.add_assoc, Int32.add_assoc]
  · simp only [BlockState.releaseAll, if_neg hWork, pure_eq_ok] at h
    subst h
    exact ⟨⟨rfl, rfl⟩, fun _ => rfl, fun hIs => absurd hIs hWork⟩

/-- A block that is indexed with no mint has that of its producer. -/
theorem mint_of_index (hNew : state.nMint = 0)
    (hTables : Bounded rt.toChainRuntime state.nVersion)
    (hProducer : ∀ tx ∈ producerOf node state, PlainProducer tx)
    (h : BlockState.indexed rt.toChainRuntime readLegacy nFuel node state = .ok state₁) :
    SameBlock state state₁ ∧ (¬ (state.nVersion < 7 ∧ state.IsProofOfWork) →
      state₁.nMint = Int32.ofInt (producerCreated node state)) := by
  simp only [BlockState.indexed, bind_eq_ok, pure_eq_ok, Prod.exists] at h
  obtain ⟨statePrev, -, _, -, stateLast, _, -, state', hRelease, state'', hWeight, nTrust, -,
    rfl⟩ := h
  obtain ⟨hSame, hOther, hWork⟩ := releaseAll_ok hRelease
  obtain ⟨nChannelWeight, rfl⟩ := BlockState.addWeight_eq hWeight
  refine ⟨⟨?_, ?_⟩, fun hKind => ?_⟩
  · exact hSame.toBlock
  · exact hSame.vtx
  · show state'.nMint = _
    by_cases hProof : state.IsProofOfWork
    · have hVersion : 7 ≤ state.nVersion := UInt32.not_lt.mp fun hOld => hKind ⟨hOld, hProof⟩
      obtain ⟨r, hRewards, hSum⟩ := hWork hProof
      rw [hSum]
      show state.nMint + _ = _
      rw [hNew, Int32.zero_add]
      exact rewards_low hVersion hProof hTables hProducer hRewards
    · rw [hOther hProof, producerCreated, if_neg fun hBoth => hProof hBoth.1]
      exact hNew

/-! ## The mint and the money supply -/

/-- The coins that a block creates less those it destroys, on the nodes that it is indexed and
connected on. -/
def blockCreated (rt : LegacyRuntime) (node₀ node : Node LegacySide) (state : BlockState) : Int :=
  producerCreated node₀ state + (state.vtx.map (createdBy rt node)).sum

/-- The money supply before a block. -/
def supplyBefore (prev : BlockState) : UInt64 := if prev.IsNull then 0 else prev.nMoneySupply

/-- The mint of a block that is connected for the first time, and the money supply, are exact
if and only if the one fits in 32 bits and the other in 64. -/
theorem mint_exact_iff (hNew : state.nMint = 0)
    (hTables : Bounded rt.toChainRuntime state.nVersion)
    (hProducer : ∀ tx ∈ producerOf node₀ state, PlainProducer tx)
    (hFirst : BaseFirst node state)
    (hIndex : BlockState.indexed rt.toChainRuntime readLegacy nFuel node₀ state = .ok state₁)
    (hConnect : BlockState.Connect rt.toChainRuntime (mintingSide rt rest node) node state₁ =
      .ok (state₂, node'))
    (hPrev : state.Prev node.db = .ok prev) :
    (state₂.nMint.toInt = blockCreated rt node₀ node state ∧
        (state₂.nMoneySupply.toNat : Int) =
          (supplyBefore prev).toNat + blockCreated rt node₀ node state) ↔
      (-2 ^ 31 ≤ blockCreated rt node₀ node state ∧
          blockCreated rt node₀ node state < 2 ^ 31) ∧
        0 ≤ (supplyBefore prev).toNat + blockCreated rt node₀ node state ∧
        (supplyBefore prev).toNat + blockCreated rt node₀ node state < 2 ^ 64 := by
  obtain ⟨hSame, hMint⟩ := mint_of_index hNew hTables hProducer hIndex
  have hFirst₁ : BaseFirst node state₁ := by
    refine ⟨?_, ?_⟩
    · rw [hSame.vtx]
      exact hFirst.rest
    · rw [hSame.vtx, hSame.toBlock]
      exact hFirst.first
  have hPrev₁ : state₁.Prev node.db = .ok prev := by
    rw [← hPrev, BlockState.Prev, BlockState.Prev, hSame.toBlock]
  obtain ⟨hConnected, hSupply⟩ := mint_of_connect hFirst₁ hConnect hPrev₁
  have hCreated : state₂.nMint = Int32.ofInt (blockCreated rt node₀ node state) := by
    rw [hConnected, hSame.vtx, hSame.toBlock, blockCreated, Int32.ofInt_add]
    congr 1
    by_cases hKind : state.nVersion < 7 ∧ state.IsProofOfWork
    · have hOld : ¬ (state.IsProofOfWork ∧ 7 ≤ state.nVersion) := fun hNewer =>
        UInt32.not_lt.mpr hNewer.2 hKind.1
      rw [if_pos hKind, producerCreated, if_neg hOld]
      rfl
    · rw [if_neg hKind, hMint hKind]
  have hAdded : (state₂.nMoneySupply.toNat : Int) =
      ((supplyBefore prev).toNat + state₂.nMint.toInt) % 2 ^ 64 := by
    rw [hSupply]
    exact toNat_add_toUInt64 (supplyBefore prev) state₂.nMint
  have hFits := @toInt_ofInt_iff (blockCreated rt node₀ node state)
  rw [← hCreated] at hFits
  have hBound := state₂.nMoneySupply.toNat_lt
  constructor
  · intro hExact
    exact ⟨hFits.mp hExact.1, by omega, by omega⟩
  · intro hBoth
    have hInt := hFits.mpr hBoth.1
    refine ⟨hInt, ?_⟩
    rw [hAdded, hInt]
    omega

/-! ## A fee -/

/-- A legacy environment in which a coinbase of 50 is paid. -/
def mintingLegacy : LegacyRuntime := { exampleLegacy with toChainRuntime := producerChain }

/-- A transaction with an output of 3000 NXS. -/
def fundTx : Legacy.Transaction :=
  { vin := [{ prevout := ⟨1, 0⟩ }], vout := [{ nValue := 3000000000, scriptPubKey := [] }] }

/-- The output is spent with a fee. -/
def feeTx (nFee : Int64) : Legacy.Transaction :=
  { vin := [{ prevout := ⟨fundTx.GetHash exampleRuntime, 0⟩ }]
    vout := [{ nValue := 3000000000 - nFee, scriptPubKey := [] }] }

/-- The block that the fee is paid in, on a first block with 10000 NXS. -/
def richBlock : BlockState := { firstBlock with nMoneySupply := 10000000000 }

def feeBlock (nFee : Int64) : BlockState :=
  { nVersion := 9, hashPrevBlock := firstBlock.GetHash exampleLedger, nChannel := CHANNEL.HASH,
    nHeight := 1, nBits := 1
    vtx :=
      [(Ledger.TRANSACTION.LEGACY, (feeTx nFee).GetHash exampleRuntime),
        (Ledger.TRANSACTION.TRITIUM, minerTx.GetHash exampleRuntime)] }

def feeNode (nFee : Int64) : Node LegacySide where
  db :=
    { (blockRecords exampleLedger [richBlock]).WriteTx (minerTx.GetHash exampleRuntime)
        minerTx with
      index := fun hash => if hash = fundTx.GetHash exampleRuntime then some 1 else none }
  side :=
    { legacy :=
        { txs := fun hash =>
            if hash = fundTx.GetHash exampleRuntime then some fundTx
            else if hash = (feeTx nFee).GetHash exampleRuntime then some (feeTx nFee)
            else none } }

def indexFee (nFee : Int64) : Result BlockState :=
  BlockState.indexed mintingLegacy.toChainRuntime (fun side hash => side.legacy.ReadTx hash) 1
    (feeNode nFee) (feeBlock nFee)

def connectFee (nFee : Int64) (state : BlockState) : Result (BlockState × Node LegacySide) :=
  BlockState.Connect mintingLegacy.toChainRuntime
    (mintingSide mintingLegacy exampleSide (feeNode nFee)) (feeNode nFee) state

/-- What the two steps of a block calculate, and that it passes the checks before them. -/
theorem fee_connects {nFee : Int64} {nMint : Int32}
    (h : (do
      let state₁ ← indexFee nFee
      let (state₂, _) ← connectFee nFee state₁
      return state₂.nMint).toOption = some nMint) :
    ∃ state₁ state₂ node', indexFee nFee = .ok state₁ ∧
      connectFee nFee state₁ = .ok (state₂, node') ∧ state₂.nMint = nMint := by
  have hSteps := toOption_eq_some.mp h
  simp only [bind_eq_ok, Prod.exists, pure_eq_ok] at hSteps
  obtain ⟨state₁, hIndex, state₂, node', hConnect, hMint⟩ := hSteps
  exact ⟨state₁, state₂, node', hIndex, hConnect, hMint⟩

/-- With a fee of 10 the mint is 40. -/
theorem mint_exact_forty :
    ∃ state₂ : BlockState,
      (state₂.nMint.toInt = blockCreated mintingLegacy (feeNode 10) (feeNode 10) (feeBlock 10) ∧
          (state₂.nMoneySupply.toNat : Int) = (supplyBefore richBlock).toNat +
            blockCreated mintingLegacy (feeNode 10) (feeNode 10) (feeBlock 10)) ↔
        (-2 ^ 31 ≤ blockCreated mintingLegacy (feeNode 10) (feeNode 10) (feeBlock 10) ∧
            blockCreated mintingLegacy (feeNode 10) (feeNode 10) (feeBlock 10) < 2 ^ 31) ∧
          0 ≤ (supplyBefore richBlock).toNat +
            blockCreated mintingLegacy (feeNode 10) (feeNode 10) (feeBlock 10) ∧
          (supplyBefore richBlock).toNat +
            blockCreated mintingLegacy (feeNode 10) (feeNode 10) (feeBlock 10) < 2 ^ 64 := by
  obtain ⟨state₁, state₂, node', hIndex, hConnect, -⟩ :=
    @fee_connects 10 40 (by decide +kernel)
  have hFirst : BaseFirst (feeNode 10) (feeBlock 10) := by
    refine ⟨fun proof hMem => ?_, fun proof hMem => ?_⟩
    · rw [List.mem_singleton.mp hMem]
      exact fun hBase => hBase.1 rfl
    · obtain rfl := Option.some.inj hMem
      decide +kernel
  have hTables : Bounded mintingLegacy.toChainRuntime (feeBlock 10).nVersion := by
    unfold Bounded
    decide
  have hPlain : PlainProducer minerTx := ⟨by decide +kernel, by decide +kernel⟩
  have hProducer : producerOf (feeNode 10) (feeBlock 10) = some minerTx := by decide +kernel
  have hProducers : ∀ tx ∈ producerOf (feeNode 10) (feeBlock 10), PlainProducer tx := by
    intro tx hMem
    rw [hProducer] at hMem
    obtain rfl := Option.some.inj hMem
    exact hPlain
  have hPrev : (feeBlock 10).Prev (feeNode 10).db = .ok richBlock := by decide +kernel
  exact ⟨state₂, mint_exact_iff rfl hTables hProducers hFirst hIndex hConnect hPrev⟩

/-- A fee of 3000 NXS, less the 50 of the coinbase, is minted as 1294.967346 NXS. -/
theorem fee_mints :
    ∃ state₁ state₂ node', indexFee 3000000000 = .ok state₁ ∧
      connectFee 3000000000 state₁ = .ok (state₂, node') ∧
      blockCreated mintingLegacy (feeNode 3000000000) (feeNode 3000000000)
        (feeBlock 3000000000) = -2999999950 ∧ state₂.nMint = 1294967346 := by
  obtain ⟨state₁, state₂, node', hIndex, hConnect, hMint⟩ :=
    @fee_connects 3000000000 1294967346 (by decide +kernel)
  exact ⟨state₁, state₂, node', hIndex, hConnect, by decide +kernel, hMint⟩

end Nexus.Safety
