import Nexus.Legacy.Connect

/-!
# What legacy transactions change

`Connect` marks outputs that were not spent, each of them once, and raises the
sequence of an owner by the number of outputs to registers of the owner.
`Disconnect` clears the same marks and lowers the sequences by the same numbers.

## Main results

* `connectInputs_ok`: the marks that the inputs of a transaction leave.
* `connectOuts_ok` and `disconnectOuts_ok`: the sequences of the owners.
* `Connect_ok`: a connected transaction, by its kind.
-/

namespace Nexus.Legacy

open Nexus.Lib.Checked
open Nexus.Util
open Nexus.Register
open Nexus.Operation
open Nexus.Ledger
open Nexus.LLD

/-- The key of an output in the database. -/
abbrev SpendKey := Uint512 × UInt32

def TxIn.key (txin : TxIn) : SpendKey := (txin.prevout.hash, txin.prevout.n)

namespace Transaction

/-- The outputs that a transaction consumes. -/
def consumed (tx : Transaction) : List SpendKey :=
  if tx.IsCoinBase then [] else tx.spending.map fun x => x.1.key

/-- The owner of the register that an output pays. -/
def paidOwner (db : Records) (txout : TxOut) : Option Uint256 :=
  (ExtractRegister txout.scriptPubKey >>= db.register.ReadState).map State.hashOwner

/-- The owners that the outputs of a transaction pay. -/
def owners (db : Records) (vout : List TxOut) : List Uint256 := vout.filterMap (paidOwner db)

variable {rt : LegacyRuntime} {db : Records} {tx : Transaction} {state : BlockState}
  {inputs : Inputs} {legacy legacy' : LegacyRecords}

/-! ## Spends -/

theorem connectInput_ok {x x' : LegacyRecords × UInt64} {txin : TxIn × Nat}
    (h : connectInput rt db tx state inputs x txin = .ok x') :
    x.1.spends txin.1.key = false ∧
      x'.1 = x.1.WriteSpend txin.1.prevout.hash txin.1.prevout.n := by
  simp only [connectInput, bind_eq_ok, demand_eq_ok, reject_eq_ok, pure_eq_ok] at h
  obtain ⟨_, -, _, -, _, -, _, hSpent, _, -, rfl⟩ := h
  exact ⟨Bool.eq_false_of_not_eq_true hSpent, rfl⟩

/-- The records of `legacy` and `legacy'` differ in the marks of spent outputs only. -/
structure SameButSpends (legacy legacy' : LegacyRecords) : Prop where
  txs : legacy'.txs = legacy.txs
  sequence : legacy'.sequence = legacy.sequence
  events : legacy'.events = legacy.events

/-- The inputs of a transaction were not spent, and are distinct; they are what is marked. -/
theorem connectInputs_ok {xs : List (TxIn × Nat)} {x x' : LegacyRecords × UInt64}
    (h : xs.foldlM (connectInput rt db tx state inputs) x = .ok x') :
    (xs.map fun y => y.1.key).Nodup ∧ (∀ y ∈ xs, x.1.spends y.1.key = false) ∧
      (∀ key, x'.1.spends key = true ↔
        x.1.spends key = true ∨ key ∈ xs.map fun y => y.1.key) ∧
      SameButSpends x.1 x'.1 := by
  induction xs generalizing x with
  | nil =>
      rw [foldlM_nil_eq_ok] at h
      subst h
      exact ⟨List.nodup_nil, by simp, by simp, ⟨rfl, rfl, rfl⟩⟩
  | cons txin xs ih =>
      obtain ⟨x₁, hFirst, hRest⟩ := foldlM_cons_eq_ok.mp h
      obtain ⟨hUnspent, hWrite⟩ := connectInput_ok hFirst
      obtain ⟨hNodup, hFresh, hSpends, hSame⟩ := ih hRest
      have hMark (key : SpendKey) :
          x₁.1.spends key = true ↔ key = txin.1.key ∨ x.1.spends key = true := by
        rw [hWrite]
        show Function.update x.1.spends txin.1.key true key = true ↔ _
        by_cases hKey : key = txin.1.key
        · simp [hKey]
        · simp [hKey]
      refine ⟨?_, ?_, ?_, ?_⟩
      · rw [List.map_cons, List.nodup_cons]
        refine ⟨fun hMem => ?_, hNodup⟩
        obtain ⟨y, hMem, hKey⟩ := List.mem_map.mp hMem
        have hMarked := (hMark y.1.key).mpr (.inl hKey)
        rw [hFresh y hMem] at hMarked
        cases hMarked
      · intro y hMem
        rcases List.mem_cons.mp hMem with rfl | hMem
        · exact hUnspent
        · have hNot := hFresh y hMem
          cases hOld : x.1.spends y.1.key with
          | false => rfl
          | true =>
              rw [(hMark y.1.key).mpr (.inr hOld)] at hNot
              cases hNot
      · intro key
        rw [hSpends, hMark, List.map_cons, List.mem_cons]
        tauto
      · rw [hWrite] at hSame
        exact ⟨hSame.txs, hSame.sequence, hSame.events⟩

theorem eraseSpends (xs : List (TxIn × Nat)) (legacy : LegacyRecords) (key : SpendKey) :
    (xs.foldl eraseSpend legacy).spends key = true ↔
      legacy.spends key = true ∧ key ∉ xs.map fun y => y.1.key := by
  induction xs generalizing legacy with
  | nil => simp
  | cons txin xs ih =>
      rw [List.foldl_cons, ih, List.map_cons, List.mem_cons, not_or]
      show Function.update legacy.spends txin.1.key false key = true ∧ _ ↔ _
      by_cases hKey : key = txin.1.key
      · simp [hKey]
      · simp [hKey]

theorem eraseSpends_same (xs : List (TxIn × Nat)) (legacy : LegacyRecords) :
    SameButSpends legacy (xs.foldl eraseSpend legacy) := by
  induction xs generalizing legacy with
  | nil => exact ⟨rfl, rfl, rfl⟩
  | cons txin xs ih =>
      have hRest := ih (eraseSpend legacy txin)
      exact ⟨hRest.txs, hRest.sequence, hRest.events⟩

/-! ## Events -/

/-- The sequence of an owner after as many events as the list has of the owner. -/
def raised (owners : List Uint256) (legacy : LegacyRecords) (hashOwner : Uint256) : UInt32 :=
  legacy.ReadSequence hashOwner + UInt32.ofNat (owners.count hashOwner)

theorem ofNat_count_cons (hashOwner hashFirst : Uint256) (owners : List Uint256) :
    UInt32.ofNat ((hashFirst :: owners).count hashOwner) =
      (if hashOwner = hashFirst then 1 else 0) + UInt32.ofNat (owners.count hashOwner) := by
  rw [List.count_cons]
  by_cases hOwner : hashOwner = hashFirst
  · subst hOwner
    simp [UInt32.ofNat_add, add_comm]
  · have hOther : (hashFirst == hashOwner) = false := beq_eq_false_iff_ne.mpr (Ne.symm hOwner)
    simp [hOwner, hOther]

theorem WriteEvent_sequence (legacy : LegacyRecords) (hashAddress hashOwner : Uint256)
    (hashTx : Uint512) : (legacy.WriteEvent hashAddress hashTx).ReadSequence hashOwner =
      legacy.ReadSequence hashOwner + if hashOwner = hashAddress then 1 else 0 := by
  by_cases hOwner : hashOwner = hashAddress
  · simp [LegacyRecords.WriteEvent, LegacyRecords.ReadSequence, hOwner]
  · simp [LegacyRecords.WriteEvent, LegacyRecords.ReadSequence, hOwner]

theorem connectOut_ok {hashTx : Uint512} {txout : TxOut}
    (h : connectOut db hashTx legacy txout = .ok legacy') :
    legacy' = match paidOwner db txout with
      | none => legacy
      | some hashOwner => legacy.WriteEvent hashOwner hashTx := by
  unfold connectOut at h
  unfold paidOwner
  cases hRegister : ExtractRegister txout.scriptPubKey with
  | none =>
      rw [hRegister] at h
      exact (Except.ok.inj h).symm
  | some hashTo =>
      simp only [hRegister, bind_eq_ok, demand_eq_ok, pure_eq_ok] at h
      obtain ⟨stateReg, hRead, rfl⟩ := h
      rw [Option.bind_eq_bind, Option.bind_some, hRead]
      rfl

/-- The events of the outputs are counted for the owners, who have a sequence then. -/
theorem connectOuts_ok {hashTx : Uint512} {vout : List TxOut}
    (h : vout.foldlM (connectOut db hashTx) legacy = .ok legacy') :
    (∀ hashOwner, legacy'.ReadSequence hashOwner = raised (owners db vout) legacy hashOwner) ∧
      (∀ hashOwner, hashOwner ∈ owners db vout ∨ (legacy.sequence hashOwner).isSome = true →
        (legacy'.sequence hashOwner).isSome = true) ∧
      legacy'.txs = legacy.txs ∧ legacy'.spends = legacy.spends := by
  induction vout generalizing legacy with
  | nil =>
      rw [foldlM_nil_eq_ok] at h
      subst h
      exact ⟨fun _ => by simp [raised, owners], fun _ => by simp [owners], rfl, rfl⟩
  | cons txout vout ih =>
      obtain ⟨legacy₁, hFirst, hRest⟩ := foldlM_cons_eq_ok.mp h
      have hStep := connectOut_ok hFirst
      obtain ⟨hSequence, hSome, hTxs, hSpends⟩ := ih hRest
      cases hOwner : paidOwner db txout with
      | none =>
          simp only [hOwner] at hStep
          subst hStep
          have hOwners : owners db (txout :: vout) = owners db vout := by simp [owners, hOwner]
          rw [hOwners]
          exact ⟨hSequence, hSome, hTxs, hSpends⟩
      | some hashPaid =>
          simp only [hOwner] at hStep
          subst hStep
          have hOwners : owners db (txout :: vout) = hashPaid :: owners db vout := by
            simp [owners, hOwner]
          rw [hOwners]
          refine ⟨fun hashOwner => ?_, fun hashOwner hMem => hSome hashOwner ?_, hTxs, hSpends⟩
          · rw [hSequence, raised, raised, WriteEvent_sequence, ofNat_count_cons, add_assoc]
          · by_cases hSame : hashOwner = hashPaid
            · right
              simp [LegacyRecords.WriteEvent, hSame]
            · simp only [List.mem_cons, hSame, false_or] at hMem
              rw [show (legacy.WriteEvent hashPaid hashTx).sequence hashOwner =
                legacy.sequence hashOwner from Function.update_of_ne hSame _ _]
              exact hMem

theorem EraseEvent_sequence {hashAddress : Uint256}
    (h : legacy.EraseEvent hashAddress = some legacy') (hashOwner : Uint256) :
    legacy'.ReadSequence hashOwner =
      legacy.ReadSequence hashOwner - if hashOwner = hashAddress then 1 else 0 := by
  simp only [LegacyRecords.EraseEvent, Option.map_eq_some_iff] at h
  obtain ⟨nSequence, hSequence, rfl⟩ := h
  by_cases hOwner : hashOwner = hashAddress
  · simp [LegacyRecords.ReadSequence, hOwner, hSequence]
  · simp [LegacyRecords.ReadSequence, hOwner]

/-- The registers of the outputs are on disk. -/
def Found (db : Records) (vout : List TxOut) : Prop :=
  ∀ txout ∈ vout, ∀ hashTo, ExtractRegister txout.scriptPubKey = some hashTo →
    (db.register.ReadState hashTo).isSome = true

theorem found_of_connectOuts {hashTx : Uint512} {vout : List TxOut}
    (h : vout.foldlM (connectOut db hashTx) legacy = .ok legacy') : Found db vout := by
  induction vout generalizing legacy with
  | nil => exact fun txout hMem => absurd hMem List.not_mem_nil
  | cons txout vout ih =>
      obtain ⟨legacy₁, hFirst, hRest⟩ := foldlM_cons_eq_ok.mp h
      intro txout' hMem hashTo hRegister
      rcases List.mem_cons.mp hMem with rfl | hMem
      · simp only [connectOut, hRegister, bind_eq_ok, demand_eq_ok] at hFirst
        obtain ⟨stateReg, hRead, -⟩ := hFirst
        rw [hRead]
        rfl
      · exact ih hRest txout' hMem hashTo hRegister

/-- Where the owners have a sequence, `Disconnect` lowers it by their events. -/
theorem disconnectOuts_ok {vout : List TxOut} (hFound : Found db vout)
    (hSome : ∀ hashOwner ∈ owners db vout, (legacy.sequence hashOwner).isSome = true) :
    ∃ legacy', vout.foldlM (disconnectOut db) legacy = .ok legacy' ∧
      (∀ hashOwner, raised (owners db vout) legacy' hashOwner = legacy.ReadSequence hashOwner) ∧
      legacy'.txs = legacy.txs ∧ legacy'.spends = legacy.spends := by
  induction vout generalizing legacy with
  | nil => exact ⟨legacy, rfl, fun _ => by simp [raised, owners], rfl, rfl⟩
  | cons txout vout ih =>
      have hRest : Found db vout := fun txout' hMem => hFound txout' (List.mem_cons_of_mem _ hMem)
      cases hRegister : ExtractRegister txout.scriptPubKey with
      | none =>
          have hOwners : owners db (txout :: vout) = owners db vout := by
            simp [owners, paidOwner, hRegister]
          rw [hOwners] at hSome ⊢
          obtain ⟨legacy', hFold, hAfter⟩ := ih hRest hSome
          refine ⟨legacy', foldlM_cons_eq_ok.mpr ⟨legacy, ?_, hFold⟩, hAfter⟩
          simp only [disconnectOut, hRegister]
      | some hashTo =>
          obtain ⟨stateReg, hRead⟩ :=
            Option.isSome_iff_exists.mp (hFound txout List.mem_cons_self hashTo hRegister)
          have hOwners : owners db (txout :: vout) = stateReg.hashOwner :: owners db vout := by
            simp [owners, paidOwner, hRegister, hRead]
          rw [hOwners] at hSome ⊢
          obtain ⟨nSequence, hSequence⟩ :=
            Option.isSome_iff_exists.mp (hSome stateReg.hashOwner List.mem_cons_self)
          obtain ⟨legacy₁, hErase⟩ :
              ∃ legacy₁, legacy.EraseEvent stateReg.hashOwner = some legacy₁ := by
            rw [LegacyRecords.EraseEvent, hSequence]
            exact ⟨_, rfl⟩
          have hStep : disconnectOut db legacy txout = .ok legacy₁ := by
            simp only [disconnectOut, hRegister, hRead, demand_some, ok_bind, hErase]
          have hSome₁ : ∀ hashOwner ∈ owners db vout,
              (legacy₁.sequence hashOwner).isSome = true := by
            intro hashOwner hMem
            have hOld := hSome hashOwner (List.mem_cons_of_mem _ hMem)
            simp only [LegacyRecords.EraseEvent, Option.map_eq_some_iff] at hErase
            obtain ⟨_, -, rfl⟩ := hErase
            by_cases hSame : hashOwner = stateReg.hashOwner
            · simp [hSame]
            · simpa [hSame] using hOld
          obtain ⟨legacy', hFold, hLowered, hTxs, hSpends⟩ := ih hRest hSome₁
          have hKept : legacy₁.txs = legacy.txs ∧ legacy₁.spends = legacy.spends := by
            simp only [LegacyRecords.EraseEvent, Option.map_eq_some_iff] at hErase
            obtain ⟨_, -, rfl⟩ := hErase
            exact ⟨rfl, rfl⟩
          refine ⟨legacy', foldlM_cons_eq_ok.mpr ⟨legacy₁, hStep, hFold⟩, fun hashOwner => ?_,
            hTxs.trans hKept.1, hSpends.trans hKept.2⟩
          have hLower := hLowered hashOwner
          rw [EraseEvent_sequence hErase, raised] at hLower
          rw [raised, ofNat_count_cons, add_left_comm, hLower]
          exact add_sub_cancel _ _

/-- Lowering takes back what was raised. -/
theorem ReadSequence_of_raised {owners : List Uint256} {before after : LegacyRecords}
    {hashOwner : Uint256} (h : raised owners after hashOwner = raised owners before hashOwner) :
    after.ReadSequence hashOwner = before.ReadSequence hashOwner := by
  exact add_right_cancel h

/-! ## Transactions -/

variable {side side' : LegacySide} {mint : Mint}

/-- The record of a coinstake's key. -/
theorem connectStake_coinstake (hStake : tx.IsCoinStake)
    (h : connectStake rt db tx side state = .ok side') :
    ∃ vTrustKey trustKey staked, tx.TrustKey rt = .ok vTrustKey ∧
      stakeKey rt db tx side state vTrustKey = .ok trustKey ∧
      trustKey.staked rt side.legacy (state.GetHash rt.toLedgerRuntime) state = .ok staked ∧
      side' = side.WriteTrustKey (SetBytes rt.toRuntime vTrustKey) staked := by
  simp only [connectStake, if_pos hStake, bind_eq_ok, pure_eq_ok] at h
  obtain ⟨vTrustKey, hKey, trustKey, hKey', staked, hStaked, rfl⟩ := h
  exact ⟨vTrustKey, trustKey, staked, hKey, hKey', hStaked, rfl⟩

theorem connectStake_legacy (h : connectStake rt db tx side state = .ok side') :
    side'.legacy = side.legacy := by
  by_cases hStake : tx.IsCoinStake
  · obtain ⟨_, _, _, -, -, -, rfl⟩ := connectStake_coinstake hStake h
    rfl
  · rw [connectStake, if_neg hStake] at h
    rw [← Except.ok.inj h]

/-- The steps of a transaction that is connected. -/
structure Connects (rt : LegacyRuntime) (db : Records) (tx : Transaction) (side : LegacySide)
    (inputs : Inputs) (state : BlockState) (side' : LegacySide) (staked : LegacySide)
    (legacy : LegacyRecords) (nValueIn nValueOut : UInt64) : Prop where
  stake : connectStake rt db tx side state = .ok staked
  spends : tx.spending.foldlM (connectInput rt db tx state inputs) (staked.legacy, 0) =
    .ok (legacy, nValueIn)
  values : checkValues rt db tx { staked with legacy } state nValueIn = .ok ()
  valueOut : tx.GetValueOut = .ok nValueOut
  outs : tx.vout.foldlM (connectOut db (tx.GetHash rt.toRuntime)) legacy = .ok side'.legacy
  trust : side'.trust = staked.trust

/-- A coinbase changes nothing; another transaction takes its steps. -/
theorem Connect_ok (h : tx.Connect rt db side inputs state = .ok (side', mint)) :
    (tx.IsCoinBase ∧ side' = side) ∨ (¬ tx.IsCoinBase ∧ ∃ staked legacy nValueIn nValueOut,
      Connects rt db tx side inputs state side' staked legacy nValueIn nValueOut) := by
  by_cases hBase : tx.IsCoinBase
  · simp only [Connect, if_pos hBase, bind_eq_ok, pure_eq_ok, Prod.mk.injEq] at h
    obtain ⟨_, -, _, -, rfl, -⟩ := h
    exact .inl ⟨hBase, rfl⟩
  · simp only [Connect, if_neg hBase, bind_eq_ok, pure_eq_ok, Prod.exists, Prod.mk.injEq] at h
    obtain ⟨_, -, staked, hStake, legacy, nValueIn, hSpends, _, hValues, nValueOut, hOut, legacy',
      hOuts, rfl, -⟩ := h
    exact .inr ⟨hBase, staked, legacy, nValueIn, nValueOut, hStake, hSpends, hValues, hOut, hOuts,
      rfl⟩

variable {staked : LegacySide} {nValueIn nValueOut : UInt64}

theorem Connects.staked_legacy
    (h : Connects rt db tx side inputs state side' staked legacy nValueIn nValueOut) :
    staked.legacy = side.legacy := connectStake_legacy h.stake

/-- What connecting a transaction does to the marks of spent outputs. -/
structure Consumes (tx : Transaction) (side side' : LegacySide) : Prop where
  nodup : tx.consumed.Nodup
  fresh : ∀ key ∈ tx.consumed, side.legacy.spends key = false
  marked : ∀ key, side'.legacy.spends key = true ↔
    side.legacy.spends key = true ∨ key ∈ tx.consumed
  txs : side'.legacy.txs = side.legacy.txs

theorem consumes_of_connect (h : tx.Connect rt db side inputs state = .ok (side', mint)) :
    Consumes tx side side' := by
  rcases Connect_ok h with ⟨hBase, rfl⟩ | ⟨hBase, staked, legacy, nValueIn, nValueOut, hConnects⟩
  · have hNone : tx.consumed = [] := if_pos hBase
    exact ⟨by simp [hNone], by simp [hNone], by simp [hNone], rfl⟩
  · have hConsumed : tx.consumed = tx.spending.map fun x => x.1.key := if_neg hBase
    obtain ⟨hNodup, hFresh, hMarked, hSame⟩ := connectInputs_ok hConnects.spends
    obtain ⟨-, -, hTxs, hSpends⟩ := connectOuts_ok hConnects.outs
    rw [hConnects.staked_legacy] at hFresh hMarked hSame
    refine ⟨?_, ?_, ?_, hTxs.trans hSame.txs⟩
    · rw [hConsumed]
      exact hNodup
    · intro key hMem
      rw [hConsumed] at hMem
      obtain ⟨x, hInput, rfl⟩ := List.mem_map.mp hMem
      exact hFresh x hInput
    · intro key
      rw [hSpends, hMarked, hConsumed]

end Transaction

end Nexus.Legacy
