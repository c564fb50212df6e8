import Nexus.Legacy.Effects
import Nexus.Safety.Reconnects

/-!
# Disconnecting legacy transactions

`Disconnect` clears what a transaction spent and takes back its events.  The record of
a coinstake's key it finds again through the script of the coinstake, which names a
last block; `Connect` only logs when that is not the last block of the record.  A key
without a record, whose genesis is found in the chain, has one afterwards; a second
genesis of a key erases the record of the first.

## Main results

* `disconnect_inverts`: when `Disconnect` restores what was read before `Connect`.
* `genesis_erases`: the second genesis of a key, which leaves no record behind.
-/

namespace Nexus.Safety

open Nexus.Lib.Checked
open Nexus.Util
open Nexus.Legacy
open Nexus.Legacy.Transaction
open Nexus.Operation
open Nexus.Ledger (BlockState Mint)
open Nexus.LLD

/-- What a record says of the last stake: its block, its time, and the rate. -/
def lastStake (trustKey : Legacy.TrustKey) : Uint1024 × UInt64 × UInt64 :=
  (trustKey.hashLastBlock, trustKey.nLastBlockTime, trustKey.nStakeRate)

/-- The spent outputs, the sequences of events and the last stakes read the same. -/
structure SameReads (side side' : LegacySide) : Prop where
  spends : side'.legacy.spends = side.legacy.spends
  sequence : ∀ hashOwner,
    side'.legacy.ReadSequence hashOwner = side.legacy.ReadSequence hashOwner
  trust : ∀ cKey, (side'.trust cKey).map lastStake = (side.trust cKey).map lastStake

/-- `Disconnect` succeeds, and restores what was read at `side`. -/
def Reverts (rt : LegacyRuntime) (db : Records) (tx : Legacy.Transaction)
    (side connected : LegacySide) (state : BlockState) : Prop :=
  ∃ side', tx.Disconnect rt db connected state = .ok side' ∧ SameReads side side'

/-- A coinstake names the block of the last stake in the record of its key, and the record has
the time and the rate of that block. -/
def NamesLast (rt : LegacyRuntime) (db : Records) (tx : Legacy.Transaction) (legacy : LegacyRecords)
    (trustKey : Legacy.TrustKey) : Prop :=
  ∃ nSequence nTrustScore statePrev,
    tx.ExtractTrust = .ok (trustKey.hashLastBlock, nSequence, nTrustScore) ∧
      db.ReadBlock trustKey.hashLastBlock = some statePrev ∧
      trustKey.nLastBlockTime = statePrev.nTime ∧
      trustKey.StakeRate rt legacy statePrev statePrev.nTime.toUInt32 = .ok trustKey.nStakeRate

/-- A genesis is the first of its key; a trust coinstake names the last block of the record of
its key, whose genesis is in another block.  A key may also have no record when the search
finds its genesis in the block itself. -/
def FollowsRecord (rt : LegacyRuntime) (db : Records) (tx : Legacy.Transaction)
    (side : LegacySide) (state : BlockState) (cKey : Uint576) : Prop :=
  if tx.IsGenesis then side.trust cKey = none
  else
    match side.trust cKey with
    | some trustKey =>
        state.GetHash rt.toLedgerRuntime ≠ trustKey.hashGenesisBlock ∧
          NamesLast rt db tx side.legacy trustKey
    | none =>
        ∃ trustKey, FindGenesis rt db side.legacy cKey state.hashPrevBlock = .ok trustKey ∧
          state.GetHash rt.toLedgerRuntime = trustKey.hashGenesisBlock

variable {rt : LegacyRuntime} {db : Records} {tx : Legacy.Transaction} {state : BlockState}
  {inputs : Inputs} {side side' connected : LegacySide} {legacy legacy' : LegacyRecords} {mint : Mint}

/-! ## Spends and events -/

/-- The first part of `Disconnect` succeeds, and restores the spent outputs and the events. -/
theorem disconnect_legacy {staked : LegacySide} {nValueIn nValueOut : UInt64}
    (hConnects : Connects rt db tx side inputs state connected staked legacy nValueIn nValueOut) :
    ∃ legacy', tx.vout.foldlM (disconnectOut db)
        (tx.spending.foldl eraseSpend connected.legacy) = .ok legacy' ∧
      legacy'.spends = side.legacy.spends ∧
      (∀ hashOwner, legacy'.ReadSequence hashOwner = side.legacy.ReadSequence hashOwner) ∧
      legacy'.txs = side.legacy.txs := by
  obtain ⟨hNodup, hFresh, hMarked, hSame⟩ := connectInputs_ok hConnects.spends
  obtain ⟨hRaised, hSome, hTxs, hSpends⟩ := connectOuts_ok hConnects.outs
  rw [hConnects.staked_legacy] at hFresh hMarked hSame
  have hErased := eraseSpends_same tx.spending connected.legacy
  obtain ⟨legacy', hFold, hLowered, hTxs', hSpends'⟩ := @disconnectOuts_ok db
    (tx.spending.foldl eraseSpend connected.legacy) tx.vout (found_of_connectOuts hConnects.outs)
    (fun hashOwner hMem => by
      rw [hErased.sequence]
      exact hSome hashOwner (.inl hMem))
  refine ⟨legacy', hFold, ?_, fun hashOwner => ?_, ?_⟩
  · funext key
    rw [hSpends', Bool.eq_iff_iff, eraseSpends, hSpends, hMarked]
    constructor
    · rintro ⟨hOld | hMem, hNot⟩
      · exact hOld
      · exact absurd hMem hNot
    · intro hOld
      refine ⟨.inl hOld, fun hMem => ?_⟩
      obtain ⟨x, hInput, rfl⟩ := List.mem_map.mp hMem
      rw [hFresh x hInput] at hOld
      cases hOld
  · apply ReadSequence_of_raised
    rw [hLowered, LegacyRecords.ReadSequence, hErased.sequence]
    have hUp := hRaised hashOwner
    unfold raised at hUp ⊢
    rw [LegacyRecords.ReadSequence] at hUp
    rw [hUp, LegacyRecords.ReadSequence, LegacyRecords.ReadSequence, hSame.sequence]
  · rw [hTxs', hErased.txs, hTxs, hSame.txs]

/-! ## Trust keys -/

theorem staked_congr {trustKey : Legacy.TrustKey} {hashLastBlock : Uint1024}
    (h : legacy'.txs = legacy.txs) :
    trustKey.staked rt legacy' hashLastBlock state = trustKey.staked rt legacy hashLastBlock state := by
  unfold TrustKey.staked TrustKey.StakeRate LegacyRecords.ReadTx
  rw [h]

theorem staked_ok {trustKey staked : Legacy.TrustKey} {hashLastBlock : Uint1024} :
    trustKey.staked rt legacy hashLastBlock state = .ok staked ↔
      ∃ nStakeRate, trustKey.StakeRate rt legacy state state.nTime.toUInt32 = .ok nStakeRate ∧
        staked = { trustKey with hashLastBlock, nLastBlockTime := state.nTime, nStakeRate } := by
  simp only [TrustKey.staked, bind_eq_ok, pure_eq_ok]
  constructor
  · rintro ⟨nStakeRate, hRate, rfl⟩
    exact ⟨nStakeRate, hRate, rfl⟩
  · rintro ⟨nStakeRate, hRate, rfl⟩
    exact ⟨nStakeRate, hRate, rfl⟩

/-- The record of a trust coinstake before its stake: that of its key, or one that is found. -/
theorem stakeKey_trust {vTrustKey : List UInt8} {trustKey : Legacy.TrustKey}
    (hGenesis : ¬ tx.IsGenesis) (hTrust : tx.IsTrust)
    (h : stakeKey rt db tx side state vTrustKey = .ok trustKey) :
    side.trust (SetBytes rt.toRuntime vTrustKey) = some trustKey ∨
      side.trust (SetBytes rt.toRuntime vTrustKey) = none ∧
        FindGenesis rt db side.legacy (SetBytes rt.toRuntime vTrustKey) state.hashPrevBlock =
          .ok trustKey := by
  simp only [stakeKey, if_neg hGenesis, if_pos hTrust, bind_eq_ok, pure_eq_ok] at h
  obtain ⟨_, hFound, _, -, _, -, _, -, _, -, rfl⟩ := h
  unfold trustRecord LegacySide.ReadTrustKey at hFound
  cases hRecord : side.trust (SetBytes rt.toRuntime vTrustKey) with
  | none =>
      rw [hRecord] at hFound
      exact .inr ⟨rfl, hFound⟩
  | some record =>
      rw [hRecord] at hFound
      exact .inl (congrArg some (Except.ok.inj hFound))

theorem stakeKey_genesis {vTrustKey : List UInt8} {trustKey : Legacy.TrustKey}
    (hGenesis : tx.IsGenesis) (h : stakeKey rt db tx side state vTrustKey = .ok trustKey) :
    trustKey.hashGenesisBlock = state.GetHash rt.toLedgerRuntime := by
  simp only [stakeKey, if_pos hGenesis, bind_eq_ok, pure_eq_ok] at h
  obtain ⟨_, -, _, -, rfl⟩ := h
  rfl

/-- The trust databases read the same, where only the record of one key differs. -/
theorem trust_update_iff {trust : Uint576 → Option Legacy.TrustKey} {cKey : Uint576}
    {record : Option Legacy.TrustKey} :
    (∀ key, (Function.update trust cKey record key).map lastStake = (trust key).map lastStake) ↔
      record.map lastStake = (trust cKey).map lastStake := by
  constructor
  · intro h
    have hKey := h cKey
    rwa [Function.update_self] at hKey
  · intro h key
    by_cases hKey : key = cKey
    · rw [hKey, Function.update_self]
      exact h
    · rw [Function.update_of_ne hKey]

/-- What `Disconnect` leaves of the record of a key, or that it fails. -/
theorem disconnectStake_ok {vTrustKey : List UInt8} {trustKey : Legacy.TrustKey}
    (hKey : tx.TrustKey rt = .ok vTrustKey)
    (hRecord : side.trust (SetBytes rt.toRuntime vTrustKey) = some trustKey) :
    disconnectStake rt db tx side state = .ok side' ↔
      state.GetHash rt.toLedgerRuntime = trustKey.hashGenesisBlock ∧
          side' = side.EraseTrustKey (SetBytes rt.toRuntime vTrustKey) ∨
        state.GetHash rt.toLedgerRuntime ≠ trustKey.hashGenesisBlock ∧
          ∃ hashLastBlock nSequence nTrustScore statePrev nStakeRate,
            tx.ExtractTrust = .ok (hashLastBlock, nSequence, nTrustScore) ∧
              db.ReadBlock hashLastBlock = some statePrev ∧
              trustKey.StakeRate rt side.legacy statePrev statePrev.nTime.toUInt32 =
                .ok nStakeRate ∧
              side' = side.WriteTrustKey (SetBytes rt.toRuntime vTrustKey)
                { trustKey with hashLastBlock, nLastBlockTime := statePrev.nTime, nStakeRate } := by
  simp only [disconnectStake, hKey, ok_bind, LegacySide.ReadTrustKey, hRecord, ite_eq_ok,
    bind_eq_ok, demand_eq_ok, pure_eq_ok, Prod.exists, staked_ok]
  constructor
  · rintro (⟨hHash, rfl⟩ | ⟨hHash, hashLast, nSequence, nScore, hExtract, statePrev, hRead, _,
      ⟨nStakeRate, hRate, rfl⟩, rfl⟩)
    · exact .inl ⟨hHash, rfl⟩
    · exact .inr ⟨hHash, hashLast, nSequence, nScore, statePrev, nStakeRate, hExtract, hRead, hRate,
        rfl⟩
  · rintro (⟨hHash, rfl⟩ | ⟨hHash, hashLast, nSequence, nScore, statePrev, nStakeRate, hExtract,
      hRead, hRate, rfl⟩)
    · exact .inl ⟨hHash, rfl⟩
    · exact .inr ⟨hHash, hashLast, nSequence, nScore, hExtract, statePrev, hRead, _,
        ⟨nStakeRate, hRate, rfl⟩, rfl⟩

theorem disconnectStake_legacy (h : disconnectStake rt db tx side state = .ok side') :
    side'.legacy = side.legacy := by
  simp only [disconnectStake, bind_eq_ok] at h
  obtain ⟨vTrustKey, -, h⟩ := h
  split at h
  · rw [← pure_eq_ok.mp h]
  · simp only [ite_eq_ok, bind_eq_ok, pure_eq_ok, Prod.exists] at h
    rcases h with ⟨-, rfl⟩ | ⟨-, _, _, _, -, _, -, _, -, rfl⟩
    · rfl
    · rfl

/-- Only the trust database decides, once the spends and the events are as before. -/
theorem reverts_iff {after : LegacyRecords} (hSpends : disconnectSpends db tx connected.legacy = .ok after)
    (hSame : after.spends = side.legacy.spends ∧
      ∀ hashOwner, after.ReadSequence hashOwner = side.legacy.ReadSequence hashOwner)
    (hStake : tx.IsCoinStake) :
    Reverts rt db tx side connected state ↔
      ∃ side', disconnectStake rt db tx { connected with legacy := after } state = .ok side' ∧
        ∀ cKey, (side'.trust cKey).map lastStake = (side.trust cKey).map lastStake := by
  unfold Reverts Transaction.Disconnect
  simp only [hSpends, ok_bind, if_pos hStake]
  constructor
  · rintro ⟨side', hDisconnect, hReads⟩
    exact ⟨side', hDisconnect, hReads.trust⟩
  · rintro ⟨side', hDisconnect, hTrust⟩
    refine ⟨side', hDisconnect, ?_, ?_, hTrust⟩
    · rw [disconnectStake_legacy hDisconnect]
      exact hSame.1
    · rw [disconnectStake_legacy hDisconnect]
      exact hSame.2

/-! ## Disconnecting what was connected -/

/-- The record of a key after a coinstake, with what the coinstake found before. -/
structure Staked (rt : LegacyRuntime) (db : Records) (tx : Legacy.Transaction)
    (side : LegacySide) (state : BlockState) (trust : Uint576 → Option Legacy.TrustKey)
    (vTrustKey : List UInt8) (trustKey staked : Legacy.TrustKey) : Prop where
  key : tx.TrustKey rt = .ok vTrustKey
  found : stakeKey rt db tx side state vTrustKey = .ok trustKey
  genesis : staked.hashGenesisBlock = trustKey.hashGenesisBlock
  time : staked.nGenesisTime = trustKey.nGenesisTime
  trust : trust = Function.update side.trust (SetBytes rt.toRuntime vTrustKey) (some staked)

theorem staked_of_connectStake {staked : LegacySide} (hStake : tx.IsCoinStake)
    (h : connectStake rt db tx side state = .ok staked) :
    ∃ vTrustKey trustKey record, Staked rt db tx side state staked.trust vTrustKey trustKey record := by
  obtain ⟨vTrustKey, trustKey, record, hKey, hFound, hRecord, rfl⟩ := connectStake_coinstake hStake h
  obtain ⟨nStakeRate, -, hStaked⟩ := staked_ok.mp hRecord
  refine ⟨vTrustKey, trustKey, record, hKey, hFound, ?_, ?_, LegacySide.trust_write _ _ _⟩
  · rw [hStaked]
  · rw [hStaked]

variable {vTrustKey : List UInt8} {trustKey staked : Legacy.TrustKey} {after : LegacyRecords}

/-- `Disconnect` erases the record when the genesis of the key is in the block. -/
theorem reverts_erased
    (hStaked : Staked rt db tx side state connected.trust vTrustKey trustKey staked)
    (hHash : state.GetHash rt.toLedgerRuntime = trustKey.hashGenesisBlock) :
    (∃ side', disconnectStake rt db tx { connected with legacy := after } state = .ok side' ∧
        ∀ cKey, (side'.trust cKey).map lastStake = (side.trust cKey).map lastStake) ↔
      side.trust (SetBytes rt.toRuntime vTrustKey) = none := by
  have hRecord : ({ connected with legacy := after } : LegacySide).trust
      (SetBytes rt.toRuntime vTrustKey) = some staked := by
    rw [hStaked.trust, Function.update_self]
  have hErased : (LegacySide.EraseTrustKey { connected with legacy := after }
      (SetBytes rt.toRuntime vTrustKey)).trust =
      Function.update side.trust (SetBytes rt.toRuntime vTrustKey) none := by
    rw [LegacySide.trust_erase, hStaked.trust, Function.update_idem]
  rw [← hStaked.genesis] at hHash
  constructor
  · rintro ⟨side', hOk, hTrust⟩
    rcases (disconnectStake_ok hStaked.key hRecord).mp hOk with ⟨-, rfl⟩ | ⟨hNot, -⟩
    · rw [hErased, trust_update_iff] at hTrust
      exact Option.map_eq_none_iff.mp hTrust.symm
    · exact absurd hHash hNot
  · intro hNone
    refine ⟨_, (disconnectStake_ok hStaked.key hRecord).mpr (.inl ⟨hHash, rfl⟩), ?_⟩
    rw [hErased, trust_update_iff, hNone]

/-- Otherwise it writes a record, which is that of before when the script names the last block. -/
theorem reverts_written
    (hStaked : Staked rt db tx side state connected.trust vTrustKey trustKey staked)
    (hHash : state.GetHash rt.toLedgerRuntime ≠ trustKey.hashGenesisBlock)
    (hTxs : after.txs = side.legacy.txs) :
    (∃ side', disconnectStake rt db tx { connected with legacy := after } state = .ok side' ∧
        ∀ cKey, (side'.trust cKey).map lastStake = (side.trust cKey).map lastStake) ↔
      ∃ record, side.trust (SetBytes rt.toRuntime vTrustKey) = some record ∧
        ∃ nSequence nTrustScore statePrev,
          tx.ExtractTrust = .ok (record.hashLastBlock, nSequence, nTrustScore) ∧
            db.ReadBlock record.hashLastBlock = some statePrev ∧
            record.nLastBlockTime = statePrev.nTime ∧
            trustKey.StakeRate rt side.legacy statePrev statePrev.nTime.toUInt32 =
              .ok record.nStakeRate := by
  have hRecord : ({ connected with legacy := after } : LegacySide).trust
      (SetBytes rt.toRuntime vTrustKey) = some staked := by
    rw [hStaked.trust, Function.update_self]
  have hRate (statePrev : BlockState) : staked.StakeRate rt after statePrev
      statePrev.nTime.toUInt32 =
      trustKey.StakeRate rt side.legacy statePrev statePrev.nTime.toUInt32 := by
    unfold TrustKey.StakeRate TrustKey.coinstakeRate LegacyRecords.ReadTx
    rw [hTxs, hStaked.time]
  have hWritten (record : Legacy.TrustKey) : (LegacySide.WriteTrustKey
      { connected with legacy := after } (SetBytes rt.toRuntime vTrustKey) record).trust =
      Function.update side.trust (SetBytes rt.toRuntime vTrustKey) (some record) := by
    rw [LegacySide.trust_write, hStaked.trust, Function.update_idem]
  rw [← hStaked.genesis] at hHash
  constructor
  · rintro ⟨side', hOk, hTrust⟩
    rcases (disconnectStake_ok hStaked.key hRecord).mp hOk with ⟨hSame, -⟩ | ⟨-, hashLastBlock,
      nSequence, nTrustScore, statePrev, nStakeRate, hExtract, hRead, hRated, rfl⟩
    · exact absurd hSame hHash
    · rw [hWritten, trust_update_iff, Option.map_some] at hTrust
      obtain ⟨record, hBefore, hLast⟩ := Option.map_eq_some_iff.mp hTrust.symm
      simp only [lastStake, Prod.mk.injEq] at hLast
      obtain ⟨hBlock, hTime, hRateBefore⟩ := hLast
      refine ⟨record, hBefore, nSequence, nTrustScore, statePrev, ?_, ?_, hTime, ?_⟩
      · rw [hBlock]
        exact hExtract
      · rw [hBlock]
        exact hRead
      · rw [hRateBefore, ← hRate]
        exact hRated
  · rintro ⟨record, hBefore, nSequence, nTrustScore, statePrev, hExtract, hRead, hTime, hRated⟩
    rw [← hRate] at hRated
    refine ⟨_, (disconnectStake_ok hStaked.key hRecord).mpr (.inr ⟨hHash, record.hashLastBlock,
      nSequence, nTrustScore, statePrev, record.nStakeRate, hExtract, hRead, hRated, rfl⟩), ?_⟩
    rw [hWritten, trust_update_iff, hBefore, Option.map_some, Option.map_some, lastStake, lastStake,
      hTime]

/-- The record of a key is restored where the coinstake follows it. -/
theorem reverts_stake
    (hStaked : Staked rt db tx side state connected.trust vTrustKey trustKey staked)
    (hKind : tx.IsGenesis ∨ tx.IsTrust) (hTxs : after.txs = side.legacy.txs) :
    (∃ side', disconnectStake rt db tx { connected with legacy := after } state = .ok side' ∧
        ∀ cKey, (side'.trust cKey).map lastStake = (side.trust cKey).map lastStake) ↔
      FollowsRecord rt db tx side state (SetBytes rt.toRuntime vTrustKey) := by
  by_cases hGenesis : tx.IsGenesis
  · rw [FollowsRecord, if_pos hGenesis]
    exact reverts_erased hStaked (stakeKey_genesis hGenesis hStaked.found).symm
  · have hTrust := hKind.resolve_left hGenesis
    rw [FollowsRecord, if_neg hGenesis]
    rcases stakeKey_trust hGenesis hTrust hStaked.found with hRecord | ⟨hNone, hFound⟩
    · rw [hRecord]
      by_cases hHash : state.GetHash rt.toLedgerRuntime = trustKey.hashGenesisBlock
      · rw [reverts_erased hStaked hHash, hRecord]
        simp [hHash]
      · rw [reverts_written hStaked hHash hTxs, hRecord]
        simp [hHash, NamesLast]
    · rw [hNone]
      by_cases hHash : state.GetHash rt.toLedgerRuntime = trustKey.hashGenesisBlock
      · rw [reverts_erased hStaked hHash]
        simp [hNone, hFound, hHash]
      · rw [reverts_written hStaked hHash hTxs]
        simp [hNone, hFound, hHash]

theorem not_coinstake_of_coinbase (h : tx.IsCoinBase) : ¬ tx.IsCoinStake := by
  intro hStake
  have hOne := h.1
  have hMore := hStake.1
  omega

/-- `Disconnect` restores what was read before `Connect` if and only if a coinstake follows the
record of its key. -/
theorem disconnect_inverts (hKind : tx.IsCoinStake → tx.IsGenesis ∨ tx.IsTrust)
    (hConnect : tx.Connect rt db side inputs state = .ok (connected, mint)) :
    Reverts rt db tx side connected state ↔
      (tx.IsCoinStake → ∀ vTrustKey, tx.TrustKey rt = .ok vTrustKey →
        FollowsRecord rt db tx side state (SetBytes rt.toRuntime vTrustKey)) := by
  rcases Connect_ok hConnect with ⟨hBase, rfl⟩ |
    ⟨hBase, sideStaked, legacy, nValueIn, nValueOut, hConnects⟩
  · have hNot := not_coinstake_of_coinbase hBase
    have hDisconnect : tx.Disconnect rt db connected state = .ok connected := by
      simp only [Transaction.Disconnect, disconnectSpends, if_pos hBase, ok_bind, if_neg hNot]
      rfl
    exact ⟨fun _ hStake => absurd hStake hNot,
      fun _ => ⟨connected, hDisconnect, rfl, fun _ => rfl, fun _ => rfl⟩⟩
  · obtain ⟨after, hFold, hSpends, hSequence, hTxs⟩ := disconnect_legacy hConnects
    have hAfter : disconnectSpends db tx connected.legacy = .ok after := by
      rw [disconnectSpends, if_neg hBase]
      exact hFold
    have hStep := hConnects.stake
    by_cases hStake : tx.IsCoinStake
    · rw [reverts_iff hAfter ⟨hSpends, hSequence⟩ hStake]
      obtain ⟨vTrustKey, trustKey, record, hStaked⟩ := staked_of_connectStake hStake hStep
      rw [← hConnects.trust] at hStaked
      rw [reverts_stake hStaked (hKind hStake) hTxs]
      constructor
      · intro hFollows _ vTrustKey' hKey
        rw [hStaked.key] at hKey
        rw [← Except.ok.inj hKey]
        exact hFollows
      · intro hFollows
        exact hFollows hStake vTrustKey hStaked.key
    · rw [connectStake, if_neg hStake] at hStep
      obtain rfl := Except.ok.inj hStep
      have hDisconnect : tx.Disconnect rt db connected state =
          .ok { connected with legacy := after } := by
        simp only [Transaction.Disconnect, hAfter, ok_bind, if_neg hStake]
        rfl
      refine ⟨fun _ hNot => absurd hNot hStake, fun _ => ⟨_, hDisconnect, hSpends, hSequence, ?_⟩⟩
      intro cKey
      show (connected.trust cKey).map lastStake = _
      rw [hConnects.trust]

/-! ## Two geneses of a key -/

/-- A legacy environment without rewards, while the chain is synchronizing. -/
def exampleLegacy : LegacyRuntime :=
  { exampleChain with
    Solver := fun script =>
      if script.length = 35 ∧ script[0]? = some 33 ∧ script[34]? = some 0xac then
        some (.TX_PUBKEY, [(script.drop 1).take 33])
      else none
    VerifySignature := fun _ _ _ => false
    VerifyScript := fun _ _ _ _ => false
    CoinstakeReward := fun _ _ _ _ => .ok 0
    trustRate := fun _ => 0
    Synchronizing := true
    chain := {}
    hashFirst := 0
    nFuel := 10 }

/-- A transaction that is staked. -/
def paidTx : Legacy.Transaction :=
  { vin := [{ prevout := ⟨1, 0⟩ }], vout := [{ nValue := 5, scriptPubKey := [] }] }

/-- The first coinstake of a key. -/
def genesisTx : Legacy.Transaction :=
  { vin :=
      [{ prevout := ⟨0, 0xffffffff⟩, scriptSig := [1, 2, 3, 5, 8, 13, 21, 34] },
        { prevout := ⟨paidTx.GetHash exampleRuntime, 0⟩ }]
    vout := [{ nValue := 5, scriptPubKey := 33 :: List.replicate 33 2 ++ [0xac] }] }

def genesisKey : Uint576 := SetBytes exampleRuntime (List.replicate 33 2)

def genesisBlock : BlockState :=
  { nVersion := 5, nBits := 1, nTime := 100
    vtx := [(Ledger.TRANSACTION.LEGACY, genesisTx.GetHash exampleRuntime)] }

def genesisRecords : Records := { index := fun _ => some 1 }

/-- Both transactions are on disk, and the key may have a record. -/
def genesisSide (record : Option Legacy.TrustKey) : LegacySide where
  legacy :=
    { txs := fun hash =>
        if hash = paidTx.GetHash exampleRuntime then some paidTx
        else if hash = genesisTx.GetHash exampleRuntime then some genesisTx
        else none }
  trust := fun _ => record

/-- The coinstake is connected to its block. -/
def connectGenesis (record : Option Legacy.TrustKey) : Result (LegacySide × Mint) := do
  let inputs ← genesisTx.FetchInputs exampleLegacy genesisRecords (genesisSide record).legacy
  genesisTx.Connect exampleLegacy genesisRecords (genesisSide record) inputs genesisBlock

/-- A connected coinstake, and its inputs. -/
theorem connectGenesis_ok {record : Option Legacy.TrustKey}
    (h : (connectGenesis record).isOk = true) :
    ∃ inputs connected mint, genesisTx.FetchInputs exampleLegacy genesisRecords
        (genesisSide record).legacy = .ok inputs ∧
      genesisTx.Connect exampleLegacy genesisRecords (genesisSide record) inputs genesisBlock =
        .ok (connected, mint) ∧ connectGenesis record = .ok (connected, mint) := by
  cases hRun : connectGenesis record with
  | error e =>
      rw [hRun] at h
      cases h
  | ok result =>
      obtain ⟨connected, mint⟩ := result
      have hSteps := hRun
      simp only [connectGenesis, bind_eq_ok] at hSteps
      obtain ⟨inputs, hInputs, hConnect⟩ := hSteps
      exact ⟨inputs, connected, mint, hInputs, hConnect, rfl⟩

/-- The first genesis of a key is taken back. -/
theorem disconnect_inverts_first :
    ∃ inputs connected mint,
      genesisTx.Connect exampleLegacy genesisRecords (genesisSide none) inputs genesisBlock =
        .ok (connected, mint) ∧
      Reverts exampleLegacy genesisRecords genesisTx (genesisSide none) connected genesisBlock := by
  obtain ⟨inputs, connected, mint, -, hConnect, -⟩ :=
    @connectGenesis_ok none (by decide +kernel)
  have hGenesis : genesisTx.IsGenesis := by decide +kernel
  refine ⟨inputs, connected, mint, hConnect,
    (disconnect_inverts (fun _ => .inl hGenesis) hConnect).mpr fun _ vTrustKey _ => ?_⟩
  rw [FollowsRecord, if_pos hGenesis]
  rfl

/-- A second genesis of a key is connected, and disconnecting it erases the record that the key
had. -/
theorem genesis_erases :
    ∃ inputs connected mint,
      genesisTx.FetchInputs exampleLegacy genesisRecords (genesisSide (some {})).legacy =
        .ok inputs ∧
      genesisTx.Connect exampleLegacy genesisRecords (genesisSide (some {})) inputs genesisBlock =
        .ok (connected, mint) ∧
      ¬ Reverts exampleLegacy genesisRecords genesisTx (genesisSide (some {})) connected
        genesisBlock := by
  obtain ⟨inputs, connected, mint, hInputs, hConnect, hRun⟩ :=
    @connectGenesis_ok (some {}) (by decide +kernel)
  refine ⟨inputs, connected, mint, hInputs, hConnect, fun hReverts => ?_⟩
  obtain ⟨side', hDisconnect, hReads⟩ := hReverts
  have hGone : ((connectGenesis (some {})).toOption.bind fun x =>
      (genesisTx.Disconnect exampleLegacy genesisRecords x.1 genesisBlock).toOption.map fun side =>
        (side.trust genesisKey).isSome) = some false := by decide +kernel
  rw [hRun] at hGone
  simp only [Except.toOption, Option.bind_some, hDisconnect, Option.map_some,
    Option.some.injEq] at hGone
  have hTrust := congrArg Option.isSome (hReads.trust genesisKey)
  rw [Option.isSome_map, Option.isSome_map, hGone] at hTrust
  cases hTrust

end Nexus.Safety
