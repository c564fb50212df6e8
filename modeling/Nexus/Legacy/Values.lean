import Mathlib.Algebra.BigOperators.Group.List.Basic
import Nexus.Legacy.Effects
import Nexus.Lib.Words

/-!
# Values of legacy transactions

A legacy transaction that is connected mints the values of its outputs less those of
what it spends.  Every sum on the way is in the range of money, so that it is the sum
over the integers; the difference is kept in 32 bits.

## Main results

* `Connect_mint`: what `Connect` mints, and what it is of the coins that are created.
-/

namespace Nexus.Legacy

open Nexus.Lib.Checked
open Nexus.Lib.Words
open Nexus.Util
open Nexus.Register
open Nexus.Operation
open Nexus.Ledger
open Nexus.LLD

namespace Transaction

variable (rt : LegacyRuntime) (db : Records) (tx : Transaction) (legacy : LegacyRecords)

/-- The output that an input spends. -/
def spentOutput (txin : TxIn) : Option TxOut :=
  match chainInput rt db tx txin with
  | some txPrev => (chainOutput rt txPrev txin.prevout.n).toOption
  | none => (legacy.ReadTx txin.prevout.hash).bind fun txPrev =>
      txPrev.vout[txin.prevout.n.toNat]?

/-- The values of what some inputs spend. -/
def spentValues (xs : List (TxIn × Nat)) : List Int64 :=
  xs.filterMap fun x => (spentOutput rt db tx legacy x.1).map TxOut.nValue

def vIn : List Int64 :=
  if tx.IsCoinBase then [] else spentValues rt db tx legacy tx.spending

/-- The values of the outputs. -/
def vOut : List Int64 := tx.vout.map TxOut.nValue

/-- What a transaction mints when it is connected. -/
def mint : Mint :=
  let nValueOut := (tx.vOut.foldl (· + ·) 0).toUInt64
  if tx.IsCoinBase then .set nValueOut.toUInt32.toInt32
  else
    let nValueIn := (vIn rt db tx legacy).foldl (fun n nValue => n + nValue.toUInt64) 0
    .add (nValueOut - nValueIn).toUInt32.toInt32

/-- The coins that a transaction creates, less those it destroys. -/
def created : Int :=
  (tx.vOut.map Int64.toInt).sum - ((vIn rt db tx legacy).map Int64.toInt).sum

variable {rt db tx legacy}

/-! ## Outputs -/

theorem addValue_ok {n n' : Int64} {txout : TxOut} (h : addValue n txout = .ok n') :
    n' = n + txout.nValue ∧ MoneyRange txout.nValue ∧ MoneyRange n' := by
  simp only [addValue, bind_eq_ok, reject_eq_ok, pure_eq_ok, not_or, not_not] at h
  obtain ⟨_, ⟨hValue, hSum⟩, rfl⟩ := h
  exact ⟨rfl, hValue, hSum⟩

theorem range_toInt {n : Int64} (h : MoneyRange n) :
    0 ≤ n.toInt ∧ n.toInt ≤ 50000000000000 := by
  obtain ⟨hLow, hHigh⟩ := h
  exact ⟨Int64.le_iff_toInt_le.mp hLow, Int64.le_iff_toInt_le.mp hHigh⟩

theorem addValues_ok {vout : List TxOut} {n n' : Int64} (hStart : MoneyRange n)
    (h : vout.foldlM addValue n = .ok n') :
    n' = (vout.map TxOut.nValue).foldl (· + ·) n ∧ MoneyRange n' ∧
      n'.toInt = n.toInt + ((vout.map TxOut.nValue).map Int64.toInt).sum := by
  induction vout generalizing n with
  | nil =>
      rw [foldlM_nil_eq_ok] at h
      subst h
      exact ⟨rfl, hStart, by simp⟩
  | cons txout vout ih =>
      obtain ⟨n₁, hFirst, hRest⟩ := foldlM_cons_eq_ok.mp h
      obtain ⟨rfl, hValue, hSum⟩ := addValue_ok hFirst
      obtain ⟨hFold, hRange, hTotal⟩ := ih hSum hRest
      refine ⟨hFold, hRange, ?_⟩
      have hLeft := range_toInt hStart
      have hRight := range_toInt hValue
      have hAdd : (n + txout.nValue).toInt = n.toInt + txout.nValue.toInt := by
        rw [Int64.toInt_add, Int.bmod_def]
        split <;> omega
      rw [hTotal, hAdd, List.map_cons, List.map_cons, List.sum_cons]
      omega

theorem GetValueOut_ok {nValueOut : UInt64} (h : tx.GetValueOut = .ok nValueOut) :
    nValueOut = (tx.vOut.foldl (· + ·) 0).toUInt64 ∧
      (nValueOut.toNat : Int) = (tx.vOut.map Int64.toInt).sum := by
  rw [GetValueOut, map_eq_ok] at h
  obtain ⟨n, hSum, rfl⟩ := h
  obtain ⟨hFold, hRange, hTotal⟩ := addValues_ok (by decide) hSum
  refine ⟨congrArg Int64.toUInt64 hFold, ?_⟩
  rw [toUInt64_toNat (range_toInt hRange).1, hTotal]
  exact Int.zero_add _

/-! ## Inputs -/

/-- The inputs that were read are those on disk. -/
structure Reads (rt : LegacyRuntime) (db : Records) (tx : Transaction) (legacy : LegacyRecords)
    (inputs : Inputs) : Prop where
  tritium : ∀ {hash txPrev}, inputs hash = some (.TRITIUM txPrev) →
    ∀ txin : TxIn, txin.prevout.hash = hash → chainInput rt db tx txin = some txPrev
  legacy : ∀ {hash txPrev}, inputs hash = some (.LEGACY txPrev) →
    legacy.ReadTx hash = some txPrev ∧
      ∀ txin : TxIn, txin.prevout.hash = hash → chainInput rt db tx txin = none

variable {inputs inputs' : Inputs} {state : BlockState} {side side' : LegacySide}

theorem chainInput_congr {txin txin' : TxIn} (h : txin.prevout.hash = txin'.prevout.hash) :
    chainInput rt db tx txin = chainInput rt db tx txin' := by
  unfold chainInput
  rw [h]

theorem Reads.tritiumInput {txin : TxIn} {txPrev : Ledger.Transaction}
    (hReads : Reads rt db tx legacy inputs) (h : chainInput rt db tx txin = some txPrev) :
    Reads rt db tx legacy
      (Function.update inputs txin.prevout.hash (some (.TRITIUM txPrev))) where
  tritium {hash txPrev'} hInput txin' hHash := by
    by_cases hSame : hash = txin.prevout.hash
    · subst hSame
      rw [Function.update_self] at hInput
      cases hInput
      rw [chainInput_congr hHash, h]
    · rw [Function.update_of_ne hSame] at hInput
      exact hReads.tritium hInput txin' hHash
  legacy {hash txPrev'} hInput := by
    by_cases hSame : hash = txin.prevout.hash
    · subst hSame
      rw [Function.update_self] at hInput
      cases hInput
    · rw [Function.update_of_ne hSame] at hInput
      exact hReads.legacy hInput

theorem Reads.legacyInput {txin : TxIn} {txPrev : Transaction}
    (hReads : Reads rt db tx legacy inputs) (h : chainInput rt db tx txin = none)
    (hRead : legacy.ReadTx txin.prevout.hash = some txPrev) :
    Reads rt db tx legacy
      (Function.update inputs txin.prevout.hash (some (.LEGACY txPrev))) where
  tritium {hash txPrev'} hInput txin' hHash := by
    by_cases hSame : hash = txin.prevout.hash
    · subst hSame
      rw [Function.update_self] at hInput
      cases hInput
    · rw [Function.update_of_ne hSame] at hInput
      exact hReads.tritium hInput txin' hHash
  legacy {hash txPrev'} hInput := by
    by_cases hSame : hash = txin.prevout.hash
    · subst hSame
      rw [Function.update_self] at hInput
      cases hInput
      refine ⟨hRead, fun txin' hHash => ?_⟩
      rw [chainInput_congr hHash, h]
    · rw [Function.update_of_ne hSame] at hInput
      exact hReads.legacy hInput

theorem fetchInput_reads {txin : TxIn} (hReads : Reads rt db tx legacy inputs)
    (h : fetchInput rt db tx legacy inputs txin = .ok inputs') : Reads rt db tx legacy inputs' := by
  obtain ⟨⟨hash, n⟩, scriptSig, nSequence⟩ := txin
  simp only [fetchInput] at h
  by_cases hSome : (inputs hash).isSome
  · rw [if_pos hSome, pure_eq_ok] at h
    rwa [← h]
  · rw [if_neg hSome] at h
    cases hChain : chainInput rt db tx ⟨⟨hash, n⟩, scriptSig, nSequence⟩ with
    | some txPrev =>
        simp only [hChain, bind_eq_ok, pure_eq_ok] at h
        obtain ⟨_, -, _, -, _, -, _, -, rfl⟩ := h
        exact hReads.tritiumInput hChain
    | none =>
        simp only [hChain, bind_eq_ok, demand_eq_ok, pure_eq_ok] at h
        obtain ⟨txPrev, hRead, _, -, rfl⟩ := h
        exact hReads.legacyInput hChain hRead

theorem FetchInputs_reads (h : tx.FetchInputs rt db legacy = .ok inputs) :
    Reads rt db tx legacy inputs := by
  have hNone : Reads rt db tx legacy fun _ => none := ⟨nofun, nofun⟩
  unfold FetchInputs at h
  split at h
  · obtain rfl := Except.ok.inj h
    exact hNone
  · exact foldlM_keeps
      (fun inputs inputs' => Reads rt db tx legacy inputs → Reads rt db tx legacy inputs')
      (fun _ hReads => hReads) (fun h h' hReads => h' (h hReads))
      (fun _ _ _ _ hTurn hReads => fetchInput_reads hReads hTurn) h hNone

theorem inputOutput_spent {input : Input} {txin : TxIn} {txout : TxOut}
    (hReads : Reads rt db tx legacy inputs) (hInput : inputs txin.prevout.hash = some input)
    (h : inputOutput rt db tx state input txin = .ok txout) :
    spentOutput rt db tx legacy txin = some txout := by
  unfold spentOutput
  cases input with
  | LEGACY txPrev =>
      obtain ⟨hRead, hNone⟩ := hReads.legacy hInput
      simp only [inputOutput, legacyOutput, bind_eq_ok, demand_eq_ok, pure_eq_ok] at h
      obtain ⟨_, -, txout', hOut, _, -, _, -, rfl⟩ := h
      rw [hNone txin rfl]
      simp only [hRead, Option.bind_some, hOut]
  | TRITIUM txPrev =>
      rw [hReads.tritium hInput txin rfl]
      simp only [inputOutput, tritiumOutput, bind_eq_ok] at h
      obtain ⟨_, -, _, -, _, -, _, -, _, -, _, -, _, -, hOut⟩ := h
      simp only [hOut, Except.toOption]

theorem connectInput_value {x x' : LegacyRecords × UInt64} {txin : TxIn × Nat}
    (hReads : Reads rt db tx legacy inputs)
    (h : connectInput rt db tx state inputs x txin = .ok x') :
    ∃ nValue, (spentOutput rt db tx legacy txin.1).map TxOut.nValue = some nValue ∧
      x'.2 = x.2 + nValue.toUInt64 ∧ MoneyRange nValue ∧ MoneyRange x'.2.toInt64 := by
  simp only [connectInput, bind_eq_ok, demand_eq_ok, reject_eq_ok, pure_eq_ok, not_or,
    not_not] at h
  obtain ⟨input, hInput, txout, hOut, _, ⟨hValue, hSum⟩, _, -, _, -, rfl⟩ := h
  refine ⟨txout.nValue, ?_, rfl, hValue, hSum⟩
  rw [inputOutput_spent hReads hInput hOut]
  rfl

/-- The inputs add up to the values of what they spend. -/
theorem connectInputs_value {xs : List (TxIn × Nat)} {x x' : LegacyRecords × UInt64}
    (hReads : Reads rt db tx legacy inputs) (hStart : x.2.toNat ≤ 50000000000000)
    (h : xs.foldlM (connectInput rt db tx state inputs) x = .ok x') :
    x'.2 = (spentValues rt db tx legacy xs).foldl (fun n nValue => n + nValue.toUInt64) x.2 ∧
      (x'.2.toNat : Int) =
        x.2.toNat + ((spentValues rt db tx legacy xs).map Int64.toInt).sum := by
  induction xs generalizing x with
  | nil =>
      rw [foldlM_nil_eq_ok] at h
      subst h
      exact ⟨rfl, by simp [spentValues]⟩
  | cons txin xs ih =>
      obtain ⟨x₁, hFirst, hRest⟩ := foldlM_cons_eq_ok.mp h
      obtain ⟨nValue, hSpent, hNext, hValue, hSum⟩ := connectInput_value hReads hFirst
      have hBound := range_toInt hValue
      have hCast := toUInt64_toNat hBound.1
      have hAdd : (x₁.2.toNat : Int) = x.2.toNat + nValue.toInt := by
        rw [hNext, UInt64.toNat_add]
        omega
      have hTop := range_toInt hSum
      have hNat := toUInt64_toNat hTop.1
      rw [UInt64.toUInt64_toInt64] at hNat
      obtain ⟨hFold, hTotal⟩ := ih (by omega) hRest
      have hCons : spentValues rt db tx legacy (txin :: xs) =
          nValue :: spentValues rt db tx legacy xs := List.filterMap_cons_some hSpent
      rw [hCons, List.foldl_cons, List.map_cons, List.sum_cons]
      refine ⟨?_, ?_⟩
      · rw [hFold, hNext]
      · rw [hTotal, hAdd]
        omega

/-- What a connected transaction mints, and what it creates. -/
theorem Connect_mint {mint : Mint} (hInputs : tx.FetchInputs rt db side.legacy = .ok inputs)
    (h : tx.Connect rt db side inputs state = .ok (side', mint)) :
    mint = tx.mint rt db side.legacy ∧
      mint = (if tx.IsCoinBase then Mint.set else Mint.add)
        (Int32.ofInt (tx.created rt db side.legacy)) := by
  have hReads := FetchInputs_reads hInputs
  by_cases hBase : tx.IsCoinBase
  · simp only [Connect, if_pos hBase, bind_eq_ok, pure_eq_ok, Prod.mk.injEq] at h
    obtain ⟨_, -, nValueOut, hOut, -, rfl⟩ := h
    obtain ⟨hFold, hTotal⟩ := GetValueOut_ok hOut
    have hCreated : tx.created rt db side.legacy = nValueOut.toNat := by
      rw [created, vIn, if_pos hBase, hTotal]
      exact Int.sub_zero _
    rw [mint, if_pos hBase, if_pos hBase, hCreated, ← low_eq, hFold]
    exact ⟨rfl, rfl⟩
  · simp only [Connect, if_neg hBase, bind_eq_ok, pure_eq_ok, Prod.exists, Prod.mk.injEq] at h
    obtain ⟨_, -, staked, hStake, legacy, nValueIn, hSpends, _, -, nValueOut, hOut, _, -, -,
      rfl⟩ := h
    obtain ⟨hFold, hTotal⟩ := GetValueOut_ok hOut
    have hStart : (0 : UInt64).toNat ≤ 50000000000000 := by decide
    rw [connectStake_legacy hStake] at hSpends
    obtain ⟨hIn, hInTotal⟩ := connectInputs_value hReads hStart hSpends
    have hValues : vIn rt db tx side.legacy = spentValues rt db tx side.legacy tx.spending :=
      if_neg hBase
    rw [← hValues] at hIn hInTotal
    have hCreated : tx.created rt db side.legacy = nValueOut.toNat - nValueIn.toNat := by
      rw [created, hTotal, hInTotal]
      simp
    rw [mint, if_neg hBase, if_neg hBase, hCreated, Int32.ofInt_sub, ← low_eq, ← low_eq,
      ← low_sub, hFold]
    refine ⟨?_, rfl⟩
    rw [← hIn]

/-! ## Other records -/

variable {db' : Records} {legacy' : LegacyRecords}

/-- What is spent is a matter of the transactions on disk. -/
theorem vIn_congr (hTxs : db'.ledger.txs = db.ledger.txs) (hLegacy : legacy'.txs = legacy.txs) :
    vIn rt db' tx legacy' = vIn rt db tx legacy := by
  have hSpent : spentOutput rt db' tx legacy' = spentOutput rt db tx legacy := by
    funext txin
    simp only [spentOutput, chainInput, LedgerDB.ReadTx, LegacyRecords.ReadTx, hTxs, hLegacy]
  unfold vIn spentValues
  rw [hSpent]

theorem mint_congr (hTxs : db'.ledger.txs = db.ledger.txs) (hLegacy : legacy'.txs = legacy.txs) :
    tx.mint rt db' legacy' = tx.mint rt db legacy := by
  unfold mint
  rw [vIn_congr hTxs hLegacy]

theorem created_congr (hTxs : db'.ledger.txs = db.ledger.txs)
    (hLegacy : legacy'.txs = legacy.txs) :
    tx.created rt db' legacy' = tx.created rt db legacy := by
  unfold created
  rw [vIn_congr hTxs hLegacy]

end Transaction

end Nexus.Legacy
