import Nexus.Ledger.Prime
import Nexus.Safety.Forks

/-!
# Reading the offsets of a prime

The offsets of a block are read at three places: the loop over them, the copy of the
fraction and the list for the log.  Each place has a lemma that says when it stays inside
the offsets; the check of the work of a prime block is read off from the three.
-/

namespace Nexus.Safety

open Nexus.Lib.Bytes
open Nexus.Lib.Checked
open Nexus.Util
open Nexus.Ledger

variable {tests : PrimeTests} {vOffsets : List UInt8}

/-! ## One offset -/

theorem offsetAt_eq_ok {n : Nat} {nOffset : UInt8} :
    offsetAt vOffsets n = .ok nOffset ↔ vOffsets[n]? = some nOffset := demand_eq_ok

theorem offsetAt_of_lt {n : Nat} (h : n < vOffsets.length) :
    offsetAt vOffsets n = .ok vOffsets[n] :=
  offsetAt_eq_ok.mpr (List.getElem?_eq_getElem h)

theorem offsetAt_of_ge {n : Nat} (h : vOffsets.length ≤ n) :
    offsetAt vOffsets n = .error .outOfBounds := by
  rw [offsetAt, List.getElem?_eq_none h]
  rfl

/-! ## The loop over the offsets -/

/-- An offset above twelve is among the `nLeft` offsets from `n` on. -/
def LargeOffset (vOffsets : List UInt8) (n nLeft : Nat) : Prop :=
  ∃ i nOffset, n ≤ i ∧ i < n + nLeft ∧ vOffsets[i]? = some nOffset ∧ 12 < nOffset

theorem not_LargeOffset_zero {n : Nat} : ¬ LargeOffset vOffsets n 0 := by
  intro ⟨i, _, hFrom, hTo, _⟩
  omega

theorem LargeOffset_succ {n nLeft : Nat} {nOffset : UInt8} (h : vOffsets[n]? = some nOffset)
    (hSmall : ¬ 12 < nOffset) :
    LargeOffset vOffsets n (nLeft + 1) ↔ LargeOffset vOffsets (n + 1) nLeft := by
  constructor
  · intro ⟨i, o, hFrom, hTo, hAt, hLarge⟩
    have hNe : i ≠ n := by
      intro hEq
      rw [hEq, h] at hAt
      exact hSmall (Option.some.inj hAt ▸ hLarge)
    exact ⟨i, o, by omega, by omega, hAt, hLarge⟩
  · intro ⟨i, o, hFrom, hTo, hAt, hLarge⟩
    exact ⟨i, o, by omega, by omega, hAt, hLarge⟩

theorem walkOffsets_zero {fVerify : Bool} {n : Nat} {hashNext : Uint1024}
    {nClusterSize : UInt32} :
    walkOffsets tests vOffsets fVerify 0 n hashNext nClusterSize =
      .ok (some (hashNext, nClusterSize)) := rfl

theorem walkOffsets_large {fVerify : Bool} {n nLeft : Nat} {hashNext : Uint1024}
    {nClusterSize : UInt32} {nOffset : UInt8} (h : vOffsets[n]? = some nOffset)
    (hLarge : 12 < nOffset) :
    walkOffsets tests vOffsets fVerify (nLeft + 1) n hashNext nClusterSize = .ok none := by
  rw [walkOffsets, offsetAt_eq_ok.mpr h, ok_bind, if_pos hLarge]
  rfl

theorem walkOffsets_small {fVerify : Bool} {n nLeft : Nat} {hashNext : Uint1024}
    {nClusterSize : UInt32} {nOffset : UInt8} (h : vOffsets[n]? = some nOffset)
    (hSmall : ¬ 12 < nOffset) :
    walkOffsets tests vOffsets fVerify (nLeft + 1) n hashNext nClusterSize =
      walkOffsets tests vOffsets fVerify nLeft (n + 1)
        (hashNext + BitVec.ofNat 1024 nOffset.toNat)
        (if fVerify = false ∨ tests.PrimeCheck (hashNext + BitVec.ofNat 1024 nOffset.toNat) then
          nClusterSize + 1 else nClusterSize) := by
  rw [walkOffsets, offsetAt_eq_ok.mpr h, ok_bind, if_neg hSmall]

theorem walkOffsets_outside {fVerify : Bool} {n nLeft : Nat} {hashNext : Uint1024}
    {nClusterSize : UInt32} (h : vOffsets.length ≤ n) :
    walkOffsets tests vOffsets fVerify (nLeft + 1) n hashNext nClusterSize =
      .error .outOfBounds := by
  rw [walkOffsets, offsetAt_of_ge h]
  rfl

/-- A large offset ends the loop before anything behind it is read. -/
theorem walkOffsets_eq_none_iff {fVerify : Bool} {n nLeft : Nat} {hashNext : Uint1024}
    {nClusterSize : UInt32} :
    walkOffsets tests vOffsets fVerify nLeft n hashNext nClusterSize = .ok none ↔
      LargeOffset vOffsets n nLeft := by
  induction nLeft generalizing n hashNext nClusterSize with
  | zero => simp [walkOffsets_zero, not_LargeOffset_zero]
  | succ nLeft ih =>
      cases hAt : vOffsets[n]? with
      | none =>
          have hEnd : vOffsets.length ≤ n := List.getElem?_eq_none_iff.mp hAt
          rw [walkOffsets_outside hEnd]
          constructor
          · intro h
            cases h
          · intro ⟨i, o, hFrom, _, hIn, _⟩
            have hBound := (List.getElem?_eq_some_iff.mp hIn).1
            omega
      | some nOffset =>
          by_cases hLarge : 12 < nOffset
          · rw [walkOffsets_large hAt hLarge]
            exact ⟨fun _ => ⟨n, nOffset, by omega, by omega, hAt, hLarge⟩, fun _ => rfl⟩
          · rw [walkOffsets_small hAt hLarge, ih, LargeOffset_succ hAt hLarge]

/-- Without a large offset the loop stays inside the offsets if it ends in time. -/
theorem walkOffsets_isOk_iff {fVerify : Bool} {n nLeft : Nat} {hashNext : Uint1024}
    {nClusterSize : UInt32} (hStart : n ≤ vOffsets.length) :
    (walkOffsets tests vOffsets fVerify nLeft n hashNext nClusterSize).isOk ↔
      LargeOffset vOffsets n nLeft ∨ n + nLeft ≤ vOffsets.length := by
  induction nLeft generalizing n hashNext nClusterSize with
  | zero =>
      rw [walkOffsets_zero]
      exact ⟨fun _ => .inr hStart, fun _ => rfl⟩
  | succ nLeft ih =>
      cases hAt : vOffsets[n]? with
      | none =>
          have hEnd : vOffsets.length ≤ n := List.getElem?_eq_none_iff.mp hAt
          rw [walkOffsets_outside hEnd]
          constructor
          · intro h
            cases h
          · intro h
            cases h with
            | inl hLarge =>
                rw [← @walkOffsets_eq_none_iff tests _ false _ _ 0 0, walkOffsets_outside hEnd] at hLarge
                cases hLarge
            | inr hIn => omega
      | some nOffset =>
          have hBound := (List.getElem?_eq_some_iff.mp hAt).1
          by_cases hLarge : 12 < nOffset
          · rw [walkOffsets_large hAt hLarge]
            exact ⟨fun _ => .inl ⟨n, nOffset, by omega, by omega, hAt, hLarge⟩, fun _ => rfl⟩
          · have hEnd : n + 1 + nLeft = n + (nLeft + 1) := by omega
            rw [walkOffsets_small hAt hLarge, ih hBound, LargeOffset_succ hAt hLarge, hEnd]

/-! ## The fraction -/

/-- Reading a stretch of the offsets one by one. -/
theorem mapM_offsetAt {n nLength : Nat} (h : n + nLength ≤ vOffsets.length) :
    (List.range' n nLength).mapM (offsetAt vOffsets) =
      .ok ((vOffsets.drop n).take nLength) := by
  induction nLength generalizing n with
  | zero => rfl
  | succ nLength ih =>
      have hAt : n < vOffsets.length := by omega
      have hRest := ih (n := n + 1) (by omega)
      rw [List.range'_succ, List.mapM_cons, offsetAt_of_lt hAt, ok_bind, hRest, ok_bind,
        List.drop_eq_getElem_cons hAt, List.take_succ_cons]
      rfl

/-- The fraction that is read when both ends are inside the offsets. -/
theorem readFraction_eq {nFirst nLast : UInt32} (hOrder : nFirst ≤ nLast)
    (hLast : nLast.toNat < vOffsets.length) :
    readFraction vOffsets nFirst nLast =
      .ok (UInt32.ofNat (leNat ((vOffsets.drop nFirst.toNat).take
        (nLast.toNat - nFirst.toNat)))) := by
  have hLe : nFirst.toNat ≤ nLast.toNat := hOrder
  rw [readFraction, reject_of_not (UInt32.not_lt.mpr hOrder), ok_bind, offsetAt_of_lt hLast,
    ok_bind, mapM_offsetAt (by omega), ok_bind]
  rfl

theorem readFraction_isOk_iff {nFirst nLast : UInt32} :
    (readFraction vOffsets nFirst nLast).isOk ↔
      nFirst ≤ nLast ∧ nLast.toNat < vOffsets.length := by
  constructor
  · intro h
    have hRead := eq_ok_of_isOk (a := 0) h
    simp only [readFraction, bind_eq_ok, reject_eq_ok, offsetAt_eq_ok] at hRead
    obtain ⟨_, hOrder, nOffset, hLast, _⟩ := hRead
    exact ⟨UInt32.not_lt.mp hOrder, (List.getElem?_eq_some_iff.mp hLast).1⟩
  · intro h
    rw [readFraction_eq h.1 h.2]
    rfl

/-- The last four offsets are where they are looked for, unless the size is one to three
modulo the width of the counter. -/
theorem lastOffsets_inside {nLength : Nat} (h : nLength % 2 ^ 32 ∉ [1, 2, 3]) (hPos : 0 < nLength) :
    (UInt32.ofNat nLength - 4).toNat + 3 = (UInt32.ofNat nLength - 1).toNat ∧
      (UInt32.ofNat nLength - 1).toNat < nLength := by
  have hSize : (UInt32.ofNat nLength).toNat = nLength % 2 ^ 32 := UInt32.toNat_ofNat
  have hLe := Nat.mod_le nLength (2 ^ 32)
  have hLt := Nat.mod_lt nLength (show 0 < 2 ^ 32 by decide)
  have hWhole := Nat.div_add_mod nLength (2 ^ 32)
  rw [UInt32.toNat_sub, UInt32.toNat_sub, hSize]
  simp only [List.mem_cons, List.not_mem_nil, or_false, not_or] at h
  have hFour : (4 : UInt32).toNat = 4 := rfl
  have hOne : (1 : UInt32).toNat = 1 := rfl
  rw [hFour, hOne]
  omega

theorem lastOffsets_outside {nLength : Nat} (h : nLength % 2 ^ 32 ∈ [1, 2, 3]) :
    ¬ UInt32.ofNat nLength - 4 ≤ UInt32.ofNat nLength - 1 := by
  have hSize : (UInt32.ofNat nLength).toNat = nLength % 2 ^ 32 := UInt32.toNat_ofNat
  intro hLe
  have hNat : (UInt32.ofNat nLength - 4).toNat ≤ (UInt32.ofNat nLength - 1).toNat := hLe
  rw [UInt32.toNat_sub, UInt32.toNat_sub, hSize] at hNat
  simp only [List.mem_cons, List.not_mem_nil, or_false] at h
  have hFour : (4 : UInt32).toNat = 4 := rfl
  have hOne : (1 : UInt32).toNat = 1 := rfl
  rw [hFour, hOne] at hNat
  omega

/-! ## The difficulty -/

/-- The offsets in front of the last four. -/
def statedLength (vOffsets : List UInt8) : Nat := (UInt32.ofNat vOffsets.length - 4).toNat

/-- Stated offsets leave nothing to search for. -/
theorem GetPrimeDifficulty_fuel {nFuel nFuel' : Nat} {hashPrime : Uint1024} {fVerify : Bool}
    (h : vOffsets ≠ []) :
    GetPrimeDifficulty tests vOffsets nFuel hashPrime fVerify =
      GetPrimeDifficulty tests vOffsets nFuel' hashPrime fVerify := by
  simp only [GetPrimeDifficulty, if_pos h]

/-- The answers of the check of stated offsets that are `0.0`. -/
theorem GetPrimeDifficulty_zero {nFuel : Nat} {hashPrime : Uint1024} {fVerify : Bool}
    (h : vOffsets ≠ []) (hZero : (fVerify = true ∧ tests.PrimeCheck hashPrime = false) ∨
      LargeOffset vOffsets 0 (statedLength vOffsets)) :
    GetPrimeDifficulty tests vOffsets nFuel hashPrime fVerify = .ok none := by
  unfold GetPrimeDifficulty
  by_cases hTest : fVerify = true ∧ tests.PrimeCheck hashPrime = false
  · rw [if_pos hTest]
    rfl
  · have hWalk := (@walkOffsets_eq_none_iff tests _ fVerify _ _ hashPrime 1).mpr
      (hZero.resolve_left hTest)
    rw [if_neg hTest, if_pos h]
    unfold statedLength at hWalk
    simp only [hWalk, ok_bind]
    rfl

/-- With a size of one to three modulo the width of the counter the offsets are left,
unless an earlier answer is given. -/
theorem GetPrimeDifficulty_isOk_iff {nFuel : Nat} {hashPrime : Uint1024} {fVerify : Bool}
    (h : vOffsets ≠ []) :
    (GetPrimeDifficulty tests vOffsets nFuel hashPrime fVerify).isOk ↔
      ((fVerify = true ∧ tests.PrimeCheck hashPrime = false) ∨
        LargeOffset vOffsets 0 (statedLength vOffsets)) ∨
        vOffsets.length % 2 ^ 32 ∉ [1, 2, 3] := by
  by_cases hZero : (fVerify = true ∧ tests.PrimeCheck hashPrime = false) ∨
      LargeOffset vOffsets 0 (statedLength vOffsets)
  · rw [GetPrimeDifficulty_zero h hZero]
    exact ⟨fun _ => .inl hZero, fun _ => rfl⟩
  · have hPos : 0 < vOffsets.length := List.length_pos_iff.mpr h
    have hTest : ¬ (fVerify = true ∧ tests.PrimeCheck hashPrime = false) :=
      fun hFails => hZero (.inl hFails)
    have hSmall : ¬ LargeOffset vOffsets 0 (statedLength vOffsets) :=
      fun hLarge => hZero (.inr hLarge)
    have hStay := @walkOffsets_isOk_iff tests vOffsets fVerify 0 (statedLength vOffsets) hashPrime 1
      (Nat.zero_le _)
    have hNotNone := mt (@walkOffsets_eq_none_iff tests vOffsets fVerify 0 (statedLength vOffsets)
      hashPrime 1).mp hSmall
    have hRead := @readFraction_isOk_iff vOffsets (UInt32.ofNat vOffsets.length - 4)
      (UInt32.ofNat vOffsets.length - 1)
    unfold GetPrimeDifficulty
    rw [if_neg hTest, if_pos h]
    unfold statedLength at hStay hNotNone hSmall
    simp only [hZero, hSmall, false_or] at hStay ⊢
    generalize walkOffsets tests vOffsets fVerify (UInt32.ofNat vOffsets.length - 4).toNat 0
      hashPrime 1 = walked at hStay hNotNone ⊢
    constructor
    · intro hOk hMod
      have hRun := eq_ok_of_isOk (a := none) hOk
      obtain ⟨w, hWalked, hRest⟩ := bind_eq_ok.mp hRun
      cases w with
      | none => exact hNotNone hWalked
      | some reached =>
          obtain ⟨nFraction, hFraction, _⟩ := bind_eq_ok.mp hRest
          have hInside := hRead.mp (by rw [hFraction]; rfl)
          exact lastOffsets_outside hMod hInside.1
    · intro hMod
      obtain ⟨hSpan, hLast⟩ := lastOffsets_inside hMod hPos
      have hOk := hStay.mpr (by omega)
      cases walked with
      | error e => cases hOk
      | ok w =>
          cases w with
          | none => exact absurd rfl hNotNone
          | some reached =>
              have hOrder : UInt32.ofNat vOffsets.length - 4 ≤ UInt32.ofNat vOffsets.length - 1 :=
                UInt32.le_iff_toNat_le.mpr (by omega)
              simp only [ok_bind, readFraction_eq hOrder hLast]
              split <;> rfl

/-- A search that ended ends the same way with more steps allowed. -/
theorem scanCluster_mono {nFuel nFuel' : Nat} {hashNext hashLast : Uint1024}
    {nClusterSize : UInt32} {r : Uint1024 × UInt32} (hLe : nFuel ≤ nFuel')
    (h : scanCluster tests nFuel hashNext hashLast nClusterSize = .ok r) :
    scanCluster tests nFuel' hashNext hashLast nClusterSize = .ok r := by
  induction nFuel generalizing nFuel' hashNext hashLast nClusterSize with
  | zero => cases h
  | succ nFuel ih =>
      cases nFuel' with
      | zero => omega
      | succ nFuel' =>
          have hLess : nFuel ≤ nFuel' := by omega
          rw [scanCluster] at h ⊢
          by_cases hMore : hashNext ≤ hashLast + 12
          · rw [if_pos hMore] at h ⊢
            by_cases hPasses : tests.PrimeCheck hashNext = true
            · rw [if_pos hPasses] at h ⊢
              exact ih hLess h
            · rw [if_neg hPasses] at h ⊢
              exact ih hLess h
          · rw [if_neg hMore] at h ⊢
            exact h

theorem GetPrimeDifficulty_mono {nFuel nFuel' : Nat} {hashPrime : Uint1024} {fVerify : Bool}
    {nDifficulty : Option Difficulty} (hLe : nFuel ≤ nFuel')
    (h : GetPrimeDifficulty tests [] nFuel hashPrime fVerify = .ok nDifficulty) :
    GetPrimeDifficulty tests [] nFuel' hashPrime fVerify = .ok nDifficulty := by
  unfold GetPrimeDifficulty at h ⊢
  by_cases hTest : fVerify = true ∧ tests.PrimeCheck hashPrime = false
  · rw [if_pos hTest] at h ⊢
    exact h
  · have hNil : ¬ ([] : List UInt8) ≠ [] := fun hNe => hNe rfl
    rw [if_neg hTest, if_neg hNil] at h ⊢
    obtain ⟨r, hScan, hRest⟩ := bind_eq_ok.mp h
    rw [scanCluster_mono hLe hScan, ok_bind]
    exact hRest

/-! ## The list for the log -/

theorem listOffsets_isOk {nFuel : Nat} {i : UInt32} (hFour : 4 ≤ vOffsets.length)
    (hWidth : vOffsets.length < 2 ^ 32 + 4) (hStart : i.toNat ≤ vOffsets.length - 4)
    (hFuel : vOffsets.length - 4 < i.toNat + nFuel) :
    (Block.listOffsets vOffsets nFuel i).isOk := by
  induction nFuel generalizing i with
  | zero => omega
  | succ nFuel ih =>
      have hSize : (UInt64.ofNat vOffsets.length - 4).toNat = vOffsets.length - 4 := by
        rw [UInt64.toNat_sub, UInt64.toNat_ofNat']
        have hFour' : (4 : UInt64).toNat = 4 := rfl
        omega
      rw [Block.listOffsets]
      by_cases hMore : i.toUInt64 < UInt64.ofNat vOffsets.length - 4
      · have hLt : i.toNat < vOffsets.length - 4 := by
          rw [UInt64.lt_iff_toNat_lt, hSize, UInt32.toNat_toUInt64] at hMore
          exact hMore
        have hNext : (i + 1).toNat = i.toNat + 1 := by
          rw [UInt32.toNat_add]
          have hOne : (1 : UInt32).toNat = 1 := rfl
          omega
        rw [if_pos hMore, offsetAt_of_lt (by omega), ok_bind]
        exact ih (by omega) (by omega)
      · rw [if_neg hMore]
        rfl

/-- With as many offsets as the counter has values the list has no end. -/
theorem listOffsets_endless {nFuel : Nat} {i : UInt32} (hWidth : 2 ^ 32 + 4 ≤ vOffsets.length)
    (hSize : vOffsets.length < 2 ^ 64) : ¬ (Block.listOffsets vOffsets nFuel i).isOk := by
  induction nFuel generalizing i with
  | zero =>
      intro h
      cases h
  | succ nFuel ih =>
      have hSize' : (UInt64.ofNat vOffsets.length - 4).toNat = vOffsets.length - 4 := by
        rw [UInt64.toNat_sub, UInt64.toNat_ofNat']
        have hFour : (4 : UInt64).toNat = 4 := rfl
        omega
      have hLt := i.toNat_lt
      have hMore : i.toUInt64 < UInt64.ofNat vOffsets.length - 4 := by
        rw [UInt64.lt_iff_toNat_lt, hSize', UInt32.toNat_toUInt64]
        omega
      rw [Block.listOffsets, if_pos hMore, offsetAt_of_lt (by omega), ok_bind]
      exact ih

theorem listOffsets_nil {nFuel : Nat} : ¬ (Block.listOffsets [] nFuel 0).isOk := by
  cases nFuel with
  | zero =>
      intro h
      cases h
  | succ nFuel =>
      intro h
      cases h

/-! ## The work of a prime block -/

section Work

variable {rt : WorkRuntime} {block : Block}

/-- The block is turned down for its hash alone. -/
def LowOrigins (rt : WorkRuntime) (block : Block) : Prop :=
  5 ≤ block.nVersion ∧ block.ProofHash rt.toLedgerRuntime < bnPrimeMinOrigins

/-- The difficulty is calculated and reaches the limit and the target. -/
def PassesDifficulty (rt : WorkRuntime) (block : Block) : Prop :=
  ∃ nFuel nPrimeBits, block.primeBits rt nFuel = .ok nPrimeBits ∧
    bnPrimeLimit ≤ nPrimeBits ∧ block.nBits ≤ nPrimeBits

/-- The first number is not prime, when that is tested. -/
def NotPrime (rt : WorkRuntime) (block : Block) : Prop :=
  rt.fSynchronizing = false ∧ rt.PrimeCheck (block.GetPrime rt) = false

/-- The prime blocks whose work is checked: with offsets, as a Tritium block is asked for, or
without them and with enough work. -/
structure Received (rt : WorkRuntime) (block : Block) : Prop where
  prime : block.nChannel = CHANNEL.PRIME
  size : block.vOffsets.length < 2 ^ 64
  offered : block.vOffsets ≠ [] ∨ (¬ LowOrigins rt block ∧ PassesDifficulty rt block)

/-- The check returns, and reads the offsets below their size only. -/
def StaysInside (rt : WorkRuntime) (block : Block) : Prop :=
  ∃ nFuel, ∀ n, nFuel ≤ n → (block.VerifyWork rt n).isOk

theorem VerifyWork_isOk_iff {nFuel : Nat} (hPrime : block.nChannel = CHANNEL.PRIME) :
    (block.VerifyWork rt nFuel).isOk ↔ LowOrigins rt block ∨
      ∃ nPrimeBits, block.primeBits rt nFuel = .ok nPrimeBits ∧
        (nPrimeBits < bnPrimeLimit ∨ nPrimeBits < block.nBits ∨
          (Block.listOffsets block.vOffsets nFuel 0).isOk) := by
  unfold Block.VerifyWork
  rw [if_pos hPrime]
  by_cases hLow : 5 ≤ block.nVersion ∧ block.ProofHash rt.toLedgerRuntime < bnPrimeMinOrigins
  · rw [if_pos hLow]
    exact ⟨fun _ => .inl hLow, fun _ => rfl⟩
  · rw [if_neg hLow]
    simp only [LowOrigins, hLow, false_or]
    cases block.primeBits rt nFuel with
    | error e => simp [Except.isOk, Except.toBool]
    | ok nPrimeBits =>
        simp only [ok_bind, Except.ok.injEq, exists_eq_left']
        by_cases hLimit : nPrimeBits < bnPrimeLimit
        · simp only [hLimit, if_true, true_or, iff_true]
          rfl
        · by_cases hTarget : nPrimeBits < block.nBits
          · simp only [hLimit, hTarget, if_true, if_false, true_or, or_true, iff_true]
            rfl
          · simp only [hLimit, hTarget, if_false, false_or]
            cases Block.listOffsets block.vOffsets nFuel 0 <;> rfl

theorem primeBits_fuel {nFuel nFuel' : Nat} (h : block.vOffsets ≠ []) :
    block.primeBits rt nFuel = block.primeBits rt nFuel' := by
  rw [Block.primeBits, Block.primeBits, GetPrimeDifficulty_fuel h]

/-- The early answers are below every limit. -/
theorem primeBits_zero {nFuel : Nat} (h : block.vOffsets ≠ [])
    (hZero : NotPrime rt block ∨ LargeOffset block.vOffsets 0 (statedLength block.vOffsets)) :
    block.primeBits rt nFuel = .ok 0 := by
  have hEither : ((!rt.fSynchronizing) = true ∧ rt.PrimeCheck (block.GetPrime rt) = false) ∨
      LargeOffset block.vOffsets 0 (statedLength block.vOffsets) := by
    rw [Bool.not_eq_true']
    exact hZero
  rw [Block.primeBits, GetPrimeDifficulty_zero h hEither]
  rfl

theorem primeBits_isOk_iff {nFuel : Nat} (h : block.vOffsets ≠ []) :
    (block.primeBits rt nFuel).isOk ↔
      (NotPrime rt block ∨ LargeOffset block.vOffsets 0 (statedLength block.vOffsets)) ∨
        block.vOffsets.length % 2 ^ 32 ∉ [1, 2, 3] := by
  have hDifficulty := @GetPrimeDifficulty_isOk_iff rt.toPrimeTests block.vOffsets nFuel
    (block.GetPrime rt) (!rt.fSynchronizing) h
  rw [Bool.not_eq_true'] at hDifficulty
  rw [NotPrime, ← hDifficulty, Block.primeBits]
  cases GetPrimeDifficulty rt.toPrimeTests block.vOffsets nFuel (block.GetPrime rt)
    (!rt.fSynchronizing) <;> rfl

/-- The check of a prime block without offsets reads the first of none. -/
theorem not_StaysInside_of_nil (h : Received rt block) (hNil : block.vOffsets = []) :
    ¬ StaysInside rt block := by
  intro ⟨nFuel, hReturns⟩
  have hOffered := h.offered.resolve_left (fun hNe => hNe hNil)
  obtain ⟨hOrigins, nEnough, nPrimeBits, hBits, hLimit, hTarget⟩ := hOffered
  have hLater : block.primeBits rt (max nFuel nEnough) = .ok nPrimeBits := by
    rw [Block.primeBits, hNil, map_eq_ok] at hBits ⊢
    obtain ⟨nDifficulty, hFound, hSet⟩ := hBits
    exact ⟨nDifficulty, GetPrimeDifficulty_mono (Nat.le_max_right _ _) hFound, hSet⟩
  have hRun := (VerifyWork_isOk_iff h.prime).mp (hReturns _ (Nat.le_max_left _ nEnough))
  obtain ⟨nBits', hBits', hEnd⟩ := hRun.resolve_left hOrigins
  rw [hLater] at hBits'
  cases hBits'
  rw [hNil] at hEnd
  cases hEnd with
  | inl hLess => exact UInt32.not_lt.mpr hLimit hLess
  | inr hEnd => exact hEnd.elim (UInt32.not_lt.mpr hTarget) listOffsets_nil

/-- The check of a received prime block stays inside the offsets exactly if it ends before it
reads the fraction, or the fraction is inside and the counter of the list can pass the offsets. -/
theorem VerifyWork_inside_iff (h : Received rt block) :
    StaysInside rt block ↔ block.vOffsets ≠ [] ∧
      (LowOrigins rt block ∨ NotPrime rt block ∨
        LargeOffset block.vOffsets 0 (statedLength block.vOffsets) ∨
        (block.vOffsets.length % 2 ^ 32 ∉ [1, 2, 3] ∧
          (block.vOffsets.length < 2 ^ 32 + 4 ∨ ¬ PassesDifficulty rt block))) := by
  constructor
  · intro hInside
    have hNe : block.vOffsets ≠ [] := fun hNil => not_StaysInside_of_nil h hNil hInside
    obtain ⟨nFuel, hReturns⟩ := hInside
    have hRun := (VerifyWork_isOk_iff h.prime).mp (hReturns nFuel (Nat.le_refl _))
    cases hRun with
    | inl hLow => exact ⟨hNe, .inl hLow⟩
    | inr hWork =>
        obtain ⟨nPrimeBits, hBits, hEnd⟩ := hWork
        have hOk := (primeBits_isOk_iff hNe).mp (by rw [hBits]; rfl)
        have hLong : ¬ block.vOffsets.length < 2 ^ 32 + 4 → ¬ PassesDifficulty rt block := by
          intro hLength ⟨nFuel', nBits', hBits', hLimit, hTarget⟩
          rw [@primeBits_fuel rt block nFuel' nFuel hNe, hBits] at hBits'
          cases hBits'
          have hList := @listOffsets_endless block.vOffsets nFuel 0 (Nat.le_of_not_lt hLength) h.size
          cases hEnd with
          | inl hLess => exact absurd hLess (UInt32.not_lt.mpr hLimit)
          | inr hEnd => exact hEnd.elim (fun hLess => absurd hLess (UInt32.not_lt.mpr hTarget)) hList
        have hLast := Classical.em (block.vOffsets.length < 2 ^ 32 + 4)
        tauto
  · intro ⟨hNe, hCases⟩
    have hPos : 0 < block.vOffsets.length := List.length_pos_iff.mpr hNe
    refine ⟨block.vOffsets.length, fun nFuel hFuel => (VerifyWork_isOk_iff h.prime).mpr ?_⟩
    by_cases hZero : NotPrime rt block ∨ LargeOffset block.vOffsets 0 (statedLength block.vOffsets)
    · exact .inr ⟨0, primeBits_zero hNe hZero, .inl (by decide)⟩
    · by_cases hLow : LowOrigins rt block
      · exact .inl hLow
      · have hInside : block.vOffsets.length % 2 ^ 32 ∉ [1, 2, 3] ∧
            (block.vOffsets.length < 2 ^ 32 + 4 ∨ ¬ PassesDifficulty rt block) := by
          tauto
        have hOk := (@primeBits_isOk_iff rt block nFuel hNe).mpr (.inr hInside.1)
        have hBits := eq_ok_of_isOk (a := 0) hOk
        refine .inr ⟨_, hBits, ?_⟩
        cases hInside.2 with
        | inl hShort =>
            have hMod := hInside.1
            simp only [List.mem_cons, List.not_mem_nil, or_false, not_or] at hMod
            have hFour : 4 ≤ block.vOffsets.length := by omega
            exact .inr (.inr (listOffsets_isOk hFour hShort (Nat.zero_le _)
              (by rw [UInt32.toNat_zero]; omega)))
        | inr hFails =>
            by_contra hEnd
            simp only [not_or, UInt32.not_lt] at hEnd
            exact hFails ⟨nFuel, _, hBits, hEnd.1, hEnd.2.1⟩

end Work

/-- A node to which the hash of every block and the number that follows it by two are prime. -/
def exampleWork : WorkRuntime :=
  { exampleLedger with
    SK1024 := fun _ => 2 ^ 1016 + 1
    PrimeCheck := fun hashTest => hashTest = 2 ^ 1016 + 1 ∨ hashTest = 2 ^ 1016 + 3
    GetFractionalDifficulty := fun _ => 0
    SetBits := fun nDifficulty => 10000000 * nDifficulty.nClusterSize
    verifyOther := fun _ => false
    fSynchronizing := false }

/-- A block with the cluster of two, its fraction and the given offsets in front. -/
def twinBlock (nVersion : UInt32) (vOffsets : List UInt8) : Block :=
  { nVersion, nChannel := CHANNEL.PRIME, nBits := 1, vOffsets }

theorem VerifyWork_inside_twin :
    StaysInside exampleWork (twinBlock 9 [2, 0, 0, 0, 0]) ↔
      (twinBlock 9 [2, 0, 0, 0, 0]).vOffsets ≠ [] ∧
      (LowOrigins exampleWork (twinBlock 9 [2, 0, 0, 0, 0]) ∨
        NotPrime exampleWork (twinBlock 9 [2, 0, 0, 0, 0]) ∨
        LargeOffset [2, 0, 0, 0, 0] 0 (statedLength [2, 0, 0, 0, 0]) ∨
        ([2, 0, 0, 0, 0].length % 2 ^ 32 ∉ [1, 2, 3] ∧
          ([2, 0, 0, 0, 0].length < 2 ^ 32 + 4 ∨
            ¬ PassesDifficulty exampleWork (twinBlock 9 [2, 0, 0, 0, 0])))) :=
  VerifyWork_inside_iff
    { prime := rfl
      size := by decide
      offered := .inl (List.cons_ne_nil _ _) }

/-- A Tritium block with one offset and a legacy block without offsets: both are read outside. -/
theorem VerifyWork_outside_short :
    (Received exampleWork (twinBlock 9 [0]) ∧ ¬ StaysInside exampleWork (twinBlock 9 [0])) ∧
      Received exampleWork (twinBlock 4 []) ∧ ¬ StaysInside exampleWork (twinBlock 4 []) := by
  have hShort : Received exampleWork (twinBlock 9 [0]) :=
    { prime := rfl
      size := by decide
      offered := .inl (List.cons_ne_nil _ _) }
  have hNone : Received exampleWork (twinBlock 4 []) :=
    { prime := rfl
      size := by decide
      offered := .inr ⟨by unfold LowOrigins; decide, 20, 20000000, by decide +kernel,
        by decide, by decide⟩ }
  refine ⟨⟨hShort, ?_⟩, hNone, not_StaysInside_of_nil hNone rfl⟩
  intro ⟨nFuel, hReturns⟩
  have hRun := (VerifyWork_isOk_iff hShort.prime).mp (hReturns nFuel (Nat.le_refl _))
  have hOrigins : ¬ LowOrigins exampleWork (twinBlock 9 [0]) := by
    unfold LowOrigins
    decide +kernel
  obtain ⟨nPrimeBits, hBits, _⟩ := hRun.resolve_left hOrigins
  have hFails : ((twinBlock 9 [0]).primeBits exampleWork 0).isOk = false := by decide +kernel
  rw [@primeBits_fuel exampleWork (twinBlock 9 [0]) _ 0 (List.cons_ne_nil _ _)] at hBits
  rw [hBits] at hFails
  cases hFails

end Nexus.Safety
