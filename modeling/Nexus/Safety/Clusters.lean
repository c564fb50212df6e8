import Mathlib.Algebra.Ring.Nat
import Mathlib.Data.List.Perm.Subperm
import Mathlib.Logic.Relation
import Nexus.Safety.Primes

/-!
# The cluster that offsets state

The size of a cluster is counted in three loops: over the stated offsets, in the search without
offsets, and in the search that writes the offsets.  Each loop is read as a trace of the
numbers it counts, and the sizes are compared by these numbers.
-/

namespace Nexus.Safety

open Nexus.Lib.Bytes
open Nexus.Lib.Checked
open Nexus.Util
open Nexus.Ledger

variable {tests : PrimeTests} {vOffsets : List UInt8}

/-! ## The numbers offsets lead to -/

/-- `hash += nOffset`. -/
def stepTo (hash : Uint1024) (nOffset : UInt8) : Uint1024 :=
  hash + BitVec.ofNat 1024 nOffset.toNat

/-- The numbers that the offsets lead to. -/
def reached : Uint1024 → List UInt8 → List Uint1024
  | _, [] => []
  | hash, nOffset :: os => stepTo hash nOffset :: reached (stepTo hash nOffset) os

def lastReached : Uint1024 → List UInt8 → Uint1024
  | hash, [] => hash
  | hash, nOffset :: os => lastReached (stepTo hash nOffset) os

/-- The numbers that are counted: those that pass the test, as often as they are reached. -/
def landings (tests : PrimeTests) (hash : Uint1024) (os : List UInt8) : List Uint1024 :=
  (reached hash os).filter tests.PrimeCheck

@[simp] theorem reached_length {hash : Uint1024} {os : List UInt8} :
    (reached hash os).length = os.length := by
  induction os generalizing hash with
  | nil => rfl
  | cons o os ih => rw [reached, List.length_cons, ih, List.length_cons]

theorem landings_length_le {hash : Uint1024} {os : List UInt8} :
    (landings tests hash os).length ≤ os.length :=
  le_of_le_of_eq (List.length_filter_le _ _) reached_length

theorem landings_cons_pass {hash : Uint1024} {nOffset : UInt8} {os : List UInt8}
    (h : tests.PrimeCheck (stepTo hash nOffset) = true) :
    landings tests hash (nOffset :: os) =
      stepTo hash nOffset :: landings tests (stepTo hash nOffset) os := by
  rw [landings, reached, List.filter_cons_of_pos h]
  rfl

theorem landings_cons_fail {hash : Uint1024} {nOffset : UInt8} {os : List UInt8}
    (h : ¬ tests.PrimeCheck (stepTo hash nOffset) = true) :
    landings tests hash (nOffset :: os) = landings tests (stepTo hash nOffset) os := by
  rw [landings, reached, List.filter_cons_of_neg h]
  rfl

theorem ofNat_succ_length (n : Nat) : UInt32.ofNat (n + 1) = UInt32.ofNat n + 1 := by
  apply UInt32.toNat_inj.mp
  rw [UInt32.toNat_add, UInt32.toNat_ofNat', UInt32.toNat_ofNat']
  have hOne : (1 : UInt32).toNat = 1 := rfl
  omega

/-- The loop over the offsets counts the landings. -/
theorem walkOffsets_eq {n nLeft : Nat} {hashNext : Uint1024} {nClusterSize : UInt32}
    (hInside : n + nLeft ≤ vOffsets.length) (hSmall : ¬ LargeOffset vOffsets n nLeft) :
    walkOffsets tests vOffsets true nLeft n hashNext nClusterSize =
      .ok (some (lastReached hashNext ((vOffsets.drop n).take nLeft),
        nClusterSize +
          UInt32.ofNat (landings tests hashNext ((vOffsets.drop n).take nLeft)).length)) := by
  induction nLeft generalizing n hashNext nClusterSize with
  | zero =>
      rw [walkOffsets_zero, List.take_zero]
      simp [lastReached, landings, reached]
  | succ nLeft ih =>
      have hLt : n < vOffsets.length := by omega
      have hAt : vOffsets[n]? = some vOffsets[n] := List.getElem?_eq_getElem hLt
      have hNotLarge : ¬ 12 < vOffsets[n] :=
        fun hLarge => hSmall ⟨n, _, Nat.le_refl n, by omega, hAt, hLarge⟩
      rw [LargeOffset_succ hAt hNotLarge] at hSmall
      rw [walkOffsets_small hAt hNotLarge, ih (by omega) hSmall, List.drop_eq_getElem_cons hLt,
        List.take_succ_cons, lastReached]
      have hStep : hashNext + BitVec.ofNat 1024 vOffsets[n].toNat =
          stepTo hashNext vOffsets[n] := rfl
      rw [hStep]
      by_cases hPasses : tests.PrimeCheck (stepTo hashNext vOffsets[n]) = true
      · rw [if_pos (.inr hPasses), landings_cons_pass hPasses, List.length_cons,
          ofNat_succ_length]
        congr 3
        rw [UInt32.add_assoc, UInt32.add_comm 1]
      · have hNeither : ¬ (true = false ∨ tests.PrimeCheck (stepTo hashNext vOffsets[n]) = true) :=
          fun hEither => hEither.elim (fun hEq => nomatch hEq) hPasses
        rw [if_neg hNeither, landings_cons_fail hPasses]

/-! ## The search without offsets -/

/-- The search at a number, its members that follow, and the number it ends at. -/
inductive Scans (tests : PrimeTests) : Uint1024 → Uint1024 → List Uint1024 → Uint1024 → Prop
  | stop {hashNext hashLast : Uint1024} :
      ¬ hashNext ≤ hashLast + 12 → Scans tests hashNext hashLast [] hashNext
  | member {hashNext hashLast hashEnd : Uint1024} {members : List Uint1024} :
      hashNext ≤ hashLast + 12 → tests.PrimeCheck hashNext = true →
      Scans tests (hashNext + 2) hashNext members hashEnd →
      Scans tests hashNext hashLast (hashNext :: members) hashEnd
  | skip {hashNext hashLast hashEnd : Uint1024} {members : List Uint1024} :
      hashNext ≤ hashLast + 12 → tests.PrimeCheck hashNext = false →
      Scans tests (hashNext + 2) hashLast members hashEnd →
      Scans tests hashNext hashLast members hashEnd

section Scan

variable {hashNext hashLast hashEnd hashEnd' : Uint1024} {members members' : List Uint1024}

theorem Scans.unique (h : Scans tests hashNext hashLast members hashEnd)
    (h' : Scans tests hashNext hashLast members' hashEnd') :
    members = members' ∧ hashEnd = hashEnd' := by
  induction h generalizing members' hashEnd' with
  | stop hOver =>
      cases h' with
      | stop _ => exact ⟨rfl, rfl⟩
      | member hMore _ _ => exact absurd hMore hOver
      | skip hMore _ _ => exact absurd hMore hOver
  | member hMore hPasses _ ih =>
      cases h' with
      | stop hOver => exact absurd hMore hOver
      | member _ _ hRest =>
          obtain ⟨hSame, hEnd⟩ := ih hRest
          exact ⟨by rw [hSame], hEnd⟩
      | skip _ hFails _ =>
          rw [hPasses] at hFails
          cases hFails
  | skip hMore hFails _ ih =>
      cases h' with
      | stop hOver => exact absurd hMore hOver
      | member _ hPasses _ =>
          rw [hPasses] at hFails
          cases hFails
      | skip _ _ hRest => exact ih hRest

/-- Behind the largest gap the search is over. -/
theorem Scans.over (hOver : ¬ hashNext ≤ hashLast + 12) :
    Scans tests hashNext hashLast members hashEnd ↔ members = [] ∧ hashEnd = hashNext := by
  constructor
  · intro h
    cases h with
    | stop _ => exact ⟨rfl, rfl⟩
    | member hMore _ _ => exact absurd hMore hOver
    | skip hMore _ _ => exact absurd hMore hOver
  · intro ⟨hMembers, hEnd⟩
    rw [hMembers, hEnd]
    exact .stop hOver

/-- The loop that ends has a trace, and counts its members. -/
theorem scanCluster_traced {nFuel : Nat} {nClusterSize nSize : UInt32}
    (h : scanCluster tests nFuel hashNext hashLast nClusterSize = .ok (hashEnd, nSize)) :
    ∃ members, Scans tests hashNext hashLast members hashEnd ∧ members.length ≤ nFuel ∧
      nSize = nClusterSize + UInt32.ofNat members.length := by
  induction nFuel generalizing hashNext hashLast nClusterSize with
  | zero => cases h
  | succ nFuel ih =>
      rw [scanCluster] at h
      by_cases hMore : hashNext ≤ hashLast + 12
      · rw [if_pos hMore] at h
        by_cases hPasses : tests.PrimeCheck hashNext = true
        · rw [if_pos hPasses] at h
          obtain ⟨members, hScans, hLength, hSize⟩ := ih h
          refine ⟨hashNext :: members, .member hMore hPasses hScans, Nat.succ_le_succ hLength, ?_⟩
          rw [hSize, List.length_cons, ofNat_succ_length, UInt32.add_assoc, UInt32.add_comm 1]
        · rw [if_neg hPasses] at h
          obtain ⟨members, hScans, hLength, hSize⟩ := ih h
          exact ⟨members, .skip hMore (Bool.eq_false_of_not_eq_true hPasses) hScans,
            Nat.le_succ_of_le hLength, hSize⟩
      · rw [if_neg hMore] at h
        cases h
        exact ⟨[], .stop hMore, Nat.zero_le _, (UInt32.add_zero _).symm⟩

theorem Scans.counted {nClusterSize : UInt32}
    (h : Scans tests hashNext hashLast members hashEnd) :
    ∃ nFuel, scanCluster tests nFuel hashNext hashLast nClusterSize =
      .ok (hashEnd, nClusterSize + UInt32.ofNat members.length) := by
  induction h generalizing nClusterSize with
  | stop hOver =>
      refine ⟨1, ?_⟩
      rw [scanCluster, if_neg hOver]
      exact congrArg (fun n => Except.ok (_, n)) (UInt32.add_zero _).symm
  | member hMore hPasses _ ih =>
      obtain ⟨nFuel, hRest⟩ := @ih (nClusterSize + 1)
      refine ⟨nFuel + 1, ?_⟩
      rw [scanCluster, if_pos hMore, if_pos hPasses, hRest, List.length_cons, ofNat_succ_length,
        UInt32.add_assoc, UInt32.add_comm 1]
  | skip hMore hFails _ ih =>
      obtain ⟨nFuel, hRest⟩ := @ih nClusterSize
      refine ⟨nFuel + 1, ?_⟩
      rw [scanCluster, if_pos hMore, hFails, if_neg Bool.false_ne_true, hRest]

end Scan

/-! ## The two sizes -/

section Sizes

variable {nFuel : Nat} {hashPrime : Uint1024} {nDifficulty : Difficulty}

theorem toNat_one_add (n : Nat) : (1 + UInt32.ofNat n).toNat = (1 + n) % 2 ^ 32 := by
  rw [UInt32.toNat_add, UInt32.toNat_ofNat']
  have hOne : (1 : UInt32).toNat = 1 := rfl
  omega

/-- The size of the plain search. -/
theorem plain_eq_some (h : GetPrimeDifficulty tests [] nFuel hashPrime true =
      .ok (some nDifficulty)) :
    ∃ members hashEnd, Scans tests (hashPrime + 2) hashPrime members hashEnd ∧
      nDifficulty.nClusterSize = 1 + UInt32.ofNat members.length := by
  unfold GetPrimeDifficulty at h
  by_cases hTest : true = true ∧ tests.PrimeCheck hashPrime = false
  · rw [if_pos hTest] at h
    cases h
  · have hNil : ¬ ([] : List UInt8) ≠ [] := fun hNe => hNe rfl
    rw [if_neg hTest, if_neg hNil] at h
    obtain ⟨⟨hashEnd, nSize⟩, hScan, hDifficulty⟩ := bind_eq_ok.mp h
    obtain ⟨members, hScans, -, hSize⟩ := scanCluster_traced hScan
    cases hDifficulty
    exact ⟨members, hashEnd, hScans, hSize⟩

/-- A search with a trace returns. -/
theorem plain_of_scans {members : List Uint1024} {hashEnd : Uint1024}
    (hPrime : tests.PrimeCheck hashPrime = true)
    (h : Scans tests (hashPrime + 2) hashPrime members hashEnd) :
    ∃ nFuel, GetPrimeDifficulty tests [] nFuel hashPrime true =
      .ok (some { nClusterSize := 1 + UInt32.ofNat members.length
                  nFraction := tests.GetFractionalDifficulty hashEnd }) := by
  obtain ⟨nFuel, hScan⟩ := @Scans.counted tests (hashPrime + 2) hashPrime hashEnd members 1 h
  have hTest : ¬ (true = true ∧ tests.PrimeCheck hashPrime = false) := by
    intro hFails
    rw [hPrime] at hFails
    cases hFails.2
  have hNil : ¬ ([] : List UInt8) ≠ [] := fun hNe => hNe rfl
  refine ⟨nFuel, ?_⟩
  unfold GetPrimeDifficulty
  rw [if_neg hTest, if_neg hNil, hScan]
  rfl

/-- The offsets that are walked. -/
def stated (vOffsets : List UInt8) : List UInt8 := vOffsets.take (statedLength vOffsets)

/-- The run over stated offsets, when it is not cut short. -/
theorem GetPrimeDifficulty_stated (h : vOffsets ≠ [])
    (hPrime : tests.PrimeCheck hashPrime = true)
    (hSmall : ¬ LargeOffset vOffsets 0 (statedLength vOffsets))
    (hMod : vOffsets.length % 2 ^ 32 ∉ [1, 2, 3]) :
    GetPrimeDifficulty tests vOffsets nFuel hashPrime true =
      (let nFraction := UInt32.ofNat (leNat ((vOffsets.drop (statedLength vOffsets)).take 3))
      if tests.GetFractionalDifficulty (lastReached hashPrime (stated vOffsets) + 14) ≠
          nFraction then .ok none
      else .ok (some
        { nClusterSize :=
            1 + UInt32.ofNat (landings tests hashPrime (stated vOffsets)).length
          nFraction })) := by
  have hPos : 0 < vOffsets.length := List.length_pos_iff.mpr h
  obtain ⟨hSpan, hLast⟩ := lastOffsets_inside hMod hPos
  have hOrder : UInt32.ofNat vOffsets.length - 4 ≤ UInt32.ofNat vOffsets.length - 1 :=
    UInt32.le_iff_toNat_le.mpr (by omega)
  have hThree : (UInt32.ofNat vOffsets.length - 1).toNat -
      (UInt32.ofNat vOffsets.length - 4).toNat = 3 := by omega
  have hTest : ¬ (true = true ∧ tests.PrimeCheck hashPrime = false) := by
    intro hFails
    rw [hPrime] at hFails
    cases hFails.2
  have hWalk := @walkOffsets_eq tests vOffsets 0 (statedLength vOffsets) hashPrime 1
    (by unfold statedLength; omega) hSmall
  rw [List.drop_zero] at hWalk
  unfold GetPrimeDifficulty
  rw [if_neg hTest, if_pos h]
  unfold stated
  unfold statedLength at hWalk ⊢
  simp only [hWalk, ok_bind, readFraction_eq hOrder hLast, hThree, true_and]
  split <;> rfl

/-- The size of stated offsets, whose counter does not turn over. -/
theorem stated_eq_some (hNe : vOffsets ≠ []) (h : GetPrimeDifficulty tests vOffsets nFuel
      hashPrime true = .ok (some nDifficulty)) :
    nDifficulty.nClusterSize.toNat =
      1 + (landings tests hashPrime (stated vOffsets)).length := by
  have hOk := (@GetPrimeDifficulty_isOk_iff tests vOffsets nFuel hashPrime true hNe).mp (by rw [h]; rfl)
  have hNotZero : ¬ ((true = true ∧ tests.PrimeCheck hashPrime = false) ∨
      LargeOffset vOffsets 0 (statedLength vOffsets)) := by
    intro hZero
    rw [GetPrimeDifficulty_zero hNe hZero] at h
    cases h
  have hMod := hOk.resolve_left hNotZero
  have hPrime : tests.PrimeCheck hashPrime = true := by
    by_contra hFails
    exact hNotZero (.inl ⟨rfl, Bool.eq_false_of_not_eq_true hFails⟩)
  rw [GetPrimeDifficulty_stated hNe hPrime (fun hLarge => hNotZero (.inr hLarge)) hMod] at h
  have hLength := @landings_length_le tests hashPrime (stated vOffsets)
  have hStated : (stated vOffsets).length ≤ statedLength vOffsets := List.length_take_le _ _
  obtain ⟨hSpan, hLast⟩ := lastOffsets_inside hMod (List.length_pos_iff.mpr hNe)
  have hWidth := (UInt32.ofNat vOffsets.length - 1).toNat_lt
  unfold statedLength at hStated
  simp only at h
  by_cases hFraction : tests.GetFractionalDifficulty (lastReached hashPrime (stated vOffsets) + 14)
      ≠ UInt32.ofNat (leNat ((vOffsets.drop (statedLength vOffsets)).take 3))
  · rw [if_pos hFraction] at h
    cases h
  · rw [if_neg hFraction] at h
    cases h
    rw [toNat_one_add]
    omega

/-! ### Offsets that count the cluster -/

/-- The `n`-th number at an even distance. -/
def evenBehind (hashLast : Uint1024) (n : Nat) : Uint1024 := hashLast + BitVec.ofNat 1024 (2 * n)

/-- The next number of the cluster: the first at an even distance that passes the test, in a gap of
at most 12. -/
def NextInCluster (tests : PrimeTests) (hashLast hash : Uint1024) : Prop :=
  ∃ n, hash = evenBehind hashLast (n + 1) ∧ tests.PrimeCheck hash = true ∧
    (∀ k ≤ n, evenBehind hashLast (k + 1) ≤ hashLast + 12) ∧
    ∀ k < n, tests.PrimeCheck (evenBehind hashLast (k + 1)) = false

/-- A number that an offset leads to and that passes the test is not the one before, and it is
reached from the prime through numbers of the cluster. -/
def Honest (tests : PrimeTests) (hashPrime : Uint1024) : Uint1024 → List UInt8 → Prop
  | _, [] => True
  | hash, nOffset :: os =>
      (tests.PrimeCheck (stepTo hash nOffset) = true → nOffset ≠ 0 ∧
        Relation.TransGen (NextInCluster tests) hashPrime (stepTo hash nOffset)) ∧
      Honest tests hashPrime (stepTo hash nOffset) os

/-- The offsets are honest, and the counter of the plain search does not turn over. -/
def CountsCluster (tests : PrimeTests) (hashPrime : Uint1024) (vOffsets : List UInt8) : Prop :=
  vOffsets = [] ∨ (Honest tests hashPrime hashPrime (stated vOffsets) ∧
    ∀ members hashEnd, Scans tests (hashPrime + 2) hashPrime members hashEnd →
      1 + members.length < 2 ^ 32)

theorem evenBehind_succ (hashLast : Uint1024) (n : Nat) :
    evenBehind hashLast (n + 1) = evenBehind hashLast n + 2 := by
  unfold evenBehind
  rw [Nat.mul_succ, BitVec.ofNat_add, BitVec.add_assoc]
  rfl

theorem evenBehind_one (hashLast : Uint1024) : evenBehind hashLast 1 = hashLast + 2 := rfl

/-- The plain search comes to every number of the cluster. -/
theorem Scans.mem_of_transGen {hashNext hashLast hashEnd hash : Uint1024}
    {members : List Uint1024} {n : Nat} (h : Scans tests hashNext hashLast members hashEnd)
    (hNext : hashNext = evenBehind hashLast (n + 1))
    (hFails : ∀ k < n, tests.PrimeCheck (evenBehind hashLast (k + 1)) = false)
    (hCluster : Relation.TransGen (NextInCluster tests) hashLast hash) : hash ∈ members := by
  induction h generalizing n with
  | @stop hashNext hashLast hOver =>
      obtain ⟨hashFirst, ⟨m, rfl, hPasses, hInside, -⟩, -⟩ :=
        Relation.TransGen.head'_iff.mp hCluster
      rcases Nat.lt_or_ge m n with hBefore | hBehind
      · rw [hFails m hBefore] at hPasses
        cases hPasses
      · exact absurd (hNext ▸ hInside n hBehind) hOver
  | @member hashNext hashLast hashEnd members hMore hPasses hRest ih =>
      obtain ⟨hashFirst, ⟨m, rfl, hPasses', -, hBetween⟩, hLater⟩ :=
        Relation.TransGen.head'_iff.mp hCluster
      rcases Nat.lt_trichotomy m n with hBefore | rfl | hBehind
      · rw [hFails m hBefore] at hPasses'
        cases hPasses'
      · rw [← hNext] at hLater
        rcases Relation.reflTransGen_iff_eq_or_transGen.mp hLater with hSame | hLater
        · rw [hSame]
          exact List.mem_cons_self
        · exact List.mem_cons_of_mem _ (ih (n := 0) (evenBehind_one _).symm
            (fun k hk => absurd hk (Nat.not_lt_zero k)) hLater)
      · rw [hNext, hBetween n hBehind] at hPasses
        cases hPasses
  | @skip hashNext hashLast hashEnd members hMore hFailsHere hRest ih =>
      refine ih (n := n + 1) (by rw [evenBehind_succ, ← hNext]) ?_ hCluster
      intro k hk
      rcases Nat.lt_succ_iff_lt_or_eq.mp hk with hBefore | rfl
      · exact hFails k hBefore
      · rw [← hNext]
        exact hFailsHere

theorem Honest.landings_subset {hashNext hashEnd : Uint1024} {members : List Uint1024}
    {os : List UInt8} (h : Honest tests hashPrime hashNext os)
    (hScans : Scans tests (hashPrime + 2) hashPrime members hashEnd) :
    landings tests hashNext os ⊆ members := by
  induction os generalizing hashNext with
  | nil => exact List.nil_subset _
  | cons nOffset os ih =>
      obtain ⟨hHere, hLater⟩ := h
      by_cases hPasses : tests.PrimeCheck (stepTo hashNext nOffset) = true
      · rw [landings_cons_pass hPasses]
        refine List.cons_subset.mpr ⟨?_, ih hLater⟩
        exact hScans.mem_of_transGen (n := 0) (evenBehind_one _).symm
          (fun k hk => absurd hk (Nat.not_lt_zero k)) (hHere hPasses).2
      · rw [landings_cons_fail hPasses]
        exact ih hLater

/-- A number that is counted is behind the one before, at a distance that does not turn over. -/
theorem Honest.distance {hashNext hash : Uint1024} {os : List UInt8}
    (h : Honest tests hashPrime hashNext os) (hMem : hash ∈ landings tests hashNext os) :
    ∃ n, 0 < n ∧ n < 256 * os.length + 1 ∧ hash = hashNext + BitVec.ofNat 1024 n := by
  induction os generalizing hashNext with
  | nil => cases hMem
  | cons nOffset os ih =>
      obtain ⟨hHere, hLater⟩ := h
      have hByte := nOffset.toNat_lt
      have hBehind (hTail : hash ∈ landings tests (stepTo hashNext nOffset) os) :
          ∃ n, 0 < n ∧ n < 256 * (nOffset :: os).length + 1 ∧
            hash = hashNext + BitVec.ofNat 1024 n := by
        obtain ⟨n, hPos, hLess, rfl⟩ := ih hLater hTail
        refine ⟨nOffset.toNat + n, by omega, ?_, ?_⟩
        · rw [List.length_cons]
          omega
        · rw [stepTo, BitVec.ofNat_add, BitVec.add_assoc]
      by_cases hPasses : tests.PrimeCheck (stepTo hashNext nOffset) = true
      · rw [landings_cons_pass hPasses] at hMem
        rcases List.mem_cons.mp hMem with rfl | hTail
        · refine ⟨nOffset.toNat, ?_, ?_, rfl⟩
          · exact Nat.pos_of_ne_zero fun hZero => (hHere hPasses).1 (UInt8.toNat_inj.mp hZero)
          · rw [List.length_cons]
            omega
        · exact hBehind hTail
      · rw [landings_cons_fail hPasses] at hMem
        exact hBehind hMem

theorem add_ne_self {hash : Uint1024} {n : Nat} (hPos : 0 < n) (hLess : n < 2 ^ 42) :
    hash + BitVec.ofNat 1024 n ≠ hash := by
  intro hSame
  have hZero : BitVec.ofNat 1024 n = 0 := BitVec.add_right_eq_self.mp hSame
  have hNat : (BitVec.ofNat 1024 n).toNat = 0 :=
    (congrArg BitVec.toNat hZero).trans BitVec.toNat_zero
  rw [BitVec.toNat_ofNat, Nat.mod_eq_of_lt (Nat.lt_of_lt_of_le hLess
    (Nat.pow_le_pow_right Nat.two_pos (show 42 ≤ 1024 by decide)))] at hNat
  exact absurd hNat (Nat.pos_iff_ne_zero.mp hPos)

/-- Honest offsets count no number twice. -/
theorem Honest.landings_nodup {hashNext : Uint1024} {os : List UInt8}
    (h : Honest tests hashPrime hashNext os) (hLength : os.length < 2 ^ 32) :
    (landings tests hashNext os).Nodup := by
  induction os generalizing hashNext with
  | nil => exact List.nodup_nil
  | cons nOffset os ih =>
      have hShort : os.length < 2 ^ 32 := by
        rw [List.length_cons] at hLength
        omega
      by_cases hPasses : tests.PrimeCheck (stepTo hashNext nOffset) = true
      · rw [landings_cons_pass hPasses]
        refine List.nodup_cons.mpr ⟨fun hMem => ?_, ih h.2 hShort⟩
        obtain ⟨n, hPos, hLess, hSame⟩ := h.2.distance hMem
        exact add_ne_self hPos (by omega) hSame.symm
      · rw [landings_cons_fail hPasses]
        exact ih h.2 hShort

theorem statedLength_lt (vOffsets : List UInt8) : statedLength vOffsets < 2 ^ 32 :=
  UInt32.toNat_lt _

/-- Offsets that count the cluster gain nothing. -/
theorem size_le_of_counts {nPlain : Difficulty} {nFuel' : Nat}
    (hStated : GetPrimeDifficulty tests vOffsets nFuel hashPrime true = .ok (some nDifficulty))
    (hPlain : GetPrimeDifficulty tests [] nFuel' hashPrime true = .ok (some nPlain))
    (hCounts : CountsCluster tests hashPrime vOffsets) :
    nDifficulty.nClusterSize ≤ nPlain.nClusterSize := by
  obtain ⟨members, hashEnd, hScans, hSize⟩ := plain_eq_some hPlain
  by_cases hNil : vOffsets = []
  · rw [hNil] at hStated
    obtain ⟨members', hashEnd', hScans', hSize'⟩ := plain_eq_some hStated
    obtain ⟨hSame, _⟩ := hScans.unique hScans'
    rw [hSize, hSize', hSame]
    exact UInt32.le_refl _
  · obtain ⟨hHonest, hRoom⟩ := hCounts.resolve_left hNil
    have hCount := stated_eq_some hNil hStated
    have hShort : (stated vOffsets).length < 2 ^ 32 :=
      Nat.lt_of_le_of_lt (List.length_take_le _ _) (statedLength_lt vOffsets)
    have hFewer : (landings tests hashPrime (stated vOffsets)).length ≤ members.length :=
      ((hHonest.landings_nodup hShort).subperm (hHonest.landings_subset hScans)).length_le
    have hTurns := hRoom members hashEnd hScans
    rw [UInt32.le_iff_toNat_le, hCount, hSize, toNat_one_add, Nat.mod_eq_of_lt hTurns]
    omega

end Sizes

/-! ## The search that writes the offsets -/

/-- The search from a last prime, the offset it stands at, the offsets it writes and the last
prime it ends with. -/
inductive Finds (tests : PrimeTests) : Uint1024 → Nat → List UInt8 → Uint1024 → Prop
  | stop {hashLast : Uint1024} : Finds tests hashLast 14 [] hashLast
  | member {hashLast hashEnd : Uint1024} {nOffset : Nat} {os : List UInt8} :
      nOffset ≤ 12 → tests.PrimeCheck (stepTo hashLast (UInt8.ofNat nOffset)) = true →
      Finds tests (stepTo hashLast (UInt8.ofNat nOffset)) 2 os hashEnd →
      Finds tests hashLast nOffset (UInt8.ofNat nOffset :: os) hashEnd
  | skip {hashLast hashEnd : Uint1024} {nOffset : Nat} {os : List UInt8} :
      nOffset ≤ 12 → tests.PrimeCheck (stepTo hashLast (UInt8.ofNat nOffset)) = false →
      Finds tests hashLast (nOffset + 2) os hashEnd →
      Finds tests hashLast nOffset os hashEnd

/-- An offset the search stands at. -/
def EvenGap (nOffset : Nat) : Prop := 2 ≤ nOffset ∧ nOffset ≤ 14 ∧ nOffset % 2 = 0

section Found

variable {hashLast hashEnd : Uint1024} {nOffset nFuel : Nat} {os : List UInt8}

theorem EvenGap.two : EvenGap 2 := by
  unfold EvenGap
  omega

theorem EvenGap.next (h : EvenGap nOffset) (hLe : nOffset ≤ 12) : EvenGap (nOffset + 2) := by
  unfold EvenGap at h ⊢
  omega

/-- Where the numbers turn over. -/
def nWrap : Nat := 2 ^ 1024

theorem le_nWrap : 2 ^ 8 ≤ nWrap := Nat.pow_le_pow_right Nat.two_pos (show 8 ≤ 1024 by omega)

theorem toNat_lt_nWrap (hash : Uint1024) : hash.toNat < nWrap := hash.isLt

/-- A small addition turns over at most once. -/
theorem toNat_add_small (hash : Uint1024) {n : Nat} (h : n < 2 ^ 8) :
    (hash.toNat + n < nWrap ∧ (hash + BitVec.ofNat 1024 n).toNat = hash.toNat + n) ∨
      (nWrap ≤ hash.toNat + n ∧
        (hash + BitVec.ofNat 1024 n).toNat + nWrap = hash.toNat + n) := by
  have hLt := toNat_lt_nWrap hash
  have hWidth := le_nWrap
  have hSum : (hash + BitVec.ofNat 1024 n).toNat = (hash.toNat + n % nWrap) % nWrap := by
    rw [BitVec.toNat_add, BitVec.toNat_ofNat, nWrap]
  rw [hSum, Nat.mod_eq_of_lt (show n < nWrap by omega)]
  by_cases hTop : hash.toNat + n < nWrap
  · exact .inl ⟨hTop, Nat.mod_eq_of_lt hTop⟩
  · rw [Nat.mod_eq_sub_mod (by omega), Nat.mod_eq_of_lt (by omega)]
    omega

theorem stepTo_ofNat (h : nOffset < 256) :
    stepTo hashLast (UInt8.ofNat nOffset) = hashLast + BitVec.ofNat 1024 nOffset := by
  have hByte : (UInt8.ofNat nOffset).toNat = nOffset := by
    rw [UInt8.toNat_ofNat']
    omega
  rw [stepTo, hByte]

theorem stepTo_two (h : nOffset ≤ 12) :
    stepTo hashLast (UInt8.ofNat nOffset) + 2 =
      stepTo hashLast (UInt8.ofNat (nOffset + 2)) := by
  rw [stepTo_ofNat (by omega), stepTo_ofNat (by omega), BitVec.add_assoc, BitVec.ofNat_add]
  rfl

theorem findOffsets_traced {acc offsets : List UInt8} {nLast : UInt8} (hGap : EvenGap nOffset)
    (h : findOffsets tests nFuel (stepTo hashLast (UInt8.ofNat nOffset)) hashLast
      (UInt8.ofNat nOffset) acc = .ok (hashEnd, nLast, offsets)) :
    ∃ os, Finds tests hashLast nOffset os hashEnd ∧ offsets = acc ++ os ∧ nLast = 14 := by
  induction nFuel generalizing hashLast nOffset acc with
  | zero => cases h
  | succ nFuel ih =>
      rw [findOffsets] at h
      have hByte : (UInt8.ofNat nOffset).toNat = nOffset := by
        unfold EvenGap at hGap
        rw [UInt8.toNat_ofNat']
        omega
      by_cases hMore : UInt8.ofNat nOffset ≤ 12
      · have hLe : nOffset ≤ 12 := by
          rw [UInt8.le_iff_toNat_le, hByte] at hMore
          exact hMore
        rw [if_pos hMore] at h
        by_cases hPasses : tests.PrimeCheck (stepTo hashLast (UInt8.ofNat nOffset)) = true
        · rw [if_pos hPasses] at h
          obtain ⟨os, hFinds, hOffsets, hLast⟩ := ih EvenGap.two h
          refine ⟨UInt8.ofNat nOffset :: os, .member hLe hPasses hFinds, ?_, hLast⟩
          rw [hOffsets, List.append_assoc]
          rfl
        · have hNext : UInt8.ofNat nOffset + 2 = UInt8.ofNat (nOffset + 2) := by
            apply UInt8.toNat_inj.mp
            rw [UInt8.toNat_add, hByte, UInt8.toNat_ofNat']
            rfl
          rw [if_neg hPasses, stepTo_two hLe, hNext] at h
          obtain ⟨os, hFinds, hOffsets, hLast⟩ := ih (hGap.next hLe) h
          exact ⟨os, .skip hLe (Bool.eq_false_of_not_eq_true hPasses) hFinds, hOffsets, hLast⟩
      · have hEnd : nOffset = 14 := by
          rw [UInt8.le_iff_toNat_le, hByte] at hMore
          have hTwelve : (12 : UInt8).toNat = 12 := rfl
          unfold EvenGap at hGap
          omega
        rw [if_neg hMore] at h
        cases h
        rw [hEnd]
        exact ⟨[], .stop, (List.append_nil _).symm, rfl⟩

theorem Finds.last (h : Finds tests hashLast nOffset os hashEnd) :
    lastReached hashLast os = hashEnd := by
  induction h with
  | stop => rfl
  | member _ _ _ ih => exact ih
  | skip _ _ _ ih => exact ih

theorem Finds.landings (h : Finds tests hashLast nOffset os hashEnd) :
    landings tests hashLast os = reached hashLast os := by
  induction h with
  | stop => rfl
  | member _ hPasses _ ih =>
      rw [landings_cons_pass hPasses, ih]
      rfl
  | skip _ _ _ ih => exact ih

theorem Finds.small (h : Finds tests hashLast nOffset os hashEnd) {o : UInt8} (hMem : o ∈ os) :
    ¬ 12 < o := by
  induction h with
  | stop => cases hMem
  | @member hashLast hashEnd nOffset os hLe _ _ ih =>
      cases List.mem_cons.mp hMem with
      | inl hEq =>
          rw [hEq, UInt8.lt_iff_toNat_lt, UInt8.toNat_ofNat']
          have hTwelve : (12 : UInt8).toNat = 12 := rfl
          omega
      | inr hRest => exact ih hRest
  | skip _ _ _ ih => exact ih hMem

/-- The numbers behind a last prime, up to the largest gap, are in order. -/
def Room (hash : Uint1024) : Prop := hash + 2 ≤ hash + 12

theorem Room.gap (h : Room hashLast) (hGap : EvenGap nOffset) (hLe : nOffset ≤ 12) :
    stepTo hashLast (UInt8.ofNat nOffset) ≤ hashLast + 12 := by
  have hTwo := toNat_add_small hashLast (n := 2) (by decide)
  have hTwelve := toNat_add_small hashLast (n := 12) (by decide)
  have hStep := toNat_add_small hashLast (n := nOffset) (by omega)
  have hRoom : (hashLast + BitVec.ofNat 1024 2).toNat ≤
    (hashLast + BitVec.ofNat 1024 12).toNat := h
  have hLt := toNat_lt_nWrap hashLast
  have hWidth := le_nWrap
  unfold EvenGap at hGap
  rw [stepTo_ofNat (by omega), BitVec.le_def]
  change _ ≤ (hashLast + BitVec.ofNat 1024 12).toNat
  omega

theorem not_Room_start (h : ¬ Room hashLast) :
    ¬ stepTo hashLast (UInt8.ofNat 2) ≤ hashLast + 12 := by
  rw [stepTo_ofNat (by omega)]
  exact h

theorem not_Room_end (h : ¬ Room hashLast) : ¬ hashLast + 14 ≤ hashLast + 12 := by
  have hTwo := toNat_add_small hashLast (n := 2) (by decide)
  have hTwelve := toNat_add_small hashLast (n := 12) (by decide)
  have hFourteen := toNat_add_small hashLast (n := 14) (by decide)
  have hRoom : ¬ (hashLast + BitVec.ofNat 1024 2).toNat ≤
    (hashLast + BitVec.ofNat 1024 12).toNat := h
  have hLt := toNat_lt_nWrap hashLast
  have hWidth := le_nWrap
  change ¬ (hashLast + BitVec.ofNat 1024 14).toNat ≤ (hashLast + BitVec.ofNat 1024 12).toNat
  omega

/-- The primes of the cluster that have a next one are clear of the end of the numbers. -/
def AllRoom (hash : Uint1024) (os : List UInt8) : Prop :=
  ∀ x ∈ (hash :: reached hash os).dropLast, Room x

theorem AllRoom_cons {o : UInt8} :
    AllRoom hashLast (o :: os) ↔ Room hashLast ∧ AllRoom (stepTo hashLast o) os := by
  simp only [AllRoom, reached, List.dropLast_cons_cons, List.forall_mem_cons]

theorem AllRoom_nil : AllRoom hashLast [] := by
  intro x hMem
  cases hMem

/-- The search without offsets finds the members with offsets, and goes on at the last. -/
theorem Finds.scans {members : List Uint1024} (h : Finds tests hashLast nOffset os hashEnd)
    (hGap : EvenGap nOffset) (hStart : nOffset = 2 ∨ Room hashLast) (hRoom : AllRoom hashLast os) :
    (∃ e, Scans tests (stepTo hashLast (UInt8.ofNat nOffset)) hashLast members e) ↔
      ∃ more, members = reached hashLast os ++ more ∧
        ∃ e, Scans tests (hashEnd + 14) hashEnd more e := by
  induction h generalizing members with
  | stop =>
      rw [stepTo_ofNat (by omega)]
      simp only [reached, List.nil_append, exists_eq_left']
      rfl
  | @member hashLast hashEnd nOffset os hLe hPasses _ ih =>
      obtain ⟨hHere, hThere⟩ := AllRoom_cons.mp hRoom
      have hMore := hHere.gap hGap hLe
      have hRest := fun members => @ih members EvenGap.two (.inl rfl) hThere
      constructor
      · intro ⟨e, hScans⟩
        cases hScans with
        | stop hOver => exact absurd hMore hOver
        | skip _ hFails _ =>
            rw [hPasses] at hFails
            cases hFails
        | member _ _ hScans =>
            obtain ⟨more, hMembers, hEnd⟩ := (hRest _).mp ⟨e, hScans⟩
            exact ⟨more, by rw [hMembers]; rfl, hEnd⟩
      · intro ⟨more, hMembers, hEnd⟩
        obtain ⟨e, hScans⟩ := (hRest _).mpr ⟨more, rfl, hEnd⟩
        rw [hMembers]
        exact ⟨e, .member hMore hPasses hScans⟩
  | @skip hashLast hashEnd nOffset os hLe hFails hFinds ih =>
      by_cases hHere : Room hashLast
      · have hMore := hHere.gap hGap hLe
        have hRest := @ih members (hGap.next hLe) (.inr hHere) hRoom
        rw [← hRest, ← stepTo_two hLe]
        constructor
        · intro ⟨e, hScans⟩
          cases hScans with
          | stop hOver => exact absurd hMore hOver
          | skip _ _ hScans => exact ⟨e, hScans⟩
          | member _ hPasses _ =>
              rw [hPasses] at hFails
              cases hFails
        · intro ⟨e, hScans⟩
          exact ⟨e, .skip hMore hFails hScans⟩
      · -- the search stops at once, and so does its continuation
        have hTwo := hStart.resolve_right hHere
        cases os with
        | cons o os => exact absurd (AllRoom_cons.mp hRoom).1 hHere
        | nil =>
            have hOver := not_Room_end hHere
            have hStop := not_Room_start hHere
            have hEnd : hashLast = hashEnd := hFinds.last
            rw [hTwo, ← hEnd]
            simp only [Scans.over hStop, Scans.over hOver, reached, List.nil_append]
            constructor
            · intro ⟨e, hNone, _⟩
              exact ⟨[], hNone, _, rfl, rfl⟩
            · intro ⟨more, hMembers, _, hNone, _⟩
              exact ⟨_, hMembers.trans hNone, rfl⟩

/-- Without room the search without offsets misses members. -/
theorem Finds.cut {members : List Uint1024} {e : Uint1024}
    (h : Finds tests hashLast nOffset os hashEnd) (hGap : EvenGap nOffset)
    (hStart : nOffset = 2 ∨ Room hashLast) (hRoom : ¬ AllRoom hashLast os)
    (hScans : Scans tests (stepTo hashLast (UInt8.ofNat nOffset)) hashLast members e) :
    members.length < os.length := by
  induction h generalizing members with
  | stop => exact absurd AllRoom_nil hRoom
  | @member hashLast hashEnd nOffset os hLe hPasses _ ih =>
      rw [List.length_cons]
      cases hScans with
      | stop _ => exact Nat.succ_pos _
      | skip _ hFails _ =>
          rw [hPasses] at hFails
          cases hFails
      | member hMore _ hScans =>
          rw [List.length_cons]
          by_cases hHere : Room hashLast
          · have hThere : ¬ AllRoom (stepTo hashLast (UInt8.ofNat nOffset)) os :=
              fun hThere => hRoom (AllRoom_cons.mpr ⟨hHere, hThere⟩)
            have hLess := ih EvenGap.two (.inl rfl) hThere hScans
            omega
          · rw [hStart.resolve_right hHere] at hMore
            exact absurd hMore (not_Room_start hHere)
  | @skip hashLast hashEnd nOffset os hLe hFails _ ih =>
      have hPos : 0 < os.length := by
        cases os with
        | nil => exact absurd AllRoom_nil hRoom
        | cons o os => exact Nat.succ_pos _
      cases hScans with
      | stop _ => exact hPos
      | member _ hPasses _ =>
          rw [hPasses] at hFails
          cases hFails
      | skip hMore _ hScans =>
          by_cases hHere : Room hashLast
          · rw [stepTo_two hLe] at hScans
            exact ih (hGap.next hLe) (.inr hHere) hRoom hScans
          · rw [hStart.resolve_right hHere] at hMore
            exact absurd hMore (not_Room_start hHere)

end Found

/-! ## The offsets of a prime -/

section Encoded

variable {hashPrime hashEnd : Uint1024} {os : List UInt8} {nFuel : Nat}

theorem GetOffsets_eq_ok {vBefore : List UInt8} (hPrime : tests.PrimeCheck hashPrime = true)
    (h : GetOffsets tests vBefore nFuel hashPrime = .ok vOffsets) :
    ∃ os hashEnd, Finds tests hashPrime 2 os hashEnd ∧
      vOffsets = os ++ FixedWidth.encode (tests.GetFractionalDifficulty (hashEnd + 14)) := by
  unfold GetOffsets at h
  rw [hPrime, if_neg Bool.true_eq_false_eq_False] at h
  obtain ⟨⟨hashEnd, nLast, offsets⟩, hLoop, hOffsets⟩ := bind_eq_ok.mp h
  have hStart : hashPrime + 2 = stepTo hashPrime (UInt8.ofNat 2) := by
    rw [stepTo_ofNat (by omega)]
    rfl
  rw [hStart] at hLoop
  obtain ⟨os, hFinds, hWritten, hLast⟩ := findOffsets_traced EvenGap.two hLoop
  rw [hWritten, hLast, List.nil_append] at hOffsets
  exact ⟨os, hashEnd, hFinds, (pure_eq_ok.mp hOffsets).symm⟩

/-- Three bytes hold a fraction below their range. -/
theorem leNat_three {nFraction : UInt32} (h : nFraction < 2 ^ 24) :
    UInt32.ofNat (leNat ((FixedWidth.encode nFraction).take 3)) = nFraction := by
  have hTake : (FixedWidth.encode nFraction).take 3 = leBytes 3 nFraction.toNat := rfl
  have hBound : nFraction.toNat < 256 ^ 3 := h
  rw [hTake, leNat_leBytes hBound, UInt32.ofNat_toNat]

theorem encode_four (nFraction : UInt32) : (FixedWidth.encode nFraction).length = 4 := rfl

theorem statedLength_append {nFraction : UInt32} (h : os.length + 4 ≤ 2 ^ 32) :
    statedLength (os ++ FixedWidth.encode nFraction) = os.length := by
  rw [statedLength, List.length_append, encode_four, UInt32.toNat_sub, UInt32.toNat_ofNat']
  have hFour : (4 : UInt32).toNat = 4 := rfl
  omega

/-- The offsets that were written are checked to their fraction. -/
theorem Finds.checked (h : Finds tests hashPrime 2 os hashEnd)
    (hPrime : tests.PrimeCheck hashPrime = true) (hLength : os.length + 4 ≤ 2 ^ 32)
    (hFraction : tests.GetFractionalDifficulty (hashEnd + 14) < 2 ^ 24) :
    GetPrimeDifficulty tests
        (os ++ FixedWidth.encode (tests.GetFractionalDifficulty (hashEnd + 14))) nFuel
        hashPrime true =
      .ok (some { nClusterSize := 1 + UInt32.ofNat os.length
                  nFraction := tests.GetFractionalDifficulty (hashEnd + 14) }) := by
  have hStatedLength := @statedLength_append os
    (tests.GetFractionalDifficulty (hashEnd + 14)) hLength
  have hNe : os ++ FixedWidth.encode (tests.GetFractionalDifficulty (hashEnd + 14)) ≠ [] := by
    intro hNil
    have hZero := congrArg List.length hNil
    rw [List.length_append, encode_four, List.length_nil] at hZero
    omega
  have hSmall : ¬ LargeOffset (os ++ FixedWidth.encode
      (tests.GetFractionalDifficulty (hashEnd + 14))) 0 os.length := by
    intro ⟨i, o, _, hLt, hAt, hLarge⟩
    rw [List.getElem?_append_left (by omega)] at hAt
    exact h.small (List.mem_of_getElem? hAt) hLarge
  have hMod : (os ++ FixedWidth.encode
      (tests.GetFractionalDifficulty (hashEnd + 14))).length % 2 ^ 32 ∉ [1, 2, 3] := by
    rw [List.length_append, encode_four]
    simp only [List.mem_cons, List.not_mem_nil, or_false]
    omega
  rw [← hStatedLength] at hSmall
  rw [GetPrimeDifficulty_stated hNe hPrime hSmall hMod]
  rw [stated, hStatedLength, List.take_left, List.drop_left, h.last, leNat_three hFraction,
    h.landings, reached_length]
  simp only [ne_eq, not_true_eq_false, if_false]

/-- The plain search counts the primes that the offsets lead to, and no others. -/
def ScanFollows (tests : PrimeTests) (hashPrime : Uint1024) (os : List UInt8) : Prop :=
  AllRoom hashPrime os ∧ ∃ more e,
    Scans tests (lastReached hashPrime os + 14) (lastReached hashPrime os) more e ∧
      2 ^ 32 ∣ more.length

/-- Both paths return a difficulty, of the same cluster size. -/
def SameSize (tests : PrimeTests) (hashPrime : Uint1024) (vOffsets : List UInt8) : Prop :=
  ∃ nFuel nStated nPlain,
    GetPrimeDifficulty tests vOffsets nFuel hashPrime true = .ok (some nStated) ∧
      GetPrimeDifficulty tests [] nFuel hashPrime true = .ok (some nPlain) ∧
      nStated.nClusterSize = nPlain.nClusterSize

theorem size_eq_iff {n n' : Nat} :
    1 + UInt32.ofNat n = 1 + UInt32.ofNat n' ↔ n % 2 ^ 32 = n' % 2 ^ 32 := by
  rw [← UInt32.toNat_inj, toNat_one_add, toNat_one_add]
  omega

theorem Finds.sameSize_iff (h : Finds tests hashPrime 2 os hashEnd)
    (hPrime : tests.PrimeCheck hashPrime = true) (hLength : os.length + 4 ≤ 2 ^ 32)
    (hFraction : tests.GetFractionalDifficulty (hashEnd + 14) < 2 ^ 24) :
    SameSize tests hashPrime
        (os ++ FixedWidth.encode (tests.GetFractionalDifficulty (hashEnd + 14))) ↔
      ScanFollows tests hashPrime os := by
  have hStart : stepTo hashPrime (UInt8.ofNat 2) = hashPrime + 2 := by
    rw [stepTo_ofNat (by omega)]
    rfl
  constructor
  · intro ⟨nFuel, nStated, nPlain, hStated, hPlain, hSame⟩
    rw [h.checked hPrime hLength hFraction] at hStated
    cases hStated
    obtain ⟨members, e, hScans, hSize⟩ := plain_eq_some hPlain
    rw [hSize, size_eq_iff] at hSame
    rw [← hStart] at hScans
    have hRoom : AllRoom hashPrime os := by
      by_contra hCut
      have hLess := h.cut EvenGap.two (.inl rfl) hCut hScans
      omega
    obtain ⟨more, hMembers, e', hMore⟩ :=
      (h.scans EvenGap.two (.inl rfl) hRoom).mp ⟨e, hScans⟩
    rw [hMembers, List.length_append, reached_length] at hSame
    rw [← h.last] at hMore
    exact ⟨hRoom, more, e', hMore, by omega⟩
  · intro ⟨hRoom, more, e, hMore, hTurns⟩
    rw [h.last] at hMore
    obtain ⟨e', hScans⟩ :=
      (h.scans EvenGap.two (.inl rfl) hRoom).mpr ⟨more, rfl, e, hMore⟩
    rw [hStart] at hScans
    obtain ⟨nFuel, hPlain⟩ := plain_of_scans hPrime hScans
    refine ⟨nFuel, _, _, h.checked hPrime hLength hFraction, hPlain, ?_⟩
    simp only
    rw [size_eq_iff, List.length_append, reached_length]
    omega

end Encoded

/-- The part of a number that a positive remainder leaves, in three bytes. -/
theorem fraction_lt {w : Nat} {a b : BitVec w} (hRoom : a.toNat * 2 ^ 24 < 2 ^ w)
    (hPos : 0 < b.toNat) (hLess : 0 < a.toNat → b.toNat < a.toNat) :
    (((a - b) <<< 24) / a).toNat < 2 ^ 24 := by
  rw [BitVec.toNat_udiv]
  cases Nat.eq_zero_or_pos a.toNat with
  | inl hZero =>
      rw [hZero, Nat.div_zero]
      exact Nat.two_pow_pos 24
  | inr hSome =>
      have hLt := hLess hSome
      have hSub : (a - b).toNat = a.toNat - b.toNat :=
        BitVec.toNat_sub_of_le (BitVec.le_def.mpr (Nat.le_of_lt hLt))
      have hFits : (a.toNat - b.toNat) * 2 ^ 24 < 2 ^ w :=
        Nat.lt_of_le_of_lt (Nat.mul_le_mul_right _ (Nat.sub_le _ _)) hRoom
      rw [BitVec.toNat_shiftLeft, Nat.shiftLeft_eq, hSub, Nat.mod_eq_of_lt hFits]
      apply Nat.div_lt_of_lt_mul
      exact Nat.mul_lt_mul_of_pos_right (by omega) (Nat.two_pow_pos 24)

theorem remainder_lt {w n : Nat} {a : BitVec w} (h : 0 < a.toNat) :
    (BitVec.ofNat w (n % a.toNat)).toNat < a.toNat := by
  have hMod := Nat.mod_lt n h
  rw [BitVec.toNat_ofNat, Nat.mod_eq_of_lt (Nat.lt_trans hMod a.isLt)]
  exact hMod

theorem widened_room {w w' : Nat} {a : BitVec w} (h : w + 24 ≤ w') :
    a.toNat * 2 ^ 24 < 2 ^ w' := by
  have hLe : 2 ^ (w + 24) ≤ 2 ^ w' := Nat.pow_le_pow_right Nat.two_pos h
  have hLt : a.toNat * 2 ^ 24 < 2 ^ w * 2 ^ 24 :=
    Nat.mul_lt_mul_of_pos_right a.isLt (Nat.two_pow_pos 24)
  rw [← Nat.pow_add] at hLt
  exact Nat.lt_of_lt_of_le hLt hLe

/-- A remainder other than zero leaves a fraction of three bytes. -/
theorem GetFractionalDifficulty_lt {hashComposite : Uint1024}
    (h : FermatTest hashComposite ≠ 0) : GetFractionalDifficulty hashComposite < 2 ^ 24 := by
  have hPos : 0 < (FermatTest hashComposite).toNat := by
    apply Nat.pos_of_ne_zero
    intro hZero
    exact h (BitVec.eq_of_toNat_eq (hZero.trans (BitVec.toNat_zero).symm))
  have hWiden : ∀ x : Uint1024, (x.setWidth 1056).toNat = x.toNat :=
    fun x => BitVec.toNat_setWidth_of_le (by omega)
  have hRoom : (hashComposite.setWidth 1056).toNat * 2 ^ 24 < 2 ^ 1056 := by
    rw [hWiden]
    exact widened_room (by omega)
  have hFraction := fraction_lt (b := (FermatTest hashComposite).setWidth 1056) hRoom
    (by rw [hWiden]; exact hPos) (by rw [hWiden, hWiden]; exact remainder_lt)
  rw [UInt32.lt_iff_toNat_lt, GetFractionalDifficulty, UInt32.toNat_ofNat',
    Nat.mod_eq_of_lt (Nat.lt_trans hFraction (by decide))]
  exact hFraction

/-! ## Stated and plain clusters -/

/-- The difficulty of stated offsets has no larger cluster than the plain one if they count numbers
of the cluster only, none of them twice, and the offsets that a prime is given have the plain size,
with their fraction accepted, exactly if the plain search follows them. -/
theorem offsets_prove_cluster_iff (tests : PrimeTests) (hashPrime : Uint1024)
    (vOffsets : List UInt8) :
    (∀ nFuel nFuel' nStated nPlain,
      GetPrimeDifficulty tests vOffsets nFuel hashPrime true = .ok (some nStated) →
      GetPrimeDifficulty tests [] nFuel' hashPrime true = .ok (some nPlain) →
      CountsCluster tests hashPrime vOffsets → nStated.nClusterSize ≤ nPlain.nClusterSize) ∧
    (∀ vBefore nFuel os, tests.PrimeCheck hashPrime = true →
      GetOffsets tests vBefore nFuel hashPrime = .ok vOffsets →
      os = vOffsets.take (vOffsets.length - 4) →
      tests.GetFractionalDifficulty (lastReached hashPrime os + 14) < 2 ^ 24 →
      vOffsets.length ≤ 2 ^ 32 →
      (SameSize tests hashPrime vOffsets ↔ ScanFollows tests hashPrime os)) := by
  constructor
  · intro nFuel nFuel' nStated nPlain hStated hPlain hCounts
    exact size_le_of_counts hStated hPlain hCounts
  · intro vBefore nFuel os hPrime hOffsets hStatedOffsets hFraction hLength
    obtain ⟨written, hashEnd, hFinds, hWritten⟩ := GetOffsets_eq_ok hPrime hOffsets
    have hFour : vOffsets.length = written.length + 4 := by
      rw [hWritten, List.length_append, encode_four]
    have hSame : os = written := by
      rw [hStatedOffsets, hFour, Nat.add_sub_cancel, hWritten, List.take_left]
    rw [hSame, hFinds.last] at hFraction
    rw [hSame, hWritten]
    exact hFinds.sameSize_iff hPrime (by omega) hFraction

theorem countsCluster_101 : CountsCluster primeTests 101 [2, 4, 2, 4, 247, 251, 253, 0] := by
  have hStated : stated [2, 4, 2, 4, 247, 251, 253, 0] = [2, 4, 2, 4] := by decide +kernel
  have hFirst : NextInCluster primeTests 101 (stepTo 101 2) :=
    ⟨0, by decide +kernel, by decide +kernel, by decide +kernel, by decide +kernel⟩
  have hSecond : NextInCluster primeTests (stepTo 101 2) (stepTo (stepTo 101 2) 4) :=
    ⟨1, by decide +kernel, by decide +kernel, by decide +kernel, by decide +kernel⟩
  have hThird : NextInCluster primeTests (stepTo (stepTo 101 2) 4)
      (stepTo (stepTo (stepTo 101 2) 4) 2) :=
    ⟨0, by decide +kernel, by decide +kernel, by decide +kernel, by decide +kernel⟩
  have hFourth : NextInCluster primeTests (stepTo (stepTo (stepTo 101 2) 4) 2)
      (stepTo (stepTo (stepTo (stepTo 101 2) 4) 2) 4) :=
    ⟨1, by decide +kernel, by decide +kernel, by decide +kernel, by decide +kernel⟩
  refine .inr ⟨?_, ?_⟩
  · rw [hStated]
    refine ⟨fun _ => ⟨by decide, .single hFirst⟩, fun _ => ⟨by decide, ?_⟩,
      fun _ => ⟨by decide, ?_⟩, fun _ => ⟨by decide, ?_⟩, trivial⟩
    · exact .tail (.single hFirst) hSecond
    · exact .tail (.tail (.single hFirst) hSecond) hThird
    · exact .tail (.tail (.tail (.single hFirst) hSecond) hThird) hFourth
  · intro members hashEnd hScans
    have hScan : (scanCluster primeTests 50 (101 + 2) 101 1).isOk = true := by decide +kernel
    cases hRun : scanCluster primeTests 50 (101 + 2) 101 1 with
    | error e =>
        rw [hRun] at hScan
        cases hScan
    | ok r =>
        obtain ⟨hashEnd', nSize⟩ := r
        obtain ⟨members', hScans', hLength, -⟩ := scanCluster_traced hRun
        rw [(hScans.unique hScans').1]
        omega

/-- The offsets of 101 count its cluster of five. -/
theorem offsets_prove_cluster_101 :
    (1 + UInt32.ofNat 4 ≤ 1 + UInt32.ofNat 4) ∧
      (SameSize primeTests 101 [2, 4, 2, 4, 247, 251, 253, 0] ↔
        ScanFollows primeTests 101 [2, 4, 2, 4]) :=
  ⟨(offsets_prove_cluster_iff primeTests 101 [2, 4, 2, 4, 247, 251, 253, 0]).1 0 50
      { nClusterSize := 1 + UInt32.ofNat 4, nFraction := 16645111 }
      { nClusterSize := 1 + UInt32.ofNat 4, nFraction := 16645111 }
      (toOption_eq_some.mp (by decide +kernel)) (toOption_eq_some.mp (by decide +kernel))
      countsCluster_101,
    (offsets_prove_cluster_iff primeTests 101 [2, 4, 2, 4, 247, 251, 253, 0]).2 [] 50 [2, 4, 2, 4]
      (by decide +kernel) (toOption_eq_some.mp (by decide +kernel)) rfl (by decide +kernel)
      (by decide)⟩

/-- An offset of zero counts a prime again: 113 has no other prime within twelve. -/
theorem offsets_count_113_twice :
    ∃ nStated nPlain,
      GetPrimeDifficulty primeTests [0, 247, 251, 253, 0] 0 113 true = .ok (some nStated) ∧
      GetPrimeDifficulty primeTests [] 50 113 true = .ok (some nPlain) ∧
      ¬ nStated.nClusterSize ≤ nPlain.nClusterSize :=
  ⟨{ nClusterSize := 2, nFraction := 16645111 }, { nClusterSize := 1, nFraction := 16645111 },
    toOption_eq_some.mp (by decide +kernel), toOption_eq_some.mp (by decide +kernel), by decide⟩

end Nexus.Safety
