import Mathlib.Algebra.BigOperators.Group.List.Basic
import Mathlib.Algebra.BigOperators.Group.Finset.Piecewise
import Mathlib.Algebra.Order.Ring.Int
import Mathlib.Tactic.Ring
import Nexus.Lib.Run
import Nexus.LLP.Ddos

/-!
# Penalties of a peer

The ring of a `DDOS_Score` is a list of penalties.  A penalty is in the second in which it was given, in
one of the rounds between two starts of the timer, and it counts until a later round has a penalty at
its second or behind.  The least time of a ban of a `DDOS_Filter` grows with each one before it.

## Main results

* `score_counts`: over every run of penalties and flushes the score is the penalties that count, by the
  seconds of the timespan.
* `bans_apart`: the bans of a filter are counted, and the least time of one grows with the number of
  those before it.
-/

namespace Nexus.Safety

open Nexus.Lib
open Nexus.LLP

/-- A penalty, with the round of the timer and the second of the round. -/
structure Penalty where
  round : Nat
  second : Nat
  nScore : UInt32
  deriving DecidableEq, Repr

/-- The penalties that count, the newest first. -/
def inForce : List Penalty → List Penalty
  | [] => []
  | p :: ps => p :: (inForce ps).filter fun q => q.round = p.round ∨ p.second < q.second

def inSecond (i : Nat) (ps : List Penalty) : List Penalty := ps.filter fun p => p.second = i

def sumOf (ps : List Penalty) : Nat := (ps.map fun p => p.nScore.toNat).sum

/-- The penalties since the last flush, the newest first, and when the round began. -/
structure PenaltyLog where
  penalties : List Penalty
  round : Nat
  start : Int
  deriving DecidableEq, Repr

/-- What is done with a score. -/
inductive PenaltyCall
  | add (now nowReset : Int) (nScore : UInt32)
  | flush (now : Int)
  deriving DecidableEq, Repr

def PenaltyCall.run (score : DDOS_Score) : PenaltyCall → DDOS_Score
  | .add now nowReset nScore => score.add now nowReset nScore
  | .flush now => score.Flush now

/-- A new round begins. -/
def PenaltyLog.restart (log : PenaltyLog) (now : Int) : PenaltyLog :=
  { log with round := log.round + 1, start := now }

def PenaltyLog.enter (log : PenaltyLog) (nTime : Nat) (nScore : UInt32) : PenaltyLog :=
  { log with penalties := ⟨log.round, nTime, nScore⟩ :: log.penalties }

/-- What is done with a score of `nTimespan` seconds, in its log. -/
def PenaltyCall.log (nTimespan : Nat) (log : PenaltyLog) : PenaltyCall → PenaltyLog
  | .add now nowReset nScore =>
      let nTime := (Timer.Elapsed ⟨log.start⟩ now).toNat
      if nTimespan ≤ nTime then (log.restart nowReset).enter (nTime % nTimespan) nScore
      else log.enter nTime nScore
  | .flush now => { log.restart now with penalties := [] }

/-! ## Totals -/

variable {i nTimespan : Nat} {p : Penalty} {ps : List Penalty}

theorem inSecond_cons : inSecond i (p :: ps) = if p.second = i then p :: inSecond i ps else inSecond i ps := by
  simp [inSecond, List.filter_cons]

theorem sumOf_cons : sumOf (p :: ps) = p.nScore.toNat + sumOf ps := by
  rw [sumOf, List.map_cons, List.sum_cons, sumOf]

theorem sumOf_inSecond_cons :
    sumOf (inSecond i (p :: ps)) = (if p.second = i then p.nScore.toNat else 0) + sumOf (inSecond i ps) := by
  rw [inSecond_cons]
  split
  · exact sumOf_cons
  · exact (Nat.zero_add _).symm

/-- The totals of the seconds are the total. -/
theorem sum_inSecond (hSecond : ∀ p ∈ ps, p.second < nTimespan) :
    ((List.range nTimespan).map fun i => sumOf (inSecond i ps)).sum = sumOf ps := by
  induction ps with
  | nil => simp [inSecond, sumOf]
  | cons p ps ih =>
      have hRest := ih fun q hMem => hSecond q (List.mem_cons_of_mem _ hMem)
      have hOne : ((List.range nTimespan).map fun i => if p.second = i then p.nScore.toNat else 0).sum =
          p.nScore.toNat := by
        have hMem : p.second ∈ Finset.range nTimespan :=
          Finset.mem_range.mpr (hSecond p List.mem_cons_self)
        exact (Finset.sum_ite_eq (Finset.range nTimespan) p.second fun _ => p.nScore.toNat).trans
          (if_pos hMem)
      simp only [sumOf_inSecond_cons]
      rw [List.sum_map_add, hOne, hRest, sumOf_cons]

theorem foldl_score {SCORE : List (Bool × UInt32)} (n : UInt32) :
    (SCORE.foldl (fun n slot => n + slot.2) n).toNat =
      (n.toNat + (SCORE.map fun slot => slot.2.toNat).sum) % 2 ^ 32 := by
  induction SCORE generalizing n with
  | nil => simp [Nat.mod_eq_of_lt n.toNat_lt]
  | cons slot SCORE ih =>
      rw [List.foldl_cons, ih, UInt32.toNat_add, Nat.mod_add_mod, List.map_cons, List.sum_cons, Nat.add_assoc]

/-! ## The ring -/

variable {score : DDOS_Score} {log : PenaltyLog} {SCORE : List (Bool × UInt32)} {slot : Bool × UInt32}

/-- A second that is iterated. -/
def refreshed (slot : Bool × UInt32) : Bool × UInt32 := if slot.1 then slot else (true, 0)

theorem iterate_getElem? (j : Nat) :
    (DDOS_Score.iterate SCORE j)[i]? = SCORE[i]?.map fun slot => if i = j then refreshed slot else slot := by
  rw [DDOS_Score.iterate, List.getElem?_modify]
  by_cases hSame : j = i
  · subst hSame
    simp only [if_true]
    rfl
  · simp [hSame, Ne.symm hSame]

theorem refreshed_fst : (refreshed slot).1 = true := by
  unfold refreshed
  split <;> simp_all

theorem refreshed_of_flagged (h : slot.1 = true) : refreshed slot = slot := if_pos h

theorem iterate_range (first count : Nat) :
    ((List.range' first count).foldl DDOS_Score.iterate SCORE)[i]? =
      SCORE[i]?.map fun slot => if first ≤ i ∧ i < first + count then refreshed slot else slot := by
  induction count generalizing first SCORE with
  | zero =>
      have hNone : ¬ (first ≤ i ∧ i < first) := by omega
      simp [hNone]
  | succ count ih =>
      rw [List.range'_succ, List.foldl_cons, ih, iterate_getElem?, Option.map_map]
      congr 1
      funext slot
      simp only [Function.comp_apply]
      by_cases hFirst : i = first
      · have hNot : ¬ (first + 1 ≤ i ∧ i < first + 1 + count) := by omega
        have hIn : first ≤ i ∧ i < first + (count + 1) := by omega
        rw [if_pos hFirst, if_neg hNot, if_pos hIn]
      · have hSame : (first + 1 ≤ i ∧ i < first + 1 + count) ↔ (first ≤ i ∧ i < first + (count + 1)) := by
          omega
        rw [if_neg hFirst]
        simp only [hSame]

theorem foldl_iterate_length (seconds : List Nat) :
    (seconds.foldl DDOS_Score.iterate SCORE).length = SCORE.length := by
  induction seconds generalizing SCORE with
  | nil => rfl
  | cons i seconds ih => rw [List.foldl_cons, ih, DDOS_Score.iterate, List.length_modify]

/-- The slot of a second, after a penalty in the second `nTime`. -/
def penalised (nTime : Nat) (nScore : UInt32) (i : Nat) (slot : Bool × UInt32) : Bool × UInt32 :=
  if i = nTime then (true, (refreshed slot).2 + nScore) else if i < nTime then refreshed slot else slot

theorem addAt_getElem? {nTime : Nat} {nScore : UInt32}
    (hIterated : ∀ i slot, score.SCORE[i]? = some slot → i < score.nIterator → slot.1 = true) :
    (score.addAt nTime nScore).SCORE[i]? = score.SCORE[i]?.map (penalised nTime nScore i) := by
  simp only [DDOS_Score.addAt, List.getElem?_modify, iterate_range]
  cases hSlot : score.SCORE[i]? with
  | none => simp
  | some slot =>
      -- a second behind the iterator is iterated already
      have hFresh : (if score.nIterator ≤ i ∧ i < score.nIterator + (nTime + 1 - score.nIterator) then
          refreshed slot else slot) = if i ≤ nTime then refreshed slot else slot := by
        by_cases hBehind : i < score.nIterator
        · rw [refreshed_of_flagged (hIterated i slot hSlot hBehind), ite_self, ite_self]
        · refine if_congr ?_ rfl rfl
          omega
      simp only [Option.map_eq_map, Option.map_some, hFresh, penalised]
      by_cases hSame : i = nTime
      · rw [if_pos hSame.le, if_pos hSame.symm, if_pos hSame, refreshed_fst]
      · have hLess : i ≤ nTime ↔ i < nTime := by omega
        rw [if_neg (Ne.symm hSame), if_neg hSame]
        simp only [hLess]

theorem addAt_length {nTime : Nat} {nScore : UInt32} :
    (score.addAt nTime nScore).SCORE.length = score.SCORE.length := by
  simp only [DDOS_Score.addAt, List.length_modify, foldl_iterate_length]

theorem penalised_fst {nTime : Nat} {nScore : UInt32} (hLe : i ≤ nTime) :
    (penalised nTime nScore i slot).1 = true := by
  unfold penalised
  split
  · rfl
  · rw [if_pos (by omega), refreshed_fst]

theorem penalised_of_lt {nTime : Nat} {nScore : UInt32} (hLt : nTime < i) :
    penalised nTime nScore i slot = slot := by
  rw [penalised, if_neg hLt.ne', if_neg hLt.not_gt]

/-- The ring has the penalties of the log that count: in each second their total, and those of the
round just in the seconds that are iterated. -/
structure RingOf (nTimespan : Nat) (score : DDOS_Score) (log : PenaltyLog) : Prop where
  start : score.TIMER = ⟨log.start⟩
  length : score.SCORE.length = nTimespan
  second_lt : ∀ p ∈ inForce log.penalties, p.second < nTimespan
  round_le : ∀ p ∈ inForce log.penalties, p.round ≤ log.round
  iterated : ∀ i slot, score.SCORE[i]? = some slot → i < score.nIterator → slot.1 = true
  round_iff : ∀ p ∈ inForce log.penalties, ∀ slot, score.SCORE[p.second]? = some slot →
    (slot.1 = true ↔ p.round = log.round)
  value : ∀ i slot, score.SCORE[i]? = some slot →
    slot.2.toNat = sumOf (inSecond i (inForce log.penalties)) % 2 ^ 32

theorem ringOf_new {n : Int32} {now : Int} {round : Nat} :
    RingOf n.toNatClampNeg (DDOS_Score.new n now) ⟨[], round, now⟩ := by
  have hSlot {i : Nat} {slot : Bool × UInt32} (h : (DDOS_Score.new n now).SCORE[i]? = some slot) :
      slot = (true, 0) := List.eq_of_mem_replicate (List.mem_of_getElem? h)
  constructor
  · rfl
  · exact List.length_replicate
  · exact fun p hMem => absurd hMem List.not_mem_nil
  · exact fun p hMem => absurd hMem List.not_mem_nil
  · intro i slot h _
    rw [hSlot h]
  · exact fun p hMem => absurd hMem List.not_mem_nil
  · intro i slot h
    rw [hSlot h]
    rfl

/-- In a new round no second is iterated. -/
theorem RingOf.reset (h : RingOf nTimespan score log) (now : Int) :
    RingOf nTimespan (score.Reset now) (log.restart now) := by
  have hSlot {i : Nat} {slot : Bool × UInt32} (hGet : (score.Reset now).SCORE[i]? = some slot) :
      ∃ before, score.SCORE[i]? = some before ∧ (false, before.2) = slot := by
    rw [DDOS_Score.Reset, List.getElem?_map] at hGet
    exact Option.map_eq_some_iff.mp hGet
  constructor
  · rfl
  · rw [DDOS_Score.Reset, List.length_map]
    exact h.length
  · exact h.second_lt
  · exact fun p hMem => (h.round_le p hMem).trans (Nat.le_succ _)
  · exact fun i slot _ hBehind => absurd hBehind (Nat.not_lt_zero i)
  · intro p hMem slot hGet
    obtain ⟨before, -, rfl⟩ := hSlot hGet
    have hRound : p.round ≠ log.round + 1 := ((h.round_le p hMem).trans_lt (Nat.lt_succ_self _)).ne
    exact iff_of_false Bool.false_ne_true hRound
  · intro i slot hGet
    obtain ⟨before, hBefore, rfl⟩ := hSlot hGet
    exact h.value i before hBefore

/-- What counts in a second behind a penalty is of its round. -/
theorem inSecond_inForce_of_le {nTime : Nat} {nScore : UInt32} {round : Nat} (hLe : i ≤ nTime) :
    inSecond i (inForce (⟨round, nTime, nScore⟩ :: ps)) =
      (if nTime = i then [⟨round, nTime, nScore⟩] else []) ++
        (inSecond i (inForce ps)).filter fun q => q.round = round := by
  rw [inForce, inSecond_cons]
  have hRest : inSecond i ((inForce ps).filter fun q => q.round = round ∨ nTime < q.second) =
      (inSecond i (inForce ps)).filter fun q => q.round = round := by
    rw [inSecond, inSecond, List.filter_filter, List.filter_filter]
    refine List.filter_congr fun q _ => ?_
    rw [Bool.eq_iff_iff]
    simp only [Bool.and_eq_true, decide_eq_true_eq]
    omega
  rw [hRest]
  split <;> rfl

/-- What is ahead of a penalty counts as before. -/
theorem inSecond_inForce_of_lt {nTime : Nat} {nScore : UInt32} {round : Nat} (hLt : nTime < i) :
    inSecond i (inForce (⟨round, nTime, nScore⟩ :: ps)) = inSecond i (inForce ps) := by
  rw [inForce, inSecond_cons, if_neg (Nat.ne_of_lt hLt), inSecond, inSecond, List.filter_filter]
  refine List.filter_congr fun q _ => ?_
  rw [Bool.eq_iff_iff]
  simp only [Bool.and_eq_true, decide_eq_true_eq]
  omega

/-- The penalties in a second are of this round where it is iterated, and otherwise none is. -/
theorem RingOf.filter_round (h : RingOf nTimespan score log) (hGet : score.SCORE[i]? = some slot) :
    (inSecond i (inForce log.penalties)).filter (fun q => q.round = log.round) =
      if slot.1 then inSecond i (inForce log.penalties) else [] := by
  have hRound {q : Penalty} (hMem : q ∈ inSecond i (inForce log.penalties)) :
      slot.1 = true ↔ q.round = log.round := by
    obtain ⟨hCounted, hSecond⟩ := List.mem_filter.mp hMem
    rw [← of_decide_eq_true hSecond] at hGet
    exact h.round_iff q hCounted slot hGet
  split
  · rename_i hFlag
    exact List.filter_eq_self.mpr fun q hMem => decide_eq_true ((hRound hMem).mp hFlag)
  · rename_i hFlag
    refine List.filter_eq_nil_iff.mpr fun q hMem hSame => ?_
    exact hFlag ((hRound hMem).mpr (of_decide_eq_true hSame))

/-- What is in a second, once it is iterated. -/
theorem RingOf.value_refreshed (h : RingOf nTimespan score log) (hGet : score.SCORE[i]? = some slot) :
    (refreshed slot).2.toNat =
      sumOf ((inSecond i (inForce log.penalties)).filter fun q => q.round = log.round) % 2 ^ 32 := by
  rw [h.filter_round hGet, refreshed]
  split
  · exact h.value i slot hGet
  · rfl

theorem RingOf.addAt {nTime : Nat} (h : RingOf nTimespan score log) (hTime : nTime < nTimespan)
    (nScore : UInt32) :
    RingOf nTimespan (score.addAt nTime nScore) (log.enter nTime nScore) := by
  have hSlot {i : Nat} {slot : Bool × UInt32} (hGet : (score.addAt nTime nScore).SCORE[i]? = some slot) :
      ∃ before, score.SCORE[i]? = some before ∧ penalised nTime nScore i before = slot := by
    rw [addAt_getElem? h.iterated] at hGet
    exact Option.map_eq_some_iff.mp hGet
  have hMem {p : Penalty} (hCounted : p ∈ inForce (log.enter nTime nScore).penalties) :
      p = ⟨log.round, nTime, nScore⟩ ∨
        p ∈ inForce log.penalties ∧ (p.round = log.round ∨ nTime < p.second) := by
    simpa [PenaltyLog.enter, inForce] using hCounted
  constructor
  · exact h.start
  · exact addAt_length.trans h.length
  · intro p hCounted
    cases hMem hCounted with
    | inl hNew => exact hNew ▸ hTime
    | inr hOld => exact h.second_lt p hOld.1
  · intro p hCounted
    cases hMem hCounted with
    | inl hNew => exact hNew ▸ le_refl log.round
    | inr hOld => exact h.round_le p hOld.1
  · intro i slot hGet hBehind
    obtain ⟨before, hBefore, rfl⟩ := hSlot hGet
    exact penalised_fst (Nat.le_of_lt hBehind)
  · intro p hCounted slot hGet
    obtain ⟨before, hBefore, rfl⟩ := hSlot hGet
    cases hMem hCounted with
    | inl hNew => exact hNew ▸ iff_of_true (penalised_fst (le_refl nTime)) rfl
    | inr hOld =>
        by_cases hAhead : nTime < p.second
        · rw [penalised_of_lt hAhead]
          exact h.round_iff p hOld.1 before hBefore
        · exact iff_of_true (penalised_fst (Nat.le_of_not_lt hAhead)) (hOld.2.resolve_right hAhead)
  · intro i slot hGet
    obtain ⟨before, hBefore, rfl⟩ := hSlot hGet
    show _ = sumOf (inSecond i (inForce (⟨log.round, nTime, nScore⟩ :: log.penalties))) % 2 ^ 32
    by_cases hAhead : nTime < i
    · rw [penalised_of_lt hAhead, inSecond_inForce_of_lt hAhead]
      exact h.value i before hBefore
    · have hFresh := h.value_refreshed hBefore
      rw [inSecond_inForce_of_le (Nat.le_of_not_lt hAhead), penalised]
      by_cases hSame : i = nTime
      · rw [if_pos hSame, if_pos hSame.symm, List.singleton_append, sumOf_cons]
        show ((refreshed before).2 + nScore).toNat = _
        rw [UInt32.toNat_add, hFresh, Nat.mod_add_mod, Nat.add_comm]
      · rw [if_neg hSame, if_pos (by omega), if_neg (Ne.symm hSame), List.nil_append]
        exact hFresh

/-! ## Runs -/

/-- The log of a call is of the ring after it. -/
theorem RingOf.call (h : RingOf nTimespan score log) (hPos : 0 < nTimespan) (call : PenaltyCall) :
    RingOf nTimespan (call.run score) (call.log nTimespan log) := by
  cases call with
  | add now nowReset nScore =>
      simp only [PenaltyCall.run, PenaltyCall.log, DDOS_Score.add, h.length, h.start]
      split
      · exact (h.reset nowReset).addAt (Nat.mod_lt _ hPos) nScore
      · exact h.addAt (Nat.lt_of_not_le ‹_›) nScore
  | flush now =>
      have hReset := h.reset now
      have hSlot {i : Nat} {slot : Bool × UInt32} (hGet : (score.Flush now).SCORE[i]? = some slot) :
          slot.2 = 0 := by
        simp only [DDOS_Score.Flush, List.getElem?_map] at hGet
        obtain ⟨before, -, rfl⟩ := Option.map_eq_some_iff.mp hGet
        rfl
      constructor
      · rfl
      · exact (List.length_map _).trans hReset.length
      · exact fun p hMem => absurd hMem List.not_mem_nil
      · exact fun p hMem => absurd hMem List.not_mem_nil
      · exact fun i slot _ hBehind => absurd hBehind (Nat.not_lt_zero i)
      · exact fun p hMem => absurd hMem List.not_mem_nil
      · intro i slot hGet
        rw [hSlot hGet]
        rfl

/-- The score of a ring is what counts in its log, by the seconds. -/
theorem RingOf.score_eq (h : RingOf nTimespan score log) :
    score.Score =
      (UInt32.ofNat (sumOf (inForce log.penalties) % 2 ^ 32 / nTimespan)).toInt32 := by
  have hSlots : score.SCORE.map (fun slot => slot.2.toNat) =
      ((List.range nTimespan).map fun i => sumOf (inSecond i (inForce log.penalties))).map (· % 2 ^ 32) := by
    refine List.ext_getElem? fun i => ?_
    rw [List.map_map, List.getElem?_map, List.getElem?_map]
    cases hSlot : score.SCORE[i]? with
    | none =>
        have hBound := List.getElem?_eq_none_iff.mp hSlot
        rw [h.length] at hBound
        rw [List.getElem?_eq_none (by simpa using hBound)]
        rfl
    | some slot =>
        obtain ⟨hBound, -⟩ := List.getElem?_eq_some_iff.mp hSlot
        rw [h.length] at hBound
        rw [List.getElem?_range hBound]
        exact congrArg some (h.value i slot hSlot)
  have hSum : (score.SCORE.foldl (fun n slot => n + slot.2) (0 : UInt32)).toNat =
      sumOf (inForce log.penalties) % 2 ^ 32 := by
    rw [foldl_score, hSlots, ← sum_inSecond h.second_lt]
    refine (congrArg (· % 2 ^ 32) (Nat.zero_add _)).trans ?_
    exact (List.sum_nat_mod _ _).symm
  rw [DDOS_Score.Score, hSum, h.length]

/-- Over every run of penalties and flushes, from a score of a positive timespan, the score is the total
of the penalties that count, modulo `2 ^ 32`, by the seconds of the timespan. -/
theorem score_counts (nTimespan : Int32) (now : Int) (calls : List PenaltyCall)
    (hPos : 0 < nTimespan.toNatClampNeg) :
    (calls.foldl PenaltyCall.run (DDOS_Score.new nTimespan now)).Score =
      (UInt32.ofNat (sumOf (inForce
        (calls.foldl (PenaltyCall.log nTimespan.toNatClampNeg) ⟨[], 0, now⟩).penalties) % 2 ^ 32 /
          nTimespan.toNatClampNeg)).toInt32 := by
  suffices hRun : ∀ {score log}, RingOf nTimespan.toNatClampNeg score log →
      RingOf nTimespan.toNatClampNeg (calls.foldl PenaltyCall.run score)
        (calls.foldl (PenaltyCall.log nTimespan.toNatClampNeg) log) from
    (hRun ringOf_new).score_eq
  intro score log h
  induction calls generalizing score log with
  | nil => exact h
  | cons call calls ih => exact ih (h.call hPos call)

theorem score_counts_ring :
    ((([.add 0 0 6, .add 1000000000 0 9, .add 2000000000 0 30, .add 3000000000 3000000000 12] :
      List PenaltyCall).foldl PenaltyCall.run (DDOS_Score.new 3 0)).Score : Int32) = 17 :=
  (score_counts 3 0 _ (by decide)).trans (by decide)

/-! ## Bans -/

/-- What is done with a filter. -/
inductive FilterCall
  | request (call : PenaltyCall)
  | connect (call : PenaltyCall)
  | ban (now nowStart : Int)
  deriving DecidableEq, Repr

def FilterCall.run (filter : DDOS_Filter) : FilterCall → DDOS_Filter
  | .request call => { filter with rSCORE := call.run filter.rSCORE }
  | .connect call => { filter with cSCORE := call.run filter.cSCORE }
  | .ban now nowStart => filter.Ban now nowStart

/-- A ban of a peer that is banned already is none. -/
def FilterCall.bans (filter : DDOS_Filter) : FilterCall → Nat
  | .ban now _ => if filter.Banned now then 0 else 1
  | _ => 0

/-- A call at a clock of 64 bits, which does not go back.  The bans that take effect are counted. -/
structure FilterStep (before : DDOS_Filter × Int × Nat) (call : FilterCall)
    (after : DDOS_Filter × Int × Nat) : Prop where
  run : after.1 = call.run before.1
  clock : before.2.1 ≤ after.2.1
  clock_lt : after.2.1 < 2 ^ 63
  bans : after.2.2 = before.2.2 + call.bans before.1
  during : ∀ now nowStart, call = .ban now nowStart →
    before.2.1 ≤ now ∧ now ≤ nowStart ∧ nowStart ≤ after.2.1

/-- The first `nBans` bans lasted longer and longer, and the last of them began in time. -/
structure SpacedBans (first : Int) (filter : DDOS_Filter) (now : Int) (nBans : Nat) : Prop where
  clock : first ≤ now
  total : filter.TOTALBANS.toNat = nBans
  bantime : 1200 * nBans ≤ filter.BANTIME.toNat
  span : 0 < nBans → first + 600000000000 * (nBans * (nBans - 1)) ≤ filter.TIMER.start_time
  started : 0 < nBans → filter.TIMER.start_time ≤ now

theorem elapsed_le {timer : Timer} {now : Int} (h : timer.start_time ≤ now) :
    timer.start_time + 1000000000 * (timer.Elapsed now).toNat ≤ now := by
  have hNat : (timer.Elapsed now).toNat =
      (((now - timer.start_time).tdiv 1000000000) % 2 ^ 32).toNat % 2 ^ 32 := rfl
  have hDiv : (now - timer.start_time).tdiv 1000000000 = (now - timer.start_time) / 1000000000 :=
    Int.tdiv_eq_ediv_of_nonneg (by omega)
  rw [hNat, hDiv]
  omega

theorem le_max_toNat (x y : UInt32) : y.toNat ≤ (max x y).toNat := by
  show y.toNat ≤ (if x ≤ y then y else x).toNat
  split
  · exact le_refl _
  · rename_i hLess
    exact Nat.le_of_not_le hLess

/-- A clock of 64 bits has no time for as many bans as overflow the time of a ban. -/
theorem bans_lt {nBans : Nat} (h : 600000000000 * ((nBans : Int) * (nBans - 1)) < 2 ^ 63) : nBans < 3922 := by
  by_contra hMany
  have hLe : (3922 : Int) ≤ nBans := by omega
  have hProduct : (3922 : Int) * 3921 ≤ nBans * (nBans - 1) := mul_le_mul hLe (by omega) (by omega) (by omega)
  omega

/-- A ban begins when the one before it is over. -/
theorem SpacedBans.ban {first clock now nowStart : Int} {filter : DDOS_Filter} {nBans : Nat}
    (h : SpacedBans first filter clock nBans) (hFirst : 0 ≤ first) (hNow : clock ≤ now) (hStart : now ≤ nowStart)
    (hLt : nowStart < 2 ^ 63) (hFree : filter.Banned now = false) :
    SpacedBans first (filter.Ban now nowStart) nowStart (nBans + 1) := by
  have hOver : ¬ filter.TIMER.Elapsed now < filter.BANTIME := of_decide_eq_false hFree
  have hBan : filter.Ban now nowStart = _ := if_neg hOver
  have hSpan : first + 600000000000 * ((nBans + 1 : Int) * nBans) ≤ nowStart := by
    by_cases hNone : nBans = 0
    · subst hNone
      have hClock := h.clock
      simp only [Nat.cast_zero, mul_zero]
      omega
    · have hPos : 0 < nBans := Nat.pos_of_ne_zero hNone
      have hElapsed := elapsed_le ((h.started hPos).trans hNow)
      have hLong : filter.BANTIME.toNat ≤ (filter.TIMER.Elapsed now).toNat := Nat.le_of_not_lt hOver
      have hBantime := h.bantime
      have hBefore := h.span hPos
      have hSum : (nBans + 1 : Int) * nBans = nBans * (nBans - 1) + 2 * nBans := by ring
      omega
  have hFew : nBans + 1 < 3922 := by
    refine bans_lt ?_
    have hCast : ((nBans + 1 : Nat) : Int) * ((nBans + 1 : Nat) - 1) = (nBans + 1) * nBans := by
      rw [Nat.cast_succ, add_sub_cancel_right]
    rw [hCast]
    omega
  have hTotal : (filter.TOTALBANS + 1).toNat = nBans + 1 := by
    rw [UInt32.toNat_add, h.total]
    show (nBans + 1) % 2 ^ 32 = nBans + 1
    exact Nat.mod_eq_of_lt (by omega)
  rw [hBan]
  constructor
  · exact (h.clock.trans hNow).trans hStart
  · exact hTotal
  · refine le_trans ?_ (le_max_toNat _ _)
    rw [UInt32.toNat_mul, hTotal]
    show 1200 * (nBans + 1) ≤ (nBans + 1) * 1200 % 2 ^ 32
    rw [Nat.mod_eq_of_lt (by omega), Nat.mul_comm]
  · intro _
    show _ ≤ nowStart
    have hCast : ((nBans + 1 : Nat) : Int) - 1 = nBans := by omega
    rw [hCast]
    exact_mod_cast hSpan
  · exact fun _ => le_refl nowStart

theorem SpacedBans.step {first : Int} {before after : DDOS_Filter × Int × Nat} {call : FilterCall}
    (hFirst : 0 ≤ first) (hStep : FilterStep before call after)
    (h : SpacedBans first before.1 before.2.1 before.2.2) : SpacedBans first after.1 after.2.1 after.2.2 := by
  have hKept (filter : DDOS_Filter) (hTimer : filter.TIMER = before.1.TIMER)
      (hBantime : filter.BANTIME = before.1.BANTIME) (hTotal : filter.TOTALBANS = before.1.TOTALBANS) :
      SpacedBans first filter after.2.1 before.2.2 := by
    refine ⟨h.clock.trans hStep.clock, ?_, ?_, ?_, ?_⟩
    · exact hTotal ▸ h.total
    · exact hBantime ▸ h.bantime
    · exact hTimer ▸ h.span
    · exact fun hPos => hTimer ▸ (h.started hPos).trans hStep.clock
  rw [hStep.run, hStep.bans]
  cases call with
  | request call => exact hKept _ rfl rfl rfl
  | connect call => exact hKept _ rfl rfl rfl
  | ban now nowStart =>
      obtain ⟨hNow, hStart, hAfter⟩ := hStep.during now nowStart rfl
      cases hBanned : before.1.Banned now with
      | true =>
          have hOver : before.1.Ban now nowStart = before.1 := if_pos (of_decide_eq_true hBanned)
          rw [FilterCall.run, FilterCall.bans, hBanned, hOver]
          exact hKept _ rfl rfl rfl
      | false =>
          rw [FilterCall.run, FilterCall.bans, hBanned]
          have hBan := h.ban hFirst hNow hStart (hAfter.trans_lt hStep.clock_lt) hBanned
          exact { hBan with
            clock := hBan.clock.trans hAfter
            started := fun hPos => (hBan.started hPos).trans hAfter }

/-- Over every run of a filter, at a clock of 64 bits that does not go back, `TOTALBANS` is the number
of the bans.  `nBans` of them take `600 * nBans * (nBans - 1)` seconds at least, and the last one is for
`1200 * nBans` seconds at least.  A filter without seconds divides by zero. -/
theorem bans_apart {nTimespan : UInt32} {first now : Int} {filter : DDOS_Filter} {nBans : Nat}
    {calls : List FilterCall} (_hTimespan : 0 < nTimespan) (hFirst : 0 ≤ first)
    (hRun : Run FilterStep (DDOS_Filter.new nTimespan first, first, 0) calls (filter, now, nBans)) :
    filter.TOTALBANS.toNat = nBans ∧ 1200 * nBans ≤ filter.BANTIME.toNat ∧
      first + 600000000000 * (nBans * (nBans - 1)) ≤ now := by
  have hOpen : SpacedBans first (DDOS_Filter.new nTimespan first) first 0 := by
    refine ⟨le_refl first, rfl, Nat.zero_le _, ?_, ?_⟩
    · exact fun hPos => absurd hPos (lt_irrefl 0)
    · exact fun hPos => absurd hPos (lt_irrefl 0)
  have hApart : SpacedBans first filter now nBans :=
    hRun.invariant (I := fun s => SpacedBans first s.1 s.2.1 s.2.2) (fun _ _ _ h hStep => h.step hFirst hStep) hOpen
  refine ⟨hApart.total, hApart.bantime, ?_⟩
  by_cases hNone : nBans = 0
  · rw [hNone, Nat.cast_zero, zero_mul, mul_zero, add_zero]
    exact hApart.clock
  · have hPos := Nat.pos_of_ne_zero hNone
    exact (hApart.span hPos).trans (hApart.started hPos)

/-- A peer that is not banned can be banned. -/
theorem ban_step {filter : DDOS_Filter} {clock now : Int} {nBans : Nat} (hNow : clock ≤ now)
    (hLt : now < 2 ^ 63) (hFree : filter.Banned now = false) :
    FilterStep (filter, clock, nBans) (.ban now now) (filter.Ban now now, now, nBans + 1) where
  run := rfl
  clock := hNow
  clock_lt := hLt
  bans := by
    show nBans + 1 = nBans + if filter.Banned now then 0 else 1
    rw [hFree]
    rfl
  during := fun _ _ hCall => by
    cases hCall
    exact ⟨hNow, le_refl now, le_refl now⟩

/-- A peer that is banned after ten seconds. -/
def onceBanned : DDOS_Filter := (DDOS_Filter.new 60 10000000000).Ban 20000000000 20000000000

theorem bans_apart_twice :
    (onceBanned.Ban 1300000000000 1300000000000).TOTALBANS.toNat = 2 ∧
      1200 * 2 ≤ (onceBanned.Ban 1300000000000 1300000000000).BANTIME.toNat ∧
      (10000000000 : Int) + 600000000000 * ((2 : Nat) * ((2 : Nat) - 1)) ≤ 1300000000000 := by
  have hFree : (DDOS_Filter.new 60 10000000000).Banned 20000000000 = false := by decide +kernel
  have hOver : onceBanned.Banned 1300000000000 = false := by decide +kernel
  exact bans_apart (by decide) (by decide)
    (.cons (ban_step (by decide) (by decide) hFree) (.single (ban_step (by decide) (by decide) hOver)))

end Nexus.Safety
