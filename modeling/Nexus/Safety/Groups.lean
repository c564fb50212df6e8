import Nexus.Operation.Forward
import Nexus.Safety.Tokens

/-!
# The stack of groups

`Execute` keeps the open groups of a condition on a stack.  Its height is one more
than the groups that are open, so a turn reads the top of an empty stack exactly
when it closes a group that was never opened.  The loop ends, because a turn reads
at least one byte, unless the caller has an unknown transaction version.

## Main results

* `execute_safe_iff`: when `Execute` is safe.
* `ungroup_of_base`: one byte of conditions that is not.
-/

namespace Nexus.Safety

open Nexus.Lib
open Nexus.Lib.Checked
open Nexus.Util
open Nexus.Operation
open Nexus.Operation.Condition
open Nexus.LLD

variable {rt : Runtime} {disk : Disk} {contract caller : Contract} {c c' : Condition}
  {OPERATION : UInt8} {vOps : List UInt8} {vEvaluate vEvaluate' : List (Bool × UInt8)}
  {fEvaluate : Bool}

/-- The condition that is made for a contract and its caller. -/
def fresh (contract caller : Contract) : Condition := { contract, caller }

/-- The heights of the stack at which a turn reads or pops its top.  But for an opened
group, a turn returns when the stack is empty. -/
def tops (OPERATION : UInt8) (nHeight : Nat) : List Nat :=
  if OPERATION = OP.GROUP ∨ nHeight = 0 then []
  else if OPERATION = OP.UNGROUP then [nHeight, nHeight, nHeight - 1]
  else [nHeight]

/-- `Execute` ends, and no turn reads or pops the top of an empty stack. -/
structure Safe (rt : Runtime) (disk : Disk) (contract caller : Contract) : Prop where
  ends : ∃ nTurns, ∀ vOps c, Run (Turn rt disk) (fresh contract caller).start vOps c →
    vOps.length ≤ nTurns
  tops : ∀ vOps c OPERATION, Run (Turn rt disk) (fresh contract caller).start vOps c →
    c.Next OPERATION → ∀ nHeight ∈ tops OPERATION c.vEvaluate.length, nHeight ≠ 0

/-- Every group that is closed was opened, and a comparison has a known version. -/
structure Nested (rt : Runtime) (disk : Disk) (contract caller : Contract) : Prop where
  closes : ∀ vOps c, Run (Turn rt disk) (fresh contract caller).start vOps c →
    c.Next OP.UNGROUP → vOps.count OP.UNGROUP < vOps.count OP.GROUP
  known : ∀ vOps c OPERATION, Run (Turn rt disk) (fresh contract caller).start vOps c →
    c.Next OPERATION → grouping OPERATION = false → Known caller

/-! ## What a turn keeps -/

/-- The connectives that `Execute` puts on the stack. -/
def Connectives (vEvaluate : List (Bool × UInt8)) : Prop :=
  ∀ group ∈ vEvaluate, group.2 = OP.RESERVED ∨ group.2 = OP.AND ∨ group.2 = OP.OR

theorem combine_ok (fEvaluate : Bool) (hStack : vEvaluate ≠ [])
    (hConnectives : Connectives vEvaluate) :
    ∃ vEvaluate', combine fEvaluate vEvaluate = .ok vEvaluate' := by
  cases vEvaluate with
  | nil => exact absurd rfl hStack
  | cons top rest =>
      obtain ⟨fTop, nOP⟩ := top
      rcases hConnectives _ (List.mem_cons_self ..) with hOP | hOP | hOP <;> simp only at hOP
      · exact ⟨_, by rw [combine, if_pos hOP]⟩
      · exact ⟨_, by rw [combine, hOP]; rfl⟩
      · exact ⟨_, by rw [combine, hOP]; rfl⟩

/-- A value is combined into the top of the stack. -/
theorem combine_cases (h : combine fEvaluate vEvaluate = .ok vEvaluate') :
    ∃ fTop f nOP rest, vEvaluate = (fTop, nOP) :: rest ∧ vEvaluate' = (f, nOP) :: rest := by
  cases vEvaluate with
  | nil => cases h
  | cons top rest =>
      obtain ⟨fTop, nOP⟩ := top
      simp only [combine, ite_eq_ok, reduceCtorEq, and_false, or_false, Except.ok.injEq] at h
      rcases h with ⟨-, rfl⟩ | ⟨-, ⟨-, rfl⟩ | ⟨-, -, rfl⟩⟩
      · exact ⟨_, _, _, _, rfl, rfl⟩
      · exact ⟨_, _, _, _, rfl, rfl⟩
      · exact ⟨_, _, _, _, rfl, rfl⟩

theorem connect_cases {nOther : UInt8} {strMessage : String}
    (h : connect OPERATION nOther strMessage vEvaluate = .ok vEvaluate') :
    ∃ fTop nOP rest, vEvaluate = (fTop, nOP) :: rest ∧
      vEvaluate' = (fTop, OPERATION) :: rest := by
  cases vEvaluate with
  | nil => cases h
  | cons top rest =>
      obtain ⟨fTop, nOP⟩ := top
      simp only [connect, bind_eq_ok, pure_eq_ok] at h
      obtain ⟨-, -, rfl⟩ := h
      exact ⟨_, _, _, rfl, rfl⟩

theorem ungroup_cases (h : ungroup vEvaluate = .ok vEvaluate') :
    ∃ group fTop f nOP rest, vEvaluate = group :: (fTop, nOP) :: rest ∧
      vEvaluate' = (f, nOP) :: rest := by
  match vEvaluate, h with
  | [], h => cases h
  | [_], h => cases h
  | (fGroup, nGroup) :: top :: rest, h =>
      have hCombine : combine fGroup (top :: rest) = .ok vEvaluate' := h
      obtain ⟨fTop, f, nOP, rest', hOld, hNew⟩ := combine_cases hCombine
      exact ⟨_, _, _, _, _, by rw [hOld], hNew⟩

/-- A comparison leaves the stack and the caller. -/
theorem Evaluate_stack (hFits : c.Fits 1) (h : c.Evaluate rt disk = .ok (fEvaluate, c')) :
    c'.vEvaluate = c.vEvaluate ∧ c'.caller = c.caller := by
  by_cases hKnown : Known c.caller
  · obtain ⟨n, -, hMove⟩ := Evaluate_forward hFits hKnown h
    exact ⟨hMove.vEvaluate, hMove.caller⟩
  · rw [Evaluate_unknown hKnown] at h
    cases h
    exact ⟨rfl, rfl⟩

/-- What holds of the stack in every state of the loop. -/
structure Stacked (caller : Contract) (c : Condition) : Prop where
  caller : c.caller = caller
  stack : c.vEvaluate ≠ []
  connectives : Connectives c.vEvaluate

/-- A turn keeps the connectives, and the height follows the groups. -/
theorem turn_stack (h : Turn rt disk c OPERATION c') (hStacked : Stacked caller c) :
    Stacked caller c' ∧
      c'.vEvaluate.length + [OPERATION].count OP.UNGROUP =
        c.vEvaluate.length + [OPERATION].count OP.GROUP := by
  obtain ⟨hFits, -⟩ := extract_of_next h.1
  obtain ⟨hCaller, hStack, hConnectives⟩ := hStacked
  rcases turn_cases h with ⟨rfl, hEq⟩ | ⟨rfl, v, hUngroup, hEq⟩ |
    ⟨hOP, nOther, strMessage, v, hConnect, hEq⟩ | ⟨hNot, f, c₁, v, hEvaluate, hCombine, hEq⟩
  · rw [hEq]
    refine ⟨⟨hCaller, List.cons_ne_nil _ _, ?_⟩, ?_⟩
    · exact List.forall_mem_cons.mpr ⟨.inl rfl, hConnectives⟩
    · simp [show OP.GROUP ≠ OP.UNGROUP by decide]
  · obtain ⟨group, fTop, f, nOP, rest, hOld, rfl⟩ := ungroup_cases hUngroup
    rw [hEq]
    refine ⟨⟨hCaller, List.cons_ne_nil _ _, ?_⟩, ?_⟩
    · rw [hOld] at hConnectives
      have hTop := hConnectives (fTop, nOP) (by simp)
      exact List.forall_mem_cons.mpr ⟨hTop, fun g hMem => hConnectives g (by simp [hMem])⟩
    · simp [hOld, show OP.UNGROUP ≠ OP.GROUP by decide]
  · obtain ⟨fTop, nOP, rest, hOld, rfl⟩ := connect_cases hConnect
    rw [hEq]
    refine ⟨⟨hCaller, List.cons_ne_nil _ _, ?_⟩, ?_⟩
    · rw [hOld] at hConnectives
      exact List.forall_mem_cons.mpr ⟨.inr hOP, fun g hMem => hConnectives g (by simp [hMem])⟩
    · rcases hOP with rfl | rfl
      · simp [hOld, show OP.AND ≠ OP.UNGROUP by decide, show OP.AND ≠ OP.GROUP by decide]
      · simp [hOld, show OP.OR ≠ OP.UNGROUP by decide, show OP.OR ≠ OP.GROUP by decide]
  · obtain ⟨hSame, hCaller'⟩ := Evaluate_stack hFits hEvaluate
    obtain ⟨fTop, f', nOP, rest, hOld, rfl⟩ := combine_cases hCombine
    rw [hSame] at hOld
    rw [hEq]
    refine ⟨⟨hCaller'.trans hCaller, List.cons_ne_nil _ _, ?_⟩, ?_⟩
    · rw [hOld] at hConnectives
      have hTop := hConnectives (fTop, nOP) (by simp)
      exact List.forall_mem_cons.mpr ⟨hTop, fun g hMem => hConnectives g (by simp [hMem])⟩
    · have hUngroup : OPERATION ≠ OP.UNGROUP := by
        rintro rfl
        cases hNot
      have hGroup : OPERATION ≠ OP.GROUP := by
        rintro rfl
        cases hNot
      simp [hOld, hUngroup, hGroup]

/-- In a run the height follows the groups. -/
theorem run_stack (h : Run (Turn rt disk) c vOps c') (hStacked : Stacked caller c) :
    Stacked caller c' ∧
      c'.vEvaluate.length + vOps.count OP.UNGROUP = c.vEvaluate.length + vOps.count OP.GROUP := by
  induction h with
  | nil c => exact ⟨hStacked, rfl⟩
  | @cons c₁ c₂ c₃ OPERATION vOps hTurn hRun ih =>
      obtain ⟨hNext, hHeight⟩ := turn_stack hTurn hStacked
      obtain ⟨hLast, hRest⟩ := ih hNext
      refine ⟨hLast, ?_⟩
      have hCount (nOP : UInt8) :
          (OPERATION :: vOps).count nOP = [OPERATION].count nOP + vOps.count nOP := by
        rw [← List.singleton_append, List.count_append]
      have hUngroup := hCount OP.UNGROUP
      have hGroup := hCount OP.GROUP
      omega

theorem stacked_start : Stacked caller (fresh contract caller).start :=
  ⟨rfl, List.cons_ne_nil _ _, List.forall_mem_cons.mpr ⟨.inl rfl, fun g hMem => by cases hMem⟩⟩

/-- From the base group the height is one more than the groups that are open. -/
theorem height_of_run (h : Run (Turn rt disk) (fresh contract caller).start vOps c) :
    c.vEvaluate.length + vOps.count OP.UNGROUP = vOps.count OP.GROUP + 1 := by
  have hStart : Stacked caller (fresh contract caller).start := stacked_start
  obtain ⟨-, hHeight⟩ := run_stack h hStart
  rw [hHeight, Nat.add_comm]
  rfl

/-! ## When `Execute` is safe -/

/-- An unknown version lets the loop turn at a comparison as often as it likes. -/
theorem run_unknown (hNext : c.Next OPERATION) (hNot : grouping OPERATION = false)
    (hUnknown : ¬ Known caller) (hStacked : Stacked caller c) (n : Nat) :
    ∃ vOps c', Run (Turn rt disk) c vOps c' ∧ vOps.length = n := by
  induction n generalizing c with
  | zero => exact ⟨[], c, .nil c, rfl⟩
  | succ n ih =>
      have hEvaluate : c.Evaluate rt disk = .ok (false, c) :=
        Evaluate_unknown (hStacked.caller.symm ▸ hUnknown)
      obtain ⟨v, hCombine⟩ := combine_ok false hStacked.stack hStacked.connectives
      have hTurn : Turn rt disk c OPERATION { c with vEvaluate := v } := by
        refine ⟨hNext, ?_⟩
        simp only [step_evaluate hNext hNot hStacked.stack, hEvaluate, ok_bind, hCombine]
        rfl
      have hAgain : Next { c with vEvaluate := v } OPERATION := by
        obtain ⟨hFits, hRead⟩ := extract_of_next hNext
        obtain ⟨-, hByte, -⟩ := extract_eq_ok.mp hRead
        exact ⟨_, extract_eq_ok.mpr ⟨hFits, hByte, rfl⟩⟩
      obtain ⟨vOps, c', hRun, hLength⟩ := ih hAgain (turn_stack hTurn hStacked).1
      exact ⟨OPERATION :: vOps, c', .cons hTurn hRun, by rw [List.length_cons, hLength]⟩

/-- A run of known version reads a byte in every turn; with an unknown version there is
no comparison to turn at. -/
theorem length_of_run (h : Run (Turn rt disk) c vOps c') (hFits : c.Fits 0)
    (hStacked : Stacked caller c)
    (hKnown : ∀ vOps c' OPERATION, Run (Turn rt disk) c vOps c' → c'.Next OPERATION →
      grouping OPERATION = false → Known caller) :
    ∃ n, vOps.length ≤ n ∧ Moved n c c' := by
  induction h with
  | nil c => exact ⟨0, Nat.le_refl _, hFits, rfl, rfl⟩
  | @cons c₁ c₂ c₃ OPERATION vOps hTurn hRun ih =>
      have hMove : ∃ n, 0 < n ∧ Moved n c₁ c₂ := by
        obtain ⟨hOne, -⟩ := extract_of_next hTurn.1
        rcases turn_cases hTurn with ⟨-, hEq⟩ | ⟨-, v, -, hEq⟩ | ⟨-, nOther, strMessage, v, -, hEq⟩ |
          ⟨hNot, -⟩
        · exact ⟨1, Nat.one_pos, by rw [hEq]; exact ⟨hOne, rfl, rfl⟩⟩
        · exact ⟨1, Nat.one_pos, by rw [hEq]; exact ⟨hOne, rfl, rfl⟩⟩
        · exact ⟨1, Nat.one_pos, by rw [hEq]; exact ⟨hOne, rfl, rfl⟩⟩
        · exact hTurn.moved (hStacked.caller.symm ▸ hKnown _ _ _ (.nil c₁) hTurn.1 hNot)
      obtain ⟨n, hPos, hMove⟩ := hMove
      obtain ⟨m, hLength, hRest⟩ := ih hMove.fits_zero (turn_stack hTurn hStacked).1
        fun vOps' c' OPERATION' hRun' => hKnown _ _ _ (.cons hTurn hRun')
      refine ⟨n + m, ?_, hMove.trans hRest⟩
      rw [List.length_cons]
      omega

/-- `Execute` is safe if and only if every group that it closes was opened, and every
comparison that it comes to has a known version. -/
theorem execute_safe_iff : Safe rt disk contract caller ↔ Nested rt disk contract caller := by
  have hStart : Stacked caller (fresh contract caller).start := stacked_start
  have hZero : (fresh contract caller).start.Fits 0 := Nat.zero_le _
  constructor
  · intro hSafe
    refine ⟨?_, ?_⟩
    · intro vOps c hRun hNext
      obtain ⟨⟨-, hStack, -⟩, -⟩ := run_stack hRun hStart
      have hHeight := height_of_run hRun
      have hPos : c.vEvaluate.length ≠ 0 := fun hEmpty => hStack (List.length_eq_zero_iff.mp hEmpty)
      have hBelow := hSafe.tops _ _ _ hRun hNext (c.vEvaluate.length - 1)
        (by simp [Safety.tops, hPos, show OP.UNGROUP ≠ OP.GROUP by decide])
      omega
    · intro vOps c OPERATION hRun hNext hNot
      by_contra hUnknown
      obtain ⟨nTurns, hBound⟩ := hSafe.ends
      have hMore : ∃ vMore c', Run (Turn rt disk) c vMore c' ∧ vMore.length = nTurns + 1 :=
        run_unknown hNext hNot hUnknown (run_stack hRun hStart).1 (nTurns + 1)
      obtain ⟨vMore, c', hMore, hLength⟩ := hMore
      have hLe := hBound _ _ (hRun.append hMore)
      rw [List.length_append] at hLe
      omega
  · intro hNested
    refine ⟨⟨(fresh contract caller).start.contract.ssCondition.size, ?_⟩, ?_⟩
    · intro vOps c hRun
      obtain ⟨n, hLength, hFits, -⟩ := length_of_run hRun hZero hStart hNested.known
      have hLe : 0 + n ≤ (fresh contract caller).start.contract.ssCondition.size := hFits
      omega
    · intro vOps c OPERATION hRun hNext nHeight hMem
      obtain ⟨⟨-, hStack, -⟩, -⟩ := run_stack hRun hStart
      have hHeight := height_of_run hRun
      have hPos : c.vEvaluate.length ≠ 0 := fun hEmpty => hStack (List.length_eq_zero_iff.mp hEmpty)
      by_cases hGroup : OPERATION = OP.GROUP
      · simp [Safety.tops, hGroup] at hMem
      by_cases hUngroup : OPERATION = OP.UNGROUP
      · subst hUngroup
        have hOpen := hNested.closes _ _ hRun hNext
        simp only [Safety.tops, hGroup, hPos, or_self, if_false, if_true, List.mem_cons,
          List.not_mem_nil, or_false] at hMem
        omega
      · simp only [Safety.tops, hGroup, hPos, hUngroup, or_self, if_false, List.mem_cons,
          List.not_mem_nil, or_false] at hMem
        omega

/-- A condition of one byte, which closes the base group. -/
def ungroupOnly : Contract where
  ssCondition := { vchData := [OP.UNGROUP] }

theorem ungroup_of_base :
    ¬ Safe exampleRuntime {} ungroupOnly { nVersion := 2 } := by
  intro hSafe
  have hFits : (fresh ungroupOnly { nVersion := 2 }).start.Fits 1 := Nat.le_refl 1
  have hNext : (fresh ungroupOnly { nVersion := 2 }).start.Next OP.UNGROUP :=
    ⟨_, extract_eq_ok.mpr ⟨hFits, by decide, rfl⟩⟩
  exact hSafe.tops _ _ _ (.nil _) hNext 0 (by decide) rfl

end Nexus.Safety
