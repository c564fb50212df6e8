import Nexus.Operation.Operands
import Nexus.Safety.Groups
import Nexus.Safety.Tokens

/-!
# Programs with lookups

A program of comparisons that are joined by one connective.  In version 2 a
comparison whose lookup fails is false, and the next one begins after it, as
long as every value that `Execute` comes to look up is of a register that
exists: when it does not, the name of the field is left on the stream, and read
as operations.

## Main results

* `program_value`: programs whose value lookups are of registers that exist.
* `program_of_missing`: a program with one that does not.
-/

namespace Nexus.Safety

open Nexus.Lib
open Nexus.Lib.Bytes
open Nexus.Lib.Checked
open Nexus.Util
open Nexus.Register
open Nexus.Operation
open Nexus.Operation.Condition
open Nexus.LLD

/-- Comparisons that are joined by one connective. -/
structure Program where
  first : Comparison
  others : List Comparison
  connective : UInt8
  isConnective : connective = OP.AND ∨ connective = OP.OR

namespace Program

variable (program : Program) (rt : Runtime) (disk : Disk) (caller : Contract)

def comparisons : List Comparison := program.first :: program.others

/-- The bytes of the comparisons that are left after one. -/
def rest (vLeft : List Comparison) : List UInt8 :=
  vLeft.flatMap fun cmp => program.connective :: cmp.bytes

def bytes : List UInt8 := program.first.bytes ++ program.rest program.others

/-- Values joined by the connective. -/
def joined (vValues : List Bool) : Bool :=
  if program.connective = OP.AND then vValues.all id else vValues.any id

/-- The value of a program. -/
def value : Result Bool :=
  (program.comparisons.mapM (Comparison.value rt disk caller)).map program.joined

/-- A comparison of the program is at the cursor. -/
def Before (c : Condition) (vDone : List Comparison) (cmp : Comparison) (vLeft : List Comparison) :
    Prop :=
  program.comparisons = vDone ++ cmp :: vLeft ∧ c.At (cmp.bytes ++ program.rest vLeft)

/-- Every value lookup that `Execute` comes to is of a register that exists. -/
def Finds (contract : Contract) : Prop :=
  ∀ vOps c vDone cmp vLeft, Run (Turn rt disk) (fresh contract caller).start vOps c →
    program.Before c vDone cmp vLeft → c.FindsBoth rt disk cmp

end Program

variable {program : Program} {rt : Runtime} {disk : Disk} {contract caller : Contract}
  {c c' : Condition} {OPERATION : UInt8} {vOps : List UInt8} {fEvaluate : Bool} {nCost : UInt64}
  {cmp : Comparison} {vDone vLeft : List Comparison} {vValues : List Bool}

/-- The values of the comparisons that are done. -/
def Values (rt : Runtime) (disk : Disk) (caller : Contract) (vDone : List Comparison)
    (vValues : List Bool) : Prop :=
  vDone.mapM (Comparison.value rt disk caller) = .ok vValues

/-- The loop is at the first byte of a comparison, or after one. -/
inductive Between (program : Program) (rt : Runtime) (disk : Disk) (caller : Contract) :
    Condition → Prop
  | before {c : Condition} {vDone vLeft : List Comparison} {cmp : Comparison}
      {vValues : List Bool} {fTop : Bool} {nTop : UInt8}
      (hBefore : program.Before c vDone cmp vLeft) (hVm : c.vm = {}) (hCaller : c.caller = caller)
      (hValues : Values rt disk caller vDone vValues) (hStack : c.vEvaluate = [(fTop, nTop)])
      (hTop : vDone = [] ∧ nTop = OP.RESERVED ∨
        vDone ≠ [] ∧ nTop = program.connective ∧ fTop = program.joined vValues) :
      Between program rt disk caller c
  | after {c : Condition} {vDone vLeft : List Comparison} {vValues : List Bool} {nTop : UInt8}
      (hSplit : program.comparisons = vDone ++ vLeft) (hDone : vDone ≠ [])
      (hAt : c.At (program.rest vLeft)) (hVm : c.vm = {}) (hCaller : c.caller = caller)
      (hValues : Values rt disk caller vDone vValues)
      (hStack : c.vEvaluate = [(program.joined vValues, nTop)])
      (hTop : nTop = OP.RESERVED ∨ nTop = program.connective) :
      Between program rt disk caller c

theorem ends_rest : Ends (program.rest vLeft) := by
  intro nOP vchRest hEq
  cases vLeft with
  | nil => cases hEq
  | cons cmp vLeft =>
      rw [Program.rest, List.flatMap_cons, List.cons_append] at hEq
      rw [← (List.cons.inj hEq).1]
      rcases program.isConnective with hAnd | hOr
      · rw [hAnd]
        rfl
      · rw [hOr]
        rfl

theorem joined_single : program.joined [fEvaluate] = fEvaluate := by
  unfold Program.joined
  split <;> simp

/-- One more value is combined into the values so far. -/
theorem combine_joined {fTop : Bool} (hTop : fTop = program.joined vValues) :
    combine fEvaluate [(fTop, program.connective)] =
      .ok [(program.joined (vValues ++ [fEvaluate]), program.connective)] := by
  rw [hTop]
  rcases program.isConnective with hAnd | hOr
  · simp only [Program.joined, hAnd, if_true, List.all_append, List.all_cons, List.all_nil, id,
      Bool.and_true]
    rfl
  · simp only [Program.joined, hOr, List.any_append, List.any_cons, List.any_nil, id,
      Bool.or_false]
    rfl

theorem values_append (h : Values rt disk caller vDone vValues)
    (hValue : cmp.value rt disk caller = .ok fEvaluate) :
    Values rt disk caller (vDone ++ [cmp]) (vValues ++ [fEvaluate]) := by
  unfold Values at *
  rw [List.mapM_append, h, List.mapM_cons, hValue]
  rfl

/-- The comparison at the cursor is evaluated, and read to its end. -/
theorem evaluate_before (hVersion : caller.nVersion = 2) (hFinds : c.FindsBoth rt disk cmp)
    (hBefore : program.Before c vDone cmp vLeft) (hVm : c.vm = {}) (hCaller : c.caller = caller)
    (h : c.Evaluate rt disk = .ok (fEvaluate, c')) :
    cmp.value rt disk caller = .ok fEvaluate ∧
      ∃ nCost, c' = { c.skip cmp.bytes.length with nCost } := by
  subst hCaller
  have hEvaluate : c.Evaluate rt disk = c.evaluateV2 rt disk := by
    rw [Evaluate, if_neg (by rw [hVersion]; decide), if_pos hVersion]
  rw [hEvaluate] at h
  exact evaluateV2_comparison hBefore.2 ends_rest hVm hFinds h

/-- A turn goes from one place between tokens to the next. -/
theorem turn_between (hVersion : caller.nVersion = 2)
    (hFinds : ∀ vDone cmp vLeft, program.Before c vDone cmp vLeft → c.FindsBoth rt disk cmp)
    (hBetween : Between program rt disk caller c) (h : Turn rt disk c OPERATION c') :
    Between program rt disk caller c' := by
  cases hBetween with
  | @before vDone vLeft cmp vValues fTop nTop hBefore hVm hCaller hValues hStack hTop =>
      obtain ⟨nOP, vchRest, hBytes, hNot⟩ := grouping_left cmp
      have hAt := hBefore.2
      rw [hBytes, List.cons_append] at hAt
      obtain rfl : OPERATION = nOP := by
        obtain ⟨c₁, hRead⟩ := h.1
        rw [hAt.op.1] at hRead
        exact (Prod.mk.inj (Except.ok.inj hRead)).1.symm
      obtain ⟨-, hStep⟩ := h
      rw [step_evaluate hAt.next hNot (by rw [hStack]; exact List.cons_ne_nil _ _)] at hStep
      simp only [bind_eq_ok, Prod.exists, pure_eq_ok] at hStep
      obtain ⟨f, c₁, hEvaluate, v, hCombine, rfl⟩ := hStep
      obtain ⟨hValue, nCost, rfl⟩ :=
        evaluate_before hVersion (hFinds _ _ _ hBefore) hBefore hVm hCaller hEvaluate
      have hSplit : program.comparisons = (vDone ++ [cmp]) ++ vLeft := by
        rw [hBefore.1, List.append_assoc, List.singleton_append]
      have hRest : (c.skip cmp.bytes.length).At (program.rest vLeft) := hBefore.2.skip
      have hStack' : v = [(program.joined (vValues ++ [f]), nTop)] := by
        have hSame : combine f [(fTop, nTop)] = .ok v := hStack ▸ hCombine
        rcases hTop with ⟨hNil, hReserved⟩ | ⟨-, hConnective, hJoined⟩
        · subst hNil
          cases hValues
          rw [hReserved] at hSame ⊢
          cases hSame
          exact congrArg (fun f => [(f, OP.RESERVED)]) joined_single.symm
        · rw [hConnective, combine_joined hJoined] at hSame
          rw [hConnective]
          exact (Except.ok.inj hSame).symm
      have hTop' : nTop = OP.RESERVED ∨ nTop = program.connective := by
        rcases hTop with ⟨-, hReserved⟩ | ⟨-, hConnective, -⟩
        · exact .inl hReserved
        · exact .inr hConnective
      exact .after hSplit (by simp) (hRest.congr rfl) hVm hCaller (values_append hValues hValue)
        hStack' hTop'
  | @after vDone vLeft vValues nTop hSplit hDone hAt hVm hCaller hValues hStack hTop =>
      cases vLeft with
      | nil =>
          have hNot := not_atEnd_of_next h.1
          rw [Program.rest, List.flatMap_nil] at hAt
          rw [hAt.atEnd] at hNot
          cases hNot
      | cons cmp vLeft =>
          rw [Program.rest, List.flatMap_cons, List.cons_append] at hAt
          obtain rfl : OPERATION = program.connective := by
            obtain ⟨c₁, hRead⟩ := h.1
            rw [hAt.op.1] at hRead
            exact (Prod.mk.inj (Except.ok.inj hRead)).1.symm
          have hConnect : ∃ nOther strMessage v,
              connect program.connective nOther strMessage c.vEvaluate = .ok v ∧
                c' = { c.skip 1 with vEvaluate := v } := by
            obtain ⟨-, hStep⟩ := h
            rcases program.isConnective with hAnd | hOr
            · rw [hAnd] at hAt
              rw [step_and hAt.next, map_eq_ok] at hStep
              obtain ⟨v, hConnect, rfl⟩ := hStep
              exact ⟨_, _, v, by rw [hAnd]; exact hConnect, rfl⟩
            · rw [hOr] at hAt
              rw [step_or hAt.next, map_eq_ok] at hStep
              obtain ⟨v, hConnect, rfl⟩ := hStep
              exact ⟨_, _, v, by rw [hOr]; exact hConnect, rfl⟩
          obtain ⟨nOther, strMessage, v, hConnect, rfl⟩ := hConnect
          obtain ⟨fTop, nOld, rest, hOld, rfl⟩ := connect_cases hConnect
          rw [hStack] at hOld
          obtain ⟨hHead, rfl⟩ := List.cons.inj hOld
          obtain ⟨rfl, -⟩ := Prod.mk.inj hHead
          exact .before ⟨hSplit, hAt.op.2.congr rfl⟩ hVm hCaller hValues rfl (.inr ⟨hDone, rfl, rfl⟩)

theorem between_start (hBytes : contract.ssCondition.vchData = program.bytes) :
    Between program rt disk caller (fresh contract caller).start := by
  have hBefore : program.Before (fresh contract caller).start [] program.first program.others :=
    ⟨rfl, Nat.zero_le _, hBytes⟩
  have hValues : Values rt disk caller [] [] := rfl
  exact .before hBefore rfl rfl hValues rfl (.inl ⟨rfl, rfl⟩)

/-- What `Execute` comes to is found, so each turn starts and ends between tokens. -/
theorem between_run (hVersion : caller.nVersion = 2)
    (hBytes : contract.ssCondition.vchData = program.bytes)
    (hFinds : program.Finds rt disk caller contract)
    (hRun : Run (Turn rt disk) (fresh contract caller).start vOps c) :
    Between program rt disk caller c := by
  have hKeep (c : Condition) (OPERATION : UInt8) (c' : Condition)
      (h : (∃ vOps, Run (Turn rt disk) (fresh contract caller).start vOps c) ∧
        Between program rt disk caller c) (hTurn : Turn rt disk c OPERATION c') :
      (∃ vOps, Run (Turn rt disk) (fresh contract caller).start vOps c') ∧
        Between program rt disk caller c' := by
    obtain ⟨⟨vOps, hReached⟩, hBetween⟩ := h
    exact ⟨⟨_, hReached.append (.single hTurn)⟩,
      turn_between hVersion (fun _ _ _ => hFinds _ _ _ _ _ hReached) hBetween hTurn⟩
  exact (hRun.invariant hKeep ⟨⟨_, .nil _⟩, between_start hBytes⟩).2

/-- In every run each comparison is evaluated from its first byte and read to its last,
and the result is the value of the program. -/
theorem program_value (hVersion : caller.nVersion = 2)
    (hBytes : contract.ssCondition.vchData = program.bytes)
    (hFinds : program.Finds rt disk caller contract) :
    (∀ vOps c OPERATION fEvaluate c', Run (Turn rt disk) (fresh contract caller).start vOps c →
      c.Next OPERATION → grouping OPERATION = false → c.Evaluate rt disk = .ok (fEvaluate, c') →
      ∃ vDone cmp vLeft, program.Before c vDone cmp vLeft ∧
        cmp.value rt disk caller = .ok fEvaluate ∧
          ∃ nCost, c' = { c.skip cmp.bytes.length with nCost }) ∧
    ∀ fEvaluate nCost, (fresh contract caller).Execute rt disk = .ok (fEvaluate, nCost) →
      program.value rt disk caller = .ok fEvaluate := by
  constructor
  · intro vOps c OPERATION fEvaluate c' hRun hNext hNot hEvaluate
    cases between_run hVersion hBytes hFinds hRun with
    | @before vDone vLeft cmp vValues fTop nTop hBefore hVm hCaller hValues hStack hTop =>
        have hFound := hFinds _ _ _ _ _ hRun hBefore
        have hDone := evaluate_before hVersion hFound hBefore hVm hCaller hEvaluate
        exact ⟨vDone, cmp, vLeft, hBefore, hDone⟩
    | @after vDone vLeft vValues nTop hSplit hDone hAt hVm hCaller hValues hStack hTop =>
        -- a connective is not evaluated
        cases vLeft with
        | nil =>
            have hMore := not_atEnd_of_next hNext
            rw [Program.rest, List.flatMap_nil] at hAt
            rw [hAt.atEnd] at hMore
            cases hMore
        | cons cmp vLeft =>
            rw [Program.rest, List.flatMap_cons, List.cons_append] at hAt
            obtain ⟨c₁, hRead⟩ := hNext
            rw [hAt.op.1] at hRead
            obtain ⟨hSame, -⟩ := Prod.mk.inj (Except.ok.inj hRead)
            rw [← hSame] at hNot
            rcases program.isConnective with hAnd | hOr
            · rw [hAnd] at hNot
              cases hNot
            · rw [hOr] at hNot
              cases hNot
  · intro fEvaluate nCost hExecute
    obtain ⟨vOps, c, hRun, hEnd, -, hResult, -⟩ := Execute_eq_ok.mp hExecute
    cases between_run hVersion hBytes hFinds hRun with
    | @before vDone vLeft cmp vValues fTop nTop hBefore hVm hCaller hValues hStack hTop =>
        obtain ⟨nOP, vchRest, hFirst, -⟩ := grouping_left cmp
        have hAt := hBefore.2
        rw [hFirst, List.cons_append] at hAt
        rw [hAt.not_atEnd] at hEnd
        cases hEnd
    | @after vDone vLeft vValues nTop hSplit hDone hAt hVm hCaller hValues hStack hTop =>
        cases vLeft with
        | nil =>
            rw [List.append_nil] at hSplit
            rw [hStack] at hResult
            cases hResult
            have hAll : program.comparisons.mapM (Comparison.value rt disk caller) = .ok vValues := by
              rw [hSplit]
              exact hValues
            rw [Program.value, hAll]
            rfl
        | cons cmp vLeft =>
            rw [Program.rest, List.flatMap_cons, List.cons_append] at hAt
            rw [hAt.not_atEnd] at hEnd
            cases hEnd

/-- A lookup that succeeds, or one of a register that does not exist. -/
def silverOrMissing : Program where
  first :=
    { left := .register (.UINT256_T silver) (.VALUE ⟨bytesOf "balance", by decide⟩)
      OPERATION := OP.GREATERTHAN
      right := .literal (.UINT64_T 50)
      isCompare := by decide }
  others :=
    [{ left := .register (.UINT256_T 77) .OWNER
       OPERATION := OP.EQUALS
       right := .literal (.UINT256_T alice)
       isCompare := by decide }]
  connective := OP.OR
  isConnective := .inr rfl

/-- A contract with the program for its conditions. -/
def contractOf (program : Program) : Contract where
  ssCondition := { vchData := program.bytes }

@[irreducible]
def silverOrMissingRun : Bool × UInt64 :=
  ((fresh (contractOf silverOrMissing) { nVersion := 2 }).Execute exampleRuntime
    fundedDisk).toOption.getD (false, 0)

theorem finds_silverOrMissing :
    silverOrMissing.Finds exampleRuntime fundedDisk { nVersion := 2 }
      (contractOf silverOrMissing) := by
  intro vOps c vDone cmp vLeft _ hBefore
  have hMem : cmp ∈ silverOrMissing.comparisons := by
    rw [hBefore.1]
    simp
  refine ⟨fun l k vAddress c' hLeft _ => ?_, fun fRet value c' _ l k vAddress c₁ hRight _ => ?_⟩
  · rcases List.mem_pair.mp hMem with rfl | rfl
    · intro hashRegister hAddress
      have hSilver : Term.address (.UINT256_T silver) = .ok silver := by decide +kernel
      rw [hSilver] at hAddress
      obtain rfl := Except.ok.inj hAddress
      decide +kernel
    · exact trivial
  · rcases List.mem_pair.mp hMem with rfl | rfl
    · cases hRight
    · cases hRight

theorem program_value_silver :
    silverOrMissing.value exampleRuntime fundedDisk { nVersion := 2 } =
      .ok silverOrMissingRun.1 := by
  have hExecute : (fresh (contractOf silverOrMissing) { nVersion := 2 }).Execute exampleRuntime
      fundedDisk = .ok silverOrMissingRun := by
    unfold silverOrMissingRun
    exact eq_ok_of_isOk (a := (false, 0)) (by decide +kernel)
  exact (program_value rfl rfl finds_silverOrMissing).2 _ _ hExecute

/-- The value of a missing register, in a field whose name is the bytes of a comparison. -/
def missing : Program where
  first :=
    { left := .literal (.UINT8_T 1)
      OPERATION := OP.EQUALS
      right := .register (.UINT256_T 77)
        (.VALUE ⟨[OP.TYPES.UINT8_T, 1, OP.EQUALS, OP.TYPES.UINT8_T, 1], by decide⟩)
      isCompare := by decide }
  others := []
  connective := OP.AND
  isConnective := .inl rfl

/-- The program is false, and the name of its field is executed and true. -/
theorem program_of_missing :
    missing.value exampleRuntime {} { nVersion := 2 } = .ok false ∧
      ∃ nCost, (fresh (contractOf missing) { nVersion := 2 }).Execute exampleRuntime {} =
        .ok (true, nCost) := by
  have hValue : (missing.value exampleRuntime {} { nVersion := 2 }).toOption = some false := by
    decide +kernel
  have hExecute : ((fresh (contractOf missing) { nVersion := 2 }).Execute exampleRuntime
      {}).toOption = some (true, 35) := by decide +kernel
  exact ⟨toOption_eq_some.mp hValue, 35, toOption_eq_some.mp hExecute⟩

end Nexus.Safety
