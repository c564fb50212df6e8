import Nexus.Legacy.Evaluate

/-!
# Structured scripts

A script is structured when its conditionals are nested.  A structured program is run
by recursion over its blocks; the segments that are not selected are passed over, which
counts their opcodes and tests their pushes.  The flat loop of `EvalScript`, with its
flags, does the same, since a block leaves the flags as it found them.
-/

namespace Nexus.Safety

open Nexus.Lib.Checked
open Nexus.Legacy

namespace Branches

variable (env : ScriptRuntime)

/-! ## Structured programs -/

mutual
/-- A sequence of straight opcodes and blocks. -/
inductive Prog
  | nil
  | op (i : Instr) (rest : Prog)
  /-- `OP_IF` or `OP_NOTIF`, its first segment, and what follows up to its `OP_ENDIF`. -/
  | block (begin : Instr) (body : Prog) (more : Segments) (rest : Prog)

/-- The segments of a block behind the first. -/
inductive Segments
  | endif (i : Instr)
  | els (i : Instr) (body : Prog) (more : Segments)
end

mutual
/-- The instructions of a program in their order. -/
def Prog.flatten : Prog → List Instr
  | .nil => []
  | .op i rest => i :: rest.flatten
  | .block begin body more rest => begin :: (body.flatten ++ (more.flatten ++ rest.flatten))

def Segments.flatten : Segments → List Instr
  | .endif i => [i]
  | .els i body more => i :: (body.flatten ++ more.flatten)
end

mutual
/-- The opcodes stand where they belong.  The opcodes from `OP_IF` to `OP_ENDIF` are not straight:
`OP_VERIF` and `OP_VERNOTIF`, which lie between, are rejected even where they are passed over. -/
def Prog.WF : Prog → Prop
  | .nil => True
  | .op i rest => ¬ (OP_IF ≤ i.opcode ∧ i.opcode ≤ OP_ENDIF) ∧ rest.WF
  | .block begin body more rest =>
      (begin.opcode = OP_IF ∨ begin.opcode = OP_NOTIF) ∧ body.WF ∧ more.WF ∧ rest.WF

def Segments.WF : Segments → Prop
  | .endif i => i.opcode = OP_ENDIF
  | .els i body more => i.opcode = OP_ELSE ∧ body.WF ∧ more.WF
end

/-- Pass over an instruction: the limits are tested as for one that is executed. -/
def pass (i : Instr) (st : Machine) : Except Fail Machine := countOp i st >>= limitStack

mutual
/-- Pass over a program that is not selected. -/
def Prog.skip : Prog → Machine → Except Fail Machine
  | .nil, st => .ok st
  | .op i rest, st => pass i st >>= rest.skip
  | .block begin body more rest, st => pass begin st >>= body.skip >>= more.skip >>= rest.skip

def Segments.skip : Segments → Machine → Except Fail Machine
  | .endif i, st => pass i st
  | .els i body more, st => pass i st >>= body.skip >>= more.skip
end

mutual
/-- The structured run: a block pops one condition and runs alternate segments from the one on
that the condition selects. -/
def Prog.run : Prog → Machine → Except Fail Machine
  | .nil, st => .ok st
  | .op i rest, st => countOp i st >>= execute env i >>= limitStack >>= rest.run
  | .block begin body more rest, st => do
    let st ← countOp begin st
    let (fValue, st) ← popCondition begin.opcode st
    let st ← limitStack st
    (if fValue then body.run st else body.skip st) >>= more.run (!fValue) >>= rest.run

def Segments.run : Segments → Bool → Machine → Except Fail Machine
  | .endif i, _, st => pass i st
  | .els i body more, fSelected, st => do
    let st ← pass i st
    (if fSelected then body.run st else body.skip st) >>= more.run (!fSelected)
end

/-! ## The flat loop over instructions -/

/-- The loop of `EvalScript` over instructions that are read already. -/
def evalList : List Instr → List Bool → Machine → Except Fail (List Bool × Machine)
  | [], vfExec, st => .ok (vfExec, st)
  | i :: is, vfExec, st => do
    let (vfExec, st) ← evalStep env i vfExec st
    evalList is vfExec st

theorem evalList_append (is js : List Instr) (vfExec : List Bool) (st : Machine) :
    evalList env (is ++ js) vfExec st =
      evalList env is vfExec st >>= fun r => evalList env js r.1 r.2 := by
  induction is generalizing vfExec st with
  | nil => rfl
  | cons i is ih =>
      rw [List.cons_append, evalList, evalList, bind_assoc]
      congr 1
      funext r
      exact ih r.1 r.2

/-- The flags after a computation of the state. -/
def withFlags (vfExec : List Bool) (x : Except Fail Machine) : Except Fail (List Bool × Machine) :=
  x.map fun st => (vfExec, st)

theorem withFlags_bind (vfExec : List Bool) (x : Except Fail Machine)
    (f : List Bool × Machine → Except Fail (List Bool × Machine)) :
    (withFlags vfExec x >>= f) = x >>= fun st => f (vfExec, st) := by
  cases x <;> rfl

theorem withFlags_of_bind (vfExec : List Bool) (x : Except Fail Machine)
    (f : Machine → Except Fail Machine) :
    withFlags vfExec (x >>= f) = x >>= fun st => withFlags vfExec (f st) := by
  cases x <;> rfl

/-! ## One instruction -/

@[simp] theorem fExec_cons (f : Bool) (vfExec : List Bool) :
    fExec (f :: vfExec) = (f && fExec vfExec) := rfl

/-- The opcodes that change the flags are between `OP_IF` and `OP_ENDIF`. -/
theorem not_control {opcode : UInt8} (h : ¬ (OP_IF ≤ opcode ∧ opcode ≤ OP_ENDIF)) :
    ¬ (opcode = OP_IF ∨ opcode = OP_NOTIF) ∧ opcode ≠ OP_ELSE ∧ opcode ≠ OP_ENDIF := by
  refine ⟨?_, ?_, ?_⟩
  · rintro (rfl | rfl)
    · exact h (by decide)
    · exact h (by decide)
  · rintro rfl
    exact h (by decide)
  · rintro rfl
    exact h (by decide)

/-- A turn whose dispatch gives new flags and leaves the state is the pass over the instruction. -/
theorem evalStep_flags {i : Instr} {vfExec vfExec' : List Bool}
    (h : ∀ st, dispatch env i vfExec st = .ok (vfExec', st)) (st : Machine) :
    evalStep env i vfExec st = withFlags vfExec' (pass i st) := by
  rw [evalStep, pass]
  cases countOp i st with
  | error e => rfl
  | ok st' =>
      rw [ok_bind, ok_bind, h, ok_bind]
      show (limitStack st' >>= fun st => pure (vfExec', st)) = withFlags vfExec' (limitStack st')
      cases limitStack st' <;> rfl

/-- A straight instruction that is passed over. -/
theorem evalStep_pass {i : Instr} {vfExec : List Bool} (hExec : fExec vfExec = false)
    (hOp : ¬ (OP_IF ≤ i.opcode ∧ i.opcode ≤ OP_ENDIF)) (st : Machine) :
    evalStep env i vfExec st = withFlags vfExec (pass i st) := by
  obtain ⟨hIf, hElse, hEndif⟩ := not_control hOp
  apply evalStep_flags
  intro st
  unfold dispatch
  rw [if_neg hIf, if_neg hElse, if_neg hEndif, if_neg]
  simp [hExec, hOp]

/-- A straight instruction that is executed. -/
theorem evalStep_execute {i : Instr} {vfExec : List Bool} (hExec : fExec vfExec = true)
    (hOp : ¬ (OP_IF ≤ i.opcode ∧ i.opcode ≤ OP_ENDIF)) (st : Machine) :
    evalStep env i vfExec st =
      withFlags vfExec (countOp i st >>= execute env i >>= limitStack) := by
  obtain ⟨hIf, hElse, hEndif⟩ := not_control hOp
  rw [evalStep]
  cases countOp i st with
  | error e => rfl
  | ok st' =>
      have hDispatch : dispatch env i vfExec st' = withFlags vfExec (execute env i st') := by
        unfold dispatch
        rw [if_neg hIf, if_neg hElse, if_neg hEndif, if_pos (.inl hExec)]
        cases execute env i st' <;> rfl
      rw [ok_bind, ok_bind, hDispatch, withFlags_bind, withFlags_of_bind]
      congr 1

/-- The begin of a block that is passed over. -/
theorem evalStep_begin_pass {i : Instr} {vfExec : List Bool} (hExec : fExec vfExec = false)
    (hOp : i.opcode = OP_IF ∨ i.opcode = OP_NOTIF) (st : Machine) :
    evalStep env i vfExec st = withFlags (false :: vfExec) (pass i st) := by
  apply evalStep_flags
  intro st
  unfold dispatch
  rw [if_pos hOp, if_neg]
  simp [hExec]

/-- The begin of a block that is executed. -/
theorem evalStep_begin {i : Instr} {vfExec : List Bool} (hExec : fExec vfExec = true)
    (hOp : i.opcode = OP_IF ∨ i.opcode = OP_NOTIF) (st : Machine) :
    evalStep env i vfExec st = (do
      let st ← countOp i st
      let (fValue, st) ← popCondition i.opcode st
      let st ← limitStack st
      return (fValue :: vfExec, st)) := by
  rw [evalStep]
  congr 1
  funext st'
  unfold dispatch
  rw [if_pos hOp, if_pos hExec]
  cases popCondition i.opcode st' <;> rfl

theorem evalStep_else {i : Instr} (hOp : i.opcode = OP_ELSE) (f : Bool) (vfExec : List Bool)
    (st : Machine) : evalStep env i (f :: vfExec) st = withFlags ((!f) :: vfExec) (pass i st) := by
  apply evalStep_flags
  intro st
  unfold dispatch
  rw [if_neg (by rw [hOp]; decide), if_pos hOp]

theorem evalStep_endif {i : Instr} (hOp : i.opcode = OP_ENDIF) (f : Bool) (vfExec : List Bool)
    (st : Machine) : evalStep env i (f :: vfExec) st = withFlags vfExec (pass i st) := by
  apply evalStep_flags
  intro st
  unfold dispatch
  rw [if_neg (by rw [hOp]; decide), if_neg (by rw [hOp]; decide), if_pos hOp]

/-! ## The simulation -/

mutual
/-- A program below a flag that is false is passed over, and leaves the flags as they were. -/
theorem evalList_skip : (p : Prog) → p.WF → (vfExec : List Bool) → fExec vfExec = false →
    (st : Machine) → evalList env p.flatten vfExec st = withFlags vfExec (p.skip st)
  | .nil, _, _, _, _ => rfl
  | .op i rest, hWF, vfExec, hExec, st => by
      rw [Prog.flatten, evalList, evalStep_pass env hExec hWF.1, withFlags_bind, Prog.skip,
        withFlags_of_bind]
      congr 1
      funext st'
      exact evalList_skip rest hWF.2 vfExec hExec st'
  | .block begin body more rest, hWF, vfExec, hExec, st => by
      obtain ⟨hBegin, hBody, hMore, hRest⟩ := hWF
      have hBelow : fExec (false :: vfExec) = false := rfl
      rw [Prog.flatten, evalList, evalStep_begin_pass env hExec hBegin, withFlags_bind, Prog.skip,
        bind_assoc, bind_assoc, withFlags_of_bind]
      congr 1
      funext st₁
      show evalList env (body.flatten ++ _) (false :: vfExec) st₁ = _
      rw [evalList_append, evalList_skip body hBody _ hBelow, withFlags_bind, withFlags_of_bind]
      congr 1
      funext st₂
      rw [evalList_append, segments_skip more hMore vfExec hExec, withFlags_bind, withFlags_of_bind]
      congr 1
      funext st₃
      exact evalList_skip rest hRest vfExec hExec st₃

theorem segments_skip : (s : Segments) → s.WF → (vfExec : List Bool) → fExec vfExec = false →
    (f : Bool) → (st : Machine) →
      evalList env s.flatten (f :: vfExec) st = withFlags vfExec (s.skip st)
  | .endif i, hWF, vfExec, hExec, f, st => by
      rw [Segments.flatten, evalList, evalStep_endif env hWF, withFlags_bind, Segments.skip]
      cases pass i st <;> rfl
  | .els i body more, hWF, vfExec, hExec, f, st => by
      obtain ⟨hElse, hBody, hMore⟩ := hWF
      have hBelow : fExec ((!f) :: vfExec) = false := by simp [hExec]
      rw [Segments.flatten, evalList, evalStep_else env hElse, withFlags_bind, Segments.skip,
        bind_assoc, withFlags_of_bind]
      congr 1
      funext st₁
      show evalList env (body.flatten ++ _) ((!f) :: vfExec) st₁ = _
      rw [evalList_append, evalList_skip body hBody _ hBelow, withFlags_bind, withFlags_of_bind]
      congr 1
      funext st₂
      exact segments_skip more hMore vfExec hExec _ st₂
end

mutual
/-- A program below flags that are true is run, and leaves the flags as they were. -/
theorem evalList_run : (p : Prog) → p.WF → (vfExec : List Bool) → fExec vfExec = true →
    (st : Machine) → evalList env p.flatten vfExec st = withFlags vfExec (p.run env st)
  | .nil, _, _, _, _ => rfl
  | .op i rest, hWF, vfExec, hExec, st => by
      rw [Prog.flatten, evalList, evalStep_execute env hExec hWF.1, withFlags_bind, Prog.run,
        withFlags_of_bind]
      congr 1
      funext st'
      exact evalList_run rest hWF.2 vfExec hExec st'
  | .block begin body more rest, hWF, vfExec, hExec, st => by
      obtain ⟨hBegin, hBody, hMore, hRest⟩ := hWF
      rw [Prog.flatten, evalList, evalStep_begin env hExec hBegin, Prog.run]
      cases countOp begin st with
      | error e => rfl
      | ok st₁ =>
          rw [ok_bind, ok_bind]
          cases popCondition begin.opcode st₁ with
          | error e => rfl
          | ok r =>
              rw [ok_bind, ok_bind]
              show ((limitStack r.2 >>= _) >>= _) = withFlags vfExec (limitStack r.2 >>= _)
              cases limitStack r.2 with
              | error e => rfl
              | ok st₂ =>
                  rw [ok_bind, ok_bind, bind_assoc]
                  show evalList env _ (r.1 :: vfExec) st₂ = _
                  have hBelow : fExec (r.1 :: vfExec) = r.1 := by simp [hExec]
                  have hBodyRun : evalList env body.flatten (r.1 :: vfExec) st₂ =
                      withFlags (r.1 :: vfExec)
                        (if r.1 = true then body.run env st₂ else body.skip st₂) := by
                    by_cases hValue : r.1 = true
                    · rw [if_pos hValue]
                      exact evalList_run body hBody _ (hBelow.trans hValue) st₂
                    · rw [if_neg hValue]
                      exact evalList_skip env body hBody _
                        (hBelow.trans (Bool.eq_false_iff.mpr hValue)) st₂
                  rw [evalList_append, hBodyRun, withFlags_bind, withFlags_of_bind]
                  congr 1
                  funext st₃
                  rw [evalList_append, segments_run more hMore vfExec hExec, withFlags_bind,
                    withFlags_of_bind]
                  congr 1
                  funext st₄
                  exact evalList_run rest hRest vfExec hExec st₄

theorem segments_run : (s : Segments) → s.WF → (vfExec : List Bool) → fExec vfExec = true →
    (f : Bool) → (st : Machine) →
      evalList env s.flatten (f :: vfExec) st = withFlags vfExec (s.run env (!f) st)
  | .endif i, hWF, vfExec, hExec, f, st => by
      rw [Segments.flatten, evalList, evalStep_endif env hWF, withFlags_bind, Segments.run]
      cases pass i st <;> rfl
  | .els i body more, hWF, vfExec, hExec, f, st => by
      obtain ⟨hElse, hBody, hMore⟩ := hWF
      have hBelow : fExec ((!f) :: vfExec) = !f := by simp [hExec]
      rw [Segments.flatten, evalList, evalStep_else env hElse, withFlags_bind, Segments.run,
        withFlags_of_bind]
      congr 1
      funext st₁
      show evalList env (body.flatten ++ _) ((!f) :: vfExec) st₁ = _
      have hBodyRun : evalList env body.flatten ((!f) :: vfExec) st₁ =
          withFlags ((!f) :: vfExec)
            (if (!f) = true then body.run env st₁ else body.skip st₁) := by
        by_cases hValue : (!f) = true
        · rw [if_pos hValue]
          exact evalList_run body hBody _ (hBelow.trans hValue) st₁
        · rw [if_neg hValue]
          exact evalList_skip env body hBody _ (hBelow.trans (Bool.eq_false_iff.mpr hValue)) st₁
      rw [evalList_append, hBodyRun, withFlags_bind, withFlags_of_bind]
      congr 1
      funext st₂
      exact segments_run more hMore vfExec hExec _ st₂
end

/-! ## Scripts as bytes -/

/-- The instructions of a script, where all of it can be read. -/
def parse : Nat → List UInt8 → Option (List Instr)
  | _, [] => some []
  | 0, _ :: _ => none
  | fuel + 1, x :: pc =>
    match GetOp2 (x :: pc) with
    | none => none
    | some i => (parse fuel i.pc).map (i :: ·)

/-- The loop over the bytes is the loop over the instructions, as far as they can be read. -/
theorem evalLoop_eq (fuel : Nat) (pc : List UInt8) (vfExec : List Bool) (st : Machine)
    {is : List Instr} (h : parse fuel pc = some is) :
    evalLoop env fuel pc vfExec st = evalList env is vfExec st := by
  induction fuel generalizing pc vfExec st is with
  | zero =>
      cases pc with
      | nil =>
          obtain rfl : [] = is := Option.some.inj h
          rfl
      | cons x pc => simp [parse] at h
  | succ fuel ih =>
      cases pc with
      | nil =>
          obtain rfl : [] = is := Option.some.inj h
          rfl
      | cons x pc =>
          rw [parse] at h
          rw [evalLoop]
          cases hOp : GetOp2 (x :: pc) with
          | none => simp [hOp] at h
          | some i =>
              rw [hOp] at h
              obtain ⟨is', hParse, rfl⟩ := Option.map_eq_some_iff.mp h
              show (evalStep env i vfExec st >>= _) = _
              rw [evalList]
              congr 1
              funext r
              exact ih i.pc r.1 r.2 hParse

theorem evalLoop_parsed {fuel : Nat} {pc : List UInt8} {vfExec : List Bool} {st : Machine}
    {r : List Bool × Machine} (h : evalLoop env fuel pc vfExec st = .ok r) :
    ∃ is, parse fuel pc = some is := by
  induction fuel generalizing pc vfExec st with
  | zero =>
      cases pc with
      | nil => exact ⟨[], rfl⟩
      | cons x pc => simp [evalLoop] at h
  | succ fuel ih =>
      cases pc with
      | nil => exact ⟨[], rfl⟩
      | cons x pc =>
          rw [evalLoop] at h
          rw [parse]
          cases hOp : GetOp2 (x :: pc) with
          | none => simp [hOp] at h
          | some i =>
              rw [hOp] at h
              obtain ⟨r', -, hRest⟩ := bind_eq_ok.mp h
              obtain ⟨is, hParse⟩ := ih hRest
              refine ⟨i :: is, ?_⟩
              show (parse fuel i.pc).map (i :: ·) = _
              rw [hParse]
              rfl

/-- The depth behind some instructions, where no block is closed or divided that is not open. -/
def depth : List Instr → Nat → Option Nat
  | [], n => some n
  | i :: is, n =>
    if i.opcode = OP_IF ∨ i.opcode = OP_NOTIF then depth is (n + 1)
    else if i.opcode = OP_ENDIF then if n = 0 then none else depth is (n - 1)
    else depth is n

theorem dispatch_length {i : Instr} {vfExec vfExec' : List Bool} {st st' : Machine}
    (h : dispatch env i vfExec st = .ok (vfExec', st')) :
    depth [i] vfExec.length = some vfExec'.length := by
  unfold dispatch at h
  rw [depth]
  by_cases hIf : i.opcode = OP_IF ∨ i.opcode = OP_NOTIF
  · rw [if_pos hIf] at h ⊢
    by_cases hExec : fExec vfExec = true
    · rw [if_pos hExec] at h
      obtain ⟨r, -, hRest⟩ := bind_eq_ok.mp h
      obtain ⟨hFlags, -⟩ := Prod.mk.inj (Except.ok.inj hRest)
      rw [← hFlags]
      rfl
    · rw [if_neg hExec] at h
      obtain ⟨hFlags, -⟩ := Prod.mk.inj (Except.ok.inj h)
      rw [← hFlags]
      rfl
  · rw [if_neg hIf] at h ⊢
    by_cases hElse : i.opcode = OP_ELSE
    · rw [if_pos hElse] at h
      rw [if_neg (by rw [hElse]; decide)]
      cases vfExec with
      | nil => cases h
      | cons f vfExec =>
          obtain ⟨hFlags, -⟩ := Prod.mk.inj (Except.ok.inj h)
          rw [← hFlags]
          rfl
    · rw [if_neg hElse] at h
      by_cases hEndif : i.opcode = OP_ENDIF
      · rw [if_pos hEndif] at h ⊢
        cases vfExec with
        | nil => cases h
        | cons f vfExec =>
            obtain ⟨hFlags, -⟩ := Prod.mk.inj (Except.ok.inj h)
            rw [← hFlags]
            rfl
      · rw [if_neg hEndif] at h ⊢
        split at h
        · obtain ⟨r, -, hRest⟩ := bind_eq_ok.mp h
          obtain ⟨hFlags, -⟩ := Prod.mk.inj (Except.ok.inj hRest)
          rw [← hFlags]
          rfl
        · obtain ⟨hFlags, -⟩ := Prod.mk.inj (Except.ok.inj h)
          rw [← hFlags]
          rfl

theorem depth_cons (i : Instr) (is : List Instr) (n : Nat) :
    depth (i :: is) n = depth [i] n >>= depth is := by
  simp only [depth]
  split
  · rfl
  · split
    · split <;> rfl
    · rfl

/-- `OP_VERIF` and `OP_VERNOTIF` are dispatched wherever they stand. -/
theorem dispatch_verif {i : Instr} {vfExec : List Bool} {st : Machine}
    (hVerif : i.opcode = OP_VERIF ∨ i.opcode = OP_VERNOTIF) :
    dispatch env i vfExec st = .error .rejected := by
  rcases hVerif with hVerif | hVerif
  · simp [dispatch, execute, hVerif, OP_VERIF, OP_IF, OP_NOTIF, OP_ELSE, OP_ENDIF, OP_PUSHDATA4,
      OP_1NEGATE, OP_1, OP_16, OP_NOP, OP_NOP1, OP_NOP10, OP_VERIFY, OP_RETURN, OP_TOALTSTACK,
      OP_FROMALTSTACK, OP_CHECKMULTISIG, OP_CHECKMULTISIGVERIFY, bind, Except.bind]
  · simp [dispatch, execute, hVerif, OP_VERNOTIF, OP_IF, OP_NOTIF, OP_ELSE, OP_ENDIF, OP_PUSHDATA4,
      OP_1NEGATE, OP_1, OP_16, OP_NOP, OP_NOP1, OP_NOP10, OP_VERIFY, OP_RETURN, OP_TOALTSTACK,
      OP_FROMALTSTACK, OP_CHECKMULTISIG, OP_CHECKMULTISIGVERIFY, OP_VERIF, bind, Except.bind]

/-- A script that is accepted closes what it opens, and holds no opcode that is rejected wherever it
stands. -/
theorem evalList_balanced {is : List Instr} {vfExec vfExec' : List Bool} {st st' : Machine}
    (h : evalList env is vfExec st = .ok (vfExec', st')) :
    depth is vfExec.length = some vfExec'.length ∧
      ∀ i ∈ is, i.opcode ∉ disabled ∧ ¬ (i.opcode = OP_VERIF ∨ i.opcode = OP_VERNOTIF) := by
  induction is generalizing vfExec st with
  | nil =>
      obtain ⟨hFlags, -⟩ := Prod.mk.inj (Except.ok.inj h)
      rw [hFlags]
      exact ⟨rfl, by simp⟩
  | cons i is ih =>
      rw [evalList] at h
      obtain ⟨⟨vfExec₁, st₁⟩, hStep, hRest⟩ := bind_eq_ok.mp h
      rw [evalStep] at hStep
      obtain ⟨stCount, hCount, hStep⟩ := bind_eq_ok.mp hStep
      obtain ⟨⟨vfExec₂, st₂⟩, hDispatch, hStep⟩ := bind_eq_ok.mp hStep
      obtain ⟨st₃, -, hEnd⟩ := bind_eq_ok.mp hStep
      obtain ⟨hFlags, -⟩ := Prod.mk.inj (Except.ok.inj hEnd)
      subst hFlags
      obtain ⟨hDepth, hDisabled⟩ := ih hRest
      refine ⟨?_, ?_⟩
      · rw [depth_cons, dispatch_length env hDispatch]
        exact hDepth
      · intro j hj
        rcases List.mem_cons.mp hj with rfl | hj
        · rw [countOp] at hCount
          simp only [bind_eq_ok, reject_eq_ok] at hCount
          obtain ⟨-, -, -, -, -, hNot, -⟩ := hCount
          refine ⟨hNot, fun hVerif => ?_⟩
          rw [dispatch_verif env hVerif] at hDispatch
          cases hDispatch
        · exact hDisabled j hj

end Branches

open Branches

/-- A structured script of at most 10000 bytes is accepted with the state in which its program
ends.  Every script that is accepted can be read to its end, closes what it opens and holds no
disabled opcode, no `OP_VERIF` and no `OP_VERNOTIF`. -/
theorem script_structured (env : ScriptRuntime) (stack : List (List UInt8)) (script : List UInt8)
    (st : Machine) :
    (∀ p : Prog, parse script.length script = some p.flatten → p.WF →
      (EvalScript env stack script = .ok st ↔
        script.length ≤ 10000 ∧ p.run env { stack, codehash := script } = .ok st)) ∧
    (EvalScript env stack script = .ok st →
      ∃ is, parse script.length script = some is ∧ depth is 0 = some 0 ∧
        ∀ i ∈ is, i.opcode ∉ disabled ∧ ¬ (i.opcode = OP_VERIF ∨ i.opcode = OP_VERNOTIF)) := by
  constructor
  · intro p hParse hWF
    have hLoop := evalLoop_eq env script.length script [] { stack, codehash := script } hParse
    rw [evalList_run env p hWF [] rfl] at hLoop
    simp only [EvalScript, hLoop, bind_eq_ok, reject_eq_ok, not_lt]
    constructor
    · rintro ⟨-, hSize, r, hFlags, -, -, hEnd⟩
      obtain ⟨st', hRun, rfl⟩ := map_eq_ok.mp hFlags
      exact ⟨hSize, hRun.trans hEnd⟩
    · rintro ⟨hSize, hRun⟩
      exact ⟨(), hSize, ([], st), map_eq_ok.mpr ⟨st, hRun, rfl⟩, (), by simp, rfl⟩
  · intro h
    simp only [EvalScript, bind_eq_ok, reject_eq_ok, Prod.exists] at h
    obtain ⟨-, -, vfExec, st', hLoop, -, hFlags, -⟩ := h
    obtain rfl : vfExec = [] := not_not.mp hFlags
    obtain ⟨is, hParse⟩ := evalLoop_parsed env hLoop
    rw [evalLoop_eq env _ _ _ _ hParse] at hLoop
    obtain ⟨hDepth, hDisabled⟩ := evalList_balanced env hLoop
    exact ⟨is, hParse, hDepth, hDisabled⟩

/-- An environment whose other opcodes do nothing. -/
def plainScript : ScriptRuntime where
  CheckSig _ _ _ := false
  FindAndDelete code _ := code
  other _ st := .ok st

/-- `OP_1 OP_IF OP_1 OP_ELSE OP_0 OP_ENDIF`. -/
def elseScript : List UInt8 := [0x51, 0x63, 0x51, 0x67, 0x00, 0x68]

def elseProg : Prog :=
  .op ⟨0x51, [], [0x63, 0x51, 0x67, 0x00, 0x68]⟩
    (.block ⟨0x63, [], [0x51, 0x67, 0x00, 0x68]⟩ (.op ⟨0x51, [], [0x67, 0x00, 0x68]⟩ .nil)
      (.els ⟨0x67, [], [0x00, 0x68]⟩ (.op ⟨0x00, [], [0x68]⟩ .nil) (.endif ⟨0x68, [], []⟩)) .nil)

/-- The script is read as the program, which takes the first branch. -/
example :
    parse elseScript.length elseScript = some elseProg.flatten ∧ elseProg.WF ∧
      (elseProg.run plainScript { stack := [], codehash := elseScript }).map (·.stack) = .ok [[1]] :=
  ⟨by decide, by simp [elseProg, Prog.WF, Segments.WF]; decide, by decide⟩

/-- `OP_VERIF` in a branch that is not taken. -/
def verifScript : List UInt8 := [0x00, 0x63, 0x65, 0x68]

def verifProg : Prog :=
  .op ⟨0x00, [], [0x63, 0x65, 0x68]⟩
    (.block ⟨0x63, [], [0x65, 0x68]⟩ (.op ⟨0x65, [], [0x68]⟩ .nil) (.endif ⟨0x68, [], []⟩) .nil)

/-- The structured program ends with the empty stack, and the script is rejected. -/
theorem verif_rejected :
    parse verifScript.length verifScript = some verifProg.flatten ∧
    (∀ i ∈ verifProg.flatten, i.opcode ∉ disabled) ∧
    (∃ st, verifProg.run plainScript { stack := [], codehash := verifScript } = .ok st ∧
      st.stack = []) ∧
    EvalScript plainScript [] verifScript = .error .rejected := by
  refine ⟨by decide, by decide, ⟨_, rfl, rfl⟩, rfl⟩

end Nexus.Safety
