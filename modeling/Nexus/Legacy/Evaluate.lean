import Nexus.Lib.Checked
import Nexus.LLC.BigNum

/-!
# The evaluation of scripts

`Script::GetOp2` and the loop of `EvalScript`: the limits, the opcodes that control
which parts of a script are executed, the pushes, and `OP_CHECKMULTISIG`.  The other
opcodes are a function of the environment.

A stack is a list with its top first, so that `stacktop(-i)` is the entry at `i - 1`.
An error of a read outside of the stack is told from the `false` that a case returns,
though the script fails with either.
-/

namespace Nexus.Legacy

open Nexus.Lib.Checked
open Nexus.Lib.Bytes
open Nexus.LLC

def OP_PUSHDATA1 : UInt8 := 0x4c
def OP_PUSHDATA2 : UInt8 := 0x4d
def OP_PUSHDATA4 : UInt8 := 0x4e
def OP_1NEGATE : UInt8 := 0x4f
def OP_1 : UInt8 := 0x51
def OP_16 : UInt8 := 0x60
def OP_NOP : UInt8 := 0x61
def OP_IF : UInt8 := 0x63
def OP_NOTIF : UInt8 := 0x64
def OP_VERIF : UInt8 := 0x65
def OP_VERNOTIF : UInt8 := 0x66
def OP_ELSE : UInt8 := 0x67
def OP_ENDIF : UInt8 := 0x68
def OP_VERIFY : UInt8 := 0x69
def OP_RETURN : UInt8 := 0x6a
def OP_TOALTSTACK : UInt8 := 0x6b
def OP_FROMALTSTACK : UInt8 := 0x6c
def OP_CHECKMULTISIG : UInt8 := 0xae
def OP_CHECKMULTISIGVERIFY : UInt8 := 0xaf
def OP_NOP1 : UInt8 := 0xb0
def OP_NOP10 : UInt8 := 0xb9

/-- `OP_CAT`, `OP_SUBSTR`, `OP_LEFT`, `OP_RIGHT`, `OP_INVERT`, `OP_AND`, `OP_OR`, `OP_XOR`,
`OP_2MUL`, `OP_2DIV`, `OP_MUL`, `OP_DIV`, `OP_MOD`, `OP_LSHIFT` and `OP_RSHIFT`. -/
def disabled : List UInt8 :=
  [0x7e, 0x7f, 0x80, 0x81, 0x83, 0x84, 0x85, 0x86, 0x8d, 0x8e, 0x95, 0x96, 0x97, 0x98, 0x99]

/-- An instruction as it is read: the opcode, the pushed value, and the script behind it. -/
structure Instr where
  opcode : UInt8
  vchPushValue : List UInt8
  pc : List UInt8
  deriving DecidableEq

/-- The immediate operand: `nSize` bytes. -/
def getData (opcode : UInt8) (nSize : Nat) (pc : List UInt8) : Option Instr :=
  if pc.length < nSize then none else some ⟨opcode, pc.take nSize, pc.drop nSize⟩

/-- `Script::GetOp2` -/
def GetOp2 : List UInt8 → Option Instr
  | [] => none
  | opcode :: pc =>
    if opcode ≤ OP_PUSHDATA4 then
      if opcode < OP_PUSHDATA1 then getData opcode opcode.toNat pc
      else if opcode = OP_PUSHDATA1 then
        if pc.length < 1 then none else getData opcode (leNat (pc.take 1)) (pc.drop 1)
      else if opcode = OP_PUSHDATA2 then
        if pc.length < 2 then none else getData opcode (leNat (pc.take 2)) (pc.drop 2)
      else if pc.length < 4 then none else getData opcode (leNat (pc.take 4)) (pc.drop 4)
    else some ⟨opcode, [], pc⟩

/-- Why the evaluation ends with `false`. -/
inductive Fail
  /-- A case returns `false`, or a conversion throws. -/
  | rejected
  /-- `stack.at` is asked for an entry that is not there, or an empty stack is popped. -/
  | outside
  deriving DecidableEq

/-- The state between two instructions. -/
structure Machine where
  stack : List (List UInt8)
  altstack : List (List UInt8) := []
  nOpCount : Nat := 0
  /-- The script from the last code separator on. -/
  codehash : List UInt8 := []
  deriving DecidableEq

/-- `stacktop(-i)` -/
def stacktop (stack : List (List UInt8)) (i : Nat) : Except Fail (List UInt8) :=
  demand (if i = 0 then none else stack[i - 1]?) .outside

/-- `popstack`, so many times. -/
def popstack : Nat → List (List UInt8) → Except Fail (List (List UInt8))
  | 0, stack => .ok stack
  | _ + 1, [] => .error .outside
  | n + 1, _ :: stack => popstack n stack

/-- The loop of `CastToBool`: a negative zero is false. -/
def CastToBool : List UInt8 → Bool
  | [] => false
  | x :: vch => if x ≠ 0 then !(vch = [] && x = 0x80) else CastToBool vch

/-- `CastToBigNum(vch).getint32()`, for at most `nMaxNumSize` bytes. -/
def CastToInt (vch : List UInt8) : Except Fail Int :=
  if 4 < vch.length then .error .rejected
  else .ok (CBigNum.getint32 (CBigNum.setvch (CBigNum.getvch (CBigNum.setvch vch))))

def vchFalse : List UInt8 := []
def vchTrue : List UInt8 := [1]

/-- What `EvalScript` uses of a signature check and of the opcodes that are not given here. -/
structure ScriptRuntime where
  /-- `CheckSig` of a signature and a key, under the code that is signed. -/
  CheckSig : List UInt8 → List UInt8 → List UInt8 → Bool
  /-- `scriptCode.FindAndDelete(Script(vchSig))` -/
  FindAndDelete : List UInt8 → List UInt8 → List UInt8
  /-- The cases of the other opcodes. -/
  other : Instr → Machine → Except Fail Machine

/-! ## Multiple signatures -/

/-- The code that is signed, without the signatures at `isig` and behind. -/
def scriptCode (env : ScriptRuntime) (stack : List (List UInt8)) (isig : Nat) :
    Nat → List UInt8 → Except Fail (List UInt8)
  | 0, code => .ok code
  | k + 1, code => do
    let code ← scriptCode env stack isig k code
    let vchSig ← stacktop stack (isig + k)
    return env.FindAndDelete code vchSig

/-- `while(fSuccess && nSigsCount > 0)`, with `nKeysCount` keys left.  The loop is left before
there are fewer keys than signatures. -/
def matchLoop (check : List UInt8 → List UInt8 → Bool) (stack : List (List UInt8)) :
    Nat → Nat → Nat → Nat → Except Fail Bool
  | _, _, 0, _ => .ok true
  | _, _, _ + 1, 0 => .ok false
  | isig, ikey, nSigsCount + 1, nKeysCount + 1 => do
    let vchSig ← stacktop stack isig
    let vchPubKey ← stacktop stack ikey
    if check vchSig vchPubKey then
      if nSigsCount > nKeysCount then return false
      else matchLoop check stack (isig + 1) (ikey + 1) nSigsCount nKeysCount
    else if nSigsCount + 1 > nKeysCount then return false
    else matchLoop check stack isig (ikey + 1) (nSigsCount + 1) nKeysCount

/-- The case of `OP_CHECKMULTISIG` and of `OP_CHECKMULTISIGVERIFY`. -/
def checkMultiSig (env : ScriptRuntime) (fVerify : Bool) (st : Machine) : Except Fail Machine := do
  reject (st.stack.length < 1) .rejected
  let nKeysCount ← CastToInt (← stacktop st.stack 1)
  reject (nKeysCount < 0 ∨ 20 < nKeysCount) .rejected
  let nKeysCount := nKeysCount.toNat
  let nOpCount := st.nOpCount + nKeysCount
  reject (201 < nOpCount) .rejected
  let ikey := 2
  let i := ikey + nKeysCount
  reject (st.stack.length < i) .rejected
  let nSigsCount ← CastToInt (← stacktop st.stack i)
  reject (nSigsCount < 0 ∨ nKeysCount < nSigsCount) .rejected
  let nSigsCount := nSigsCount.toNat
  let isig := i + 1
  let i := isig + nSigsCount
  reject (st.stack.length < i) .rejected
  let code ← scriptCode env st.stack isig nSigsCount st.codehash
  let fSuccess ← matchLoop (env.CheckSig · · code) st.stack isig ikey nSigsCount nKeysCount
  let stack ← popstack i st.stack
  let st := { st with nOpCount, stack := (if fSuccess then vchTrue else vchFalse) :: stack }
  if fVerify then
    if fSuccess then return { st with stack } else .error .rejected
  else return st

/-! ## The loop -/

/-- The tests before an instruction is executed. -/
def countOp (i : Instr) (st : Machine) : Except Fail Machine := do
  reject (520 < i.vchPushValue.length) .rejected
  let nOpCount := if OP_16 < i.opcode then st.nOpCount + 1 else st.nOpCount
  reject (OP_16 < i.opcode ∧ 201 < nOpCount) .rejected
  reject (i.opcode ∈ disabled) .rejected
  return { st with nOpCount }

/-- The size limit after an instruction. -/
def limitStack (st : Machine) : Except Fail Machine := do
  reject (1000 < st.stack.length + st.altstack.length) .rejected
  return st

/-- The condition that `OP_IF` and `OP_NOTIF` pop. -/
def popCondition (opcode : UInt8) (st : Machine) : Except Fail (Bool × Machine) :=
  match st.stack with
  | [] => .error .rejected
  | vch :: stack =>
    let fValue := CastToBool vch
    .ok (if opcode = OP_NOTIF then !fValue else fValue, { st with stack })

/-- An instruction that is executed and is no control opcode. -/
def execute (env : ScriptRuntime) (i : Instr) (st : Machine) : Except Fail Machine :=
  if i.opcode ≤ OP_PUSHDATA4 then .ok { st with stack := i.vchPushValue :: st.stack }
  else if i.opcode = OP_1NEGATE ∨ (OP_1 ≤ i.opcode ∧ i.opcode ≤ OP_16) then
    .ok { st with stack := CBigNum.getvch ((i.opcode.toNat : Int) - 0x50) :: st.stack }
  else if i.opcode = OP_NOP ∨ (OP_NOP1 ≤ i.opcode ∧ i.opcode ≤ OP_NOP10) then .ok st
  else if i.opcode = OP_VERIFY then
    match st.stack with
    | [] => .error .rejected
    | vch :: stack => if CastToBool vch then .ok { st with stack } else .error .rejected
  else if i.opcode = OP_RETURN then .error .rejected
  else if i.opcode = OP_TOALTSTACK then
    match st.stack with
    | [] => .error .rejected
    | vch :: stack => .ok { st with stack, altstack := vch :: st.altstack }
  else if i.opcode = OP_FROMALTSTACK then
    match st.altstack with
    | [] => .error .rejected
    | vch :: altstack => .ok { st with stack := vch :: st.stack, altstack }
  else if i.opcode = OP_CHECKMULTISIG then checkMultiSig env false st
  else if i.opcode = OP_CHECKMULTISIGVERIFY then checkMultiSig env true st
  else if i.opcode = OP_VERIF ∨ i.opcode = OP_VERNOTIF then .error .rejected
  else env.other i st

/-- `fExec`: no flag of an enclosing block is false. -/
def fExec (vfExec : List Bool) : Bool := vfExec.all id

/-- The dispatch of an instruction: the flags, with those of the innermost block first, and the
state behind it. -/
def dispatch (env : ScriptRuntime) (i : Instr) (vfExec : List Bool) (st : Machine) :
    Except Fail (List Bool × Machine) :=
  if i.opcode = OP_IF ∨ i.opcode = OP_NOTIF then
    if fExec vfExec then do
      let (fValue, st) ← popCondition i.opcode st
      return (fValue :: vfExec, st)
    else .ok (false :: vfExec, st)
  else if i.opcode = OP_ELSE then
    match vfExec with
    | [] => .error .rejected
    | f :: vfExec => .ok ((!f) :: vfExec, st)
  else if i.opcode = OP_ENDIF then
    match vfExec with
    | [] => .error .rejected
    | _ :: vfExec => .ok (vfExec, st)
  else if fExec vfExec ∨ (OP_IF ≤ i.opcode ∧ i.opcode ≤ OP_ENDIF) then do
    let st ← execute env i st
    return (vfExec, st)
  else .ok (vfExec, st)

/-- One turn of the loop, for an instruction that was read. -/
def evalStep (env : ScriptRuntime) (i : Instr) (vfExec : List Bool) (st : Machine) :
    Except Fail (List Bool × Machine) := do
  let st ← countOp i st
  let (vfExec, st) ← dispatch env i vfExec st
  let st ← limitStack st
  return (vfExec, st)

/-- `while(pc < pend)`.  Each turn reads at least one byte, so as many turns as there are bytes
are enough. -/
def evalLoop (env : ScriptRuntime) :
    Nat → List UInt8 → List Bool → Machine → Except Fail (List Bool × Machine)
  | _, [], vfExec, st => .ok (vfExec, st)
  | 0, _ :: _, _, _ => .error .rejected
  | fuel + 1, x :: pc, vfExec, st =>
    match GetOp2 (x :: pc) with
    | none => .error .rejected
    | some i => do
      let (vfExec, st) ← evalStep env i vfExec st
      evalLoop env fuel i.pc vfExec st

/-- `EvalScript`: the state at the end, where it returns `true`. -/
def EvalScript (env : ScriptRuntime) (stack : List (List UInt8)) (script : List UInt8) :
    Except Fail Machine := do
  reject (10000 < script.length) .rejected
  let (vfExec, st) ← evalLoop env script.length script [] { stack, codehash := script }
  reject (vfExec ≠ []) .rejected
  return st

end Nexus.Legacy
