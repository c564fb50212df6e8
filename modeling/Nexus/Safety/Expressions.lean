import Nexus.Lib.Overflow
import Nexus.Operation.Operands
import Nexus.Safety.Groups

/-!
# Expressions

A condition is written as a tree: comparisons of two literals, in groups whose
members are joined by one connective.  `Execute` is one flat loop over the bytes
of the tree, with a stack of pending connectives.  Whatever is on the stack, the
bytes of a tree leave it as it was, with the value of the tree combined into its
top, so a condition has the value of its tree when its cost does not overflow.

## Main results

* `execute_expression`: a condition has the value of its tree.
* `execute_deep`: groups whose cost overflows, and a version that is not known.
-/

namespace Nexus.Safety

open Nexus.Lib
open Nexus.Lib.Bytes
open Nexus.Lib.Checked
open Nexus.Lib.Overflow
open Nexus.Util
open Nexus.Register
open Nexus.Register.BaseVM
open Nexus.Operation
open Nexus.Operation.Condition
open Nexus.LLD

/-- What the members of a group are joined by. -/
inductive Connective where
  | AND
  | OR

namespace Connective

def op : Connective → UInt8
  | AND => OP.AND
  | OR => OP.OR

/-- Values that are joined by the connective. -/
def joined : Connective → List Bool → Bool
  | AND, vValues => vValues.all id
  | OR, vValues => vValues.any id

end Connective

/-- A comparison of two literals, which are not empty and have room in the registers. -/
structure Leaf where
  left : Literal
  OPERATION : UInt8
  right : Literal
  isCompare : compares OPERATION = true
  leftNonEmpty : left.NonEmpty
  rightNonEmpty : right.NonEmpty
  hasRoom : left.datum.size + right.datum.size ≤ REGISTERS

namespace Leaf

variable (leaf : Leaf)

def comparison : Comparison where
  left := .literal leaf.left
  OPERATION := leaf.OPERATION
  right := .literal leaf.right
  isCompare := leaf.isCompare

def bytes : List UInt8 := leaf.comparison.bytes

/-- The comparison of the two literals in a fresh memory, which is what `Evaluate` returns. -/
def value (rt : Runtime) : Bool :=
  (Comparison.compare rt leaf.OPERATION leaf.left.datum leaf.right.datum).toOption.getD false

def cost : Nat := leaf.left.cost.toNat + leaf.right.cost.toNat

end Leaf

/-- A comparison, or a group of one or more trees that are joined by one connective. -/
inductive Expression where
  | comparison (leaf : Leaf)
  | group (connective : Connective) (first : Expression) (others : List Expression)

mutual

/-- The bytes that a tree is written as. -/
def Expression.bytes : Expression → List UInt8
  | .comparison leaf => leaf.bytes
  | .group connective first others =>
      [OP.GROUP] ++ (first.bytes ++ (Expression.othersBytes connective others ++ [OP.UNGROUP]))

/-- The bytes of the members of a group after the first. -/
def Expression.othersBytes (connective : Connective) : List Expression → List UInt8
  | [] => []
  | t :: ts => [connective.op] ++ (t.bytes ++ Expression.othersBytes connective ts)

end

mutual

/-- The value of a tree. -/
def Expression.value (rt : Runtime) : Expression → Bool
  | .comparison leaf => leaf.value rt
  | .group connective first others =>
      connective.joined (first.value rt :: Expression.values rt others)

def Expression.values (rt : Runtime) : List Expression → List Bool
  | [] => []
  | t :: ts => t.value rt :: Expression.values rt ts

end

mutual

/-- What a tree costs: its literals, and its groups. -/
def Expression.cost : Expression → Nat
  | .comparison leaf => leaf.cost
  | .group _ first others => 128 + (first.cost + (Expression.costs others + 0))

def Expression.costs : List Expression → Nat
  | [] => 0
  | t :: ts => 0 + (t.cost + Expression.costs ts)

end

variable {rt : Runtime} {disk : Disk} {contract caller : Contract} {c c' : Condition}
  {vch vch' vchRest vchUsed : List UInt8} {vEvaluate vEvaluate' : List (Bool × UInt8)}
  {vm vm' : BaseVM} {value : Value} {d : Datum} {l : Literal} {leaf : Leaf}
  {connective : Connective} {nCost nMore : Nat}

/-! ## The memory -/

/-- A datum that has room is allocated. -/
theorem exists_allocate (hStores : Stores vm vchUsed) (hRoom : vm.nPointer + d.size ≤ REGISTERS) :
    ∃ vm', d.allocate vm = .ok (valueAt vm.nPointer d, vm') ∧ vm'.nPointer = vm.nPointer + d.size ∧
      Stores vm' (vchUsed ++ d.block) := by
  have hPushed : ∃ vm', Stores vm' (vchUsed ++ d.block) := by
    cases d with
    | word nBytes n => exact ⟨_, hStores.push_word hRoom⟩
    | bytes vch => exact ⟨_, hStores.push_bytes hRoom⟩
  obtain ⟨vm', hStores'⟩ := hPushed
  refine ⟨vm', (allocate_eq_ok hStores).mpr ⟨hRoom, rfl, hStores'⟩, ?_, hStores'⟩
  have hBelow := hStores.pointer
  have hPointer := hStores'.pointer
  rw [List.length_append, Datum.block_length] at hPointer
  omega

/-- Freeing the datum at the top restores the memory. -/
theorem deallocate_valueAt (hStores : Stores vm vchUsed) (hStores' : Stores vm' (vchUsed ++ d.block))
    (hPointer : vm'.nPointer = vm.nPointer + d.size) (hSize : 0 < d.size) :
    vm'.deallocate (valueAt vm.nPointer d) = .ok vm := by
  have hBound := hStores.bound
  have hRegisters : REGISTERS = 256 := rfl
  have hWidth : (valueAt vm.nPointer d).size = d.size := Nat.add_sub_cancel_left ..
  have hEnd : (valueAt vm.nPointer d).nEnd = vm'.nPointer := hPointer.symm
  have hTop : vm'.checkTop (valueAt vm.nPointer d) = .ok () := by
    refine checkTop_eq_ok.mpr ⟨by omega, by omega, hEnd, by omega⟩
  have hFreed : Stores (vm'.release (valueAt vm.nPointer d)) vchUsed :=
    hStores'.release hStores.pointer hEnd
  exact deallocate_eq_ok.mpr ⟨hTop, hStores.unique hFreed⟩

/-- A literal that is not empty takes a register. -/
theorem size_pos (h : l.NonEmpty) : 0 < l.datum.size := by
  have hBytes {vch : List UInt8} (hNonEmpty : vch ≠ []) : 0 < Datum.size (.bytes vch) := by
    have hLength := List.length_pos_iff.mpr hNonEmpty
    have hLe := Datum.length_le_size vch
    omega
  have hFixed {α : Type} [FixedWidth α] {a : α} (hWidth : 0 < FixedWidth.width α) :
      0 < (Datum.of a).size := by
    unfold Datum.of
    split
    · exact Nat.one_pos
    · refine hBytes fun hNil => ?_
      rw [← List.length_eq_zero_iff, FixedWidth.encode_length] at hNil
      omega
  cases l with
  | UINT8_T n => exact hFixed (by decide)
  | UINT16_T n => exact hFixed (by decide)
  | UINT32_T n => exact hFixed (by decide)
  | UINT64_T n => exact hFixed (by decide)
  | UINT256_T n => exact hFixed (by decide)
  | UINT512_T n => exact hFixed (by decide)
  | UINT1024_T n => exact hFixed (by decide)
  | STRING str => exact hBytes h
  | BYTES vch => exact hBytes h

/-- What the literals of a comparison do to a fresh memory. -/
theorem leaf_memory (rt : Runtime) (leaf : Leaf) :
    ∃ vLeft vRight vm vm', leaf.left.datum.allocate {} = .ok (vLeft, vm) ∧
      leaf.right.datum.allocate vm = .ok (vRight, vm') ∧
      vm'.deallocate vRight = .ok vm ∧ vm.deallocate vLeft = .ok {} ∧
      (Condition.comparison rt leaf.OPERATION vLeft vRight vm').getD false = leaf.value rt := by
  have hRoom := leaf.hasRoom
  have hZero : ({} : BaseVM).nPointer = 0 := rfl
  obtain ⟨vm, hLeft, hPointer, hStores⟩ :=
    @exists_allocate [] {} leaf.left.datum stores_fresh (by omega)
  obtain ⟨vm', hRight, hPointer', hStores'⟩ :=
    @exists_allocate _ vm leaf.right.datum hStores (by omega)
  refine ⟨_, _, vm, vm', hLeft, hRight, ?_, ?_, ?_⟩
  · exact deallocate_valueAt hStores hStores' hPointer' (size_pos leaf.rightNonEmpty)
  · exact deallocate_valueAt stores_fresh hStores hPointer (size_pos leaf.leftNonEmpty)
  · simp only [Leaf.value, Comparison.compare, hLeft, hRight, ok_bind]
    rfl

/-! ## The cost -/

/-- The condition can pay more without an overflow. -/
def Affords (c : Condition) (nCost : Nat) : Prop := c.nCost.toNat + nCost < 2 ^ 64

/-- The condition past some bytes that have a cost, with what is on the stack then. -/
def past (c : Condition) (n nCost : Nat) (vEvaluate : List (Bool × UInt8)) : Condition :=
  { c.skip n with vEvaluate, nCost := c.nCost + UInt64.ofNat nCost }

theorem Affords.not_wraps {n : UInt64} (h : Affords c n.toNat) : ¬ c.nCost + n < c.nCost := by
  rw [add_wraps_iff, Nat.not_le]
  exact h

theorem Affords.past {n : Nat} (h : Affords c (nCost + nMore)) :
    Affords (past c n nCost vEvaluate) nMore := by
  have hSum : c.nCost.toNat + (nCost + nMore) < 2 ^ 64 := h
  have hCost : (UInt64.ofNat nCost).toNat = nCost := by
    rw [UInt64.toNat_ofNat']
    omega
  show (c.nCost + UInt64.ofNat nCost).toNat + nMore < 2 ^ 64
  rw [UInt64.toNat_add, hCost, Nat.mod_eq_of_lt (by omega)]
  omega

@[simp] theorem past_past {n m : Nat} :
    past (past c n nCost vEvaluate) m nMore vEvaluate' = past c (n + m) (nCost + nMore) vEvaluate' := by
  simp only [past, Condition.skip, Stream.advance_advance, UInt64.ofNat_add, ← UInt64.add_assoc]

theorem past_free {n : Nat} : past c n 0 vEvaluate = { c.skip n with vEvaluate } := by
  rw [past, show UInt64.ofNat 0 = 0 from rfl, UInt64.add_zero]
  rfl

theorem Affords.mono (h : Affords c nMore) (hLe : nCost ≤ nMore) : Affords c nCost :=
  Nat.lt_of_le_of_lt (Nat.add_le_add_left hLe _) h

/-! ## Comparisons -/

/-- The condition past a literal, which is in the memory. -/
def taken (c : Condition) (n : Nat) (vm : BaseVM) (nCost : UInt64) : Condition :=
  { c.skip n with vm, nCost := c.nCost + nCost }

theorem past_of_taken {n m : Nat} {a b : UInt64} :
    { taken ((taken c n vm a).skip 1) m vm' b with vm := c.vm } =
      past c (n + (1 + m)) (a.toNat + b.toNat) c.vEvaluate := by
  simp only [past, taken, Condition.skip, Stream.advance_advance, UInt64.ofNat_add,
    UInt64.ofNat_toNat, ← UInt64.add_assoc, Nat.add_assoc]

/-- A literal at the cursor is read and allocated. -/
theorem GetValue_literal (hAt : c.At ((Term.literal l).bytes ++ vchRest)) (hEnds : Ends vchRest)
    (hNonEmpty : l.NonEmpty) (hAffords : Affords c l.cost.toNat)
    (hAllocate : l.datum.allocate c.vm = .ok (value, vm)) :
    c.GetValue rt disk = .ok (true, value, taken c (Term.literal l).bytes.length vm l.cost) := by
  have hFuel : ((Term.literal l).bytes ++ vchRest).length + 1 =
      l.payload.length + vchRest.length + 2 := by
    rw [List.length_append, Term.bytes, List.length_cons]
    omega
  have hLoaded : Loaded (c.skip 1) l value (taken (c.skip 1) l.payload.length vm l.cost) :=
    ⟨hNonEmpty, hAffords.not_wraps, vm, hAllocate, rfl⟩
  have hTaken : taken (c.skip 1) l.payload.length vm l.cost =
      taken c (Term.literal l).bytes.length vm l.cost := by
    rw [taken, skip_skip, Nat.add_comm]
    rfl
  rw [GetValue, hAt.remaining, hFuel]
  refine (getValue_literal hAt).mpr ⟨value, _, hLoaded, ?_⟩
  rw [getValue_ends (hLoaded.at hAt.op.2) hEnds, hTaken]

/-- A comparison at the cursor has its value in every known version, and is read to its end. -/
theorem Evaluate_leaf (hKnown : Known c.caller) (hVm : c.vm = {})
    (hAt : c.At (leaf.bytes ++ vchRest)) (hEnds : Ends vchRest) (hAffords : Affords c leaf.cost) :
    c.Evaluate rt disk =
      .ok (leaf.value rt, past c leaf.bytes.length leaf.cost c.vEvaluate) := by
  obtain ⟨vLeft, vRight, vm, vm', hAllocateLeft, hAllocateRight, hFreeRight, hFreeLeft, hValue⟩ :=
    leaf_memory rt leaf
  rw [← hVm] at hAllocateLeft hFreeLeft
  have hStream : c.At ((Term.literal leaf.left).bytes ++
      leaf.OPERATION :: ((Term.literal leaf.right).bytes ++ vchRest)) := by
    rw [Leaf.bytes, Comparison.bytes, List.append_assoc] at hAt
    exact hAt
  have hCost : c.nCost.toNat + (leaf.left.cost.toNat + leaf.right.cost.toNat) < 2 ^ 64 := hAffords
  have hAffordsLeft : Affords c leaf.left.cost.toNat := by
    unfold Affords
    omega
  have hGetLeft : c.GetValue rt disk = .ok (true, vLeft,
      taken c (Term.literal leaf.left).bytes.length vm leaf.left.cost) :=
    GetValue_literal hStream (@ends_left _ leaf.comparison) leaf.leftNonEmpty hAffordsLeft
      hAllocateLeft
  have hOperation : (taken c (Term.literal leaf.left).bytes.length vm leaf.left.cost).At
      (leaf.OPERATION :: ((Term.literal leaf.right).bytes ++ vchRest)) := hStream.skip.congr rfl
  obtain ⟨hRead, hRightAt⟩ := hOperation.op
  have hAffordsRight : Affords ((taken c (Term.literal leaf.left).bytes.length vm
      leaf.left.cost).skip 1) leaf.right.cost.toNat := by
    show (c.nCost + leaf.left.cost).toNat + leaf.right.cost.toNat < 2 ^ 64
    rw [toNat_add_of_not_wraps hAffordsLeft.not_wraps]
    omega
  have hGetRight := @GetValue_literal rt disk _ _ _ _ _ hRightAt hEnds leaf.rightNonEmpty hAffordsRight
    hAllocateRight
  have hDone := @past_of_taken c vm vm' (Term.literal leaf.left).bytes.length
    (Term.literal leaf.right).bytes.length leaf.left.cost leaf.right.cost
  have hMore := hOperation.not_atEnd
  have hLength : (Term.literal leaf.left).bytes.length + (1 + (Term.literal leaf.right).bytes.length) =
      leaf.bytes.length := by
    rw [Leaf.bytes, Comparison.bytes, List.length_append, List.length_cons, Nat.add_comm 1]
    rfl
  rw [hLength] at hDone
  rw [← Leaf.cost] at hDone
  rcases hKnown with hOne | hTwo
  · have hVersion : c.Evaluate rt disk = c.evaluateV1 rt disk := if_pos hOne
    rw [hVersion, evaluateV1]
    simp only [hGetLeft, ok_bind, reduceCtorEq, reject_of_not not_false, hRead, leaf.isCompare, if_true,
      hGetRight]
    simp only [taken, Condition.skip] at hDone ⊢
    simp only [hFreeRight, hFreeLeft, ok_bind, hValue, ← hDone]
    rfl
  · have hVersion : c.Evaluate rt disk = c.evaluateV2 rt disk := by
      rw [Evaluate, if_neg (by rw [hTwo]; decide), if_pos hTwo]
    rw [hVersion, evaluateV2]
    simp only [hGetLeft, ok_bind, hMore, Bool.false_eq_true, if_false, hRead, leaf.isCompare, if_true,
      hGetRight, free, Bool.true_and]
    simp only [taken, Condition.skip] at hDone ⊢
    simp only [hFreeRight, hFreeLeft, map_ok, ok_bind, hValue, ← hDone]
    rfl

/-! ## Parts of the stream -/

/-- A part of the stream is at the cursor, and its cost is afforded. -/
structure Comes (c : Condition) (vch vchRest : List UInt8) (nCost : Nat) : Prop where
  known : Known c.caller
  memory : c.vm = {}
  stream : c.At (vch ++ vchRest)
  affords : Affords c nCost

/-- The first of two parts. -/
theorem Comes.first (h : Comes c (vch ++ vch') vchRest (nCost + nMore)) :
    Comes c vch (vch' ++ vchRest) nCost := by
  obtain ⟨hKnown, hVm, hAt, hAffords⟩ := h
  rw [List.append_assoc] at hAt
  exact ⟨hKnown, hVm, hAt, hAffords.mono (Nat.le_add_right ..)⟩

/-- The second of two parts, past the first. -/
theorem Comes.second (h : Comes c (vch ++ vch') vchRest (nCost + nMore))
    (vEvaluate : List (Bool × UInt8)) :
    Comes (past c vch.length nCost vEvaluate) vch' vchRest nMore := by
  obtain ⟨hKnown, hVm, hAt, hAffords⟩ := h
  rw [List.append_assoc] at hAt
  exact ⟨hKnown, hVm, hAt.skip.congr rfl, hAffords.past⟩

/-- Some turns go past a part of the stream. -/
def Passes (rt : Runtime) (disk : Disk) (c : Condition) (vch : List UInt8) (nCost : Nat)
    (vEvaluate : List (Bool × UInt8)) : Prop :=
  ∃ vOps, Run (Turn rt disk) c vOps (past c vch.length nCost vEvaluate)

theorem Passes.trans (h : Passes rt disk c vch nCost vEvaluate)
    (h' : Passes rt disk (past c vch.length nCost vEvaluate) vch' nMore vEvaluate') :
    Passes rt disk c (vch ++ vch') (nCost + nMore) vEvaluate' := by
  obtain ⟨vOps, hRun⟩ := h
  obtain ⟨vOps', hRun'⟩ := h'
  rw [past_past, ← List.length_append] at hRun'
  exact ⟨vOps ++ vOps', hRun.append hRun'⟩

/-- One turn goes past its operation. -/
theorem passes_turn {nOP : UInt8} (hReady : Comes c [nOP] vchRest nCost)
    (hStep : c.step rt disk = .ok (past c 1 nCost vEvaluate)) :
    Passes rt disk c [nOP] nCost vEvaluate :=
  ⟨[nOP], .single ⟨hReady.stream.next, hStep⟩⟩

theorem passes_leaf (hReady : Comes c leaf.bytes vchRest leaf.cost) (hEnds : Ends vchRest)
    (hCombine : combine (leaf.value rt) c.vEvaluate = .ok vEvaluate) :
    Passes rt disk c leaf.bytes leaf.cost vEvaluate := by
  obtain ⟨hKnown, hVm, hAt, hAffords⟩ := hReady
  have hStack : c.vEvaluate ≠ [] := by
    intro hNil
    rw [hNil] at hCombine
    cases hCombine
  obtain ⟨nOP, vchNext, hBytes, hNot⟩ := grouping_left leaf.comparison
  have hNext : c.Next nOP := by
    rw [Leaf.bytes, hBytes] at hAt
    exact hAt.next
  refine ⟨[nOP], .single ⟨hNext, ?_⟩⟩
  rw [step_evaluate hNext hNot hStack, Evaluate_leaf hKnown hVm hAt hEnds hAffords]
  have hSame : combine (leaf.value rt) (past c leaf.bytes.length leaf.cost c.vEvaluate).vEvaluate =
      .ok vEvaluate := hCombine
  simp only [ok_bind, hSame]
  rfl

/-- A group begins with no value. -/
theorem passes_group (hReady : Comes c [OP.GROUP] vchRest 128) :
    Passes rt disk c [OP.GROUP] 128 ((false, OP.RESERVED) :: c.vEvaluate) := by
  refine passes_turn hReady ?_
  rw [step_group hReady.stream.next]
  exact spend_eq_ok.mpr ⟨Affords.not_wraps hReady.affords, rfl⟩

/-- A connective may stand after a first value, and between more of a kind. -/
theorem passes_connective {fTop : Bool} {nTop : UInt8} {vStack : List (Bool × UInt8)}
    (hReady : Comes c [connective.op] vchRest 0) (hStack : c.vEvaluate = (fTop, nTop) :: vStack)
    (hTop : nTop = OP.RESERVED ∨ nTop = connective.op) :
    Passes rt disk c [connective.op] 0 ((fTop, connective.op) :: vStack) := by
  refine passes_turn hReady ?_
  cases connective with
  | AND =>
      rw [step_and hReady.stream.next, hStack, past_free]
      rcases hTop with rfl | rfl <;> rfl
  | OR =>
      rw [step_or hReady.stream.next, hStack, past_free]
      rcases hTop with rfl | rfl <;> rfl

/-- The value of a group is combined into the top below it. -/
theorem passes_ungroup {fTop : Bool} {nTop : UInt8} {vStack : List (Bool × UInt8)}
    (hReady : Comes c [OP.UNGROUP] vchRest 0) (hStack : c.vEvaluate = (fTop, nTop) :: vStack)
    (hCombine : combine fTop vStack = .ok vEvaluate) :
    Passes rt disk c [OP.UNGROUP] 0 vEvaluate := by
  refine passes_turn hReady ?_
  have hPopped : ungroup ((fTop, nTop) :: vStack) = .ok vEvaluate := by
    cases vStack with
    | nil => cases hCombine
    | cons below vStack => exact hCombine
  rw [step_ungroup hReady.stream.next, hStack, hPopped, past_free]
  rfl

/-! ## Trees -/

theorem joined_one {fTop : Bool} : connective.joined [fTop] = fTop := by
  cases connective <;> simp [Connective.joined]

/-- One more value is combined into the values so far. -/
theorem combine_connective {fTop : Bool} {vValues : List Bool} {vStack : List (Bool × UInt8)} :
    combine fTop ((connective.joined vValues, connective.op) :: vStack) =
      .ok ((connective.joined (vValues ++ [fTop]), connective.op) :: vStack) := by
  cases connective with
  | AND =>
      simp only [Connective.joined, List.all_append, List.all_cons, List.all_nil, id, Bool.and_true]
      rfl
  | OR =>
      simp only [Connective.joined, List.any_append, List.any_cons, List.any_nil, id, Bool.or_false]
      rfl

theorem ends_ungroup : Ends (OP.UNGROUP :: vch) := by
  intro nOP vchNext hEq
  rw [← (List.cons.inj hEq).1]
  rfl

theorem ends_others {vOthers : List Expression} (hEnds : Ends vchRest) :
    Ends (Expression.othersBytes connective vOthers ++ vchRest) := by
  cases vOthers with
  | nil => exact hEnds
  | cons t vOthers =>
      intro nOP vchNext hEq
      rw [Expression.othersBytes, List.append_assoc] at hEq
      rw [← (List.cons.inj hEq).1]
      cases connective <;> rfl

mutual

/-- The bytes of a tree combine its value into the top of the stack. -/
theorem passes_expression (t : Expression) {c : Condition} {vchRest : List UInt8}
    {vEvaluate : List (Bool × UInt8)} (hReady : Comes c t.bytes vchRest t.cost)
    (hEnds : Ends vchRest) (hCombine : combine (t.value rt) c.vEvaluate = .ok vEvaluate) :
    Passes rt disk c t.bytes t.cost vEvaluate := by
  match t, hReady, hCombine with
  | .comparison leaf, hReady, hCombine => exact passes_leaf hReady hEnds hCombine
  | .group connective first others, hReady, hCombine =>
      rw [Expression.bytes, Expression.cost] at hReady ⊢
      have hMembers := hReady.second ((false, OP.RESERVED) :: c.vEvaluate)
      have hFirstEnds : Ends (Expression.othersBytes connective others ++ [OP.UNGROUP] ++ vchRest) := by
        rw [List.append_assoc]
        exact ends_others ends_ungroup
      have hValue : combine (first.value rt) ((false, OP.RESERVED) :: c.vEvaluate) =
          .ok ((first.value rt, OP.RESERVED) :: c.vEvaluate) := rfl
      have hFirst := passes_expression first hMembers.first hFirstEnds hValue
      have hRest := hMembers.second ((first.value rt, OP.RESERVED) :: c.vEvaluate)
      obtain ⟨nTop, hOthers⟩ := passes_others connective others [first.value rt] hRest.first
        ends_ungroup (by rw [joined_one]; rfl) (.inl rfl)
      have hLast := hRest.second ((connective.joined ([first.value rt] ++ Expression.values rt others),
        nTop) :: c.vEvaluate)
      have hUngroup : Passes rt disk _ [OP.UNGROUP] 0 vEvaluate :=
        passes_ungroup hLast rfl hCombine
      exact (passes_group hReady.first).trans (hFirst.trans (hOthers.trans hUngroup))

/-- The members of a group after the first are joined to the values so far. -/
theorem passes_others (connective : Connective) (ts : List Expression) (vValues : List Bool)
    {c : Condition} {vchRest : List UInt8} {nTop : UInt8} {vStack : List (Bool × UInt8)}
    (hReady : Comes c (Expression.othersBytes connective ts) vchRest (Expression.costs ts))
    (hEnds : Ends vchRest)
    (hStack : c.vEvaluate = (connective.joined vValues, nTop) :: vStack)
    (hTop : nTop = OP.RESERVED ∨ nTop = connective.op) :
    ∃ nTop', Passes rt disk c (Expression.othersBytes connective ts) (Expression.costs ts)
      ((connective.joined (vValues ++ Expression.values rt ts), nTop') :: vStack) := by
  match ts, hReady with
  | [], hReady =>
      refine ⟨nTop, [], ?_⟩
      rw [Expression.values, List.append_nil, ← hStack, Expression.othersBytes, Expression.costs,
        List.length_nil, past_free]
      exact .nil c
  | t :: ts, hReady =>
      rw [Expression.othersBytes, Expression.costs] at hReady ⊢
      have hConnective : Passes rt disk c [connective.op] 0
          ((connective.joined vValues, connective.op) :: vStack) :=
        passes_connective hReady.first hStack hTop
      have hMembers := hReady.second ((connective.joined vValues, connective.op) :: vStack)
      have hExpression := passes_expression t hMembers.first (ends_others hEnds) combine_connective
      have hRest := hMembers.second
        ((connective.joined (vValues ++ [t.value rt]), connective.op) :: vStack)
      obtain ⟨nTop', hOthers⟩ := passes_others connective ts (vValues ++ [t.value rt]) hRest hEnds
        rfl (.inr rfl)
      rw [List.append_assoc] at hOthers
      exact ⟨nTop', hConnective.trans (hExpression.trans hOthers)⟩

end

/-- A condition has the value of its tree, in every known version, when its cost does not
overflow. -/
theorem execute_expression (t : Expression) (hKnown : Known caller)
    (hBytes : contract.ssCondition.vchData = t.bytes) (hCost : t.cost < 2 ^ 64) :
    (fresh contract caller).Execute rt disk = .ok (t.value rt, UInt64.ofNat t.cost) := by
  have hAt : (fresh contract caller).start.At (t.bytes ++ []) := by
    rw [List.append_nil]
    exact ⟨Nat.zero_le _, hBytes⟩
  have hAffords : Affords (fresh contract caller).start t.cost := by
    show 0 + t.cost < 2 ^ 64
    omega
  have hReady : Comes (fresh contract caller).start t.bytes [] t.cost :=
    ⟨hKnown, rfl, hAt, hAffords⟩
  have hEnds : Ends [] := fun _ _ hEq => by cases hEq
  have hValue : combine (t.value rt) (fresh contract caller).start.vEvaluate =
      .ok [(t.value rt, OP.RESERVED)] := rfl
  have hPasses : Passes rt disk (fresh contract caller).start t.bytes t.cost
      [(t.value rt, OP.RESERVED)] := passes_expression t hReady hEnds hValue
  obtain ⟨vOps, hRun⟩ := hPasses
  obtain ⟨n, hLength, hFits, -⟩ := length_of_run hRun (Nat.zero_le _) stacked_start
    fun _ _ _ _ _ _ => hKnown
  have hSize : 0 + n ≤ (fresh contract caller).contract.ssCondition.size := hFits
  have hEnd : (past (fresh contract caller).start t.bytes.length t.cost
      [(t.value rt, OP.RESERVED)]).At [] := hAt.skip.congr rfl
  exact Execute_eq_ok.mpr ⟨vOps, _, hRun, hEnd.atEnd, by omega, rfl, UInt64.zero_add _⟩

/-! ## Trees that are not executed -/

/-- A tree in some more groups. -/
def grouped (t : Expression) : Nat → Expression
  | 0 => t
  | k + 1 => .group .AND (grouped t k) []

theorem grouped_bytes (t : Expression) (k : Nat) :
    ∃ vch, (grouped t k).bytes = List.replicate k OP.GROUP ++ vch := by
  induction k with
  | zero => exact ⟨t.bytes, rfl⟩
  | succ k ih =>
      obtain ⟨vch, hBytes⟩ := ih
      refine ⟨vch ++ [OP.UNGROUP], ?_⟩
      rw [grouped, Expression.bytes, hBytes, Expression.othersBytes, List.replicate_succ]
      simp

/-- The loop does not go past groups whose cost overflows. -/
theorem loop_groups {k n : Nat} (hAt : c.At (List.replicate k OP.GROUP ++ vch))
    (hCost : 2 ^ 64 ≤ c.nCost.toNat + 128 * k) : loop rt disk n c ≠ .ok c' := by
  intro hLoop
  induction k generalizing c n with
  | zero =>
      have hWord := c.nCost.toNat_lt
      omega
  | succ k ih =>
      rw [List.replicate_succ, List.cons_append] at hAt
      cases n with
      | zero =>
          rw [loop, hAt.not_atEnd] at hLoop
          cases hLoop
      | succ n =>
          rw [loop, hAt.not_atEnd] at hLoop
          simp only [Bool.false_eq_true, if_false, step_group hAt.next, bind_eq_ok] at hLoop
          obtain ⟨c₁, hSpend, hLoop⟩ := hLoop
          obtain ⟨hCheck, hEq⟩ := spend_eq_ok.mp hSpend
          have hNext : c₁.At (List.replicate k OP.GROUP ++ vch) := by
            rw [hEq]
            exact hAt.op.2.congr rfl
          have hPaid : c₁.nCost.toNat = c.nCost.toNat + 128 := by
            rw [hEq]
            exact toNat_add_of_not_wraps hCheck
          exact ih hNext (by omega) hLoop

theorem execute_grouped {t : Expression} {k : Nat} {result : Bool × UInt64} (hCost : 2 ^ 57 ≤ k)
    (hBytes : contract.ssCondition.vchData = (grouped t k).bytes) :
    (fresh contract caller).Execute rt disk ≠ .ok result := by
  intro hExecute
  simp only [Condition.Execute, bind_eq_ok] at hExecute
  obtain ⟨c', hLoop, -⟩ := hExecute
  obtain ⟨vch, hNested⟩ := grouped_bytes t k
  have hAt : (fresh contract caller).start.At (List.replicate k OP.GROUP ++ vch) :=
    ⟨Nat.zero_le _, hBytes.trans hNested⟩
  refine loop_groups hAt ?_ hLoop
  show 2 ^ 64 ≤ 0 + 128 * k
  omega

/-- A contract with a tree for its conditions. -/
def contractWith (t : Expression) : Contract where
  ssCondition := { vchData := t.bytes }

theorem room_for_two : 1 + 1 ≤ REGISTERS := by decide

theorem compares_equals : compares OP.EQUALS = true := rfl

/-- The comparison of two numbers. -/
def equals (n m : UInt8) : Expression :=
  .comparison
    { left := .UINT8_T n
      OPERATION := OP.EQUALS
      right := .UINT8_T m
      isCompare := compares_equals
      leftNonEmpty := trivial
      rightNonEmpty := trivial
      hasRoom := room_for_two }

def exampleExpression : Expression :=
  .group .AND (equals 5 5) [.group .OR (equals 5 6) [equals 6 6, equals 7 8]]

theorem execute_expression_example :
    exampleExpression.value exampleRuntime = true ∧
      (fresh (contractWith exampleExpression) { nVersion := 1 }).Execute exampleRuntime {} =
        .ok (exampleExpression.value exampleRuntime, UInt64.ofNat exampleExpression.cost) :=
  ⟨by decide +kernel, execute_expression exampleExpression (.inl rfl) rfl (by decide +kernel)⟩

/-- Groups whose cost overflows, and a version that is not known. -/
theorem execute_deep :
    (∀ result, (fresh (contractWith (grouped (equals 5 5) (2 ^ 57))) { nVersion := 2 }).Execute
      exampleRuntime {} ≠ .ok result) ∧
    ∀ result, (fresh (contractWith (equals 5 5)) { nVersion := 3 }).Execute exampleRuntime {} ≠
      .ok result := by
  constructor
  · intro result
    exact execute_grouped (Nat.le_refl _) rfl
  · intro result hExecute
    have hNone : ((fresh (contractWith (equals 5 5)) { nVersion := 3 }).Execute exampleRuntime
        {}).toOption = none := by decide +kernel
    rw [hExecute] at hNone
    cases hNone

end Nexus.Safety
