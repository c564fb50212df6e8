import Nexus.API.Conditions

/-!
# The search for a condition

`HasCondition` compares operations and goes past the data behind them.  The comparison ends at the
first operation that differs, and then only the end of the pattern is looked at, so the last
operation of a pattern may be any.

## Main results

* `hasExpires_iff`: the conditions in which an expiration is found, and that every expiration that was
  added is.
-/

namespace Nexus.Safety

open Nexus.Lib.Bytes
open Nexus.Lib.Checked
open Nexus.Util
open Nexus.Operation
open Nexus.API

/-- An operation with the data behind it. -/
structure Operator where
  byte : UInt8
  data : List UInt8 := []

/-- The data has the length that the operation says. -/
def Operator.Sized (op : Operator) : Prop :=
  op.byte ≠ OP.TYPES.BYTES ∧ op.byte ≠ OP.TYPES.STRING ∧ op.data.length = dataWidth op.byte

instance (op : Operator) : Decidable op.Sized := by
  unfold Operator.Sized
  infer_instance

/-- The bytes of some operations. -/
def operatorBytes (ops : List Operator) : List UInt8 := ops.flatMap fun op => op.byte :: op.data

/-- The bytes have the same operations with data of the same lengths.  A last operation without data
may be any. -/
def Resembles : List Operator → List UInt8 → Prop
  | [], _ => True
  | _ :: _, [] => False
  | op :: ops, byte :: vch =>
      (byte = op.byte ∧ op.data.length ≤ vch.length ∧ Resembles ops (vch.drop op.data.length)) ∨
        byte ≠ op.byte ∧ op.data = [] ∧ ops = []

variable {s : Stream} {ops : List Operator} {op : Operator} {vch vchRest : List UInt8} {byte : UInt8}
  {n : Nat}

/-! ## Streams -/

/-- What is left of a stream. -/
def Left (s : Stream) (vch : List UInt8) : Prop := s.Fits 0 ∧ s.vchData.drop s.nReadPos = vch

theorem Left.extract (h : Left s (byte :: vch)) :
    s.extract UInt8 = .ok (byte, s.advance 1) ∧ Left (s.advance 1) vch := by
  have hCons : byte :: vch = FixedWidth.encode byte ++ vch := by
    rw [encode_uint8]
    rfl
  rw [hCons] at h
  exact Stream.extract_step h.1 h.2

theorem Left.length (h : Left s vch) : s.nReadPos + vch.length = s.size := by
  have hLength := congrArg List.length h.2
  have hFits : s.nReadPos + 0 ≤ s.vchData.length := h.1
  rw [List.length_drop] at hLength
  rw [Stream.size]
  omega

theorem Left.atEnd (h : Left s vch) : s.atEnd = true ↔ vch = [] := by
  have hLength := h.length
  rw [Stream.atEnd, beq_iff_eq, ← List.length_eq_zero_iff]
  omega

theorem Left.advance (h : Left s vch) (hn : n ≤ vch.length) : Left (s.advance n) (vch.drop n) := by
  have hSplit : s.vchData.drop s.nReadPos = vch.take n ++ vch.drop n := by
    rw [List.take_append_drop]
    exact h.2
  have hTake : (vch.take n).length = n := List.length_take_of_le hn
  refine ⟨?_, Stream.drop_advance hSplit hTake⟩
  have hLength := h.length
  show s.nReadPos + n + 0 ≤ s.size
  omega

theorem Left.seek (h : Left s vch) :
    s.seek n = if n ≤ vch.length then .ok (s.advance n) else .error (.exception "out of bounds ") := by
  have hLength := h.length
  have hFits : s.Fits n ↔ n ≤ vch.length := by
    unfold Stream.Fits
    omega
  simp only [Stream.seek, hFits]

/-- The data behind an operation is gone past without being compared. -/
theorem skipData_eq (hSized : op.Sized) (s : Stream) :
    skipData op.byte s = s.seek op.data.length := by
  obtain ⟨hBytes, hString, hData⟩ := hSized
  rw [skipData, if_neg (by simp [hBytes, hString]), hData]

theorem left_reset (s : Stream) : Left s.reset s.vchData := ⟨Nat.zero_le _, rfl⟩

/-! ## The inner loop -/

/-- The loop comes to the end of the pattern. -/
def Located (n : Nat) (condition contract : Stream) : Prop :=
  ∃ ss, compareStreams n condition contract = .ok ss ∧ ss.atEnd = true

/-- The loop comes to the end of the pattern for bytes that resemble it, and for no others; with
enough bytes it does not throw. -/
theorem compareStreams_spec {condition contract : Stream} (hSized : ∀ op ∈ ops, op.Sized)
    (hFuel : ops.length ≤ n) (hCondition : Left condition (operatorBytes ops))
    (hContract : Left contract vch) :
    (Located n condition contract ↔ Resembles ops vch) ∧
      ((operatorBytes ops).length ≤ vch.length → ∃ ss, compareStreams n condition contract = .ok ss) := by
  induction ops generalizing n condition contract vch with
  | nil =>
      have hEnd : condition.atEnd = true := hCondition.atEnd.mpr rfl
      have hStops : compareStreams n condition contract = .ok condition := by
        cases n with
        | zero => rfl
        | succ n => rw [compareStreams, hEnd, Bool.true_or, if_pos rfl]
      exact ⟨iff_of_true ⟨condition, hStops, hEnd⟩ trivial, fun _ => ⟨condition, hStops⟩⟩
  | cons op ops ih =>
      rw [List.forall_mem_cons] at hSized
      obtain ⟨n, rfl⟩ : ∃ m, n = m + 1 := ⟨n - 1, by simp at hFuel; omega⟩
      have hBytes : operatorBytes (op :: ops) = op.byte :: (op.data ++ operatorBytes ops) := rfl
      rw [hBytes] at hCondition ⊢
      have hMore : condition.atEnd = false := by
        rw [Bool.eq_false_iff]
        intro hEnd
        cases hCondition.atEnd.mp hEnd
      cases vch with
      | nil =>
          have hStops : compareStreams (n + 1) condition contract = .ok condition := by
            rw [compareStreams, hContract.atEnd.mpr rfl, Bool.or_true, if_pos rfl]
          refine ⟨iff_of_false ?_ (fun h => h), fun hRoom => absurd hRoom (by simp)⟩
          rintro ⟨ss, hOk, hEnd⟩
          rw [hStops] at hOk
          cases hOk
          rw [hMore] at hEnd
          cases hEnd
      | cons byte vch =>
          obtain ⟨hReadOp, hData⟩ := hCondition.extract
          obtain ⟨hReadByte, hRest⟩ := hContract.extract
          have hMoreContract : contract.atEnd = false := by
            rw [Bool.eq_false_iff]
            intro hEnd
            cases hContract.atEnd.mp hEnd
          by_cases hSame : op.byte = byte
          · have hSkip : (condition.advance 1).seek op.data.length =
                .ok ((condition.advance 1).advance op.data.length) := by
              rw [hData.seek, if_pos (by simp)]
            have hTurn : compareStreams (n + 1) condition contract = (do
                let contract ← (contract.advance 1).seek op.data.length
                compareStreams n ((condition.advance 1).advance op.data.length) contract) := by
              rw [compareStreams, hMore, hMoreContract]
              simp only [Bool.or_self, Bool.false_eq_true, if_false, hReadOp, hReadByte, ok_bind,
                ← hSame, ne_eq, not_true_eq_false, skipData_eq hSized.1, hSkip]
            have hResembles : Resembles (op :: ops) (byte :: vch) ↔ op.data.length ≤ vch.length ∧
                Resembles ops (vch.drop op.data.length) := by
              rw [Resembles]
              simp [hSame]
            have hAfter := hData.advance (n := op.data.length) (by simp)
            rw [List.drop_left] at hAfter
            rw [hResembles, Located, hTurn, hRest.seek]
            by_cases hFits : op.data.length ≤ vch.length
            · have hSpec := ih (n := n) hSized.2 (by simpa using hFuel) hAfter (hRest.advance hFits)
              simp only [if_pos hFits, ok_bind, and_iff_right hFits]
              refine ⟨hSpec.1, fun hRoom => hSpec.2 ?_⟩
              simp only [List.length_cons, List.length_append, List.length_drop] at hRoom ⊢
              omega
            · simp only [if_neg hFits]
              refine ⟨iff_of_false ?_ fun h => hFits h.1, fun hRoom => ?_⟩
              · rintro ⟨ss, hOk, -⟩
                cases hOk
              · simp only [List.length_cons, List.length_append] at hRoom
                omega
          · have hTurn : compareStreams (n + 1) condition contract = .ok (condition.advance 1) := by
              rw [compareStreams, hMore, hMoreContract]
              simp only [Bool.or_self, Bool.false_eq_true, if_false, hReadOp, hReadByte, ok_bind,
                ne_eq, hSame, not_false_eq_true, if_true]
              rfl
            have hResembles : Resembles (op :: ops) (byte :: vch) ↔ op.data = [] ∧ ops = [] := by
              rw [Resembles]
              simp [Ne.symm hSame]
            have hLast : operatorBytes ops = [] ↔ ops = [] := by
              cases ops <;> simp [operatorBytes]
            refine ⟨?_, fun _ => ⟨_, hTurn⟩⟩
            rw [hResembles, ← hLast, ← List.append_eq_nil_iff, ← hData.atEnd]
            constructor
            · rintro ⟨ss, hOk, hEnd⟩
              rw [hTurn] at hOk
              cases hOk
              exact hEnd
            · intro hEnd
              exact ⟨_, hTurn, hEnd⟩

/-! ## The outer loop -/

theorem length_le_operatorBytes (ops : List Operator) : ops.length ≤ (operatorBytes ops).length := by
  induction ops with
  | nil => exact Nat.zero_le _
  | cons op ops ih =>
      rw [operatorBytes, List.flatMap_cons, List.length_append, List.length_cons, List.length_cons]
      exact Nat.le_trans (Nat.succ_le_succ ih) (by rw [operatorBytes]; omega)

/-- Bytes that are resembled are as many. -/
theorem Resembles.length (h : Resembles ops vch) : (operatorBytes ops).length ≤ vch.length := by
  induction ops generalizing vch with
  | nil => exact Nat.zero_le _
  | cons op ops ih =>
      cases vch with
      | nil => exact h.elim
      | cons byte vch =>
          rw [operatorBytes, List.flatMap_cons, List.length_append, List.length_cons, List.length_cons]
          rcases h with ⟨-, hFits, hRest⟩ | ⟨-, hData, hLast⟩
          · have hLength := ih hRest
            rw [List.length_drop, operatorBytes] at hLength
            omega
          · rw [hData, hLast]
            simp

/-- A condition whose first operation has no data is found where the others are resembled. -/
theorem searchCondition_iff {condition contract : Stream} {first : UInt8}
    (hSized : ∀ op ∈ ops, op.Sized) (hCondition : condition.vchData = first :: operatorBytes ops)
    (hFuel : vch.length ≤ n) (hContract : Left contract vch) :
    searchCondition condition n contract = .ok true ↔
      ∃ before after, vch = before ++ first :: after ∧ Resembles ops after := by
  have hReset : Left condition.reset (first :: operatorBytes ops) := hCondition ▸ left_reset condition
  obtain ⟨hReadFirst, hPattern⟩ := hReset.extract
  induction vch generalizing n contract with
  | nil =>
      have hEnd := hContract.atEnd.mpr rfl
      have hNone : searchCondition condition n contract = .ok false := by
        cases n with
        | zero => rfl
        | succ n => rw [searchCondition, if_pos hEnd]
      rw [hNone]
      refine iff_of_false (by simp) ?_
      rintro ⟨before, after, hSplit, -⟩
      simp at hSplit
  | cons byte vch ih =>
      obtain ⟨n, rfl⟩ : ∃ m, n = m + 1 := ⟨n - 1, by simp at hFuel; omega⟩
      obtain ⟨hReadByte, hRest⟩ := hContract.extract
      have hNext : searchCondition condition n (contract.advance 1) = .ok true ↔
          ∃ before after, vch = before ++ first :: after ∧ Resembles ops after :=
        ih (by simpa using hFuel) hRest
      have hMore : contract.atEnd = false := by
        rw [Bool.eq_false_iff]
        intro hEnd
        cases hContract.atEnd.mp hEnd
      have hSplits : (∃ before after, byte :: vch = before ++ first :: after ∧ Resembles ops after) ↔
          byte = first ∧ Resembles ops vch ∨ searchCondition condition n (contract.advance 1) = .ok true := by
        rw [hNext]
        constructor
        · rintro ⟨before, after, hSplit, hResembles⟩
          cases before with
          | nil =>
              obtain ⟨rfl, rfl⟩ := List.cons.inj hSplit
              exact Or.inl ⟨rfl, hResembles⟩
          | cons head before => exact Or.inr ⟨before, after, (List.cons.inj hSplit).2, hResembles⟩
        · rintro (⟨rfl, hResembles⟩ | ⟨before, after, rfl, hResembles⟩)
          · exact ⟨[], vch, rfl, hResembles⟩
          · exact ⟨byte :: before, after, rfl, hResembles⟩
      rw [searchCondition, hMore, hSplits]
      simp only [Bool.false_eq_true, if_false, hReadFirst, hReadByte, ok_bind]
      by_cases hSame : byte = first
      · have hLong : ops.length ≤ condition.size := by
          rw [Stream.size, hCondition]
          exact Nat.le_succ_of_le (length_le_operatorBytes ops)
        obtain ⟨hFinds, hOk⟩ := compareStreams_spec hSized hLong hPattern hRest
        rw [if_pos hSame, and_iff_right hSame, ← hFinds, Located]
        cases hCompare : compareStreams condition.size (condition.reset.advance 1) (contract.advance 1) with
        | error e =>
            -- the rest is shorter than the condition, so it is not found further on either
            refine iff_of_false (fun h => by cases h) ?_
            rintro (⟨ss, hFound, -⟩ | hLater)
            · cases hFound
            · obtain ⟨before, after, hSplit, hResembles⟩ := hNext.mp hLater
              have hLength := hResembles.length
              have hShort : ¬(operatorBytes ops).length ≤ vch.length := by
                intro hRoom
                obtain ⟨ss, hFound⟩ := hOk hRoom
                rw [hCompare] at hFound
                cases hFound
              rw [hSplit, List.length_append, List.length_cons] at hShort
              omega
        | ok ss =>
            cases hEnd : ss.atEnd with
            | true => simp [ok_bind, hEnd]; rfl
            | false => simp [ok_bind, hEnd]
      · simp only [hSame, if_false, false_and, false_or]

/-! ## Expirations -/

/-- The operations of a clause. -/
def genesisOps (nOP : UInt8) (hashCaller : Uint256) : List Operator :=
  [⟨OP.CALLER.GENESIS, []⟩, ⟨nOP, []⟩, ⟨OP.TYPES.UINT256_T, FixedWidth.encode hashCaller⟩]

def timestampOps (nOP : UInt8) (nExpires : UInt64) : List Operator :=
  [⟨OP.CONTRACT.TIMESTAMP, []⟩, ⟨OP.ADD, []⟩, ⟨OP.TYPES.UINT64_T, FixedWidth.encode nExpires⟩,
    ⟨nOP, []⟩, ⟨OP.LEDGER.TIMESTAMP, []⟩]

/-- The operations of an expiration, behind the first one. -/
def expirationOps (hashCaller : Uint256) (nExpires : UInt64) : List Operator :=
  genesisOps OP.NOTEQUALS hashCaller ++ [⟨OP.AND, []⟩] ++ timestampOps OP.GREATERTHAN nExpires ++
    [⟨OP.UNGROUP, []⟩, ⟨OP.OR, []⟩, ⟨OP.GROUP, []⟩] ++ genesisOps OP.EQUALS hashCaller ++
    [⟨OP.AND, []⟩] ++ timestampOps OP.LESSTHAN nExpires ++ [⟨OP.UNGROUP, []⟩]

theorem expiration_eq (hashCaller : Uint256) (nExpires : UInt64) :
    expiration hashCaller nExpires = OP.GROUP :: operatorBytes (expirationOps hashCaller nExpires) := by
  simp [expiration, recipientGroup, senderGroup, genesisClause, timestampClause, expirationOps,
    genesisOps, timestampOps, operatorBytes]

theorem sized_expiration {hashCaller : Uint256} {nExpires : UInt64} :
    ∀ op ∈ expirationOps hashCaller nExpires, op.Sized := by
  have hByte : OP.TYPES.UINT256_T ≠ OP.TYPES.BYTES ∧ OP.TYPES.UINT256_T ≠ OP.TYPES.STRING ∧
      OP.TYPES.UINT64_T ≠ OP.TYPES.BYTES ∧ OP.TYPES.UINT64_T ≠ OP.TYPES.STRING := by decide
  have hHash : (⟨OP.TYPES.UINT256_T, FixedWidth.encode hashCaller⟩ : Operator).Sized :=
    ⟨hByte.1, hByte.2.1, FixedWidth.encode_length hashCaller⟩
  have hTime : (⟨OP.TYPES.UINT64_T, FixedWidth.encode nExpires⟩ : Operator).Sized :=
    ⟨hByte.2.2.1, hByte.2.2.2, FixedWidth.encode_length nExpires⟩
  simp only [expirationOps, genesisOps, timestampOps, List.forall_mem_append, List.forall_mem_cons,
    hHash, hTime]
  decide

/-- The search for an expiration. -/
theorem hasExpires_found (contract : Contract) :
    HasExpires contract = .ok true ↔ ∃ before after, contract.ssCondition.vchData =
      before ++ OP.GROUP :: after ∧ Resembles (expirationOps 0 86400) after := by
  have hPattern : AddExpires none 0 {} false =
      .ok ({ ssCondition.vchData := expiration 0 86400 }, true) := rfl
  rw [HasExpires, hPattern]
  exact searchCondition_iff sized_expiration (expiration_eq 0 86400) (Nat.le_refl _)
    (left_reset contract.ssCondition)

/-- Operations resemble others with data of the same lengths. -/
theorem resembles_append {ops' : List Operator} (vch : List UInt8)
    (hSame : List.Forall₂ (fun op op' => op.byte = op'.byte ∧ op.data.length = op'.data.length)
      ops ops') : Resembles ops (operatorBytes ops' ++ vch) := by
  induction hSame with
  | nil => trivial
  | @cons op op' ops ops' hHead hTail ih =>
      refine Or.inl ⟨hHead.1.symm, ?_, ?_⟩
      · rw [hHead.2]
        simp
      · rw [hHead.2]
        show Resembles ops ((op'.data ++ operatorBytes ops' ++ vch).drop op'.data.length)
        rw [List.append_assoc, List.drop_left]
        exact ih

theorem resembles_expiration (hashCaller : Uint256) (nExpires : UInt64) (vch : List UInt8) :
    Resembles (expirationOps 0 86400) (operatorBytes (expirationOps hashCaller nExpires) ++ vch) :=
  resembles_append vch (by simp [expirationOps, genesisOps, timestampOps])

/-- An expiration is found in the conditions that have its operations somewhere, with any data, and
with any operation in the place of the last one; so an expiration that was added to a contract is
found, whatever its conditions were and the time is. -/
theorem hasExpires_iff (contract : Contract) :
    (HasExpires contract = .ok true ↔ ∃ before after, contract.ssCondition.vchData =
      before ++ OP.GROUP :: after ∧ Resembles (expirationOps 0 86400) after) ∧
    ∀ params hashCaller fTokenizedDebit contract',
      AddExpires params hashCaller contract fTokenizedDebit = .ok (contract', true) →
        HasExpires contract' = .ok true := by
  refine ⟨hasExpires_found contract, fun params hashCaller fTokenizedDebit contract' hAdd => ?_⟩
  simp only [AddExpires, bind_eq_ok, pure_eq_ok, Prod.mk.injEq, and_true] at hAdd
  obtain ⟨nExpires, -, rfl⟩ := hAdd
  rw [hasExpires_found]
  cases fTokenizedDebit with
  | false =>
      refine ⟨contract.ssCondition.vchData,
        operatorBytes (expirationOps hashCaller nExpires) ++ [], ?_, resembles_expiration ..⟩
      rw [List.append_nil, ← expiration_eq]
      rfl
  | true =>
      refine ⟨contract.ssCondition.vchData, operatorBytes (expirationOps hashCaller nExpires) ++
        ([OP.OR] ++ holderGroup hashCaller nExpires), ?_, resembles_expiration ..⟩
      rw [← List.cons_append, ← expiration_eq, ← List.append_assoc]
      rfl

/-- An expiration whose last operation is another one is found too. -/
example : HasExpires { ssCondition.vchData := (expiration 7 60).dropLast ++ [OP.EQUALS] } = .ok true := by
  decide +kernel

end Nexus.Safety
