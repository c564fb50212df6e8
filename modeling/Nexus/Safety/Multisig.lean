import Nexus.Legacy.Evaluate
import Nexus.Lib.Matching

/-!
# Multiple signatures

The loop with the two cursors is the greedy matching of the signatures with the keys,
so it succeeds exactly when the signatures can be assigned to keys in their order.
No entry outside of the stack is read.  Behind the counts, the keys and the
signatures one more entry has to be there, and is popped with them.
-/

namespace Nexus.Safety

open Nexus.Lib.Checked
open Nexus.Lib.Matching
open Nexus.Legacy

namespace Multisig

variable {stack : List (List UInt8)} {env : ScriptRuntime} {st : Machine}

/-- The `n` entries from the place `i` on, counted from the top. -/
def entriesAt (stack : List (List UInt8)) (i n : Nat) : List (List UInt8) := (stack.drop i).take n

theorem stacktop_eq {i : Nat} (h : i < stack.length) : stacktop stack (i + 1) = .ok stack[i] := by
  rw [stacktop, if_neg (Nat.succ_ne_zero i), Nat.add_sub_cancel, List.getElem?_eq_getElem h]
  rfl

theorem entriesAt_succ {i n : Nat} (h : i < stack.length) :
    entriesAt stack i (n + 1) = stack[i] :: entriesAt stack (i + 1) n := by
  rw [entriesAt, List.drop_eq_getElem_cons h, List.take_succ_cons]
  rfl

theorem entriesAt_length {i n : Nat} (h : i + n ≤ stack.length) :
    (entriesAt stack i n).length = n := by
  rw [entriesAt, List.length_take, List.length_drop]
  omega

/-- The loop is the greedy matching, and reads inside of the stack. -/
theorem matchLoop_eq (stack : List (List UInt8)) (check : List UInt8 → List UInt8 → Bool)
    {p q m n : Nat}
    (hSigs : p + m ≤ stack.length) (hKeys : q + n ≤ stack.length) (hmn : m ≤ n) :
    matchLoop check stack (p + 1) (q + 1) m n =
      .ok (greedy check (entriesAt stack p m) (entriesAt stack q n)) := by
  induction n generalizing p q m with
  | zero =>
      obtain rfl : m = 0 := by omega
      rfl
  | succ n ih =>
      cases m with
      | zero => simp [matchLoop, entriesAt, greedy]
      | succ m =>
          have hp : p < stack.length := by omega
          have hq : q < stack.length := by omega
          rw [matchLoop, stacktop_eq hp, stacktop_eq hq, entriesAt_succ hp, entriesAt_succ hq, greedy]
          show (if check stack[p] stack[q] = true then _ else _) = _
          by_cases hCheck : check stack[p] stack[q] = true
          · rw [if_pos hCheck, if_pos hCheck, if_neg (by omega)]
            exact ih (by omega) (by omega) (by omega)
          · rw [if_neg hCheck, if_neg hCheck]
            by_cases hFew : m + 1 > n
            · rw [if_pos hFew, ← entriesAt_succ hp, greedy_short]
              · rfl
              · rw [entriesAt_length (by omega), entriesAt_length (by omega)]
                exact hFew
            · rw [if_neg hFew, ← entriesAt_succ hp]
              exact ih (by omega) (by omega) (by omega)

theorem scriptCode_ok (env : ScriptRuntime) {p m : Nat} (h : p + m ≤ stack.length)
    (code : List UInt8) :
    ∃ code', scriptCode env stack (p + 1) m code = .ok code' := by
  induction m with
  | zero => exact ⟨code, rfl⟩
  | succ m ih =>
      obtain ⟨code', hCode⟩ := ih (by omega)
      have hAt : p + 1 + m = p + m + 1 := by omega
      rw [scriptCode, hCode, hAt]
      show ∃ code'', (stacktop stack (p + m + 1) >>= _) = .ok code''
      rw [stacktop_eq (by omega)]
      exact ⟨_, rfl⟩

theorem popstack_eq {n : Nat} (h : n ≤ stack.length) : popstack n stack = .ok (stack.drop n) := by
  induction n generalizing stack with
  | zero => rfl
  | succ n ih =>
      cases stack with
      | nil => simp at h
      | cons x stack =>
          rw [popstack, List.drop_succ_cons]
          exact ih (by simpa using h)

/-- The counts of an opcode that is not rejected: `n` keys and `m` signatures, with the limits on
them, and the entries that are needed below. -/
structure Counts (st : Machine) (n m : Nat) : Prop where
  keys : ∃ vch, st.stack[0]? = some vch ∧ CastToInt vch = .ok (n : Int)
  maximum : n ≤ 20
  operations : st.nOpCount + n ≤ 201
  sigs : ∃ vch, st.stack[n + 1]? = some vch ∧ CastToInt vch = .ok (m : Int)
  fewer : m ≤ n
  length : n + m + 3 ≤ st.stack.length

/-- The code that the signatures of the opcode sign. -/
def signed (env : ScriptRuntime) (st : Machine) (n m : Nat) (code : List UInt8) : Prop :=
  scriptCode env st.stack (n + 3) m st.codehash = .ok code

/-- Whether the signatures are assigned to keys, under the code that they sign. -/
def Assigned (env : ScriptRuntime) (st : Machine) (n m : Nat) : Prop :=
  ∃ code, signed env st n m code ∧
    Assigns (env.CheckSig · · code) (entriesAt st.stack (n + 2) m) (entriesAt st.stack 1 n)

theorem reject_pass {c : Prop} [Decidable c] (h : ¬ c) (e : Fail) : reject c e = .ok () := if_neg h

theorem reject_stop {c : Prop} [Decidable c] (h : c) (e : Fail) :
    reject c e = (.error e : Except Fail Unit) := if_pos h

/-- What the opcode does with its counts: the pushed value and the entries that are left. -/
theorem checkMultiSig_counts (env : ScriptRuntime) {n m : Nat} (h : Counts st n m) (fVerify : Bool) :
    ∃ fSuccess : Bool, (fSuccess = true ↔ Assigned env st n m) ∧
      checkMultiSig env fVerify st =
        if fVerify then
          if fSuccess then .ok { st with
            nOpCount := st.nOpCount + n, stack := st.stack.drop (n + m + 3) } else .error .rejected
        else .ok { st with
          nOpCount := st.nOpCount + n
          stack := (if fSuccess then vchTrue else vchFalse) :: st.stack.drop (n + m + 3) } := by
  obtain ⟨vchKeys, hTop, hKeys⟩ := h.keys
  obtain ⟨vchSigs, hSecond, hSigs⟩ := h.sigs
  have hLength := h.length
  have hMaximum := h.maximum
  have hFewer := h.fewer
  have hOperations := h.operations
  have hRead : stacktop st.stack 1 = .ok vchKeys := by
    rw [stacktop, if_neg (by norm_num), Nat.sub_self, hTop]
    rfl
  have hRead' : stacktop st.stack (2 + n) = .ok vchSigs := by
    have hAt : 2 + n - 1 = n + 1 := by omega
    rw [stacktop, if_neg (by omega), hAt, hSecond]
    rfl
  have hBelow : n + 2 + m ≤ st.stack.length := by omega
  obtain ⟨code, hCode⟩ := scriptCode_ok env hBelow st.codehash
  have hLoop := matchLoop_eq st.stack (env.CheckSig · · code) (p := n + 2) (q := 1)
    (m := m) (n := n) (by omega) (by omega) hFewer
  have hPop := popstack_eq hLength
  have hSig : 2 + n + 1 = n + 2 + 1 := by omega
  have hAll : n + 2 + 1 + m = n + m + 3 := by omega
  refine ⟨greedy (env.CheckSig · · code) (entriesAt st.stack (n + 2) m) (entriesAt st.stack 1 n),
    ?_, ?_⟩
  · rw [greedy_iff]
    constructor
    · exact fun hAssigns => ⟨code, hCode, hAssigns⟩
    · rintro ⟨code', hCode', hAssigns⟩
      obtain rfl : code = code' := Except.ok.inj (hCode.symm.trans hCode')
      exact hAssigns
  · simp only [checkMultiSig, hRead, hKeys, hRead', hSigs, ok_bind, Int.toNat_natCast,
      reject_pass (show ¬ st.stack.length < 1 by omega),
      reject_pass (show ¬ ((n : Int) < 0 ∨ 20 < (n : Int)) by omega),
      reject_pass (show ¬ 201 < st.nOpCount + n by omega),
      reject_pass (show ¬ st.stack.length < 2 + n by omega),
      reject_pass (show ¬ ((m : Int) < 0 ∨ (n : Int) < (m : Int)) by omega),
      hSig, hAll, reject_pass (show ¬ st.stack.length < n + m + 3 by omega), hCode, hLoop, hPop]
    cases fVerify with
    | false => rfl
    | true =>
        cases greedy (env.CheckSig · · code) (entriesAt st.stack (n + 2) m)
          (entriesAt st.stack 1 n) <;> rfl

theorem CastToInt_error {vch : List UInt8} {e : Fail} (h : CastToInt vch = .error e) :
    e = .rejected := by
  rw [CastToInt] at h
  split at h
  · exact (Except.error.inj h).symm
  · cases h

/-- The tests are those of `Counts`: without them the script fails, and nothing outside of the
stack was read. -/
theorem counts_or_rejected (env : ScriptRuntime) (fVerify : Bool) (st : Machine) :
    (∃ n m, Counts st n m) ∨ checkMultiSig env fVerify st = .error .rejected := by
  rw [checkMultiSig]
  by_cases hEmpty : st.stack.length < 1
  · exact .inr (by rw [reject_stop hEmpty]; rfl)
  rw [reject_pass hEmpty, ok_bind, stacktop_eq (i := 0) (by omega), ok_bind]
  cases hKeys : CastToInt st.stack[0] with
  | error e =>
      rw [CastToInt_error hKeys]
      exact .inr rfl
  | ok nKeys =>
      rw [ok_bind]
      by_cases hRange : nKeys < 0 ∨ 20 < nKeys
      · exact .inr (by rw [reject_stop hRange]; rfl)
      obtain ⟨n, rfl⟩ := Int.eq_ofNat_of_zero_le (a := nKeys) (by omega)
      rw [reject_pass hRange, ok_bind, Int.toNat_natCast]
      by_cases hOps : 201 < st.nOpCount + n
      · exact .inr (by simp only [reject_stop hOps, error_bind])
      simp only [reject_pass hOps, ok_bind]
      by_cases hShort : st.stack.length < 2 + n
      · exact .inr (by simp only [reject_stop hShort, error_bind])
      have hAt : 2 + n = n + 1 + 1 := by omega
      simp only [reject_pass hShort, ok_bind]
      rw [hAt, stacktop_eq (i := n + 1) (by omega), ok_bind]
      cases hSigs : CastToInt st.stack[n + 1] with
      | error e =>
          rw [CastToInt_error hSigs]
          exact .inr rfl
      | ok nSigs =>
          rw [ok_bind]
          by_cases hRange' : nSigs < 0 ∨ (n : Int) < nSigs
          · exact .inr (by simp only [reject_stop hRange', error_bind])
          obtain ⟨m, rfl⟩ := Int.eq_ofNat_of_zero_le (a := nSigs) (by omega)
          simp only [reject_pass hRange', ok_bind, Int.toNat_natCast]
          by_cases hShort' : st.stack.length < n + 1 + 1 + 1 + m
          · exact .inr (by simp only [reject_stop hShort', error_bind])
          refine .inl ⟨n, m, ⟨_, List.getElem?_eq_getElem (by omega), hKeys⟩, by omega, by omega,
            ⟨_, List.getElem?_eq_getElem (by omega), hSigs⟩, by omega, by omega⟩

/-- The counts are read from the stack, so there is one pair of them. -/
theorem Counts.unique {n m n' m' : Nat} (h : Counts st n m) (h' : Counts st n' m') :
    n = n' ∧ m = m' := by
  obtain ⟨vch, hTop, hKeys⟩ := h.keys
  obtain ⟨vch', hTop', hKeys'⟩ := h'.keys
  obtain rfl : vch = vch' := Option.some.inj (hTop.symm.trans hTop')
  have hn : (n : Int) = n' := Except.ok.inj (hKeys.symm.trans hKeys')
  obtain rfl : n = n' := by omega
  obtain ⟨vch₂, hSecond, hSigs⟩ := h.sigs
  obtain ⟨vch₂', hSecond', hSigs'⟩ := h'.sigs
  obtain rfl : vch₂ = vch₂' := Option.some.inj (hSecond.symm.trans hSecond')
  have hm : (m : Int) = m' := Except.ok.inj (hSigs.symm.trans hSigs')
  exact ⟨rfl, by omega⟩

/-- The opcode fails, or replaces the counts, the keys and the signatures by whether the
signatures are assigned to keys. -/
def Replaces (env : ScriptRuntime) (st : Machine) : Prop :=
  (∃ e, checkMultiSig env false st = .error e) ∨
    ∃ n m st', Counts st n m ∧ checkMultiSig env false st = .ok st' ∧
      ∃ fSuccess : Bool, (fSuccess = true ↔ Assigned env st n m) ∧
        st'.stack = (if fSuccess then vchTrue else vchFalse) :: st.stack.drop (n + m + 2)

theorem replaces_iff (env : ScriptRuntime) (st : Machine) :
    Replaces env st ↔ ¬ ∃ n m, Counts st n m := by
  constructor
  · rintro hReplaces ⟨n, m, h⟩
    obtain ⟨fSuccess, -, hRun⟩ := checkMultiSig_counts env h false
    rw [if_neg (by simp)] at hRun
    rcases hReplaces with ⟨e, hError⟩ | ⟨n', m', st', h', hOk, fSuccess', -, hStack⟩
    · rw [hRun] at hError
      cases hError
    · obtain ⟨rfl, rfl⟩ := h.unique h'
      rw [hRun] at hOk
      have hLength := congrArg List.length hStack
      rw [← Except.ok.inj hOk, List.length_cons, List.length_cons, List.length_drop,
        List.length_drop] at hLength
      have hEnough := h.length
      omega
  · intro hNone
    rcases counts_or_rejected env false st with hCounts | hRejected
    · exact absurd hCounts hNone
    · exact .inl ⟨_, hRejected⟩

end Multisig

open Multisig

/-- `OP_CHECKMULTISIG` never reads outside of the stack.  With readable counts it pushes whether
the signatures are assigned to keys in their order, in the place of the counts, the keys, the
signatures and one entry more; so the entries that it is to replace are replaced exactly when
the script fails. -/
theorem multisig_replaces (env : ScriptRuntime) (st : Machine) :
    (∀ fVerify, checkMultiSig env fVerify st ≠ .error .outside) ∧
    (Replaces env st ↔ ¬ ∃ n m, Counts st n m) ∧
    ∀ n m, Counts st n m → ∃ fSuccess : Bool, (fSuccess = true ↔ Assigned env st n m) ∧
      checkMultiSig env false st = .ok { st with
        nOpCount := st.nOpCount + n
        stack := (if fSuccess then vchTrue else vchFalse) :: st.stack.drop (n + m + 3) } := by
  refine ⟨?_, replaces_iff env st, ?_⟩
  · intro fVerify
    rcases counts_or_rejected env fVerify st with ⟨n, m, h⟩ | hRejected
    · obtain ⟨fSuccess, -, hRun⟩ := checkMultiSig_counts env h fVerify
      rw [hRun]
      cases fVerify <;> cases fSuccess <;> simp
    · rw [hRejected]
      simp
  · intro n m h
    obtain ⟨fSuccess, hAssigned, hRun⟩ := checkMultiSig_counts env h false
    rw [if_neg (by simp)] at hRun
    exact ⟨fSuccess, hAssigned, hRun⟩

/-- No keys and no signatures above an entry that is not part of the opcode. -/
def noKeys : Machine := { stack := [[], [], [7]] }

theorem noKeys_counts : Counts noKeys 0 0 := by
  have hZero : CastToInt [] = .ok 0 := by
    simp [CastToInt, LLC.CBigNum.setvch, LLC.CBigNum.getvch, LLC.CBigNum.magnitude,
      LLC.CBigNum.getint32]
  exact ⟨⟨[], rfl, hZero⟩, by norm_num, by decide, ⟨[], rfl, hZero⟩, le_rfl, by decide⟩

/-- An environment in which every signature fits every key. -/
def anyKey : ScriptRuntime where
  CheckSig _ _ _ := true
  FindAndDelete code _ := code
  other _ st := .ok st

/-- The entry below the counts is popped as well. -/
theorem multisig_pops_one_more : ¬ Replaces anyKey noKeys := by
  rw [replaces_iff]
  exact not_not.mpr ⟨0, 0, noKeys_counts⟩

end Nexus.Safety
