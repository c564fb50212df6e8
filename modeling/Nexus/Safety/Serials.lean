import Mathlib.Algebra.Order.BigOperators.Group.List
import Nexus.Util.Serialize

/-!
# Serialization round trips and sizes

What is written is read back with the rest of the stream left over, by induction over
the type; only the loop over a vector whose elements are larger in memory than its
step never ends.  The size that is calculated is never more than the number of bytes,
and falls short of it exactly where a running size leaves its width.
-/

namespace Nexus.Safety

open Nexus.Lib.Bytes
open Nexus.Util.Serial

namespace Serials

/-- Every container has at most `MAX_SIZE` elements. -/
def Bounded : {α : Type} → Ty α → α → Prop
  | _, .integer _ _, _ => True
  | _, .string, str => str.length ≤ MAX_SIZE
  | _, .integers _ _, v => v.length ≤ MAX_SIZE
  | _, .vector t, v => v.length ≤ MAX_SIZE ∧ ∀ x ∈ v, Bounded t x
  | _, .pair t u, item => Bounded t item.1 ∧ Bounded u item.2
  | _, .tuple3 t u v, item => Bounded t item.1 ∧ Bounded u item.2.1 ∧ Bounded v item.2.2
  | _, .tuple4 t u v w, item =>
      Bounded t item.1 ∧ Bounded u item.2.1 ∧ Bounded v item.2.2.1 ∧ Bounded w item.2.2.2
  | _, .map _ t u, m =>
      m.elements.length ≤ MAX_SIZE ∧ ∀ x ∈ m.elements, Bounded t x.1 ∧ Bounded u x.2
  | _, .set _ t, m => m.elements.length ≤ MAX_SIZE ∧ ∀ x ∈ m.elements, Bounded t x

/-- The elements of each vector that is not empty fit into the 5000000 bytes of its step. -/
def Fits (sizeofT : {α : Type} → Ty α → Nat) : {α : Type} → Ty α → α → Prop
  | _, .integer _ _, _ => True
  | _, .string, _ => True
  | _, .integers _ _, _ => True
  | _, .vector t, v => (v ≠ [] → 5000000 / sizeofT t ≠ 0) ∧ ∀ x ∈ v, Fits sizeofT t x
  | _, .pair t u, item => Fits sizeofT t item.1 ∧ Fits sizeofT u item.2
  | _, .tuple3 t u v, item =>
      Fits sizeofT t item.1 ∧ Fits sizeofT u item.2.1 ∧ Fits sizeofT v item.2.2
  | _, .tuple4 t u v w, item =>
      Fits sizeofT t item.1 ∧ Fits sizeofT u item.2.1 ∧ Fits sizeofT v item.2.2.1 ∧
        Fits sizeofT w item.2.2.2
  | _, .map _ t u, m => ∀ x ∈ m.elements, Fits sizeofT t x.1 ∧ Fits sizeofT u x.2
  | _, .set _ t, m => ∀ x ∈ m.elements, Fits sizeofT t x

/-- A reader of `x` where it is written as `bytes`: it reads `x` back if `c` holds, and nothing
otherwise. -/
def ReadsBack {α : Type} (read : Read α) (bytes : List UInt8) (x : α) (c : Prop) : Prop :=
  (c → ∀ rest, read (bytes ++ rest) = some (x, rest)) ∧ (¬ c → ∀ rest, read (bytes ++ rest) = none)

/-! ## Numbers -/

theorem readBytes_append {n : Nat} {bytes : List UInt8} (h : bytes.length = n) (rest : List UInt8) :
    readBytes n (bytes ++ rest) = some (bytes, rest) := by
  subst h
  rw [readBytes, if_neg (by simp), List.take_left, List.drop_left]

theorem readInteger_append {n x : Nat} (hx : x < 256 ^ n) (rest : List UInt8) :
    readInteger n (leBytes n x ++ rest) = some (x, rest) := by
  rw [readInteger, readBytes_append (leBytes_length n x)]
  show some (leNat (leBytes n x), rest) = _
  rw [leNat_leBytes hx]

theorem readByte_cons (b : UInt8) (rest : List UInt8) :
    readInteger 1 (b :: rest) = some (b.toNat, rest) := by
  have hBytes : leBytes 1 b.toNat = [b] := by simp [leBytes]
  have hLt : b.toNat < 256 ^ 1 := b.toNat_lt
  have hRead := readInteger_append hLt rest
  rwa [hBytes] at hRead

theorem ReadCompactSize_append {n : Nat} (h : n ≤ MAX_SIZE) (rest : List UInt8) :
    ReadCompactSize (WriteCompactSize n ++ rest) = some (n, rest) := by
  have hMax : ¬ MAX_SIZE < n := Nat.not_lt.mpr h
  have hBound : n < 2 ^ 32 := lt_of_le_of_lt h (by decide)
  rw [WriteCompactSize]
  by_cases hOne : n < 253
  · have hByte : (UInt8.ofNat n).toNat = n := UInt8.toNat_ofNat_of_lt' (by
      show n < 256
      omega)
    rw [if_pos hOne, ReadCompactSize, List.singleton_append, readByte_cons, hByte]
    simp [hOne, hMax]
  · rw [if_neg hOne]
    by_cases hTwo : n ≤ 0xffff
    · have hLt : n < 256 ^ 2 := by omega
      rw [if_pos hTwo, ReadCompactSize, List.cons_append, readByte_cons]
      simp [readInteger_append hLt, hMax]
    · have hLt : n < 256 ^ 4 := by omega
      rw [if_neg hTwo, if_pos (by omega), ReadCompactSize, List.cons_append, readByte_cons]
      simp [readInteger_append hLt, hMax]

theorem WriteCompactSize_length (n : Nat) :
    (WriteCompactSize n).length = GetSizeOfCompactSize n := by
  rw [WriteCompactSize, GetSizeOfCompactSize]
  split
  · rfl
  · split
    · simp
    · split <;> simp

/-! ## Readers in sequence -/

theorem ReadsBack.pure {α : Type} (x : α) : ReadsBack (fun s => some (x, s)) [] x True :=
  ⟨fun _ _ => rfl, fun h => absurd trivial h⟩

/-- A reader behind another reads back what is written behind it. -/
theorem ReadsBack.bind {α β : Type} {read : Read α} {bs bs' : List UInt8} {x : α} {y : β}
    {c c' : Prop} (h : ReadsBack read bs x c) (next : α → Read β)
    (h' : ReadsBack (next x) bs' y c') :
    ReadsBack (fun s => do let (x, s) ← read s; next x s) (bs ++ bs') y (c ∧ c') := by
  constructor
  · intro hBoth rest
    rw [List.append_assoc]
    show (read (bs ++ (bs' ++ rest)) >>= _) = _
    rw [h.1 hBoth.1]
    exact h'.1 hBoth.2 rest
  · intro hNot rest
    rw [List.append_assoc]
    show (read (bs ++ (bs' ++ rest)) >>= _) = _
    by_cases hc : c
    · rw [h.1 hc]
      exact h'.2 (fun hc' => hNot ⟨hc, hc'⟩) rest
    · rw [h.2 hc]
      rfl

theorem ReadsBack.congr {α : Type} {read : Read α} {bs bs' : List UInt8} {x : α} {c c' : Prop}
    (h : ReadsBack read bs x c) (hBytes : bs = bs') (hCond : c ↔ c') : ReadsBack read bs' x c' := by
  subst hBytes
  exact ⟨fun hc => h.1 (hCond.mpr hc), fun hc => h.2 fun hc' => hc (hCond.mp hc')⟩

theorem readsBack_compactSize {n : Nat} (h : n ≤ MAX_SIZE) :
    ReadsBack ReadCompactSize (WriteCompactSize n) n True :=
  ⟨fun _ rest => ReadCompactSize_append h rest, fun hc => absurd trivial hc⟩

theorem readsBack_integer {n x : Nat} (hx : x < 256 ^ n) :
    ReadsBack (readInteger n) (leBytes n x) x True :=
  ⟨fun _ rest => readInteger_append hx rest, fun hc => absurd trivial hc⟩

theorem readsBack_readBytes (bs : List UInt8) : ReadsBack (readBytes bs.length) bs bs True :=
  ⟨fun _ rest => readBytes_append rfl rest, fun hc => absurd trivial hc⟩

theorem readsBack_pair {α β : Type} {first : Read α} {second : Read β} {bs bs' : List UInt8}
    {x : α} {y : β} {c c' : Prop} (h : ReadsBack first bs x c) (h' : ReadsBack second bs' y c') :
    ReadsBack (readPair first second) (bs ++ bs') (x, y) (c ∧ c') := by
  have hPair := h.bind (fun x s => do let (y, s) ← second s; return ((x, y), s))
    (h'.bind (fun y s => some ((x, y), s)) (ReadsBack.pure (x, y)))
  exact hPair.congr (by rw [List.append_nil]) (by rw [and_true])

/-! ## Loops -/

section Loops

variable {α : Type} {read : Read α} {bytes : α → List UInt8} {c : α → Prop}

theorem readsBack_many {xs : List α} (h : ∀ x ∈ xs, ReadsBack read (bytes x) x (c x)) :
    ReadsBack (readMany read xs.length) (xs.flatMap bytes) xs (∀ x ∈ xs, c x) := by
  induction xs with
  | nil => exact (ReadsBack.pure []).congr rfl (by simp)
  | cons x xs ih =>
      have hTail := ih fun y hy => h y (List.mem_cons_of_mem x hy)
      have hCons := (h x (List.mem_cons_self ..)).bind
        (fun x s => do let rest ← readMany read xs.length s; return (x :: rest.1, rest.2))
        (hTail.bind (fun xs s => some (x :: xs, s)) (ReadsBack.pure (x :: xs)))
      exact hCons.congr (by rw [List.append_nil, List.flatMap_cons])
        (by rw [and_true, List.forall_mem_cons])

/-- A step of no element never ends. -/
theorem readParts_stuck {sizeofT : Nat} (h : 5000000 / sizeofT = 0) (fuel left : Nat)
    (s : List UInt8) : readParts sizeofT read fuel (left + 1) s = none := by
  induction fuel with
  | zero => rfl
  | succ fuel ih =>
      rw [readParts, h, Nat.min_zero]
      show (do
        let rest ← readParts sizeofT read fuel (left + 1) s
        return (([] : List α) ++ rest.1, rest.2)) = none
      rw [ih]
      rfl

theorem readsBack_parts {sizeofT : Nat} (hStep : 5000000 / sizeofT ≠ 0) {fuel : Nat} {xs : List α}
    (hFuel : xs.length ≤ fuel) (h : ∀ x ∈ xs, ReadsBack read (bytes x) x (c x)) :
    ReadsBack (readParts sizeofT read fuel xs.length) (xs.flatMap bytes) xs (∀ x ∈ xs, c x) := by
  induction fuel generalizing xs with
  | zero =>
      obtain rfl : xs = [] := List.length_eq_zero_iff.mp (by omega)
      exact (ReadsBack.pure []).congr rfl (by simp)
  | succ fuel ih =>
      by_cases hNil : xs = []
      · subst hNil
        exact (ReadsBack.pure []).congr rfl (by simp)
      · have hPos := List.length_pos_of_ne_nil hNil
        obtain ⟨left, hLeft⟩ : ∃ left, xs.length = left + 1 := ⟨xs.length - 1, by omega⟩
        have hTake : (xs.take (min (left + 1) (5000000 / sizeofT))).length =
            min (left + 1) (5000000 / sizeofT) := by
          rw [List.length_take]
          omega
        have hDrop : (xs.drop (min (left + 1) (5000000 / sizeofT))).length =
            left + 1 - min (left + 1) (5000000 / sizeofT) := by
          rw [List.length_drop, hLeft]
        have hFirst := readsBack_many fun x hx =>
          h x (List.mem_of_mem_take (i := min (left + 1) (5000000 / sizeofT)) hx)
        have hRest := ih (hDrop.trans_le (by omega))
          fun x hx => h x (List.mem_of_mem_drop hx)
        rw [hTake] at hFirst
        rw [hDrop] at hRest
        have hWhole := List.take_append_drop (min (left + 1) (5000000 / sizeofT)) xs
        generalize xs.take (min (left + 1) (5000000 / sizeofT)) = ys at *
        generalize xs.drop (min (left + 1) (5000000 / sizeofT)) = zs at *
        rw [hLeft]
        have hParts := hFirst.bind
          (fun ys s => do
            let rest ← readParts sizeofT read fuel
              (left + 1 - min (left + 1) (5000000 / sizeofT)) s
            return (ys ++ rest.1, rest.2))
          (hRest.bind (fun zs s => some (ys ++ zs, s)) (ReadsBack.pure (ys ++ zs)))
        rw [hWhole] at hParts
        refine hParts.congr ?_ ?_
        · rw [List.append_nil, ← List.flatMap_append, hWhole]
        · rw [and_true, ← List.forall_mem_append, hWhole]

theorem insertElement_last {ε κ : Type} {Pred : Less κ} {key : ε → κ} {x : ε} {ys : List ε}
    (h : ∀ y ∈ ys, Pred.lt (key y) (key x) = true) : insertElement Pred key x ys = ys ++ [x] := by
  induction ys with
  | nil => rfl
  | cons y ys ih =>
      rw [insertElement, if_pos (h y (List.mem_cons_self ..)),
        ih fun z hz => h z (List.mem_cons_of_mem y hz)]
      rfl

/-- Elements in the order of their keys are inserted one behind the other. -/
theorem readsBack_inserts {κ : Type} {Pred : Less κ} {key : α → κ} {m m' : Ordered Pred key}
    {xs : List α} (hWhole : m'.elements = m.elements ++ xs)
    (h : ∀ x ∈ xs, ReadsBack read (bytes x) x (c x)) :
    ReadsBack (readInserts read xs.length m) (xs.flatMap bytes) m' (∀ x ∈ xs, c x) := by
  induction xs generalizing m with
  | nil =>
      have hSame : m = m' := by
        cases m
        cases m'
        simpa using hWhole.symm
      subst hSame
      exact (ReadsBack.pure m).congr rfl (by simp)
  | cons x xs ih =>
      have hSorted := m'.sorted
      rw [hWhole, List.pairwise_append] at hSorted
      have hInsert : (m.insert x).elements = m.elements ++ [x] :=
        insertElement_last fun y hy => hSorted.2.2 y hy x (List.mem_cons_self ..)
      have hTail := ih (m := m.insert x) (by rw [hWhole, hInsert, List.append_assoc]; rfl)
        fun y hy => h y (List.mem_cons_of_mem x hy)
      have hCons := (h x (List.mem_cons_self ..)).bind
        (fun x s => readInserts read xs.length (m.insert x) s) hTail
      exact hCons.congr (by rw [List.flatMap_cons]) (by rw [List.forall_mem_cons])

end Loops

theorem toNat_lt_bytes {n : Nat} (a : BitVec (8 * n)) : a.toNat < 256 ^ n := by
  have hLt := a.isLt
  rwa [Nat.pow_mul] at hLt

theorem integersOf_flatMap {n : Nat} (xs : List (BitVec (8 * n))) :
    integersOf n xs.length (xs.flatMap fun a => leBytes n a.toNat) = xs := by
  induction xs with
  | nil => rfl
  | cons a xs ih =>
      have hLength := leBytes_length n a.toNat
      rw [List.length_cons, integersOf, List.flatMap_cons, List.take_left' hLength,
        List.drop_left' hLength, leNat_leBytes (toNat_lt_bytes a), ih, BitVec.ofNat_toNat,
        BitVec.setWidth_eq]

theorem flatMap_integers_length {n : Nat} (xs : List (BitVec (8 * n))) :
    (xs.flatMap fun a => leBytes n a.toNat).length = xs.length * n := by
  simp [List.length_flatMap]

theorem readsBack_blocks {n fuel : Nat} {xs : List (BitVec (8 * n))} (hFuel : xs.length ≤ fuel) :
    ReadsBack (readBlocks n fuel xs.length) (xs.flatMap fun a => leBytes n a.toNat) xs True := by
  induction fuel generalizing xs with
  | zero =>
      obtain rfl : xs = [] := List.length_eq_zero_iff.mp (by omega)
      exact ReadsBack.pure []
  | succ fuel ih =>
      by_cases hNil : xs = []
      · subst hNil
        exact ReadsBack.pure []
      · have hPos := List.length_pos_of_ne_nil hNil
        obtain ⟨left, hLeft⟩ : ∃ left, xs.length = left + 1 := ⟨xs.length - 1, by omega⟩
        have hTake : (xs.take (min (left + 1) (1 + 4999999 / n))).length =
            min (left + 1) (1 + 4999999 / n) := by
          rw [List.length_take]
          omega
        have hDrop : (xs.drop (min (left + 1) (1 + 4999999 / n))).length =
            left + 1 - min (left + 1) (1 + 4999999 / n) := by
          rw [List.length_drop, hLeft]
        have hFirst := readsBack_readBytes
          ((xs.take (min (left + 1) (1 + 4999999 / n))).flatMap fun a => leBytes n a.toNat)
        have hBlock := integersOf_flatMap (xs.take (min (left + 1) (1 + 4999999 / n)))
        have hSome : 0 < min (left + 1) (1 + 4999999 / n) :=
          Nat.lt_min.mpr ⟨Nat.succ_pos left, Nat.lt_add_right _ Nat.one_pos⟩
        have hRest := ih (hDrop.trans_le (by omega))
        rw [flatMap_integers_length, hTake] at hFirst
        rw [hTake] at hBlock
        rw [hDrop] at hRest
        have hWhole := List.take_append_drop (min (left + 1) (1 + 4999999 / n)) xs
        generalize xs.take (min (left + 1) (1 + 4999999 / n)) = ys at *
        generalize xs.drop (min (left + 1) (1 + 4999999 / n)) = zs at *
        rw [hLeft]
        have hBlocks := hFirst.bind
          (fun bytes s => do
            let rest ← readBlocks n fuel (left + 1 - min (left + 1) (1 + 4999999 / n)) s
            return (integersOf n (min (left + 1) (1 + 4999999 / n)) bytes ++ rest.1, rest.2))
          (hRest.bind
            (fun zs s => some (integersOf n (min (left + 1) (1 + 4999999 / n))
              (ys.flatMap fun a => leBytes n a.toNat) ++ zs, s))
            (ReadsBack.pure _))
        rw [hBlock, hWhole] at hBlocks
        refine hBlocks.congr ?_ (by simp)
        rw [List.append_nil, ← List.flatMap_append, hWhole]

/-! ## The round trip -/

variable (sizeofT : {α : Type} → Ty α → Nat)

theorem readsBack {α : Type} (t : Ty α) (v : α) (h : Bounded t v) :
    ReadsBack (Unserialize sizeofT t) (Serialize t v) v (Fits sizeofT t v) := by
  induction t with
  | integer n hn =>
      have hRead := (readsBack_integer (toNat_lt_bytes v)).bind
        (fun a s => some (BitVec.ofNat (8 * n) a, s)) (ReadsBack.pure _)
      rw [BitVec.ofNat_toNat, BitVec.setWidth_eq] at hRead
      exact hRead.congr (by rw [List.append_nil]; rfl) (by simp [Fits])
  | string =>
      have hRead := (readsBack_compactSize h).bind (fun n s => readBytes n s)
        (readsBack_readBytes v)
      exact hRead.congr rfl (by simp [Fits])
  | integers n hn =>
      have hRead := (readsBack_compactSize h).bind (fun k s => readBlocks n k k s)
        (readsBack_blocks le_rfl)
      exact hRead.congr rfl (by simp [Fits])
  | vector t ih =>
      by_cases hStep : 5000000 / sizeofT t = 0
      · by_cases hNil : v = []
        · subst hNil
          have hRead := (readsBack_compactSize h.1).bind
            (fun k s => readParts (sizeofT t) (Unserialize sizeofT t) k k s)
            (ReadsBack.pure [])
          exact hRead.congr rfl (by simp [Fits])
        · have hPos := List.length_pos_of_ne_nil hNil
          obtain ⟨left, hLeft⟩ : ∃ left, v.length = left + 1 := ⟨v.length - 1, by omega⟩
          have hStuck : ReadsBack (readParts (sizeofT t) (Unserialize sizeofT t) v.length v.length)
              (v.flatMap (Serialize t)) v False := by
            refine ⟨fun hc => hc.elim, fun _ rest => ?_⟩
            rw [hLeft]
            exact readParts_stuck hStep _ _ _
          have hRead := (readsBack_compactSize h.1).bind
            (fun k s => readParts (sizeofT t) (Unserialize sizeofT t) k k s) hStuck
          exact hRead.congr rfl (by simp [Fits, hNil, hStep])
      · have hRead := (readsBack_compactSize h.1).bind
          (fun k s => readParts (sizeofT t) (Unserialize sizeofT t) k k s)
          (readsBack_parts hStep le_rfl fun x hx => ih x (h.2 x hx))
        exact hRead.congr rfl (by simp [Fits, hStep])
  | pair t u iht ihu => exact readsBack_pair (iht v.1 h.1) (ihu v.2 h.2)
  | tuple3 t u w iht ihu ihw =>
      exact readsBack_pair (iht v.1 h.1) (readsBack_pair (ihu v.2.1 h.2.1) (ihw v.2.2 h.2.2))
  | tuple4 t u w z iht ihu ihw ihz =>
      exact readsBack_pair (iht v.1 h.1) (readsBack_pair (ihu v.2.1 h.2.1)
        (readsBack_pair (ihw v.2.2.1 h.2.2.1) (ihz v.2.2.2 h.2.2.2)))
  | map Pred t u iht ihu =>
      have hRead := (readsBack_compactSize h.1).bind
        (fun k s => readInserts (readPair (Unserialize sizeofT t) (Unserialize sizeofT u))
          k .empty s)
        (readsBack_inserts (m := Ordered.empty) rfl fun x hx =>
          readsBack_pair (iht x.1 (h.2 x hx).1) (ihu x.2 (h.2 x hx).2))
      exact hRead.congr rfl (by simp [Fits])
  | set Pred t ih =>
      have hRead := (readsBack_compactSize h.1).bind
        (fun k s => readInserts (Unserialize sizeofT t) k .empty s)
        (readsBack_inserts (m := Ordered.empty) rfl fun x hx => ih x (h.2 x hx))
      exact hRead.congr rfl (by simp [Fits])

/-! ## Sizes -/

/-- How many bytes a value takes: those of its parts, and the count in front of a container. -/
def bytesOf : {α : Type} → Ty α → α → Nat
  | _, .integer n _, _ => n
  | _, .string, str => GetSizeOfCompactSize str.length + str.length
  | _, .integers n _, v => GetSizeOfCompactSize v.length + v.length * n
  | _, .vector t, v => GetSizeOfCompactSize v.length + (v.map (bytesOf t)).sum
  | _, .pair t u, item => bytesOf t item.1 + bytesOf u item.2
  | _, .tuple3 t u w, item => bytesOf t item.1 + (bytesOf u item.2.1 + bytesOf w item.2.2)
  | _, .tuple4 t u w z, item =>
      bytesOf t item.1 + (bytesOf u item.2.1 + (bytesOf w item.2.2.1 + bytesOf z item.2.2.2))
  | _, .map _ t u, m =>
      GetSizeOfCompactSize m.elements.length +
        (m.elements.map fun item => bytesOf t item.1 + bytesOf u item.2).sum
  | _, .set _ t, m =>
      GetSizeOfCompactSize m.elements.length + (m.elements.map (bytesOf t)).sum

theorem Serialize_length {α : Type} (t : Ty α) (v : α) : (Serialize t v).length = bytesOf t v := by
  induction t with
  | integer n hn => simp [Serialize, bytesOf]
  | string => simp [Serialize, bytesOf, WriteCompactSize_length]
  | integers n hn =>
      rw [Serialize, List.length_append, WriteCompactSize_length, flatMap_integers_length, bytesOf]
  | vector t ih => simp [Serialize, bytesOf, WriteCompactSize_length, List.length_flatMap, ih]
  | pair t u iht ihu => simp [Serialize, bytesOf, iht, ihu]
  | tuple3 t u w iht ihu ihw => simp [Serialize, bytesOf, iht, ihu, ihw]
  | tuple4 t u w z iht ihu ihw ihz => simp [Serialize, bytesOf, iht, ihu, ihw, ihz]
  | map p t u iht ihu =>
      simp [Serialize, bytesOf, WriteCompactSize_length, List.length_flatMap, iht, ihu]
  | set p t ih => simp [Serialize, bytesOf, WriteCompactSize_length, List.length_flatMap, ih]

/-- Every running size stays in its width: 32 bits for tuples of four and sets, 64 bits for the
other containers. -/
def Sized : {α : Type} → Ty α → α → Prop
  | _, .integer _ _, _ => True
  | _, .string, str => bytesOf .string str < 2 ^ 64
  | _, .integers n h, v => bytesOf (.integers n h) v < 2 ^ 64
  | _, .vector t, v => bytesOf (.vector t) v < 2 ^ 64 ∧ ∀ x ∈ v, Sized t x
  | _, .pair t u, item => bytesOf (.pair t u) item < 2 ^ 64 ∧ Sized t item.1 ∧ Sized u item.2
  | _, .tuple3 t u v, item =>
      bytesOf (.tuple3 t u v) item < 2 ^ 64 ∧ Sized t item.1 ∧ Sized u item.2.1 ∧ Sized v item.2.2
  | _, .tuple4 t u v w, item =>
      bytesOf (.tuple4 t u v w) item < 2 ^ 32 ∧
        Sized t item.1 ∧ Sized u item.2.1 ∧ Sized v item.2.2.1 ∧ Sized w item.2.2.2
  | _, .map p t u, m =>
      bytesOf (.map p t u) m < 2 ^ 64 ∧ ∀ x ∈ m.elements, Sized t x.1 ∧ Sized u x.2
  | _, .set p t, m => bytesOf (.set p t) m < 2 ^ 32 ∧ ∀ x ∈ m.elements, Sized t x

theorem addSizes_eq {limit nSize : Nat} (h : nSize < limit) (sizes : List Nat) :
    addSizes limit nSize sizes = (nSize + sizes.sum) % limit := by
  induction sizes generalizing nSize with
  | nil => exact (Nat.mod_eq_of_lt h).symm
  | cons size sizes ih =>
      show addSizes limit ((nSize + size) % limit) sizes = _
      rw [ih (Nat.mod_lt _ (by omega)), Nat.mod_add_mod, List.sum_cons, Nat.add_assoc]

/-- Sizes that are never too large add up to no more than the bytes, and to as much only if each
is right. -/
theorem sum_sizes {α : Type} {size bytes : α → Nat} {xs : List α} (h : ∀ x ∈ xs, size x ≤ bytes x) :
    (xs.map size).sum ≤ (xs.map bytes).sum ∧
      ((xs.map size).sum = (xs.map bytes).sum ↔ ∀ x ∈ xs, size x = bytes x) := by
  induction xs with
  | nil => simp
  | cons x xs ih =>
      obtain ⟨hLe, hIff⟩ := ih fun y hy => h y (List.mem_cons_of_mem x hy)
      have hHead := h x (List.mem_cons_self ..)
      simp only [List.map_cons, List.sum_cons, List.forall_mem_cons]
      refine ⟨by omega, ?_⟩
      rw [← hIff]
      omega

/-- A reduced size is right exactly where it is below the limit and right before. -/
theorem reduced_iff (limit : Nat) {size bytes : Nat} (h : size ≤ bytes) (hPos : 0 < limit) :
    size % limit ≤ bytes ∧ (size % limit = bytes ↔ bytes < limit ∧ size = bytes) := by
  have hMod := Nat.mod_le size limit
  refine ⟨by omega, ?_⟩
  constructor
  · intro hEq
    have hSame : size = bytes := by omega
    have hLt := Nat.mod_lt size hPos
    exact ⟨by omega, hSame⟩
  · rintro ⟨hLt, rfl⟩
    exact Nat.mod_eq_of_lt hLt

theorem compactSize_lt (n : Nat) : GetSizeOfCompactSize n < 2 ^ 32 := by
  rw [GetSizeOfCompactSize]
  split
  · norm_num
  · split
    · norm_num
    · split <;> norm_num

/-- The running size over the elements of a container. -/
theorem container_size {α : Type} {size bytes : α → Nat} {xs : List α} (limit nSize : Nat)
    (hStart : nSize < limit) (h : ∀ x ∈ xs, size x ≤ bytes x) :
    addSizes limit nSize (xs.map size) ≤ nSize + (xs.map bytes).sum ∧
      (addSizes limit nSize (xs.map size) = nSize + (xs.map bytes).sum ↔
        nSize + (xs.map bytes).sum < limit ∧ ∀ x ∈ xs, size x = bytes x) := by
  obtain ⟨hLe, hIff⟩ := sum_sizes h
  rw [addSizes_eq hStart, ← hIff]
  obtain ⟨hLe', hIff'⟩ := reduced_iff limit
    (Nat.add_le_add_left hLe nSize) (by omega)
  exact ⟨hLe', hIff'.trans (and_congr_right fun _ => Nat.add_left_cancel_iff)⟩

theorem pair_size {a b x y : Nat} (ha : a ≤ x) (hb : b ≤ y) :
    (a + b) % 2 ^ 64 ≤ x + y ∧ ((a + b) % 2 ^ 64 = x + y ↔ x + y < 2 ^ 64 ∧ a = x ∧ b = y) := by
  obtain ⟨hLe, hIff⟩ := reduced_iff (2 ^ 64) (Nat.add_le_add ha hb) (by norm_num)
  refine ⟨hLe, hIff.trans (and_congr_right fun _ => ?_)⟩
  omega

/-- A size that is calculated is at most the number of bytes, and equal to it exactly where no
running size leaves its width. -/
theorem size_iff {α : Type} (t : Ty α) (v : α) :
    GetSerializeSize t v ≤ bytesOf t v ∧ (GetSerializeSize t v = bytesOf t v ↔ Sized t v) := by
  induction t with
  | integer n hn => simp [GetSerializeSize, bytesOf, Sized]
  | string =>
      obtain ⟨hLe, hIff⟩ := reduced_iff (2 ^ 64) (le_refl (bytesOf .string v)) (by norm_num)
      exact ⟨hLe, hIff.trans (and_iff_left rfl)⟩
  | integers n hn =>
      obtain ⟨hLe, hIff⟩ := reduced_iff (2 ^ 64) (le_refl (bytesOf (.integers n hn) v))
        (by norm_num)
      exact ⟨hLe, hIff.trans (and_iff_left rfl)⟩
  | vector t ih =>
      obtain ⟨hLe, hIff⟩ := container_size (2 ^ 64) (GetSizeOfCompactSize v.length)
        (lt_trans (compactSize_lt _) (by norm_num)) fun x (_ : x ∈ v) => (ih x).1
      refine ⟨hLe, hIff.trans (and_congr_right fun _ => ?_)⟩
      exact forall₂_congr fun x _ => (ih x).2
  | pair t u iht ihu =>
      obtain ⟨hLe, hIff⟩ := pair_size (iht v.1).1 (ihu v.2).1
      refine ⟨hLe, hIff.trans (and_congr_right fun _ => ?_)⟩
      exact and_congr (iht v.1).2 (ihu v.2).2
  | tuple3 t u w iht ihu ihw =>
      obtain ⟨hT, hT'⟩ := iht v.1
      obtain ⟨hU, hU'⟩ := ihu v.2.1
      obtain ⟨hW, hW'⟩ := ihw v.2.2
      obtain ⟨hLe, hIff⟩ := reduced_iff (2 ^ 64)
        (Nat.add_le_add hT (Nat.add_le_add hU hW)) (by norm_num)
      have hSize : GetSerializeSize (.tuple3 t u w) v = (GetSerializeSize t v.1 +
          (GetSerializeSize u v.2.1 + GetSerializeSize w v.2.2)) % 2 ^ 64 := by
        rw [GetSerializeSize, addSizes_eq (by norm_num)]
        simp
      rw [Sized, hSize, bytesOf, ← hT', ← hU', ← hW']
      exact ⟨hLe, hIff.trans (and_congr_right fun _ => by omega)⟩
  | tuple4 t u w z iht ihu ihw ihz =>
      obtain ⟨hT, hT'⟩ := iht v.1
      obtain ⟨hU, hU'⟩ := ihu v.2.1
      obtain ⟨hW, hW'⟩ := ihw v.2.2.1
      obtain ⟨hZ, hZ'⟩ := ihz v.2.2.2
      obtain ⟨hLe, hIff⟩ := reduced_iff (2 ^ 32)
        (Nat.add_le_add hT (Nat.add_le_add hU (Nat.add_le_add hW hZ))) (by norm_num)
      have hSize : GetSerializeSize (.tuple4 t u w z) v = (GetSerializeSize t v.1 +
          (GetSerializeSize u v.2.1 + (GetSerializeSize w v.2.2.1 +
            GetSerializeSize z v.2.2.2))) % 2 ^ 32 := by
        rw [GetSerializeSize, addSizes_eq (by norm_num)]
        simp
      rw [Sized, hSize, bytesOf, ← hT', ← hU', ← hW', ← hZ']
      exact ⟨hLe, hIff.trans (and_congr_right fun _ => by omega)⟩
  | map p t u iht ihu =>
      obtain ⟨hLe, hIff⟩ := container_size (2 ^ 64) (GetSizeOfCompactSize v.elements.length)
        (lt_trans (compactSize_lt _) (by norm_num)) fun x (_ : x ∈ v.elements) =>
          (pair_size (iht x.1).1 (ihu x.2).1).1
      refine ⟨hLe, hIff.trans (and_congr_right fun hLess => ?_)⟩
      refine forall₂_congr fun x hx => ?_
      -- an element is below the limit of its pair where the whole map is below it
      have hItem := List.le_sum_of_mem
        (List.mem_map_of_mem (f := fun item => bytesOf t item.1 + bytesOf u item.2) hx)
      have hSmall : bytesOf t x.1 + bytesOf u x.2 < 2 ^ 64 := by omega
      rw [(pair_size (iht x.1).1 (ihu x.2).1).2, and_iff_right hSmall, (iht x.1).2, (ihu x.2).2]
  | set p t ih =>
      obtain ⟨hLe, hIff⟩ := container_size (2 ^ 32) (GetSizeOfCompactSize v.elements.length)
        (compactSize_lt _) fun x (_ : x ∈ v.elements) => (ih x).1
      refine ⟨hLe, hIff.trans (and_congr_right fun _ => ?_)⟩
      exact forall₂_congr fun x _ => (ih x).2

/-! ## What follows for values -/

/-- Written values and what follows them are told apart, whatever the sizes in memory are. -/
theorem serialize_inj {α : Type} {t : Ty α} {v w : α} (hv : Bounded t v) (hw : Bounded t w)
    {rest rest' : List UInt8} (h : Serialize t v ++ rest = Serialize t w ++ rest') :
    v = w ∧ rest = rest' := by
  have hFits : ∀ {β : Type} (u : Ty β) (x : β), Fits (fun _ => 1) u x := by
    intro β u x
    induction u with
    | integer n hn => trivial
    | string => trivial
    | integers n hn => trivial
    | vector t ih => exact ⟨fun _ => by norm_num, fun y _ => ih y⟩
    | pair t u iht ihu => exact ⟨iht x.1, ihu x.2⟩
    | tuple3 t u w iht ihu ihw => exact ⟨iht x.1, ihu x.2.1, ihw x.2.2⟩
    | tuple4 t u w z iht ihu ihw ihz => exact ⟨iht x.1, ihu x.2.1, ihw x.2.2.1, ihz x.2.2.2⟩
    | map p t u iht ihu => exact fun y _ => ⟨iht y.1, ihu y.2⟩
    | set p t ih => exact fun y _ => ih y
  have hRead := (readsBack (fun _ => 1) t v hv).1 (hFits t v) rest
  rw [h, (readsBack (fun _ => 1) t w hw).1 (hFits t w) rest'] at hRead
  obtain ⟨hValue, hRest⟩ := Prod.mk.inj (Option.some.inj hRead)
  exact ⟨hValue.symm, hRest.symm⟩

end Serials

open Serials

/-- A value is read back with the rest of the stream left over, and its size is the number of
bytes written, exactly where its vectors fit and its running sizes stay in their widths.  What
is written tells the values apart in any case. -/
theorem serials_round_trip {α : Type} (sizeofT : {β : Type} → Ty β → Nat) (t : Ty α) (v : α)
    (h : Bounded t v) :
    (((∀ rest, Unserialize sizeofT t (Serialize t v ++ rest) = some (v, rest)) ∧
      GetSerializeSize t v = (Serialize t v).length) ↔ Fits sizeofT t v ∧ Sized t v) ∧
    ∀ w rest rest', Bounded t w → Serialize t v ++ rest = Serialize t w ++ rest' →
      v = w ∧ rest = rest' := by
  obtain ⟨hRead, hStuck⟩ := readsBack sizeofT t v h
  rw [Serialize_length, (size_iff t v).2]
  refine ⟨and_congr_left fun _ => ?_, fun w rest rest' hw => serialize_inj h hw⟩
  constructor
  · intro hBack
    by_contra hNot
    have hNone := hStuck hNot []
    rw [hBack] at hNone
    cases hNone
  · exact hRead

/-- Three names and their number. -/
theorem serials_round_trip_names :
    Bounded (.pair (.integer 4 (by decide)) (.vector .string)) (3, [[1], [2, 3], []]) ∧
    GetSerializeSize (.pair (.integer 4 (by decide)) (.vector .string)) (3, [[1], [2, 3], []]) =
      (Serialize (.pair (.integer 4 (by decide)) (.vector .string)) (3, [[1], [2, 3], []])).length :=
  have hBounded : Bounded (.pair (.integer 4 (by decide)) (.vector .string))
      (3, [[1], [2, 3], []]) := by simp [Bounded, MAX_SIZE]
  ⟨hBounded, (((serials_round_trip (fun _ => 32) (.pair (.integer 4 (by decide)) (.vector .string))
    (3, [[1], [2, 3], []]) hBounded).1.mpr (by simp [Fits, Sized, bytesOf, GetSizeOfCompactSize])).2)⟩

namespace Serials

/-- Three bytes and 128 strings of `n` bytes. -/
def large (n : Nat) : BitVec (8 * 1) × BitVec (8 * 1) × BitVec (8 * 1) × List (List UInt8) :=
  (0, 0, 0, List.replicate 128 (List.replicate n 0))

def largeTy : Ty (BitVec (8 * 1) × BitVec (8 * 1) × BitVec (8 * 1) × List (List UInt8)) :=
  .tuple4 (.integer 1 (by decide)) (.integer 1 (by decide)) (.integer 1 (by decide))
    (.vector .string)

theorem large_bounded {n : Nat} (h : n ≤ MAX_SIZE) : Bounded largeTy (large n) := by
  have hMany : 128 ≤ MAX_SIZE := by decide
  refine ⟨trivial, trivial, trivial, ?_, ?_⟩
  · simpa [large] using hMany
  · intro x hx
    rw [List.eq_of_mem_replicate hx]
    simpa [Bounded] using h

theorem large_unsized {n : Nat} (h : 2 ^ 25 ≤ n) : ¬ Sized largeTy (large n) := by
  intro hSized
  have hBytes := hSized.1
  simp [bytesOf, large] at hBytes
  omega

end Serials

/-- A tuple of four whose size is reduced by 4294967296. -/
theorem size_of_large : Bounded largeTy (large MAX_SIZE) ∧
    GetSerializeSize largeTy (large MAX_SIZE) ≠ (Serialize largeTy (large MAX_SIZE)).length := by
  have hSize : 2 ^ 25 ≤ MAX_SIZE := by decide
  rw [Serialize_length]
  exact ⟨large_bounded (le_refl _), fun h => large_unsized hSize ((size_iff _ _).2.mp h)⟩

end Nexus.Safety
