import Nexus.Lib.Bytes

/-!
# Serialization

The template families of `serialize.h`: `GetSerializeSize`, `Serialize` and
`Unserialize` for integers, strings, vectors, pairs, tuples, maps and sets.  A type
that is built from these is a value of `Ty`, and the three families are functions by
recursion over it.  The running sizes are kept in the widths of the source: 32 bits
for tuples of four and for sets, 64 bits for the other containers.
-/

namespace Nexus.Util.Serial

open Nexus.Lib.Bytes

def MAX_SIZE : Nat := 0x02000000

/-- The order of the keys of a map or a set. -/
structure Less (α : Type) where
  lt : α → α → Bool
  trans : ∀ x y z, lt x y = true → lt y z = true → lt x z = true

/-- A map or a set: its elements in the order of their keys. -/
structure Ordered {α ε : Type} (Pred : Less α) (key : ε → α) where
  elements : List ε
  sorted : elements.Pairwise fun x y => Pred.lt (key x) (key y) = true

section Insert

variable {α ε : Type} (Pred : Less α) (key : ε → α)

/-- `insert` into elements in order: nothing happens where an equivalent key is. -/
def insertElement (x : ε) : List ε → List ε
  | [] => [x]
  | y :: ys =>
    if Pred.lt (key y) (key x) then y :: insertElement x ys
    else if Pred.lt (key x) (key y) then x :: y :: ys
    else y :: ys

theorem mem_insertElement {x z : ε} {ys : List ε} (h : z ∈ insertElement Pred key x ys) :
    z = x ∨ z ∈ ys := by
  induction ys with
  | nil => exact .inl (List.mem_singleton.mp h)
  | cons y ys ih =>
      rw [insertElement] at h
      split at h
      · rcases List.mem_cons.mp h with rfl | h
        · exact .inr (List.mem_cons_self ..)
        · exact (ih h).imp_right (List.mem_cons_of_mem y)
      · split at h
        · exact List.mem_cons.mp h
        · exact .inr h

theorem insertElement_sorted {x : ε} {ys : List ε}
    (h : ys.Pairwise fun x y => Pred.lt (key x) (key y) = true) :
    (insertElement Pred key x ys).Pairwise fun x y => Pred.lt (key x) (key y) = true := by
  induction ys with
  | nil => exact List.pairwise_singleton _ _
  | cons y ys ih =>
      obtain ⟨hHead, hTail⟩ := List.pairwise_cons.mp h
      rw [insertElement]
      split
      · rename_i hLess
        refine List.pairwise_cons.mpr ⟨?_, ih hTail⟩
        intro z hz
        rcases mem_insertElement Pred key hz with rfl | hz
        · exact hLess
        · exact hHead z hz
      · split
        · rename_i hMore
          refine List.pairwise_cons.mpr ⟨?_, h⟩
          intro z hz
          rcases List.mem_cons.mp hz with rfl | hz
          · exact hMore
          · exact Pred.trans _ _ _ hMore (hHead z hz)
        · exact h

variable {Pred key}

def Ordered.empty : Ordered Pred key := ⟨[], List.Pairwise.nil⟩

/-- `m.insert(mi, item)`; the position is a hint only. -/
def Ordered.insert (m : Ordered Pred key) (x : ε) : Ordered Pred key :=
  ⟨insertElement Pred key x m.elements, insertElement_sorted Pred key m.sorted⟩

end Insert

/-- `std::map` -/
abbrev OrderedMap {α : Type} (Pred : Less α) (β : Type) := Ordered Pred (Prod.fst : α × β → α)

/-- `std::set` -/
abbrev OrderedSet {α : Type} (Pred : Less α) := Ordered Pred (id : α → α)

/-- The types that are built from integers of 1, 2, 4 or 8 bytes. -/
inductive Ty : Type → Type 1
  | integer (n : Nat) (h : n ∈ [1, 2, 4, 8]) : Ty (BitVec (8 * n))
  | string : Ty (List UInt8)
  /-- A vector of integers, for which `std::is_fundamental` selects the templates. -/
  | integers (n : Nat) (h : n ∈ [1, 2, 4, 8]) : Ty (List (BitVec (8 * n)))
  /-- A vector of other elements. -/
  | vector {α : Type} (t : Ty α) : Ty (List α)
  | pair {α β : Type} (t : Ty α) (u : Ty β) : Ty (α × β)
  | tuple3 {α β γ : Type} (t : Ty α) (u : Ty β) (v : Ty γ) : Ty (α × β × γ)
  | tuple4 {α β γ δ : Type} (t : Ty α) (u : Ty β) (v : Ty γ) (w : Ty δ) : Ty (α × β × γ × δ)
  | map {α β : Type} (Pred : Less α) (t : Ty α) (u : Ty β) : Ty (OrderedMap Pred β)
  | set {α : Type} (Pred : Less α) (t : Ty α) : Ty (OrderedSet Pred)

/-! ## Sizes -/

def GetSizeOfCompactSize (nSize : Nat) : Nat :=
  if nSize < 253 then 1
  else if nSize ≤ 0xffff then 3
  else if nSize ≤ 0xffffffff then 5
  else 9

/-- `nSize += …` for each of some sizes, with `nSize` below `limit`. -/
def addSizes (limit : Nat) (nSize : Nat) (sizes : List Nat) : Nat :=
  sizes.foldl (fun nSize size => (nSize + size) % limit) nSize

/-- `GetSerializeSize` -/
def GetSerializeSize : {α : Type} → Ty α → α → Nat
  | _, .integer n _, _ => n
  | _, .string, str => (GetSizeOfCompactSize str.length + str.length) % 2 ^ 64
  | _, .integers n _, v => (GetSizeOfCompactSize v.length + v.length * n) % 2 ^ 64
  | _, .vector t, v =>
    addSizes (2 ^ 64) (GetSizeOfCompactSize v.length) (v.map (GetSerializeSize t))
  | _, .pair t u, item => (GetSerializeSize t item.1 + GetSerializeSize u item.2) % 2 ^ 64
  | _, .tuple3 t u v, item =>
    addSizes (2 ^ 64) 0 [GetSerializeSize t item.1, GetSerializeSize u item.2.1,
      GetSerializeSize v item.2.2]
  | _, .tuple4 t u v w, item =>
    addSizes (2 ^ 32) 0 [GetSerializeSize t item.1, GetSerializeSize u item.2.1,
      GetSerializeSize v item.2.2.1, GetSerializeSize w item.2.2.2]
  | _, .map _ t u, m =>
    addSizes (2 ^ 64) (GetSizeOfCompactSize m.elements.length)
      (m.elements.map fun item =>
        (GetSerializeSize t item.1 + GetSerializeSize u item.2) % 2 ^ 64)
  | _, .set _ t, m =>
    addSizes (2 ^ 32) (GetSizeOfCompactSize m.elements.length) (m.elements.map (GetSerializeSize t))

/-! ## Writing -/

def WriteCompactSize (nSize : Nat) : List UInt8 :=
  if nSize < 253 then [UInt8.ofNat nSize]
  else if nSize ≤ 0xffff then 253 :: leBytes 2 nSize
  else if nSize ≤ 0xffffffff then 254 :: leBytes 4 nSize
  else 255 :: leBytes 8 nSize

/-- `Serialize`.  The block of a vector of integers is the bytes of its elements one after the
other. -/
def Serialize : {α : Type} → Ty α → α → List UInt8
  | _, .integer n _, a => leBytes n a.toNat
  | _, .string, str => WriteCompactSize str.length ++ str
  | _, .integers n _, v => WriteCompactSize v.length ++ v.flatMap fun a => leBytes n a.toNat
  | _, .vector t, v => WriteCompactSize v.length ++ v.flatMap (Serialize t)
  | _, .pair t u, item => Serialize t item.1 ++ Serialize u item.2
  | _, .tuple3 t u v, item =>
    Serialize t item.1 ++ (Serialize u item.2.1 ++ Serialize v item.2.2)
  | _, .tuple4 t u v w, item =>
    Serialize t item.1 ++ (Serialize u item.2.1 ++ (Serialize v item.2.2.1 ++ Serialize w item.2.2.2))
  | _, .map _ t u, m =>
    WriteCompactSize m.elements.length ++
      m.elements.flatMap fun item => Serialize t item.1 ++ Serialize u item.2
  | _, .set _ t, m => WriteCompactSize m.elements.length ++ m.elements.flatMap (Serialize t)

/-! ## Reading -/

/-- A read takes a value off a stream, or throws, or never ends. -/
abbrev Read (α : Type) := List UInt8 → Option (α × List UInt8)

/-- `READDATA` of `n` bytes. -/
def readBytes (n : Nat) : Read (List UInt8) := fun s =>
  if s.length < n then none else some (s.take n, s.drop n)

def readInteger (n : Nat) : Read Nat := fun s => do
  let (bytes, s) ← readBytes n s
  return (leNat bytes, s)

def ReadCompactSize : Read Nat := fun s => do
  let (chSize, s) ← readInteger 1 s
  let (nSizeRet, s) ←
    if chSize < 253 then some (chSize, s)
    else if chSize = 253 then readInteger 2 s
    else if chSize = 254 then readInteger 4 s
    else readInteger 8 s
  if MAX_SIZE < nSizeRet then none else return (nSizeRet, s)

/-- So many values, one after the other. -/
def readMany {α : Type} (read : Read α) : Nat → Read (List α)
  | 0, s => some ([], s)
  | n + 1, s => do
    let (x, s) ← read s
    let (xs, s) ← readMany read n s
    return (x :: xs, s)

/-- The integers of `n` bytes that lie in a block. -/
def integersOf (n : Nat) : Nat → List UInt8 → List (BitVec (8 * n))
  | 0, _ => []
  | k + 1, bytes =>
    BitVec.ofNat (8 * n) (leNat (bytes.take n)) :: integersOf n k (bytes.drop n)

/-- The loop over a vector of integers, with `left` elements to read: blocks of at most
`1 + 4999999 / n` elements.  A block holds an element, so `left` turns are enough. -/
def readBlocks (n : Nat) : Nat → Nat → Read (List (BitVec (8 * n)))
  | _, 0, s => some ([], s)
  | 0, _ + 1, _ => none
  | fuel + 1, left + 1, s => do
    let blk := min (left + 1) (1 + 4999999 / n)
    let (bytes, s) ← readBytes (blk * n) s
    let (xs, s) ← readBlocks n fuel (left + 1 - blk) s
    return (integersOf n blk bytes ++ xs, s)

/-- The loop over a vector of other elements: as many at a time as fit in 5000000 bytes of
memory.  It never ends where not one does. -/
def readParts {α : Type} (sizeofT : Nat) (read : Read α) : Nat → Nat → Read (List α)
  | _, 0, s => some ([], s)
  | 0, _ + 1, _ => none
  | fuel + 1, left + 1, s => do
    let blk := min (left + 1) (5000000 / sizeofT)
    let (xs, s) ← readMany read blk s
    let (ys, s) ← readParts sizeofT read fuel (left + 1 - blk) s
    return (xs ++ ys, s)

/-- The loop of a map or a set: read an element and insert it. -/
def readInserts {α ε : Type} {Pred : Less α} {key : ε → α} (read : Read ε) :
    Nat → Ordered Pred key → Read (Ordered Pred key)
  | 0, m, s => some (m, s)
  | n + 1, m, s => do
    let (x, s) ← read s
    readInserts read n (m.insert x) s

/-- One value behind the other. -/
def readPair {α β : Type} (first : Read α) (second : Read β) : Read (α × β) := fun s => do
  let (x, s) ← first s
  let (y, s) ← second s
  return ((x, y), s)

/-- `Unserialize`, with the size in memory of each type. -/
def Unserialize (sizeofT : {α : Type} → Ty α → Nat) : {α : Type} → Ty α → Read α
  | _, .integer n _ => fun s => do
    let (a, s) ← readInteger n s
    return (BitVec.ofNat (8 * n) a, s)
  | _, .string => fun s => do
    let (nSize, s) ← ReadCompactSize s
    readBytes nSize s
  | _, .integers n _ => fun s => do
    let (nSize, s) ← ReadCompactSize s
    readBlocks n nSize nSize s
  | _, .vector t => fun s => do
    let (nSize, s) ← ReadCompactSize s
    readParts (sizeofT t) (Unserialize sizeofT t) nSize nSize s
  | _, .pair t u => readPair (Unserialize sizeofT t) (Unserialize sizeofT u)
  | _, .tuple3 t u v =>
    readPair (Unserialize sizeofT t) (readPair (Unserialize sizeofT u) (Unserialize sizeofT v))
  | _, .tuple4 t u v w =>
    readPair (Unserialize sizeofT t) (readPair (Unserialize sizeofT u)
      (readPair (Unserialize sizeofT v) (Unserialize sizeofT w)))
  | _, .map _ t u => fun s => do
    let (nSize, s) ← ReadCompactSize s
    readInserts (readPair (Unserialize sizeofT t) (Unserialize sizeofT u)) nSize .empty s
  | _, .set _ t => fun s => do
    let (nSize, s) ← ReadCompactSize s
    readInserts (Unserialize sizeofT t) nSize .empty s

end Nexus.Util.Serial
