import Nexus.Register.Fields

/-!
# The object grammar

The bytes of an object as a sequence of items, each written out in full: a name
with its length in front, a marker when it is mutable, a type and a value.  The
parser reads the items and steps over the values, so it sees the entries of a
sequence of items whether the value of the last one is complete or not.

## Main results

* `entries_of_items`: the entries of items, the last value of which may be cut short.
* `items_of_entries`: the items that entries were read from.
-/

namespace Nexus.Register

open Nexus.Lib.Bytes
open Nexus.Lib.Checked
open Nexus.Util

/-! ## Bytes ahead of a cursor -/

/-- The next bytes of the stream are `vch`, and `s'` is past them. -/
structure Ahead (s : Stream) (vch : List UInt8) (s' : Stream) : Prop where
  data : s.vchData.drop s.nReadPos = vch ++ s'.vchData.drop s'.nReadPos
  next : s' = s.advance vch.length
  fits : s.Fits vch.length

namespace Ahead

variable {s s' s'' : Stream} {vch vch' : List UInt8}

theorem append (h : Ahead s vch s') (h' : Ahead s' vch' s'') : Ahead s (vch ++ vch') s'' where
  data := by rw [h.data, h'.data, List.append_assoc]
  next := by rw [h'.next, h.next, Stream.advance_advance, List.length_append]
  fits := by
    have hFits := h'.fits
    rw [h.next] at hFits
    rw [List.length_append]
    exact (Stream.fits_advance ..).mp hFits

theorem nil (h : s.Fits 0) : Ahead s [] s := ⟨rfl, rfl, h⟩

/-- The bytes at a cursor inside the data. -/
theorem of_drop {vchRest : List UInt8} (h0 : s.Fits 0)
    (h : s.vchData.drop s.nReadPos = vch ++ vchRest) : Ahead s vch (s.advance vch.length) :=
  ⟨by rw [Stream.drop_advance h rfl, h], rfl, Stream.fits_of_drop h0 h rfl⟩

theorem rest_fits (h : Ahead s vch s') : s'.Fits 0 := by
  rw [h.next]
  exact (Stream.fits_advance ..).mpr h.fits

/-- Two blocks of bytes are one after the other. -/
theorem split (h : Ahead s (vch ++ vch') s') :
    Ahead s vch (s.advance vch.length) ∧ Ahead (s.advance vch.length) vch' s' := by
  have hFits := h.fits
  have h0 : s.Fits 0 := by
    unfold Stream.Fits at *
    omega
  have hData := h.data
  rw [List.append_assoc] at hData
  have hFirst : Ahead s vch (s.advance vch.length) := of_drop h0 hData
  refine ⟨hFirst, ?_, ?_, ?_⟩
  · rw [hFirst.data] at hData
    exact List.append_cancel_left hData
  · rw [Stream.advance_advance, ← List.length_append]
    exact h.next
  · rw [Stream.fits_advance, ← List.length_append]
    exact hFits

end Ahead

variable {s s' : Stream} {n : Nat} {vch : List UInt8}

theorem read_ahead : s.read n = .ok (vch, s') ↔ Ahead s vch s' ∧ vch.length = n := by
  rw [Stream.read_eq_ok]
  constructor
  · intro h
    obtain ⟨hFits, rfl, rfl⟩ := h
    have hLength : ((s.vchData.drop s.nReadPos).take n).length = n := by
      unfold Stream.Fits Stream.size at hFits
      rw [List.length_take, List.length_drop]
      omega
    have hSplit : s.vchData.drop s.nReadPos =
        (s.vchData.drop s.nReadPos).take n ++ (s.vchData.drop s.nReadPos).drop n :=
      (List.take_append_drop ..).symm
    refine ⟨⟨?_, by rw [hLength], by rw [hLength]; exact hFits⟩, hLength⟩
    show _ = _ ++ s.vchData.drop (s.nReadPos + n)
    rw [← List.drop_drop]
    exact hSplit
  · intro h
    obtain ⟨hAhead, rfl⟩ := h
    exact ⟨hAhead.fits, by rw [hAhead.data, List.take_left], hAhead.next⟩

theorem extract_ahead {α : Type} [FixedWidth α] {a : α} :
    s.extract α = .ok (a, s') ↔ Ahead s (FixedWidth.encode a) s' := by
  simp only [Stream.extract, bind_eq_ok, Prod.exists, read_ahead, pure_eq_ok, Prod.mk.injEq]
  constructor
  · intro h
    obtain ⟨vch, s₁, ⟨hAhead, hLength⟩, rfl, rfl⟩ := h
    have hEncode : FixedWidth.encode (FixedWidth.decode vch : α) = vch := by
      rw [FixedWidth.encode, FixedWidth.toNat_decode hLength, ← hLength, leBytes_leNat]
    rw [hEncode]
    exact hAhead
  · intro h
    exact ⟨_, s', ⟨h, FixedWidth.encode_length a⟩, FixedWidth.decode_encode a, rfl⟩

/-! ## Lengths -/

/-- The bytes of a length: one byte, or a marker and a word.  A length need not be written in
the shortest way. -/
inductive CompactSize : List UInt8 → Nat → Prop
  | byte (ch : UInt8) (hSmall : ch < 253) : CompactSize (FixedWidth.encode ch) ch.toNat
  | word16 (x : UInt16) : CompactSize (FixedWidth.encode (253 : UInt8) ++ FixedWidth.encode x) x.toNat
  | word32 (x : UInt32) : CompactSize (FixedWidth.encode (254 : UInt8) ++ FixedWidth.encode x) x.toNat
  | word64 (x : UInt64) : CompactSize (FixedWidth.encode (255 : UInt8) ++ FixedWidth.encode x) x.toNat

theorem CompactSize.length_pos (h : CompactSize vch n) : 0 < vch.length := by
  cases h <;> simp

theorem readCompactSize_ahead :
    s.readCompactSize = .ok (n, s') ↔ n ≤ Stream.MAX_SIZE ∧ ∃ vch, CompactSize vch n ∧ Ahead s vch s' := by
  simp only [Stream.readCompactSize, bind_eq_ok, Prod.exists, extract_ahead, reject_eq_ok, pure_eq_ok,
    Prod.mk.injEq, Nat.not_lt]
  constructor
  · intro h
    obtain ⟨chSize, s₁, hByte, nRet, s₂, hSize, u, hMax, rfl, rfl⟩ := h
    refine ⟨hMax, ?_⟩
    simp only [Stream.readSize, ite_eq_ok, map_eq_ok, Prod.exists, extract_ahead, Except.ok.injEq,
      Prod.mk.injEq] at hSize
    rcases hSize with ⟨hSmall, rfl, rfl⟩ | ⟨hLarge, ⟨rfl, x, s₃, hx, rfl, rfl⟩ | ⟨h253, ⟨rfl, x, s₃, hx, rfl,
      rfl⟩ | ⟨h254, x, s₃, hx, rfl, rfl⟩⟩⟩
    · exact ⟨_, .byte chSize hSmall, hByte⟩
    · exact ⟨_, .word16 x, hByte.append hx⟩
    · exact ⟨_, .word32 x, hByte.append hx⟩
    · have hMark : chSize = 255 := by
        rw [UInt8.lt_iff_toNat_lt] at hLarge
        have h1 : chSize.toNat ≠ 253 := fun h => h253 (UInt8.toNat_inj.mp h)
        have h2 : chSize.toNat ≠ 254 := fun h => h254 (UInt8.toNat_inj.mp h)
        have h3 := chSize.toNat_lt
        have h4 : ¬ chSize.toNat < 253 := hLarge
        exact UInt8.toNat_inj.mp (show chSize.toNat = 255 by omega)
      subst hMark
      exact ⟨_, .word64 x, hByte.append hx⟩
  · intro h
    obtain ⟨hMax, vch, hCompact, hAhead⟩ := h
    cases hCompact with
    | byte ch hSmall =>
        exact ⟨ch, s', hAhead, _, s', by rw [Stream.readSize, if_pos hSmall], (), hMax, rfl, rfl⟩
    | word16 x =>
        obtain ⟨hMark, hWord⟩ := hAhead.split
        exact ⟨253, _, hMark, _, s', by
          rw [Stream.readSize, if_neg (by decide), if_pos rfl, extract_ahead.mpr hWord]; rfl,
          (), hMax, rfl, rfl⟩
    | word32 x =>
        obtain ⟨hMark, hWord⟩ := hAhead.split
        exact ⟨254, _, hMark, _, s', by
          rw [Stream.readSize, if_neg (by decide), if_neg (by decide), if_pos rfl,
            extract_ahead.mpr hWord]; rfl, (), hMax, rfl, rfl⟩
    | word64 x =>
        obtain ⟨hMark, hWord⟩ := hAhead.split
        exact ⟨255, _, hMark, _, s', by
          rw [Stream.readSize, if_neg (by decide), if_neg (by decide), if_neg (by decide),
            extract_ahead.mpr hWord]; rfl, (), hMax, rfl, rfl⟩

theorem extractBytes_ahead :
    s.extractBytes = .ok (vch, s') ↔ vch.length ≤ Stream.MAX_SIZE ∧
      ∃ vchSize, CompactSize vchSize vch.length ∧ Ahead s (vchSize ++ vch) s' := by
  simp only [Stream.extractBytes, bind_eq_ok, Prod.exists, readCompactSize_ahead, read_ahead]
  constructor
  · intro h
    obtain ⟨n, s₁, ⟨hMax, vchSize, hCompact, hSize⟩, hRead, rfl⟩ := h
    exact ⟨hMax, vchSize, hCompact, hSize.append hRead⟩
  · intro h
    obtain ⟨hMax, vchSize, hCompact, hBoth⟩ := h
    obtain ⟨hSize, hRead⟩ := hBoth.split
    exact ⟨_, _, ⟨hMax, vchSize, hCompact, hSize⟩, hRead, rfl⟩

/-! ## Items -/

/-- A field of an object written out: its name and its value, each with the length in front
where it has one. -/
structure Item where
  vchSize : List UInt8
  name : List UInt8
  fMutable : Bool
  nType : UInt8
  vchLength : List UInt8
  vchData : List UInt8

namespace Item

/-- What is in front of the type byte. -/
def head (i : Item) : List UInt8 :=
  i.vchSize ++ i.name ++ if i.fMutable then [TYPES.MUTABLE] else []

/-- What is in front of the value. -/
def front (i : Item) : List UInt8 := i.head ++ [i.nType] ++ i.vchLength

def bytes (i : Item) : List UInt8 := i.front ++ i.vchData

/-- The name has its length in front, the type is one of the nine types, and the value is as
long as its type, or as the length in front of it. -/
structure Valid (i : Item) : Prop where
  size : CompactSize i.vchSize i.name.length
  name_le : i.name.length ≤ Stream.MAX_SIZE
  value : (fixedSize i.nType = some i.vchData.length ∧ i.vchLength = []) ∨
    (i.nType ∈ [TYPES.STRING, TYPES.BYTES] ∧ CompactSize i.vchLength i.vchData.length ∧
      i.vchData.length ≤ Stream.MAX_SIZE)

/-- The entry of an item at `p`. -/
def entry (i : Item) (p : Nat) : Entry where
  name := i.name
  nType := i.nType
  fMutable := i.fMutable
  nPos := p + i.head.length
  nValue := p + i.front.length
  nSize := i.vchData.length

theorem head_length_pos (i : Item) (h : i.Valid) : 0 < i.head.length := by
  have hSize := h.size.length_pos
  rw [head, List.length_append, List.length_append]
  omega

theorem front_length (i : Item) : i.front.length = i.head.length + 1 + i.vchLength.length := by
  rw [front, List.length_append, List.length_append, List.length_singleton]

theorem entry_next (i : Item) (p : Nat) : (i.entry p).next = p + i.bytes.length := by
  rw [Entry.next, bytes, List.length_append]
  show p + i.front.length + i.vchData.length = _
  omega

end Item

theorem type_ne_mutable {nType : UInt8} {m : Nat}
    (h : fixedSize nType = some m ∨ nType ∈ [TYPES.STRING, TYPES.BYTES]) : nType ≠ TYPES.MUTABLE := by
  intro hEq
  rw [hEq] at h
  rcases h with h | h
  · have hNone : fixedSize TYPES.MUTABLE = none := by decide
    rw [hNone] at h
    cases h
  · exact absurd h (by decide)

/-- A type byte, after a marker when the field is mutable. -/
theorem extractType_ahead {nType : UInt8} {fMutable : Bool} :
    extractType s = .ok ((nType, fMutable), s') ↔ (fMutable = false → nType ≠ TYPES.MUTABLE) ∧
      Ahead s ((if fMutable then [TYPES.MUTABLE] else []) ++ [nType]) s' := by
  simp only [extractType, bind_eq_ok, Prod.exists, extract_ahead, ite_eq_ok, map_eq_ok,
    Except.ok.injEq, Prod.mk.injEq, encode_uint8]
  cases fMutable with
  | true =>
      constructor
      · intro h
        obtain ⟨c, s₁, hMark, ⟨rfl, c', s₂, hType, ⟨rfl, -⟩, rfl⟩ | ⟨-, ⟨-, hFalse⟩, -⟩⟩ := h
        · exact ⟨by simp, hMark.append hType⟩
        · cases hFalse
      · intro h
        obtain ⟨hMark, hType⟩ := h.2.split
        exact ⟨_, _, hMark, .inl ⟨rfl, _, _, hType, ⟨rfl, rfl⟩, rfl⟩⟩
  | false =>
      constructor
      · intro h
        obtain ⟨c, s₁, hType, ⟨-, c', s₂, -, ⟨-, hTrue⟩, -⟩ | ⟨hNot, ⟨rfl, -⟩, rfl⟩⟩ := h
        · cases hTrue
        · exact ⟨fun _ => hNot, hType⟩
      · intro h
        exact ⟨nType, s', h.2, .inr ⟨h.1 rfl, ⟨rfl, rfl⟩, rfl⟩⟩

/-- The span of a value: nothing in front of one of a fixed width, and the length in front of
another. -/
theorem valueSpan_ahead {nType : UInt8} :
    valueSpan nType s = .ok (n, s') ↔ (fixedSize nType = some n ∧ s' = s) ∨
      (nType ∈ [TYPES.STRING, TYPES.BYTES] ∧ n ≤ Stream.MAX_SIZE ∧
        ∃ vchLength, CompactSize vchLength n ∧ Ahead s vchLength s') := by
  have hSized : nType ∈ [TYPES.STRING, TYPES.BYTES] ↔ nType = TYPES.STRING ∨ nType = TYPES.BYTES := by
    simp
  unfold valueSpan
  cases hFixed : fixedSize nType with
  | some m =>
      simp only [Except.ok.injEq, Prod.mk.injEq, Option.some.injEq]
      constructor
      · intro h
        exact .inl ⟨h.1, h.2.symm⟩
      · intro h
        rcases h with h | ⟨hType, -⟩
        · exact ⟨h.1, h.2.symm⟩
        · rw [hSized] at hType
          rcases hType with rfl | rfl
          · cases hFixed
          · cases hFixed
  | none =>
      simp only [ite_eq_ok, reduceCtorEq, and_false, or_false, false_and, false_or, hSized,
        readCompactSize_ahead]

/-- The front of an item in its three parts. -/
theorem Item.front_eq (i : Item) : i.front =
    (i.vchSize ++ i.name) ++
      (((if i.fMutable then [TYPES.MUTABLE] else []) ++ [i.nType]) ++ i.vchLength) := by
  simp only [front, head, List.append_assoc]

/-- Where the parts of the front of an item end. -/
theorem Item.entry_eq (i : Item) {s₁ s₂ : Stream} (hName : Ahead s (i.vchSize ++ i.name) s₁)
    (hType : Ahead s₁ ((if i.fMutable then [TYPES.MUTABLE] else []) ++ [i.nType]) s₂)
    (hLength : Ahead s₂ i.vchLength s') :
    i.entry s.nReadPos =
      ⟨i.name, i.nType, i.fMutable, s₂.nReadPos - 1, s'.nReadPos, i.vchData.length⟩ := by
  have hHead : i.head.length = (i.vchSize ++ i.name).length +
      (if i.fMutable then [TYPES.MUTABLE] else []).length := by
    rw [head, List.length_append]
  have hPos : s₂.nReadPos = s.nReadPos + i.head.length + 1 := by
    rw [hType.next, hName.next, hHead]
    simp only [Stream.advance_nReadPos, List.length_append, List.length_singleton]
    omega
  have hValue : s'.nReadPos = s.nReadPos + i.front.length := by
    rw [hLength.next, i.front_length]
    simp only [Stream.advance_nReadPos]
    omega
  simp only [entry, Entry.mk.injEq, true_and, and_true]
  omega

/-- The front of a valid item is read as the header of its entry. -/
theorem readEntry_of_item (i : Item) (hValid : i.Valid) (hAhead : Ahead s i.front s') :
    readEntry s = .ok (i.entry s.nReadPos, s') := by
  rw [i.front_eq] at hAhead
  obtain ⟨hName, hRest⟩ := hAhead.split
  obtain ⟨hType, hLength⟩ := hRest.split
  have hMark : i.fMutable = false → i.nType ≠ TYPES.MUTABLE := by
    intro _
    rcases hValid.value with ⟨hFixed, -⟩ | ⟨hSized, -⟩
    · exact type_ne_mutable (.inl hFixed)
    · exact type_ne_mutable (m := 0) (.inr hSized)
  simp only [readEntry, bind_eq_ok, Prod.exists, pure_eq_ok, Prod.mk.injEq, extractBytes_ahead,
    extractType_ahead, valueSpan_ahead]
  refine ⟨i.name, _, ⟨hValid.name_le, i.vchSize, hValid.size, hName⟩, i.nType, i.fMutable, _,
    ⟨hMark, hType⟩, i.vchData.length, s', ?_, ?_, rfl⟩
  · rcases hValid.value with ⟨hFixed, hNone⟩ | ⟨hSized, hCompact, hMax⟩
    · rw [hNone] at hLength
      exact .inl ⟨hFixed, by rw [hLength.next]; rfl⟩
    · exact .inr ⟨hSized, hMax, _, hCompact, hLength⟩
  · exact (i.entry_eq hName hType hLength).symm

/-- The header of an entry is the front of an item, whatever its value is. -/
theorem item_of_readEntry {E : Entry} (h : readEntry s = .ok (E, s')) (vchData : List UInt8)
    (hSize : vchData.length = E.nSize) :
    ∃ i : Item, i.Valid ∧ Ahead s i.front s' ∧ E = i.entry s.nReadPos ∧ i.vchData = vchData := by
  simp only [readEntry, bind_eq_ok, Prod.exists, pure_eq_ok, Prod.mk.injEq, extractBytes_ahead,
    extractType_ahead, valueSpan_ahead] at h
  obtain ⟨name, s₁, ⟨hMax, vchSize, hCompact, hName⟩, nType, fMutable, s₂, ⟨-, hType⟩, nSize, s₃, hSpan,
    rfl, rfl⟩ := h
  have hLength : ∃ vchLength, Ahead s₂ vchLength s₃ ∧
      ((fixedSize nType = some vchData.length ∧ vchLength = []) ∨
        (nType ∈ [TYPES.STRING, TYPES.BYTES] ∧ CompactSize vchLength vchData.length ∧
          vchData.length ≤ Stream.MAX_SIZE)) := by
    rw [show vchData.length = nSize from hSize]
    rcases hSpan with ⟨hFixed, rfl⟩ | ⟨hSized, hLe, vchLength, hCompact', hAhead⟩
    · exact ⟨[], .nil hType.rest_fits, .inl ⟨hFixed, rfl⟩⟩
    · exact ⟨vchLength, hAhead, .inr ⟨hSized, hCompact', hLe⟩⟩
  obtain ⟨vchLength, hAhead, hValue⟩ := hLength
  refine ⟨⟨vchSize, name, fMutable, nType, vchLength, vchData⟩, ⟨hCompact, hMax, hValue⟩, ?_, ?_, rfl⟩
  · rw [Item.front_eq]
    exact hName.append (hType.append hAhead)
  · rw [Item.entry_eq _ hName hType hAhead]
    simp only [Entry.mk.injEq, true_and]
    exact hSize.symm

/-! ## Sequences of items -/

/-- The bytes of items one after the other. -/
def itemBytes : List Item → List UInt8
  | [] => []
  | i :: items => i.bytes ++ itemBytes items

/-- The entries of items from `p` on. -/
def itemEntries : Nat → List Item → List Entry
  | _, [] => []
  | p, i :: items => i.entry p :: itemEntries (p + i.bytes.length) items

/-- The length of the last value. -/
def lastRoom : List Item → Nat
  | [] => 0
  | [i] => i.vchData.length
  | _ :: i :: items => lastRoom (i :: items)

/-- The items are valid and no name is there twice. -/
structure WellNamed (items : List Item) : Prop where
  valid : ∀ i ∈ items, i.Valid
  distinct : (items.map Item.name).Nodup

theorem lastRoom_le (items : List Item) : lastRoom items ≤ (itemBytes items).length := by
  induction items with
  | nil => exact Nat.le_refl _
  | cons i items ih =>
      cases items with
      | nil =>
          rw [lastRoom, itemBytes, Item.bytes, List.length_append, List.length_append]
          omega
      | cons j items =>
          rw [lastRoom, itemBytes, List.length_append]
          omega

theorem lastRoom_le_cons (i : Item) (items : List Item) : lastRoom items ≤ lastRoom (i :: items) := by
  cases items with
  | nil => exact Nat.zero_le _
  | cons j items => exact Nat.le_refl _

theorem itemEntries_name {E : Entry} {items : List Item} {p : Nat} (hE : E ∈ itemEntries p items) :
    E.name ∈ items.map Item.name := by
  induction items generalizing p with
  | nil => cases hE
  | cons i items ih =>
      rw [List.map_cons, List.mem_cons]
      rw [itemEntries, List.mem_cons] at hE
      rcases hE with hE | hE
      · exact .inl (by rw [hE]; rfl)
      · exact .inr (ih hE)

/-- Of two ways to cut the same bytes, the one with the shorter end goes through the longer end of
the other. -/
theorem append_split {α : Type} {a b c d : List α} (h : a ++ b = c ++ d) (hLe : b.length ≤ d.length) :
    ∃ e, a = c ++ e ∧ e ++ b = d := by
  rw [List.append_eq_append_iff] at h
  rcases h with ⟨e, hc, hb⟩ | ⟨e, ha, hd⟩
  · have hNil : e = [] := by
      rw [hb, List.length_append] at hLe
      exact List.length_eq_zero_iff.mp (by omega)
    rw [hNil] at hc hb
    exact ⟨[], by rw [hc, List.append_nil, List.append_nil], by rw [hb]; rfl⟩
  · exact ⟨e, ha, hd.symm⟩

section Data

variable {p : Nat} {vchTail : List UInt8}

/-- The front of the first item is in the data, as only its value may be cut short. -/
theorem readEntry_itemBytes {i : Item} {items : List Item} (hValid : i.Valid) (hp : p ≤ vch.length)
    (hData : vch.drop p ++ vchTail = itemBytes (i :: items))
    (hTail : vchTail.length ≤ lastRoom (i :: items)) :
    p < vch.length ∧ readEntry ⟨vch, p⟩ = .ok (i.entry p, ⟨vch, (i.entry p).nValue⟩) := by
  have hLe : vchTail.length ≤ (i.vchData ++ itemBytes items).length := by
    rw [List.length_append]
    cases items with
    | nil => exact Nat.le_trans hTail (Nat.le_add_right _ _)
    | cons j items => exact Nat.le_trans (Nat.le_trans hTail (lastRoom_le (j :: items))) (Nat.le_add_left _ _)
  rw [itemBytes, Item.bytes, List.append_assoc] at hData
  obtain ⟨vchRest, hDrop, -⟩ := append_split hData hLe
  have h0 : (⟨vch, p⟩ : Stream).Fits 0 := hp
  constructor
  · have hLength : (vch.drop p).length = i.front.length + vchRest.length := by
      rw [hDrop, List.length_append]
    rw [List.length_drop, i.front_length] at hLength
    omega
  · exact readEntry_of_item i hValid (Ahead.of_drop h0 hDrop)

/-- The entries of items whose bytes are the data and, when the last value is cut short, some
more. -/
theorem entries_of_items {items : List Item} (h : WellNamed items) (hp : p ≤ vch.length)
    (hData : vch.drop p ++ vchTail = itemBytes items) (hTail : vchTail.length ≤ lastRoom items) :
    Entries vch p (itemEntries p items) := by
  induction items generalizing p with
  | nil =>
      have hNil : vch.drop p = [] := (List.append_eq_nil_iff.mp hData).1
      exact .nil (List.drop_eq_nil_iff.mp hNil)
  | cons i items ih =>
      obtain ⟨hMore, hRead⟩ := readEntry_itemBytes (h.valid i (List.mem_cons_self ..)) hp hData hTail
      have hNames := h.distinct
      rw [List.map_cons, List.nodup_cons] at hNames
      have hOthers : ∀ F ∈ itemEntries (p + i.bytes.length) items, F.name ≠ (i.entry p).name := by
        intro F hF hEq
        have hMem := itemEntries_name hF
        rw [hEq] at hMem
        exact hNames.1 hMem
      refine .cons hMore hRead hOthers ?_
      rw [i.entry_next]
      cases items with
      | nil =>
          -- nothing is left, however much of the value is in the data
          have hLength : (vch.drop p).length + vchTail.length = i.bytes.length := by
            rw [← List.length_append, hData, itemBytes, itemBytes, List.append_nil]
          rw [List.length_drop] at hLength
          exact .nil (by omega)
      | cons j items =>
          have hLe := Nat.le_trans hTail (lastRoom_le (j :: items))
          obtain ⟨vchRest, hDrop, hRest⟩ := append_split hData hLe
          have hNext : vch.drop (p + i.bytes.length) = vchRest := by
            rw [← List.drop_drop, hDrop, List.drop_left]
          have hLength : (vch.drop p).length = i.bytes.length + vchRest.length := by
            rw [hDrop, List.length_append]
          rw [List.length_drop] at hLength
          apply ih ⟨fun k hk => h.valid k (List.mem_cons_of_mem _ hk), hNames.2⟩
          · omega
          · rw [hNext]
            exact hRest
          · exact hTail

end Data

/-- Items in front of which one more may stand. -/
theorem WellNamed.cons {i : Item} {items : List Item} (h : WellNamed items) (hValid : i.Valid)
    (hName : i.name ∉ items.map Item.name) : WellNamed (i :: items) where
  valid k hk := by
    rcases List.mem_cons.mp hk with rfl | hk
    · exact hValid
    · exact h.valid k hk
  distinct := List.nodup_cons.mpr ⟨hName, h.distinct⟩

theorem itemEntries_names (items : List Item) (p : Nat) :
    (itemEntries p items).map Entry.name = items.map Item.name := by
  induction items generalizing p with
  | nil => rfl
  | cons i items ih => rw [itemEntries, List.map_cons, List.map_cons, ih]; rfl

/-- The items that entries were read from.  What the data lacks of the last value may be any bytes,
here zeros. -/
theorem items_of_entries {p : Nat} {es : List Entry} (h : Entries vch p es) (hp : p ≤ vch.length) :
    ∃ items vchTail, WellNamed items ∧ es = itemEntries p items ∧
      vch.drop p ++ vchTail = itemBytes items ∧ vchTail.length ≤ lastRoom items := by
  induction h with
  | nil hEnd =>
      exact ⟨[], [], ⟨by simp, by simp⟩, rfl, by rw [List.drop_eq_nil_of_le hEnd]; rfl, Nat.le_refl _⟩
  | @cons p E es hMore hRead hNames hRest ih =>
      obtain ⟨-, hAt⟩ := readEntry_at hRead
      by_cases hNext : E.next ≤ vch.length
      · obtain ⟨items, vchTail, hWell, rfl, hData, hTail⟩ := ih hNext
        have hSize : ((vch.drop E.nValue).take E.nSize).length = E.nSize := by
          unfold Entry.next at hNext
          rw [List.length_take, List.length_drop]
          omega
        obtain ⟨i, hValid, hAhead, hEntry, hValue⟩ := item_of_readEntry hRead _ hSize
        have hName : i.name ∉ items.map Item.name := by
          intro hMem
          rw [← itemEntries_names items E.next, List.mem_map] at hMem
          obtain ⟨F, hF, hEq⟩ := hMem
          exact hNames F hF (by rw [hEq, hEntry]; rfl)
        have hDrop : vch.drop p = i.front ++ vch.drop E.nValue := hAhead.data
        have hSplit : vch.drop E.nValue = i.vchData ++ vch.drop E.next := by
          rw [hValue, Entry.next, ← List.drop_drop, List.take_append_drop]
        have hStep : E.next = p + i.bytes.length := by
          rw [hEntry]
          exact i.entry_next p
        refine ⟨i :: items, vchTail, hWell.cons hValid hName, ?_, ?_, ?_⟩
        · rw [itemEntries, hStep]
          exact congrArg (· :: _) hEntry
        · rw [hDrop, hSplit, itemBytes, Item.bytes, ← hData]
          simp only [List.append_assoc]
        · exact Nat.le_trans hTail (lastRoom_le_cons i items)
      · -- the value runs past the end, so nothing follows it
        have hNil : es = [] := by
          cases hRest with
          | nil _ => rfl
          | cons hLt _ _ _ => omega
        subst hNil
        have hValueLe : E.nValue ≤ vch.length := by
          obtain ⟨i, -, hAhead, -, -⟩ := item_of_readEntry hRead (List.replicate E.nSize 0) (by simp)
          exact hAhead.rest_fits
        unfold Entry.next at hNext
        let vchTail : List UInt8 := List.replicate (E.nValue + E.nSize - vch.length) 0
        have hSize : (vch.drop E.nValue ++ vchTail).length = E.nSize := by
          rw [List.length_append, List.length_drop, List.length_replicate]
          omega
        obtain ⟨i, hValid, hAhead, hEntry, hValue⟩ := item_of_readEntry hRead _ hSize
        have hDrop : vch.drop p = i.front ++ vch.drop E.nValue := hAhead.data
        refine ⟨[i], vchTail, ⟨by simpa using hValid, by simp⟩, ?_, ?_, ?_⟩
        · exact congrArg ([·]) hEntry
        · rw [hDrop, itemBytes, itemBytes, Item.bytes, hValue]
          simp only [List.append_assoc, List.append_nil]
        · show vchTail.length ≤ i.vchData.length
          rw [hValue, List.length_append]
          omega

/-! ## Where entries end -/

/-- Where the value of the last entry ends. -/
def entriesEnd : Nat → List Entry → Nat
  | p, [] => p
  | _, E :: es => entriesEnd E.next es

theorem entriesEnd_items (items : List Item) (p : Nat) :
    entriesEnd p (itemEntries p items) = p + (itemBytes items).length := by
  induction items generalizing p with
  | nil => rfl
  | cons i items ih =>
      rw [itemEntries, entriesEnd, i.entry_next, ih, itemBytes, List.length_append]
      omega

end Nexus.Register
