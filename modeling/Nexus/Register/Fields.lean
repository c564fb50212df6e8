import Nexus.Register.Object
import Nexus.Util.Local

/-!
# The fields of an object

`Entries` is the grammar `Parse` accepts: the data is a list of entries, each a
header followed by the room of its value, with no name twice.  A write goes to
the room of one value, so the entries, and with them the field map and the kind
of the object, are the same before and after it, and so is every other value.

## Main results

* `parse_iff`: `Parse` succeeds exactly on a list of entries.
* `Parsed.patch`: a value can be overwritten in place without changing the entries.
* `write_spec`: what `Write` does to the object and to its fields.
-/

namespace Nexus.Register

open Nexus.Lib.Bytes
open Nexus.Lib.Checked
open Nexus.Util

/-- One field in the data: its type byte is at `nPos`, its value of `nSize` bytes
starts at `nValue`. -/
structure Entry where
  name : List UInt8
  nType : UInt8
  fMutable : Bool
  nPos : Nat
  nValue : Nat
  nSize : Nat

namespace Entry

/-- The offset of the entry after this one. -/
def next (E : Entry) : Nat := E.nValue + E.nSize

/-- The entry in the field map. -/
def toPair (E : Entry) : List UInt8 × Field := (E.name, ⟨E.nPos % 2 ^ 16, E.fMutable⟩)

end Entry

/-- Read the header of an entry. -/
def readEntry (s : Stream) : Result (Entry × Stream) := do
  let (name, s) ← s.extractBytes
  let ((nType, fMutable), s) ← extractType s
  let (nSize, s') ← valueSpan nType s
  return ({ name, nType, fMutable, nPos := s.nReadPos - 1, nValue := s'.nReadPos, nSize }, s')

/-- The data from `p` on is a list of entries with distinct names.  The value of the
last entry may be cut short. -/
inductive Entries (vch : List UInt8) : Nat → List Entry → Prop
  | nil {p : Nat} (hEnd : vch.length ≤ p) : Entries vch p []
  | cons {p : Nat} {E : Entry} {es : List Entry} (hMore : p < vch.length)
      (hRead : readEntry ⟨vch, p⟩ = .ok (E, ⟨vch, E.nValue⟩))
      (hName : ∀ F ∈ es, F.name ≠ E.name) (hRest : Entries vch E.next es) :
      Entries vch p (E :: es)

/-! ## Headers -/

theorem extractType_local : Local extractType :=
  Local.bind (Local.extract UInt8) fun nType => Local.ite (nType = TYPES.MUTABLE)
    (Local.map (Local.extract UInt8) fun nType => (nType, true)) (Local.pure (nType, false))

theorem valueSpan_local (nType : UInt8) : Local (valueSpan nType) := by
  unfold valueSpan
  split
  · exact Local.pure _
  · exact Local.ite (nType = TYPES.STRING ∨ nType = TYPES.BYTES) Local.readCompactSize
      (Local.error _)

theorem readEntry_local : Local readEntry :=
  Local.bind Local.extractBytes fun name => Local.bind extractType_local fun tm =>
    Local.bind Local.pos fun nNext => Local.bind (valueSpan_local tm.1) fun nSize =>
      Local.bind Local.pos fun nValue =>
        Local.pure (⟨name, tm.1, tm.2, nNext - 1, nValue, nSize⟩ : Entry)

/-- Where the parts of an entry are. -/
structure EntryAt (vch : List UInt8) (p : Nat) (E : Entry) : Prop where
  name_le : p ≤ E.nPos
  pos_lt : E.nPos < vch.length
  type : vch[E.nPos]? = some E.nType
  value_le : E.nPos < E.nValue
  span : valueSpan E.nType ⟨vch, E.nPos + 1⟩ = .ok (E.nSize, ⟨vch, E.nValue⟩)

theorem extractType_at {s s' : Stream} {nType : UInt8} {fMutable : Bool}
    (h : extractType s = .ok ((nType, fMutable), s')) :
    ∃ n, 0 < n ∧ s.Fits n ∧ s' = s.advance n ∧
      s.vchData[s.nReadPos + (n - 1)]? = some nType := by
  simp only [extractType, bind_eq_ok, Prod.exists, Stream.extract_eq_ok, ite_eq_ok, map_eq_ok,
    Except.ok.injEq, Prod.mk.injEq, width_uint8] at h
  obtain ⟨c, s₁, ⟨hFits, rfl, rfl⟩, h⟩ := h
  rcases h with ⟨-, c', s₂, ⟨hFits', rfl, rfl⟩, ⟨rfl, -⟩, rfl⟩ | ⟨-, ⟨rfl, -⟩, rfl⟩
  · have hTwo : s.Fits 2 := (Stream.fits_advance ..).mp hFits'
    exact ⟨2, by omega, hTwo, Stream.advance_advance .., by simpa using Stream.peek_uint8 hTwo⟩
  · exact ⟨1, by omega, hFits, rfl, by simpa using Stream.peek_uint8 hFits⟩

theorem readEntry_at {vch : List UInt8} {p : Nat} {E : Entry} {s' : Stream}
    (h : readEntry ⟨vch, p⟩ = .ok (E, s')) : s' = ⟨vch, E.nValue⟩ ∧ EntryAt vch p E := by
  simp only [readEntry, bind_eq_ok, Prod.exists, pure_eq_ok, Prod.mk.injEq] at h
  obtain ⟨name, s₁, hName, nType, fMutable, s₂, hType, nSize, s₃, hSpan, rfl, rfl⟩ := h
  obtain ⟨n, -, rfl, -⟩ := Stream.extractBytes_advance hName
  obtain ⟨m, hm, hFits, rfl, hByte⟩ := extractType_at hType
  obtain ⟨k, rfl, -⟩ := valueSpan_local nType hSpan
  simp only [Stream.Fits, Stream.size, Stream.advance] at hFits hByte hSpan ⊢
  refine ⟨trivial, ⟨?_, ?_, ?_, ?_, ?_⟩⟩
  · dsimp only
    omega
  · dsimp only
    omega
  · rw [show p + n + m - 1 = p + n + (m - 1) by omega]
    exact hByte
  · dsimp only
    omega
  · rw [show p + n + m - 1 + 1 = p + n + m by omega]
    exact hSpan

/-! ## The grammar -/

namespace Entries

variable {vch vch' : List UInt8} {p : Nat} {es : List Entry} {E F : Entry}

theorem name_ne (h : Entries vch p (E :: es)) (hF : F ∈ es) : F.name ≠ E.name := by
  cases h with
  | cons hMore hRead hName hRest => exact hName F hF

/-- The data determines its entries. -/
theorem unique {fs : List Entry} (h : Entries vch p es) (h' : Entries vch p fs) : es = fs := by
  induction h generalizing fs with
  | nil hEnd =>
      cases h' with
      | nil _ => rfl
      | cons hMore _ _ _ => omega
  | cons hMore hRead _ _ ih =>
      cases h' with
      | nil hEnd => omega
      | cons _ hRead' _ hRest' =>
          obtain ⟨rfl, -⟩ := Prod.mk.inj (Except.ok.inj (hRead.symm.trans hRead'))
          rw [ih hRest']

/-- Every entry lies at or after the start of the list. -/
theorem at_mem (h : Entries vch p es) (hE : E ∈ es) : ∃ q, p ≤ q ∧ EntryAt vch q E := by
  induction h with
  | nil hEnd => cases hE
  | cons hMore hRead hName hRest ih =>
      obtain ⟨-, hHead⟩ := readEntry_at hRead
      rcases List.mem_cons.mp hE with rfl | hE
      · exact ⟨_, Nat.le_refl _, hHead⟩
      · obtain ⟨q, hq, hAt⟩ := ih hE
        have h1 := hHead.name_le
        have h2 := hHead.value_le
        unfold Entry.next at hq
        exact ⟨q, by omega, hAt⟩

theorem name_inj (h : Entries vch p es) (hE : E ∈ es) (hF : F ∈ es) (hName : E.name = F.name) :
    E = F := by
  induction h with
  | nil hEnd => cases hE
  | cons hMore hRead hNames hRest ih =>
      rcases List.mem_cons.mp hE with hE | hE <;> rcases List.mem_cons.mp hF with hF | hF
      · rw [hE, hF]
      · exact absurd (hE ▸ hName.symm) (hNames F hF)
      · exact absurd (hF ▸ hName) (hNames E hE)
      · exact ih hE hF

/-- The entries do not overlap. -/
theorem disjoint (h : Entries vch p es) (hE : E ∈ es) (hF : F ∈ es) (hne : E.name ≠ F.name) :
    E.next ≤ F.nPos ∨ F.next ≤ E.nPos := by
  induction h with
  | nil hEnd => cases hE
  | cons hMore hRead hNames hRest ih =>
      rcases List.mem_cons.mp hE with hE | hE <;> rcases List.mem_cons.mp hF with hF | hF
      · exact absurd (by rw [hE, hF]) hne
      · obtain ⟨q, hq, hAt⟩ := hRest.at_mem hF
        exact .inl (hE ▸ Nat.le_trans hq hAt.name_le)
      · obtain ⟨q, hq, hAt⟩ := hRest.at_mem hE
        exact .inr (hF ▸ Nat.le_trans hq hAt.name_le)
      · exact ih hE hF

/-- The list of entries depends only on the data from its start on. -/
theorem congr_ahead (h : Entries vch p es) (hLen : vch'.length = vch.length)
    (hData : ∀ i, p ≤ i → vch'[i]? = vch[i]?) : Entries vch' p es := by
  induction h with
  | nil hEnd => exact .nil (by omega)
  | @cons p E es hMore hRead hNames hRest ih =>
      obtain ⟨-, hAt⟩ := readEntry_at hRead
      obtain ⟨n, hn, hLocal⟩ := readEntry_local hRead
      have hValue : E.nValue = p + n := congrArg Stream.nReadPos hn
      have h1 := hAt.name_le
      have h2 := hAt.value_le
      refine .cons (by omega) ?_ hNames (ih fun i hi => hData i ?_)
      · have hAgree : Agree (p + n) ⟨vch, p⟩ ⟨vch', p⟩ := ⟨rfl, hLen, fun i hi _ => hData i hi⟩
        rw [hLocal _ _ (Nat.le_refl _) hAgree, hValue]
        rfl
      · unfold Entry.next at hi
        omega

/-- Overwriting the room of one value leaves the entries as they are. -/
theorem congr_value (h : Entries vch p es) (hE : E ∈ es) (hLen : vch'.length = vch.length)
    (hData : ∀ i, i < E.nValue ∨ E.next ≤ i → vch'[i]? = vch[i]?) : Entries vch' p es := by
  induction h with
  | nil hEnd => cases hE
  | @cons p F es hMore hRead hNames hRest ih =>
      obtain ⟨-, hAt⟩ := readEntry_at hRead
      obtain ⟨n, hn, hLocal⟩ := readEntry_local hRead
      have hValue : F.nValue = p + n := congrArg Stream.nReadPos hn
      -- the header of `F` ends before the overwritten room in either case
      have hBefore : F.nValue ≤ E.nValue := by
        rcases List.mem_cons.mp hE with rfl | hE
        · exact Nat.le_refl _
        · obtain ⟨q, hq, hAtE⟩ := hRest.at_mem hE
          have h1 := hAtE.name_le
          have h2 := hAtE.value_le
          unfold Entry.next at hq
          omega
      refine .cons (by omega) ?_ hNames ?_
      · have hAgree : Agree (p + n) ⟨vch, p⟩ ⟨vch', p⟩ :=
          ⟨rfl, hLen, fun i _ hi => hData i (.inl (by omega))⟩
        rw [hLocal _ _ (Nat.le_refl _) hAgree, hValue]
        rfl
      · rcases List.mem_cons.mp hE with rfl | hE
        · exact hRest.congr_ahead hLen fun i hi => hData i (.inr hi)
        · exact ih hE

end Entries

/-! ## Parsing is recognising the grammar -/

theorem lookup_append_single {mapData : DataMap} {strName name : List UInt8} {field : Field} :
    (mapData ++ [(name, field)]).lookup strName = none ↔
      mapData.lookup strName = none ∧ strName ≠ name := by
  induction mapData with
  | nil =>
      by_cases hName : strName = name
      · simp [hName]
      · simp [List.lookup_cons, beq_false_of_ne hName, hName]
  | cons pair mapData ih =>
      rw [List.cons_append, List.lookup_cons, List.lookup_cons]
      split
      · simp
      · exact ih

/-- One turn of the loop of `Parse`. -/
theorem parseFields_succ {n : Nat} {s : Stream} {mapData r : DataMap} :
    parseFields (n + 1) s mapData = .ok r ↔
      (s.size ≤ s.nReadPos ∧ mapData = r) ∨
      (¬ s.size ≤ s.nReadPos ∧ ∃ E s', readEntry s = .ok (E, s') ∧
        mapData.lookup E.name = none ∧
        parseFields n (s'.advance E.nSize) (mapData ++ [E.toPair]) = .ok r) := by
  rw [parseFields, ite_eq_ok]
  simp only [readEntry, bind_eq_ok, Prod.exists, reject_eq_ok, pure_eq_ok, Prod.mk.injEq,
    Except.ok.injEq, Bool.not_eq_true, Option.isSome_eq_false_iff, Option.isNone_iff_eq_none]
  constructor
  · rintro (hEnd | ⟨hMore, name, s₁, hName, u, hDup, nType, fMutable, s₂, hType, nSize, s₃, hSpan,
      hRest⟩)
    · exact .inl hEnd
    · exact .inr ⟨hMore, _, s₃, ⟨name, s₁, hName, nType, fMutable, s₂, hType, nSize, s₃, hSpan,
        rfl, rfl⟩, hDup, hRest⟩
  · rintro (hEnd | ⟨hMore, E, s', ⟨name, s₁, hName, nType, fMutable, s₂, hType, nSize, s₃, hSpan,
      rfl, rfl⟩, hDup, hRest⟩)
    · exact .inl hEnd
    · exact .inr ⟨hMore, name, s₁, hName, (), hDup, nType, fMutable, s₂, hType, nSize, s₃, hSpan,
        hRest⟩

theorem parseFields_sound {n p : Nat} {vch : List UInt8} {mapData r : DataMap}
    (h : parseFields n ⟨vch, p⟩ mapData = .ok r) :
    ∃ es, Entries vch p es ∧ r = mapData ++ es.map Entry.toPair ∧
      ∀ E ∈ es, mapData.lookup E.name = none := by
  induction n generalizing p mapData with
  | zero =>
      simp only [parseFields, ite_eq_ok, Except.ok.injEq, reduceCtorEq, and_false, or_false] at h
      exact ⟨[], .nil h.1, by simp [h.2], by simp⟩
  | succ n ih =>
      rcases parseFields_succ.mp h with ⟨hEnd, rfl⟩ | ⟨hMore, E, s', hRead, hNone, hRest⟩
      · exact ⟨[], .nil hEnd, by simp, by simp⟩
      · obtain ⟨rfl, -⟩ := readEntry_at hRead
        obtain ⟨es, hes, rfl, hNones⟩ := ih hRest
        have hTail : ∀ F ∈ es, mapData.lookup F.name = none ∧ F.name ≠ E.name := fun F hF =>
          lookup_append_single.mp (hNones F hF)
        refine ⟨E :: es, .cons (Nat.lt_of_not_le hMore) hRead (fun F hF => (hTail F hF).2) hes,
          by simp, ?_⟩
        intro F hF
        rcases List.mem_cons.mp hF with rfl | hF
        · exact hNone
        · exact (hTail F hF).1

theorem parseFields_complete {n p : Nat} {vch : List UInt8} {es : List Entry} {mapData : DataMap}
    (h : Entries vch p es) (hFuel : vch.length - p ≤ n)
    (hNone : ∀ E ∈ es, mapData.lookup E.name = none) :
    parseFields n ⟨vch, p⟩ mapData = .ok (mapData ++ es.map Entry.toPair) := by
  induction h generalizing n mapData with
  | nil hEnd => cases n <;> simp [parseFields, Stream.size, hEnd]
  | @cons p E es hMore hRead hNames hRest ih =>
      obtain ⟨-, hAt⟩ := readEntry_at hRead
      have h1 := hAt.name_le
      have h2 := hAt.value_le
      have h3 : E.nValue ≤ E.next := Nat.le_add_right _ _
      cases n with
      | zero => omega
      | succ n =>
          refine parseFields_succ.mpr (.inr ⟨Nat.not_le.mpr hMore, E, _, hRead,
            hNone E (List.mem_cons_self ..), ?_⟩)
          refine (ih (by omega) fun F hF => ?_).trans (by simp)
          exact lookup_append_single.mpr ⟨hNone F (List.mem_cons_of_mem _ hF), hNames F hF⟩

/-! ## Parsed objects -/

namespace Object

variable {object object' : Object} {es : List Entry} {E F : Entry} {strName : List UInt8}

/-- The object was parsed into the entries `es`, whose offsets fit the field map. -/
structure Parsed (object : Object) (es : List Entry) : Prop where
  entries : Entries object.state.vchState 0 es
  mapData : object.mapData = es.map Entry.toPair
  size : object.state.vchState.length ≤ 2 ^ 16

/-- `Parse` succeeds exactly on a list of entries. -/
theorem parse_iff {state : State} :
    Parse ⟨state, []⟩ = .ok object ↔
      (state.nType = REGISTER.OBJECT ∨ state.nType = REGISTER.SYSTEM) ∧
        ∃ es, Entries state.vchState 0 es ∧ object = ⟨state, es.map Entry.toPair⟩ := by
  simp only [Parse, stream, bind_eq_ok, reject_eq_ok, pure_eq_ok, ne_eq, not_true_eq_false,
    not_false_eq_true, not_and, not_not, exists_const]
  constructor
  · rintro ⟨-, hType, mapData, hFields, rfl⟩
    obtain ⟨es, hes, rfl, -⟩ := parseFields_sound hFields
    refine ⟨?_, es, hes, by simp⟩
    by_cases hObject : state.nType = REGISTER.OBJECT
    · exact .inl hObject
    · exact .inr (hType hObject)
  · rintro ⟨hType, es, hes, rfl⟩
    exact ⟨trivial, fun hObject => hType.resolve_left hObject, _,
      parseFields_complete hes (by simp) (by simp), by simp⟩

theorem parsed_of_parse {state : State} (h : Parse ⟨state, []⟩ = .ok object)
    (hSize : state.vchState.length ≤ 2 ^ 16) :
    object.state = state ∧ ∃ es, object.Parsed es := by
  obtain ⟨-, es, hes, rfl⟩ := parse_iff.mp h
  exact ⟨rfl, es, hes, rfl, hSize⟩

theorem Parsed.parse (h : object.Parsed es)
    (hType : object.state.nType = REGISTER.OBJECT ∨ object.state.nType = REGISTER.SYSTEM) :
    Parse ⟨object.state, []⟩ = .ok object :=
  parse_iff.mpr ⟨hType, es, h.entries, by rw [← h.mapData]⟩

theorem Parsed.toPair_mem (h : object.Parsed es) (hE : E ∈ es) :
    E.toPair = (E.name, ⟨E.nPos, E.fMutable⟩) := by
  obtain ⟨q, -, hAt⟩ := h.entries.at_mem hE
  have hLt := hAt.pos_lt
  have hSize := h.size
  rw [Entry.toPair, Nat.mod_eq_of_lt (by omega)]

theorem lookup_map (es : List Entry) (strName : List UInt8) :
    (es.map Entry.toPair).lookup strName =
      (es.find? fun E => E.name == strName).map fun E => E.toPair.2 := by
  induction es with
  | nil => rfl
  | cons E es ih =>
      by_cases hName : strName = E.name
      · simp [Entry.toPair, hName]
      · have hName' : E.name ≠ strName := fun h => hName h.symm
        simp only [List.map_cons, Entry.toPair, List.lookup_cons, beq_false_of_ne hName,
          List.find?_cons, beq_false_of_ne hName']
        exact ih

theorem Parsed.lookup_iff (h : object.Parsed es) {field : Field} :
    object.mapData.lookup strName = some field ↔
      ∃ E ∈ es, E.name = strName ∧ field = ⟨E.nPos, E.fMutable⟩ := by
  rw [h.mapData, lookup_map]
  simp only [Option.map_eq_some_iff]
  constructor
  · rintro ⟨E, hFind, rfl⟩
    have hMem := List.mem_of_find?_eq_some hFind
    exact ⟨E, hMem, by simpa using List.find?_some hFind, by rw [h.toPair_mem hMem]⟩
  · rintro ⟨E, hE, rfl, rfl⟩
    refine ⟨E, ?_, by rw [h.toPair_mem hE]⟩
    cases hFind : es.find? fun F => F.name == E.name with
    | none => simpa using List.find?_eq_none.mp hFind E hE
    | some F =>
        have hName : F.name = E.name := by simpa using List.find?_some hFind
        rw [h.entries.name_inj (List.mem_of_find?_eq_some hFind) hE hName]

theorem Parsed.type_mem (h : object.Parsed es) (hE : E ∈ es) :
    object.state.vchState[E.nPos]? = some E.nType := by
  obtain ⟨q, -, hAt⟩ := h.entries.at_mem hE
  exact hAt.type

theorem Parsed.check_iff (h : object.Parsed es) {nType : UInt8} {fMutable : Bool} :
    object.Check strName nType fMutable = true ↔
      ∃ E ∈ es, E.name = strName ∧ E.nType = nType ∧ E.fMutable = fMutable := by
  unfold Check
  cases hLookup : object.mapData.lookup strName with
  | none =>
      simp only [Bool.false_eq_true, false_iff, not_exists, not_and]
      rintro E hE rfl
      rw [h.lookup_iff.mpr ⟨E, hE, rfl, rfl⟩] at hLookup
      cases hLookup
  | some field =>
      obtain ⟨E, hE, rfl, rfl⟩ := h.lookup_iff.mp hLookup
      simp only [Bool.and_eq_true, beq_iff_eq, h.type_mem hE, Option.some.injEq]
      constructor
      · rintro ⟨hType, hMutable⟩
        exact ⟨E, hE, rfl, hType, hMutable⟩
      · rintro ⟨F, hF, hName, hType, hMutable⟩
        obtain rfl := h.entries.name_inj hF hE hName
        exact ⟨hType, hMutable⟩

/-- The field map and the checks see only the entries. -/
theorem Parsed.check_congr (h : object.Parsed es) (h' : object'.Parsed es) :
    object'.Check = object.Check := by
  funext strName nType fMutable
  rw [Bool.eq_iff_iff, h.check_iff, h'.check_iff]

theorem Parsed.mapData_congr (h : object.Parsed es) (h' : object'.Parsed es) :
    object'.mapData = object.mapData := by
  rw [h.mapData, h'.mapData]

/-- The kind of an object is decided by its entries. -/
theorem Parsed.standard_congr (h : object.Parsed es) (h' : object'.Parsed es) :
    object'.Standard = object.Standard := by
  unfold Standard CheckName
  rw [h.check_congr h', h.mapData_congr h']

theorem Parsed.base_congr (h : object.Parsed es) (h' : object'.Parsed es) :
    object'.Base = object.Base := by
  simp only [Base, h.check_congr h']

/-! ## Reading and writing a field -/

theorem Parsed.find_iff (h : object.Parsed es) {field : Field} {nType : UInt8} {s : Stream} :
    object.find strName = .ok (field, nType, s) ↔
      ∃ E ∈ es, E.name = strName ∧ field = ⟨E.nPos, E.fMutable⟩ ∧ nType = E.nType ∧
        s = ⟨object.state.vchState, E.nPos + 1⟩ := by
  have hByte : ∀ E ∈ es, (object.stream E.nPos).Fits 1 ∧
      (object.stream E.nPos).peek UInt8 0 = E.nType := by
    intro E hE
    obtain ⟨q, -, hAt⟩ := h.entries.at_mem hE
    have hFits : (object.stream E.nPos).Fits (0 + 1) := hAt.pos_lt
    exact ⟨hFits, Option.some.inj ((Stream.peek_uint8 hFits).symm.trans hAt.type)⟩
  simp only [find, bind_eq_ok, Prod.exists, reject_eq_ok, demand_eq_ok, pure_eq_ok,
    Prod.mk.injEq, h.lookup_iff, Stream.extract_eq_ok, width_uint8]
  constructor
  · rintro ⟨u, hMap, field', ⟨E, hE, rfl, rfl⟩, nType', s', ⟨-, rfl, rfl⟩, rfl, rfl, rfl⟩
    exact ⟨E, hE, rfl, rfl, (hByte E hE).2, rfl⟩
  · rintro ⟨E, hE, rfl, rfl, rfl, rfl⟩
    refine ⟨(), ?_, _, ⟨E, hE, rfl, rfl⟩, _, _, ⟨(hByte E hE).1, rfl, rfl⟩, rfl,
      (hByte E hE).2, rfl⟩
    rw [h.mapData]
    simpa using List.ne_nil_of_mem hE

/-- The room of a fixed-width value is right after its type byte. -/
theorem Parsed.span_fixed (h : object.Parsed es) (hE : E ∈ es) {nSize : Nat}
    (hSize : fixedSize E.nType = some nSize) : E.nValue = E.nPos + 1 ∧ E.nSize = nSize := by
  obtain ⟨q, -, hAt⟩ := h.entries.at_mem hE
  have hSpan := hAt.span
  simp only [valueSpan, hSize, Except.ok.injEq, Prod.mk.injEq, Stream.mk.injEq, true_and] at hSpan
  exact ⟨hSpan.2.symm, hSpan.1.symm⟩

variable {α β : Type} [FieldType α] [FieldType β]

theorem fixedSize_unsupported : fixedSize TYPES.UNSUPPORTED = none := by decide

/-- A successful `Read` returns the bytes in the room of the field. -/
theorem Parsed.read_iff (h : object.Parsed es) {value : α} :
    object.Read α strName = .ok value ↔
      ∃ E ∈ es, E.name = strName ∧ E.nType = FieldType.type α ∧
        E.next ≤ object.state.vchState.length ∧
        value = FixedWidth.decode ((object.state.vchState.drop E.nValue).take E.nSize) := by
  simp only [Read, bind_eq_ok, Prod.exists, reject_eq_ok, pure_eq_ok, h.find_iff,
    Stream.extract_eq_ok, not_not]
  constructor
  · rintro ⟨field, nType, s, ⟨E, hE, rfl, rfl, rfl, rfl⟩, u, -, v, hType, value', s', ⟨hFits, rfl, rfl⟩,
      rfl⟩
    obtain ⟨hValue, hSize⟩ := h.span_fixed hE (hType ▸ FieldType.size)
    refine ⟨E, hE, rfl, hType.symm, ?_, ?_⟩
    · rw [Entry.next, hValue, hSize]
      exact hFits
    · rw [hValue, hSize]
      rfl
  · rintro ⟨E, hE, rfl, hType, hNext, rfl⟩
    have hFixed : fixedSize (FieldType.type α) = some (FixedWidth.width α) := FieldType.size
    obtain ⟨hValue, hSize⟩ := h.span_fixed hE (hType ▸ hFixed)
    refine ⟨_, _, _, ⟨E, hE, rfl, rfl, rfl, rfl⟩, (), ?_, (), hType.symm, _, _, ⟨?_, rfl, rfl⟩, ?_⟩
    · intro hNone
      rw [← hType, hNone, fixedSize_unsupported] at hFixed
      cases hFixed
    · rw [Entry.next, hValue, hSize] at hNext
      exact hNext
    · rw [hValue, hSize]
      rfl

/-- A successful `Write` overwrites the room of a mutable field of the value's type. -/
theorem Parsed.write_iff (h : object.Parsed es) {value : α} :
    object.Write strName value = .ok object' ↔
      ∃ E ∈ es, E.name = strName ∧ E.fMutable = true ∧ E.nType = FieldType.type α ∧
        E.next ≤ object.state.vchState.length ∧
        object' = object.patch E.nValue (FixedWidth.encode value) := by
  simp only [Write, bind_eq_ok, Prod.exists, reject_eq_ok, pure_eq_ok, h.find_iff, not_not,
    Bool.not_eq_true', Bool.not_eq_false]
  constructor
  · rintro ⟨field, nType, s, ⟨E, hE, rfl, rfl, rfl, rfl⟩, u, hMutable, v, -, w, hType, x, hFits,
      rfl⟩
    obtain ⟨hValue, hSize⟩ := h.span_fixed hE (hType ▸ FieldType.size)
    refine ⟨E, hE, rfl, hMutable, hType.symm, ?_, by rw [hValue]⟩
    rw [Entry.next, hValue, hSize]
    exact Nat.not_lt.mp hFits
  · rintro ⟨E, hE, rfl, hMutable, hType, hNext, rfl⟩
    have hFixed : fixedSize (FieldType.type α) = some (FixedWidth.width α) := FieldType.size
    obtain ⟨hValue, hSize⟩ := h.span_fixed hE (hType ▸ hFixed)
    refine ⟨_, _, _, ⟨E, hE, rfl, rfl, rfl, rfl⟩, (), hMutable, (), ?_, (), hType.symm, (), ?_,
      by rw [hValue]⟩
    · intro hNone
      rw [← hType, hNone, fixedSize_unsupported] at hFixed
      cases hFixed
    · rw [Entry.next, hValue, hSize] at hNext
      exact Nat.not_lt.mpr hNext

/-- A successful write of a string or a byte vector overwrites the room of a mutable
field with as many bytes. -/
theorem Parsed.writeBytes_room (h : object.Parsed es) {nType : UInt8} {vchData : List UInt8}
    (hNone : fixedSize nType = none) (hWrite : object.WriteBytes nType strName vchData = .ok object') :
    ∃ E ∈ es, E.name = strName ∧ E.fMutable = true ∧ E.nType = nType ∧
      E.next ≤ object.state.vchState.length ∧ E.nSize = vchData.length ∧
      object' = object.patch E.nValue vchData := by
  simp only [WriteBytes, bind_eq_ok, Prod.exists, reject_eq_ok, pure_eq_ok, h.find_iff, not_not,
    Bool.not_eq_true', Bool.not_eq_false] at hWrite
  obtain ⟨field, nType', s, ⟨E, hE, rfl, rfl, rfl, rfl⟩, u, hMutable, v, rfl, nSize, s', hSize, w,
    hLen, x, hFits, rfl⟩ := hWrite
  obtain ⟨q, -, hAt⟩ := h.entries.at_mem hE
  have hSpan := hAt.span
  simp only [valueSpan, hNone, ite_eq_ok, reduceCtorEq, and_false, or_false, hSize,
    Except.ok.injEq, Prod.mk.injEq] at hSpan
  obtain ⟨-, rfl, rfl⟩ := hSpan
  exact ⟨E, hE, rfl, hMutable, rfl, Nat.not_lt.mp hFits, hLen, rfl⟩

/-! ## Overwriting the room of a field -/

section Patch

variable {vchData : List UInt8}

/-- Overwriting the room of a field keeps the entries. -/
theorem Parsed.patch (h : object.Parsed es) (hE : E ∈ es)
    (hNext : E.next ≤ object.state.vchState.length) (hLen : vchData.length = E.nSize) :
    (object.patch E.nValue vchData).Parsed es := by
  have hRoom : E.nValue + vchData.length ≤ object.state.vchState.length := by
    rw [hLen]
    exact hNext
  refine ⟨h.entries.congr_value hE (overwrite_length hRoom) fun i hi => ?_, h.mapData, ?_⟩
  · refine overwrite_getElem? hRoom ?_
    rw [hLen]
    exact hi
  · exact (overwrite_length hRoom).trans_le h.size

/-- The room of a field reads back what was written there. -/
theorem Parsed.patch_room (hNext : E.next ≤ object.state.vchState.length)
    (hLen : vchData.length = E.nSize) :
    ((object.patch E.nValue vchData).state.vchState.drop E.nValue).take E.nSize = vchData := by
  have hLe : E.nValue ≤ object.state.vchState.length := by
    unfold Entry.next at hNext
    omega
  rw [← hLen]
  exact overwrite_block hLe

/-- The rooms of the other fields read as before. -/
theorem Parsed.patch_other (h : object.Parsed es) (hE : E ∈ es) (hF : F ∈ es)
    (hne : F.name ≠ E.name) (hNext : E.next ≤ object.state.vchState.length)
    (hLen : vchData.length = E.nSize) :
    ((object.patch E.nValue vchData).state.vchState.drop F.nValue).take F.nSize =
      (object.state.vchState.drop F.nValue).take F.nSize := by
  have hRoom : E.nValue + vchData.length ≤ object.state.vchState.length := by
    rw [hLen]
    exact hNext
  obtain ⟨p, -, hAtE⟩ := h.entries.at_mem hE
  obtain ⟨q, -, hAtF⟩ := h.entries.at_mem hF
  have h1 := hAtE.value_le
  have h2 := hAtF.value_le
  have hApart := h.entries.disjoint hE hF hne.symm
  apply List.ext_getElem?
  intro i
  rw [List.getElem?_take, List.getElem?_take]
  split
  · rw [List.getElem?_drop, List.getElem?_drop]
    refine overwrite_getElem? hRoom ?_
    unfold Entry.next at hApart
    omega
  · rfl

end Patch

/-- What a successful `Write` of a fixed-width value does. -/
structure Written (object object' : Object) (es : List Entry) (strName : List UInt8)
    (value : α) : Prop where
  parsed : object'.Parsed es
  state : object' = { object with state.vchState := object'.state.vchState }
  length : object'.state.vchState.length = object.state.vchState.length
  read : object'.Read α strName = .ok value
  other : ∀ {β : Type} [FieldType β] {strOther : List UInt8} {v : β}, strOther ≠ strName →
    (object'.Read β strOther = .ok v ↔ object.Read β strOther = .ok v)

theorem write_spec (h : object.Parsed es) {value : α}
    (hWrite : object.Write strName value = .ok object') :
    Written object object' es strName value := by
  obtain ⟨E, hE, rfl, -, hType, hNext, rfl⟩ := h.write_iff.mp hWrite
  have hLen : (FixedWidth.encode value).length = E.nSize := by
    rw [(h.span_fixed hE (hType ▸ FieldType.size)).2, FixedWidth.encode_length]
  have hRoom : E.nValue + (FixedWidth.encode value).length ≤ object.state.vchState.length := by
    rw [hLen]
    exact hNext
  have hLength := overwrite_length hRoom
  have hParsed := h.patch hE hNext hLen
  refine ⟨hParsed, rfl, hLength, ?_, ?_⟩
  · rw [hParsed.read_iff]
    refine ⟨E, hE, rfl, hType, hNext.trans_eq hLength.symm, ?_⟩
    rw [Parsed.patch_room hNext hLen, FixedWidth.decode_encode]
  · intro β _ strOther v hne
    have hSame : ∀ F ∈ es, F.name = strOther →
        ((object.patch E.nValue (FixedWidth.encode value)).state.vchState.drop F.nValue).take
          F.nSize = (object.state.vchState.drop F.nValue).take F.nSize := by
      rintro F hF rfl
      exact h.patch_other hE hF hne hNext hLen
    rw [hParsed.read_iff, h.read_iff]
    constructor
    · rintro ⟨F, hF, hName, hTypeF, hNextF, rfl⟩
      exact ⟨F, hF, hName, hTypeF, hNextF.trans_eq hLength, by rw [hSame F hF hName]⟩
    · rintro ⟨F, hF, hName, hTypeF, hNextF, rfl⟩
      exact ⟨F, hF, hName, hTypeF, hNextF.trans_eq hLength.symm, by rw [hSame F hF hName]⟩

end Object

end Nexus.Register
