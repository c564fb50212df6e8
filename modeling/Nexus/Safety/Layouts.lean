import Nexus.Register.Grammar

/-!
# Layouts

An object is laid out by the bytes it holds: `Object::Parse` reads the name and
the type of each field and steps over the value.  The step may end behind the
data, so bytes that stop inside the last value are taken like complete ones, and
the offset of a value that is not there goes into the map.

## Main results

* `parses_grammar_iff`: `Parse` accepts exactly the sequences of items, and maps
  their names, unless the data is such a sequence cut short in its last value.
* `parse_cut`: an object that is accepted without the end of its last value.
-/

namespace Nexus.Safety

open Nexus.Lib.Bytes
open Nexus.Lib.Checked
open Nexus.Util
open Nexus.Register

/-- The bytes are items with distinct names, each of them complete. -/
def Grammar (vch : List UInt8) (items : List Item) : Prop :=
  WellNamed items ∧ itemBytes items = vch

/-- The bytes are items with distinct names, but the end of the last value is missing. -/
def CutShort (vch : List UInt8) : Prop :=
  ∃ items vchTail, WellNamed items ∧ vchTail ≠ [] ∧ vchTail.length ≤ lastRoom items ∧
    vch ++ vchTail = itemBytes items

/-- Every name with the offset of its type byte and whether it is mutable. -/
def fieldMap (items : List Item) : DataMap :=
  (itemEntries 0 items).map fun E => (E.name, ⟨E.nPos, E.fMutable⟩)

/-- `Parse` accepts the items of a state and no other bytes, and maps the fields of the items. -/
def ParsesGrammar (state : State) : Prop :=
  ∀ object : Object, Object.Parse ⟨state, []⟩ = .ok object ↔
    ∃ items, Grammar state.vchState items ∧ object = ⟨state, fieldMap items⟩

variable {vch vchTail : List UInt8} {items : List Item} {state : State} {es : List Entry}

/-- An offset in a register fits its sixteen bits. -/
theorem entries_toPairs (h : Entries vch 0 es) (hSize : vch.length ≤ MAX_REGISTER_SIZE) :
    es.map Entry.toPair = es.map fun E => (E.name, ⟨E.nPos, E.fMutable⟩) := by
  apply List.map_congr_left
  intro E hE
  obtain ⟨q, -, hAt⟩ := h.at_mem hE
  have hLt := hAt.pos_lt
  have hMax : MAX_REGISTER_SIZE = 1024 := rfl
  rw [Entry.toPair, Nat.mod_eq_of_lt (by omega)]

/-- Items with an end that may be missing are parsed to their fields. -/
theorem parse_items (hType : state.nType = REGISTER.OBJECT)
    (hSize : state.vchState.length ≤ MAX_REGISTER_SIZE) (hWell : WellNamed items)
    (hData : state.vchState ++ vchTail = itemBytes items) (hTail : vchTail.length ≤ lastRoom items) :
    Object.Parse ⟨state, []⟩ = .ok ⟨state, fieldMap items⟩ := by
  have hEntries : Entries state.vchState 0 (itemEntries 0 items) :=
    entries_of_items hWell (Nat.zero_le _) hData hTail
  apply Object.parse_iff.mpr
  exact ⟨.inl hType, _, hEntries, by rw [entries_toPairs hEntries hSize]; rfl⟩

/-- What is parsed is items with an end that may be missing. -/
theorem items_of_parse {object : Object} (hSize : state.vchState.length ≤ MAX_REGISTER_SIZE)
    (h : Object.Parse ⟨state, []⟩ = .ok object) :
    ∃ items vchTail, WellNamed items ∧ state.vchState ++ vchTail = itemBytes items ∧
      vchTail.length ≤ lastRoom items ∧ object = ⟨state, fieldMap items⟩ := by
  obtain ⟨-, es, hEntries, rfl⟩ := Object.parse_iff.mp h
  obtain ⟨items, vchTail, hWell, hEs, hData, hTail⟩ := items_of_entries hEntries (Nat.zero_le _)
  refine ⟨items, vchTail, hWell, hData, hTail, ?_⟩
  rw [entries_toPairs hEntries hSize, hEs]
  rfl

/-- Bytes that are cut short are not complete items as well: the entries say where the last value
ends. -/
theorem CutShort.not_grammar (h : CutShort vch) : ¬ Grammar vch items := by
  intro hGrammar
  obtain ⟨items', vchTail, hWell, hNe, hTail, hData⟩ := h
  have hPos : 0 < vchTail.length := List.length_pos_iff.mpr hNe
  have hCut : Entries vch 0 (itemEntries 0 items') :=
    entries_of_items hWell (Nat.zero_le _) hData hTail
  have hFull : Entries vch 0 (itemEntries 0 items) :=
    entries_of_items (p := 0) hGrammar.1 (Nat.zero_le _) (by rw [hGrammar.2]; exact List.append_nil _)
      (Nat.zero_le _)
  have hEnd : (itemBytes items').length = (itemBytes items).length := by
    have hEntries := congrArg (entriesEnd 0) (hCut.unique hFull)
    rw [entriesEnd_items, entriesEnd_items] at hEntries
    omega
  rw [← hData, hGrammar.2, List.length_append] at hEnd
  omega

/-- Bytes that are cut short are parsed all the same. -/
theorem CutShort.parse (h : CutShort state.vchState) (hType : state.nType = REGISTER.OBJECT)
    (hSize : state.vchState.length ≤ MAX_REGISTER_SIZE) :
    ∃ object, Object.Parse ⟨state, []⟩ = .ok object := by
  obtain ⟨items, vchTail, hWell, -, hTail, hData⟩ := h
  exact ⟨_, parse_items hType hSize hWell hData hTail⟩

theorem CutShort.not_parsesGrammar (h : CutShort state.vchState) (hType : state.nType = REGISTER.OBJECT)
    (hSize : state.vchState.length ≤ MAX_REGISTER_SIZE) : ¬ ParsesGrammar state := by
  intro hParses
  obtain ⟨object, hParse⟩ := h.parse hType hSize
  obtain ⟨items, hGrammar, -⟩ := (hParses object).mp hParse
  exact h.not_grammar hGrammar

/-- `Parse` accepts the object grammar exactly when the data does not stop inside the last value of
a sequence of items. -/
theorem parses_grammar_iff (state : State) (hType : state.nType = REGISTER.OBJECT)
    (hSize : state.vchState.length ≤ MAX_REGISTER_SIZE) :
    ParsesGrammar state ↔ ¬ CutShort state.vchState := by
  constructor
  · intro h hCut
    exact hCut.not_parsesGrammar hType hSize h
  · intro hWhole object
    constructor
    · intro h
      obtain ⟨items, vchTail, hWell, hData, hTail, hObject⟩ := items_of_parse hSize h
      have hNil : vchTail = [] := by
        by_contra hNe
        exact hWhole ⟨items, vchTail, hWell, hNe, hTail, hData⟩
      rw [hNil, List.append_nil] at hData
      exact ⟨items, ⟨hWell, hData.symm⟩, hObject⟩
    · intro h
      obtain ⟨items, ⟨hWell, hBytes⟩, rfl⟩ := h
      have hWhole : state.vchState ++ [] = itemBytes items := by rw [hBytes, List.append_nil]
      exact parse_items hType hSize hWell hWhole (Nat.zero_le _)

/-! ## An object with one field -/

/-- The field `a`, with a value of eight bytes. -/
def exampleItem (vchData : List UInt8) : Item :=
  ⟨[1], [97], false, TYPES.UINT64_T, [], vchData⟩

/-- An object that holds the first bytes of the field `a`. -/
def exampleLayout (n : Nat) : State :=
  { nType := REGISTER.OBJECT, vchState := (itemBytes [exampleItem [7, 0, 0, 0, 0, 0, 0, 0]]).take n }

theorem exampleItem_valid : (exampleItem [7, 0, 0, 0, 0, 0, 0, 0]).Valid where
  size := .byte 1 (by decide)
  name_le := by decide
  value := .inl ⟨by decide, rfl⟩

theorem exampleItem_wellNamed : WellNamed [exampleItem [7, 0, 0, 0, 0, 0, 0, 0]] where
  valid i hi := by
    rw [List.mem_singleton.mp hi]
    exact exampleItem_valid
  distinct := List.nodup_singleton _

/-- With one byte of the value the data is cut short. -/
theorem exampleLayout_cut : CutShort (exampleLayout 4).vchState :=
  ⟨_, [0, 0, 0, 0, 0, 0, 0], exampleItem_wellNamed, by decide, by decide, by decide⟩

/-- With all of them it is not. -/
theorem exampleLayout_whole : ¬ CutShort (exampleLayout 11).vchState := by
  intro h
  have hGrammar : Grammar (exampleLayout 11).vchState [exampleItem [7, 0, 0, 0, 0, 0, 0, 0]] :=
    ⟨exampleItem_wellNamed, by decide⟩
  exact h.not_grammar hGrammar

/-- An object of a complete field is parsed to it. -/
theorem parses_grammar_whole : ParsesGrammar (exampleLayout 11) :=
  (parses_grammar_iff (exampleLayout 11) rfl (by decide)).mpr exampleLayout_whole

/-- An object is accepted without the end of its last value. -/
theorem parse_cut : ¬ ParsesGrammar (exampleLayout 4) :=
  exampleLayout_cut.not_parsesGrammar rfl (by decide)

end Nexus.Safety
