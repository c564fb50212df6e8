import Nexus.Register.Fields

/-!
# Rewriting fields

What an operation may change about an object: the values of some fields.  The
entries stay, so the object parses into the same fields before and after, is of
the same kind, and every field that was not touched reads the same.

## Main results

* `SameFields.patch`: overwriting the value of one field touches that field.
* `SameFields.parse`: the object before and after, field by field.
-/

namespace Nexus.Register

open Nexus.Lib.Bytes
open Nexus.Lib.Checked
open Nexus.Util

/-- `vch'` has the entries of `vch`, and the values of all fields but the touched ones. -/
structure SameFields (touched : List UInt8 → Prop) (vch vch' : List UInt8) : Prop where
  length : vch'.length = vch.length
  entries : ∀ {es}, Entries vch 0 es → Entries vch' 0 es
  value : ∀ {es E}, Entries vch 0 es → E ∈ es → ¬ touched E.name →
    (vch'.drop E.nValue).take E.nSize = (vch.drop E.nValue).take E.nSize

namespace SameFields

variable {touched touched' : List UInt8 → Prop} {vch vch' vch'' : List UInt8}

theorem refl (touched : List UInt8 → Prop) (vch : List UInt8) : SameFields touched vch vch :=
  ⟨rfl, id, fun _ _ _ => rfl⟩

theorem trans (h : SameFields touched vch vch') (h' : SameFields touched vch' vch'') :
    SameFields touched vch vch'' where
  length := h'.length.trans h.length
  entries hes := h'.entries (h.entries hes)
  value hes hE hName := (h'.value (h.entries hes) hE hName).trans (h.value hes hE hName)

theorem mono (h : SameFields touched vch vch') (hTouched : ∀ strName, touched strName → touched' strName) :
    SameFields touched' vch vch' where
  length := h.length
  entries := h.entries
  value hes hE hName := h.value hes hE fun hOld => hName (hTouched _ hOld)

/-- Overwriting the room of a field touches that field. -/
theorem patch {object : Object} {es : List Entry} {E : Entry} {vchData : List UInt8}
    (h : object.Parsed es) (hE : E ∈ es) (hNext : E.next ≤ object.state.vchState.length)
    (hLen : vchData.length = E.nSize) :
    SameFields (· = E.name) object.state.vchState (object.patch E.nValue vchData).state.vchState := by
  have hRoom : E.nValue + vchData.length ≤ object.state.vchState.length := by
    rw [hLen]
    exact hNext
  have hUnique : ∀ {fs}, Entries object.state.vchState 0 fs → fs = es := by
    intro fs hfs
    exact hfs.unique h.entries
  refine ⟨overwrite_length hRoom, fun hfs => ?_, fun hfs hF hName => ?_⟩
  · rw [hUnique hfs]
    exact (h.patch hE hNext hLen).entries
  · rw [hUnique hfs] at hF
    exact h.patch_other hE hF hName hNext hLen

/-- The object before and after: the same kind, and the same reads of untouched fields. -/
theorem parse {state state' : State} {object : Object}
    (h : SameFields touched state.vchState state'.vchState) (hType : state'.nType = state.nType)
    (hSize : state.vchState.length ≤ 2 ^ 16) (hParse : Object.Parse ⟨state, []⟩ = .ok object) :
    ∃ object', Object.Parse ⟨state', []⟩ = .ok object' ∧
      object'.Standard = object.Standard ∧ object'.Base = object.Base ∧
      ∀ {α : Type} [FieldType α] {strName : List UInt8} {value : α}, ¬ touched strName →
        (object'.Read α strName = .ok value ↔ object.Read α strName = .ok value) := by
  obtain ⟨hObject, es, hes, rfl⟩ := Object.parse_iff.mp hParse
  have hParsed : Object.Parsed ⟨state, es.map Entry.toPair⟩ es := ⟨hes, rfl, hSize⟩
  have hParsed' : Object.Parsed ⟨state', es.map Entry.toPair⟩ es :=
    ⟨h.entries hes, rfl, h.length.trans_le hSize⟩
  refine ⟨⟨state', es.map Entry.toPair⟩, ?_, hParsed.standard_congr hParsed',
    hParsed.base_congr hParsed', ?_⟩
  · exact Object.parse_iff.mpr ⟨hType ▸ hObject, es, h.entries hes, rfl⟩
  · intro α _ strName value hName
    rw [hParsed'.read_iff, hParsed.read_iff]
    constructor
    · rintro ⟨E, hE, rfl, hKind, hNext, rfl⟩
      exact ⟨E, hE, rfl, hKind, hNext.trans_eq h.length, by rw [h.value hes hE hName]⟩
    · rintro ⟨E, hE, rfl, hKind, hNext, rfl⟩
      exact ⟨E, hE, rfl, hKind, hNext.trans_eq h.length.symm, by rw [h.value hes hE hName]⟩

end SameFields

namespace Object

variable {object object' : Object} {es : List Entry} {strName : List UInt8}

theorem Parsed.write_fields {α : Type} [FieldType α] {value : α} (h : object.Parsed es)
    (hWrite : object.Write strName value = .ok object') :
    SameFields (· = strName) object.state.vchState object'.state.vchState := by
  obtain ⟨E, hE, rfl, -, hType, hNext, rfl⟩ := h.write_iff.mp hWrite
  refine SameFields.patch h hE hNext ?_
  rw [(h.span_fixed hE (hType ▸ FieldType.size)).2, FixedWidth.encode_length]

theorem Parsed.writeBytes_fields {nType : UInt8} {vchData : List UInt8} (h : object.Parsed es)
    (hNone : fixedSize nType = none)
    (hWrite : object.WriteBytes nType strName vchData = .ok object') :
    object'.Parsed es ∧
      object' = { object with state.vchState := object'.state.vchState } ∧
      SameFields (· = strName) object.state.vchState object'.state.vchState := by
  obtain ⟨E, hE, rfl, -, -, hNext, hLen, rfl⟩ := h.writeBytes_room hNone hWrite
  exact ⟨h.patch hE hNext hLen.symm, rfl, SameFields.patch h hE hNext hLen.symm⟩

end Object

end Nexus.Register
