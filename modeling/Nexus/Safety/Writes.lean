import Nexus.Register.SameFields
import Nexus.Safety.Tokens

/-!
# Writes to fields

A write to an object copies the value over the position that the parser recorded
for its field.  The room of a field is as wide as its type, or as long as the
length in front of a string or a byte vector says, and a write of another length
is refused; so a write that is accepted stays in its field.

## Main results

* `field_write_exact`: what a write of a fixed-width value, a string or a byte
  vector does to its field, to the other fields and to the layout of the object.
* `field_write_exact_text`: a text next to a number.
-/

namespace Nexus.Safety

open Nexus.Lib.Bytes
open Nexus.Lib.Checked
open Nexus.Util
open Nexus.Register
open Nexus.LLD

/-- The object after a write.  A write that returns `false` returns before it copies. -/
def afterWrite (object : Object) : Result Object → Object
  | .ok object' => object'
  | .error _ => object

/-- The write changed nothing but the value of one field: every other field reads as before, or
fails to read as before, and the size and the parsed map are the same. -/
structure LocalWrite (object object' : Object) (strName : List UInt8) : Prop where
  reads : ∀ (β : Type) [FieldType β] (strOther : List UInt8), strOther ≠ strName →
    object'.Read β strOther = object.Read β strOther
  readsBytes : ∀ nType ∈ [TYPES.STRING, TYPES.BYTES], ∀ strOther : List UInt8, strOther ≠ strName →
    object'.ReadBytes nType strOther = object.ReadBytes nType strOther
  size : object'.state.vchState.length = object.state.vchState.length
  parse : Object.Parse ⟨object'.state, []⟩ = .ok ⟨object'.state, object.mapData⟩

variable {object object' : Object} {es : List Entry} {E : Entry} {strName vchData : List UInt8}
  {nType : UInt8}

/-! ## Reading the same bytes -/

theorem bind_first {α β : Type} (x : Result (α × β)) :
    (do let (a, _) ← x; return a) = x.map Prod.fst := by
  cases x <;> rfl

/-- Two streams at one position read the same value from the same bytes. -/
theorem read_congr {vch vch' : List UInt8} {p n : Nat} (hLen : vch'.length = vch.length)
    (hSame : (vch'.drop p).take n = (vch.drop p).take n) :
    ((Stream.mk vch' p).read n).map Prod.fst = ((Stream.mk vch p).read n).map Prod.fst := by
  have hFits : (Stream.mk vch' p).Fits n ↔ (Stream.mk vch p).Fits n := by
    show p + n ≤ vch'.length ↔ p + n ≤ vch.length
    rw [hLen]
  by_cases h : (Stream.mk vch p).Fits n
  · rw [Stream.read, if_pos (hFits.mpr h), Stream.read, if_pos h]
    exact congrArg Except.ok hSame
  · rw [Stream.read, if_neg (mt hFits.mp h), Stream.read, if_neg h]

theorem extract_congr {α : Type} [FixedWidth α] {vch vch' : List UInt8} {p : Nat}
    (hLen : vch'.length = vch.length)
    (hSame : (vch'.drop p).take (FixedWidth.width α) = (vch.drop p).take (FixedWidth.width α)) :
    ((Stream.mk vch' p).extract α).map Prod.fst = ((Stream.mk vch p).extract α).map Prod.fst := by
  have hExtract (s : Stream) : (s.extract α).map Prod.fst =
      ((s.read (FixedWidth.width α)).map Prod.fst).map FixedWidth.decode := by
    unfold Stream.extract
    cases s.read (FixedWidth.width α) <;> rfl
  rw [hExtract, hExtract, read_congr hLen hSame]

/-- The entry of a name, when the object has one, or its absence. -/
theorem find_cases (h : object.Parsed es) (h' : object'.Parsed es) (strName : List UInt8) :
    (∃ e, object.find strName = .error e ∧ object'.find strName = .error e) ∨
      ∃ E ∈ es, E.name = strName ∧
        object.find strName = .ok (⟨E.nPos, E.fMutable⟩, E.nType, ⟨object.state.vchState, E.nPos + 1⟩) ∧
        object'.find strName =
          .ok (⟨E.nPos, E.fMutable⟩, E.nType, ⟨object'.state.vchState, E.nPos + 1⟩) := by
  by_cases hEntry : ∃ E ∈ es, E.name = strName
  · obtain ⟨E, hE, hName⟩ := hEntry
    exact .inr ⟨E, hE, hName, h.find_iff.mpr ⟨E, hE, hName, rfl, rfl, rfl⟩,
      h'.find_iff.mpr ⟨E, hE, hName, rfl, rfl, rfl⟩⟩
  · left
    have hLookup : object.mapData.lookup strName = none := by
      cases hField : object.mapData.lookup strName with
      | none => rfl
      | some field =>
          obtain ⟨E, hE, hName, -⟩ := h.lookup_iff.mp hField
          exact absurd ⟨E, hE, hName⟩ hEntry
    have hMap := h.mapData_congr h'
    by_cases hNone : object.mapData = []
    · exact ⟨.error "object is not parsed", by simp [Object.find, reject, hNone],
        by simp [Object.find, reject, hMap, hNone]⟩
    · exact ⟨.error "", by simp [Object.find, reject, demand, hNone, hLookup],
        by simp [Object.find, reject, demand, hMap, hNone, hLookup]⟩

/-- A fixed-width field whose room is the same reads the same. -/
theorem Read_congr (h : object.Parsed es) (h' : object'.Parsed es)
    (hLen : object'.state.vchState.length = object.state.vchState.length)
    (hSame : ∀ E ∈ es, E.name = strName →
      (object'.state.vchState.drop E.nValue).take E.nSize =
        (object.state.vchState.drop E.nValue).take E.nSize)
    (β : Type) [FieldType β] : object'.Read β strName = object.Read β strName := by
  rcases find_cases h h' strName with ⟨e, hFind, hFind'⟩ | ⟨E, hE, hName, hFind, hFind'⟩
  · rw [Object.Read, hFind', Object.Read, hFind]
  · rw [Object.Read, hFind', Object.Read, hFind]
    simp only [ok_bind, bind_first]
    by_cases hType : FieldType.type β = E.nType
    · obtain ⟨hValue, hSize⟩ := h.span_fixed hE (hType ▸ FieldType.size)
      have hRoom := hSame E hE hName
      rw [hValue, hSize] at hRoom
      rw [extract_congr hLen hRoom]
    · rw [reject, reject, if_pos hType]
      simp only [error_bind]

/-- The room of a string or a byte vector is where its length in front says. -/
theorem extractBytes_sized (h : object.Parsed es) (hE : E ∈ es)
    (hType : E.nType ∈ [TYPES.STRING, TYPES.BYTES]) :
    (Stream.mk object.state.vchState (E.nPos + 1)).extractBytes =
      (Stream.mk object.state.vchState E.nValue).read E.nSize := by
  obtain ⟨q, -, hAt⟩ := h.entries.at_mem hE
  have hSpan := hAt.span
  simp only [List.mem_cons, List.not_mem_nil, or_false] at hType
  have hNone : fixedSize E.nType = none := by
    rcases hType with hType | hType
    · rw [hType]
      decide
    · rw [hType]
      decide
  rw [valueSpan, hNone] at hSpan
  simp only [if_pos hType] at hSpan
  rw [Stream.extractBytes, hSpan]
  rfl

/-- A string or byte vector whose room is the same reads the same. -/
theorem ReadBytes_congr (h : object.Parsed es) (h' : object'.Parsed es)
    (hLen : object'.state.vchState.length = object.state.vchState.length)
    (hSame : ∀ E ∈ es, E.name = strName →
      (object'.state.vchState.drop E.nValue).take E.nSize =
        (object.state.vchState.drop E.nValue).take E.nSize)
    (hSized : nType ∈ [TYPES.STRING, TYPES.BYTES]) :
    object'.ReadBytes nType strName = object.ReadBytes nType strName := by
  rcases find_cases h h' strName with ⟨e, hFind, hFind'⟩ | ⟨E, hE, hName, hFind, hFind'⟩
  · rw [Object.ReadBytes, hFind', Object.ReadBytes, hFind]
  · rw [Object.ReadBytes, hFind', Object.ReadBytes, hFind]
    simp only [ok_bind, bind_first]
    by_cases hType : nType = E.nType
    · rw [hType] at hSized
      rw [extractBytes_sized h hE hSized, extractBytes_sized h' hE hSized,
        read_congr hLen (hSame E hE hName)]
    · rw [reject, reject, if_pos hType]
      simp only [error_bind]

/-! ## Writing -/

/-- Rewriting only the room of one field is local. -/
theorem local_of_fields (h : object.Parsed es) (h' : object'.Parsed es)
    (hParse : Object.Parse ⟨object.state, []⟩ = .ok object)
    (hState : object' = { object with state.vchState := object'.state.vchState })
    (hFields : SameFields (· = strName) object.state.vchState object'.state.vchState) :
    LocalWrite object object' strName := by
  have hSame : ∀ strOther ≠ strName, ∀ E ∈ es, E.name = strOther →
      (object'.state.vchState.drop E.nValue).take E.nSize =
        (object.state.vchState.drop E.nValue).take E.nSize := by
    intro strOther hOther E hE hName
    exact hFields.value h.entries hE fun hEq => hOther (hName.symm.trans hEq)
  have hType : object'.state.nType = object.state.nType := by rw [hState]
  refine ⟨fun β _ strOther hOther => ?_, fun nType hSized strOther hOther => ?_, hFields.length, ?_⟩
  · exact Read_congr h h' hFields.length (hSame strOther hOther) β
  · exact ReadBytes_congr h h' hFields.length (hSame strOther hOther) hSized
  · have hKind := (Object.parse_iff.mp hParse).1
    rw [← hType] at hKind
    rw [h'.parse hKind, ← h.mapData_congr h']

/-- A fixed-width value is read back, and the write is local. -/
theorem Write_exact {α : Type} [FieldType α] {value : α} (h : object.Parsed es)
    (hParse : Object.Parse ⟨object.state, []⟩ = .ok object)
    (hWrite : object.Write strName value = .ok object') :
    object'.Read α strName = .ok value ∧ LocalWrite object object' strName := by
  have hSpec := Object.write_spec h hWrite
  exact ⟨hSpec.read, local_of_fields h hSpec.parsed hParse hSpec.state (h.write_fields hWrite)⟩

/-- A string or a byte vector is read back, and the write is local. -/
theorem WriteBytes_exact (h : object.Parsed es)
    (hParse : Object.Parse ⟨object.state, []⟩ = .ok object)
    (hSized : nType ∈ [TYPES.STRING, TYPES.BYTES])
    (hWrite : object.WriteBytes nType strName vchData = .ok object') :
    object'.ReadBytes nType strName = .ok vchData ∧ LocalWrite object object' strName := by
  have hNone : fixedSize nType = none := by
    simp only [List.mem_cons, List.not_mem_nil, or_false] at hSized
    rcases hSized with rfl | rfl
    · decide
    · decide
  obtain ⟨hParsed, hState, hFields⟩ := h.writeBytes_fields hNone hWrite
  refine ⟨?_, local_of_fields h hParsed hParse hState hFields⟩
  obtain ⟨E, hE, hName, -, hType, hNext, hLen, rfl⟩ := h.writeBytes_room hNone hWrite
  have hFind := hParsed.find_iff.mpr ⟨E, hE, hName, rfl, rfl, rfl⟩
  have hSupported : ¬ E.nType = TYPES.UNSUPPORTED := by
    intro hEq
    rw [← hType, hEq] at hSized
    exact absurd hSized (by decide)
  rw [← hType] at hSized
  have hRead : (Stream.mk (object.patch E.nValue vchData).state.vchState E.nValue).read E.nSize =
      .ok (vchData, ⟨(object.patch E.nValue vchData).state.vchState, E.nValue + E.nSize⟩) := by
    refine Stream.read_eq_ok.mpr ⟨?_, ?_, rfl⟩
    · show E.nValue + E.nSize ≤ (object.patch E.nValue vchData).state.vchState.length
      rw [hFields.length]
      exact hNext
    · exact (Object.Parsed.patch_room hNext hLen.symm).symm
  rw [Object.ReadBytes, hFind]
  simp only [ok_bind, bind_first]
  rw [extractBytes_sized hParsed hE hSized, hRead, reject, if_neg hSupported, reject,
    if_neg (not_not.mpr hType.symm)]
  rfl

theorem field_write_exact (hSize : object.state.vchState.length ≤ 2 ^ 16)
    (hParse : Object.Parse ⟨object.state, []⟩ = .ok object) (strName : List UInt8) :
    (∀ (α : Type) [FieldType α] (value : α),
      (∀ object', object.Write strName value = .ok object' →
        object'.Read α strName = .ok value ∧ LocalWrite object object' strName) ∧
      ∀ e, object.Write strName value = .error e →
        (afterWrite object (object.Write strName value)).state.vchState = object.state.vchState) ∧
    ∀ nType ∈ [TYPES.STRING, TYPES.BYTES], ∀ vchData : List UInt8,
      (∀ object', object.WriteBytes nType strName vchData = .ok object' →
        object'.ReadBytes nType strName = .ok vchData ∧ LocalWrite object object' strName) ∧
      ∀ e, object.WriteBytes nType strName vchData = .error e →
        (afterWrite object (object.WriteBytes nType strName vchData)).state.vchState =
          object.state.vchState := by
  obtain ⟨-, es, hes⟩ := Object.parsed_of_parse hParse hSize
  refine ⟨fun α _ value => ⟨fun object' hWrite => Write_exact hes hParse hWrite, fun e hError => ?_⟩,
    fun nType hSized vchData => ⟨fun object' hWrite => WriteBytes_exact hes hParse hSized hWrite,
      fun e hError => ?_⟩⟩
  · rw [hError, afterWrite]
  · rw [hError, afterWrite]

/-! ## A text in front of a balance -/

def noteObject : Object where
  state :=
    objectState alice 10 20
      (fieldBytes "text" true TYPES.STRING (serializeBytes (bytesOf "abc")) ++
        fieldBytes "balance" true TYPES.UINT64_T (FixedWidth.encode (7 : UInt64)))
  mapData := [(bytesOf "text", ⟨6, true⟩), (bytesOf "balance", ⟨20, true⟩)]

/-- Another text of the same length leaves the balance alone. -/
theorem field_write_exact_text :
    ∃ object', noteObject.WriteBytes TYPES.STRING (bytesOf "text") (bytesOf "xyz") = .ok object' ∧
      object'.ReadBytes TYPES.STRING (bytesOf "text") = .ok (bytesOf "xyz") ∧
      object'.Read UInt64 (bytesOf "balance") = .ok 7 := by
  have hParse : Object.Parse ⟨noteObject.state, []⟩ = .ok noteObject := by decide +kernel
  have hWrite : noteObject.WriteBytes TYPES.STRING (bytesOf "text") (bytesOf "xyz") =
      .ok (noteObject.patch 8 (bytesOf "xyz")) := by
    decide +kernel
  have hBalance : noteObject.Read UInt64 (bytesOf "balance") = .ok 7 := by decide +kernel
  have hExact := field_write_exact (by decide +kernel) hParse (bytesOf "text")
  obtain ⟨hText, hLocal⟩ := (hExact.2 TYPES.STRING (by decide) (bytesOf "xyz")).1 _ hWrite
  exact ⟨_, hWrite, hText, by rw [hLocal.reads UInt64 _ (by decide), hBalance]⟩

end Nexus.Safety
