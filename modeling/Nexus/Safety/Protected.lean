import Nexus.Operation.Calculations
import Nexus.Safety.Writes

/-!
# Protected fields

`OP::WRITE` interprets a stream of instructions, each a name, a type and a value,
on a copy of the object.  A reserved name ends it, and so does a field that is not
mutable or of another type; so whatever the stream says, the fields that hold
coins read as before, and the layout of the object is the same.

## Main results

* `write_protected`: what `Write::Execute` leaves when it succeeds, and when it
  fails: the state as it was, or a written one that is not valid.
* `write_invalid`: a failed write that changed the state.
-/

namespace Nexus.Safety

open Nexus.Lib.Bytes
open Nexus.Lib.Checked
open Nexus.Util
open Nexus.Register
open Nexus.Operation
open Nexus.LLD

/-! ## The instructions of a stream -/

/-- The field type that an operation type stands for. -/
def typeOfOP (nOP : UInt8) : UInt8 :=
  if nOP = OP.TYPES.UINT8_T then TYPES.UINT8_T
  else if nOP = OP.TYPES.UINT16_T then TYPES.UINT16_T
  else if nOP = OP.TYPES.UINT32_T then TYPES.UINT32_T
  else if nOP = OP.TYPES.UINT64_T then TYPES.UINT64_T
  else if nOP = OP.TYPES.UINT256_T then TYPES.UINT256_T
  else if nOP = OP.TYPES.UINT512_T then TYPES.UINT512_T
  else if nOP = OP.TYPES.UINT1024_T then TYPES.UINT1024_T
  else if nOP = OP.TYPES.STRING then TYPES.STRING
  else if nOP = OP.TYPES.BYTES then TYPES.BYTES
  else TYPES.UNSUPPORTED

/-- The bytes of a value of a type. -/
def readValue (nType : UInt8) (s : Stream) : Result (List UInt8 × Stream) :=
  match fixedSize nType with
  | some nSize => s.read nSize
  | none => s.extractBytes

/-- One instruction: the name of a field, its type and its value. -/
def readInstruction (s : Stream) : Result ((List UInt8 × UInt8 × List UInt8) × Stream) := do
  let (strName, s) ← s.extractBytes
  let (nOP, s) ← s.extract UInt8
  let (vchValue, s) ← readValue (typeOfOP nOP) s
  return ((strName, typeOfOP nOP, vchValue), s)

/-- The stream gives a field a value of a type. -/
inductive Gives : Stream → List UInt8 → UInt8 → List UInt8 → Prop
  | here {s s' : Stream} {strName : List UInt8} {nType : UInt8} {vchValue : List UInt8}
      (hRead : readInstruction s = .ok ((strName, nType, vchValue), s')) :
      Gives s strName nType vchValue
  | later {s s' : Stream} {i : List UInt8 × UInt8 × List UInt8} {strName : List UInt8} {nType : UInt8}
      {vchValue : List UInt8} (hRead : readInstruction s = .ok (i, s'))
      (hRest : Gives s' strName nType vchValue) : Gives s strName nType vchValue

/-! ## What a write leaves -/

/-- The type of a field and the bytes of its value. -/
def valueOf (object : Object) (strName : List UInt8) : Result (UInt8 × List UInt8) := do
  let (_, nType, s) ← object.find strName
  let (nSize, s) ← valueSpan nType s
  let (vchValue, _) ← s.read nSize
  return (nType, vchValue)

/-- The field exists and is marked `MUTABLE`. -/
def Mutable (object : Object) (strName : List UInt8) : Prop :=
  ∃ field, object.mapData.lookup strName = some field ∧ field.fMutable = true

/-- The instructions of `vchData` were applied to an object: its map and the types of its fields
are the same, protected fields have their values, and other fields have theirs or one that was
given. -/
structure Applied (vchData : List UInt8) (object object' : Object) : Prop where
  mapData : object'.mapData = object.mapData
  types : ∀ strName, Condition.fieldType object' strName = Condition.fieldType object strName
  reserved : ∀ strName ∈ Write.RESERVED, valueOf object' strName = valueOf object strName
  immutable : ∀ strName, ¬ Mutable object strName → valueOf object' strName = valueOf object strName
  given : ∀ strName, valueOf object' strName = valueOf object strName ∨
    ∃ nType vchValue, Gives ⟨vchData, 0⟩ strName nType vchValue ∧
      valueOf object' strName = .ok (nType, vchValue)

/-- The object of one state and of the state that it was written to. -/
def AppliedTo (vchData : List UInt8) (state state' : State) : Prop :=
  ∃ object object', Object.Parse { state } = .ok object ∧ Object.Parse { state := state' } = .ok object' ∧
    Applied vchData object object'

/-- The argument of `Write::Execute` after the call: the data is set when all instructions were
applied, and the time and the checksum before the state is checked. -/
def stateAfter (rt : Runtime) (state : State) (vchData : List UInt8) (nTimestamp : UInt64) : State :=
  match if state.nType = REGISTER.OBJECT then Write.executeObject rt state vchData
    else Write.executeRaw rt state vchData with
  | .ok written => { written with nModified := nTimestamp }.SetChecksum rt
  | .error _ => state

variable {rt : Runtime} {state after : State} {object object' object'' : Object} {es : List Entry}
  {E : Entry} {s s' : Stream} {strName vchValue vchData : List UInt8} {nType nOP : UInt8}
  {nTimestamp : UInt64}

/-- The room of a field in an object. -/
def room (object : Object) (E : Entry) : List UInt8 :=
  (object.state.vchState.drop E.nValue).take E.nSize

/-- The instructions of a stream went to the rooms of mutable fields that are not reserved. -/
structure Rooms (es : List Entry) (s : Stream) (object object' : Object) : Prop where
  parsed : object'.Parsed es
  state : object'.state = { object.state with vchState := object'.state.vchState }
  length : object'.state.vchState.length = object.state.vchState.length
  rooms : ∀ E ∈ es, room object' E = room object E ∨
    (E.fMutable = true ∧ Write.Reserved E.name = false ∧
      E.next ≤ object.state.vchState.length ∧ Gives s E.name E.nType (room object' E))

/-! ## One instruction -/

theorem encode_decode {α : Type} [FixedWidth α] {vch : List UInt8} (h : vch.length = FixedWidth.width α) :
    FixedWidth.encode (FixedWidth.decode vch : α) = vch := by
  rw [FixedWidth.encode, FixedWidth.toNat_decode h, ← h, leBytes_leNat]

/-- What an instruction writes: a value for a mutable field of its type. -/
structure Patches (nType : UInt8) (es : List Entry) (strName : List UInt8) (s s' : Stream)
    (object object' : Object) (E : Entry) (vchValue : List UInt8) : Prop where
  read : readValue nType s = .ok (vchValue, s')
  mem : E ∈ es
  name : E.name = strName
  fMutable : E.fMutable = true
  type : E.nType = nType
  next : E.next ≤ object.state.vchState.length
  length : vchValue.length = E.nSize
  patch : object' = object.patch E.nValue vchValue

theorem writeValue_patches {α : Type} [FieldType α] {strMessage : String} (h : object.Parsed es)
    (hWrite : Write.writeValue α strMessage strName s object = .ok (object', s')) :
    ∃ E vchValue, Patches (FieldType.type α) es strName s s' object object' E vchValue := by
  simp only [Write.writeValue, Stream.extract, bind_eq_ok, Prod.exists, orError_eq_ok, pure_eq_ok,
    Prod.mk.injEq] at hWrite
  obtain ⟨nValue, s₁, ⟨vchValue, s₂, hRead, rfl, rfl⟩, object₁, hWrite, rfl, rfl⟩ := hWrite
  obtain ⟨E, hE, hName, hMutable, hType, hNext, hPatch⟩ := h.write_iff.mp hWrite
  obtain ⟨hFits, hSlice, -⟩ := Stream.read_eq_ok.mp hRead
  have hFixed : fixedSize (FieldType.type α) = some (FixedWidth.width α) := FieldType.size
  have hLength : vchValue.length = FixedWidth.width α := by
    rw [hSlice, List.length_take, List.length_drop]
    unfold Stream.Fits Stream.size at hFits
    omega
  refine ⟨E, vchValue, ⟨?_, hE, hName, hMutable, hType, hNext, ?_, ?_⟩⟩
  · rw [readValue, hFixed]
    exact hRead
  · rw [hLength, (h.span_fixed hE (hType ▸ hFixed)).2]
  · rw [hPatch, encode_decode hLength]

theorem writeBytes_patches {strMessage : String} (h : object.Parsed es) (hNone : fixedSize nType = none)
    (hWrite : Write.writeBytes nType strMessage strName s object = .ok (object', s')) :
    ∃ E vchValue, Patches nType es strName s s' object object' E vchValue := by
  simp only [Write.writeBytes, bind_eq_ok, Prod.exists, orError_eq_ok, pure_eq_ok,
    Prod.mk.injEq] at hWrite
  obtain ⟨vchValue, s₁, hRead, object₁, hWrite, rfl, rfl⟩ := hWrite
  obtain ⟨E, hE, hName, hMutable, hType, hNext, hLen, hPatch⟩ := h.writeBytes_room hNone hWrite
  refine ⟨E, vchValue, ⟨?_, hE, hName, hMutable, hType, hNext, hLen.symm, hPatch⟩⟩
  rw [readValue, hNone]
  exact hRead

/-- Every case of the switch writes one value of the type of the instruction. -/
theorem writeType_patches (h : object.Parsed es)
    (hWrite : Write.writeType nOP strName s object = .ok (object', s')) :
    ∃ E vchValue, Patches (typeOfOP nOP) es strName s s' object object' E vchValue := by
  simp only [Write.writeType, ite_eq_ok, reduceCtorEq, and_false, or_false] at hWrite
  unfold typeOfOP
  rcases hWrite with ⟨h₁, hWrite⟩ | ⟨h₁, ⟨h₂, hWrite⟩ | ⟨h₂, ⟨h₃, hWrite⟩ | ⟨h₃, ⟨h₄, hWrite⟩ |
    ⟨h₄, ⟨h₅, hWrite⟩ | ⟨h₅, ⟨h₆, hWrite⟩ | ⟨h₆, ⟨h₇, hWrite⟩ | ⟨h₇, ⟨h₈, hWrite⟩ |
    ⟨h₈, h₉, hWrite⟩⟩⟩⟩⟩⟩⟩⟩
  · rw [if_pos h₁]
    exact writeValue_patches h hWrite
  · rw [if_neg h₁, if_pos h₂]
    exact writeValue_patches h hWrite
  · rw [if_neg h₁, if_neg h₂, if_pos h₃]
    exact writeValue_patches h hWrite
  · rw [if_neg h₁, if_neg h₂, if_neg h₃, if_pos h₄]
    exact writeValue_patches h hWrite
  · rw [if_neg h₁, if_neg h₂, if_neg h₃, if_neg h₄, if_pos h₅]
    exact writeValue_patches h hWrite
  · rw [if_neg h₁, if_neg h₂, if_neg h₃, if_neg h₄, if_neg h₅, if_pos h₆]
    exact writeValue_patches h hWrite
  · rw [if_neg h₁, if_neg h₂, if_neg h₃, if_neg h₄, if_neg h₅, if_neg h₆, if_pos h₇]
    exact writeValue_patches h hWrite
  · rw [if_neg h₁, if_neg h₂, if_neg h₃, if_neg h₄, if_neg h₅, if_neg h₆, if_neg h₇, if_pos h₈]
    exact writeBytes_patches h (by decide) hWrite
  · rw [if_neg h₁, if_neg h₂, if_neg h₃, if_neg h₄, if_neg h₅, if_neg h₆, if_neg h₇, if_neg h₈,
      if_pos h₉]
    exact writeBytes_patches h (by decide) hWrite

/-! ## The stream -/

theorem Rooms.refl (h : object.Parsed es) : Rooms es s object object :=
  ⟨h, rfl, rfl, fun _ _ => .inl rfl⟩

/-- One more instruction in front. -/
theorem Rooms.cons {s₁ s₂ s₃ : Stream} (h : object.Parsed es) (hName : s.extractBytes = .ok (strName, s₁))
    (hReserved : Write.Reserved strName = false) (hType : s₁.extract UInt8 = .ok (nOP, s₂))
    (hPatch : Patches (typeOfOP nOP) es strName s₂ s₃ object object' E vchValue)
    (hRest : object'.Parsed es → Rooms es s₃ object' object'') : Rooms es s object object'' := by
  have hRead : readInstruction s = .ok ((strName, typeOfOP nOP, vchValue), s₃) := by
    rw [readInstruction, hName]
    show (do
      let (nOP, s) ← s₁.extract UInt8
      let (vchValue, s) ← readValue (typeOfOP nOP) s
      return ((strName, typeOfOP nOP, vchValue), s)) = _
    rw [hType]
    show (do
      let (vchValue, s) ← readValue (typeOfOP nOP) s₂
      return ((strName, typeOfOP nOP, vchValue), s)) = _
    rw [hPatch.read]
    rfl
  have hParsed : object'.Parsed es := by
    rw [hPatch.patch]
    exact h.patch hPatch.mem hPatch.next hPatch.length
  have hLength : object'.state.vchState.length = object.state.vchState.length := by
    rw [hPatch.patch]
    exact (SameFields.patch h hPatch.mem hPatch.next hPatch.length).length
  have hRooms := hRest hParsed
  refine ⟨hRooms.parsed, ?_, hRooms.length.trans hLength, fun F hF => ?_⟩
  · rw [hRooms.state, hPatch.patch]
    rfl
  · rcases hRooms.rooms F hF with hSame | ⟨hMutable, hFree, hNext, hGives⟩
    · by_cases hField : F.name = E.name
      · -- the instruction wrote this field
        obtain rfl := h.entries.name_inj hF hPatch.mem hField
        have hRoom : room object'' F = vchValue := by
          rw [hSame, hPatch.patch]
          exact Object.Parsed.patch_room hPatch.next hPatch.length
        refine .inr ⟨hPatch.fMutable, ?_, hPatch.next, ?_⟩
        · rw [hPatch.name]
          exact hReserved
        · rw [hRoom, hPatch.name, hPatch.type]
          exact .here hRead
      · left
        rw [hSame, hPatch.patch]
        exact h.patch_other hPatch.mem hF hField hPatch.next hPatch.length
    · exact .inr ⟨hMutable, hFree, by rw [← hLength]; exact hNext, .later hRead hGives⟩

/-- The loop over the stream. -/
theorem writeFields_rooms {n : Nat} {setValues : List (List UInt8)} (h : object.Parsed es)
    (hWrite : Write.writeFields n s setValues object = .ok object') : Rooms es s object object' := by
  induction n generalizing s setValues object with
  | zero =>
      simp only [Write.writeFields, ite_eq_ok, Except.ok.injEq, reduceCtorEq, and_false,
        or_false] at hWrite
      rw [← hWrite.2]
      exact Rooms.refl h
  | succ n ih =>
      simp only [Write.writeFields, ite_eq_ok, Except.ok.injEq, bind_eq_ok, Prod.exists,
        reject_eq_ok, Bool.not_eq_true] at hWrite
      rcases hWrite with ⟨-, rfl⟩ | ⟨-, strName, s₁, hName, u, hReserved, v, -, nOP, s₂, hType,
        object₁, s₃, hWrites, hRest⟩
      · exact Rooms.refl h
      · obtain ⟨E, vchValue, hPatch⟩ := writeType_patches h hWrites
        exact Rooms.cons h hName hReserved hType hPatch fun hParsed => ih hParsed hRest

/-! ## The object before and after -/

/-- The value of a field is what is in its room. -/
theorem valueOf_entry (h : object.Parsed es) (hE : E ∈ es) (hName : E.name = strName) :
    valueOf object strName =
      ((Stream.mk object.state.vchState E.nValue).read E.nSize).map fun p => (E.nType, p.1) := by
  have hFind := h.find_iff.mpr ⟨E, hE, hName, rfl, rfl, rfl⟩
  obtain ⟨q, -, hAt⟩ := h.entries.at_mem hE
  rw [valueOf, hFind]
  show (do
    let (nSize, s) ← valueSpan E.nType ⟨object.state.vchState, E.nPos + 1⟩
    let (vchValue, _) ← s.read nSize
    return (E.nType, vchValue)) = _
  rw [hAt.span]
  show (do
    let (vchValue, _) ← (Stream.mk object.state.vchState E.nValue).read E.nSize
    return (E.nType, vchValue)) = _
  cases (Stream.mk object.state.vchState E.nValue).read E.nSize <;> rfl

/-- A field whose room is the same has the same value. -/
theorem valueOf_congr (h : object.Parsed es) (hRooms : Rooms es s object object')
    (hSame : ∀ E ∈ es, E.name = strName → room object' E = room object E) :
    valueOf object' strName = valueOf object strName := by
  rcases find_cases h hRooms.parsed strName with ⟨e, hFind, hFind'⟩ | ⟨E, hE, hName, -, -⟩
  · rw [valueOf, hFind', valueOf, hFind]
  · have hRead := read_congr hRooms.length (hSame E hE hName)
    rw [valueOf_entry hRooms.parsed hE hName, valueOf_entry h hE hName]
    have hMap (x : Result (List UInt8 × Stream)) :
        (x.map fun p => (E.nType, p.1)) = (x.map Prod.fst).map fun vch => (E.nType, vch) := by
      cases x <;> rfl
    rw [hMap, hMap, hRead]

theorem fieldType_congr (h : object.Parsed es) (h' : object'.Parsed es) :
    Condition.fieldType object' strName = Condition.fieldType object strName := by
  rcases find_cases h h' strName with ⟨e, hFind, hFind'⟩ | ⟨E, hE, hName, hFind, hFind'⟩
  · rw [Condition.fieldType, hFind', Condition.fieldType, hFind]
  · rw [Condition.fieldType, hFind', Condition.fieldType, hFind]
    rfl

/-- What went to the rooms is what a write promises. -/
theorem applied_of_rooms (h : object.Parsed es) (hRooms : Rooms es ⟨vchData, 0⟩ object object') :
    Applied vchData object object' := by
  refine ⟨h.mapData_congr hRooms.parsed, fun strName => fieldType_congr h hRooms.parsed,
    fun strName hReserved => ?_, fun strName hMutable => ?_, fun strName => ?_⟩
  · refine valueOf_congr h hRooms fun E hE hName => ?_
    rcases hRooms.rooms E hE with hSame | ⟨-, hFree, -, -⟩
    · exact hSame
    · have hContains : Write.Reserved strName = true := by
        rw [Write.Reserved, List.contains_iff_mem]
        exact hReserved
      rw [hName, hContains] at hFree
      cases hFree
  · refine valueOf_congr h hRooms fun E hE hName => ?_
    rcases hRooms.rooms E hE with hSame | ⟨hTrue, -, -, -⟩
    · exact hSame
    · exact absurd ⟨_, h.lookup_iff.mpr ⟨E, hE, hName, rfl⟩, hTrue⟩ hMutable
  · by_cases hEntry : ∃ E ∈ es, E.name = strName ∧ room object' E ≠ room object E
    · obtain ⟨E, hE, hName, hNe⟩ := hEntry
      obtain ⟨-, -, hNext, hGives⟩ := (hRooms.rooms E hE).resolve_left hNe
      refine .inr ⟨E.nType, room object' E, hName ▸ hGives, ?_⟩
      rw [valueOf_entry hRooms.parsed hE hName]
      have hRead : (Stream.mk object'.state.vchState E.nValue).read E.nSize =
          .ok (room object' E, ⟨object'.state.vchState, E.nValue + E.nSize⟩) := by
        refine Stream.read_eq_ok.mpr ⟨?_, rfl, rfl⟩
        show E.nValue + E.nSize ≤ object'.state.vchState.length
        rw [hRooms.length]
        exact hNext
      rw [hRead]
      rfl
    · left
      refine valueOf_congr h hRooms fun E hE hName => ?_
      apply Classical.byContradiction
      intro hNe
      exact hEntry ⟨E, hE, hName, hNe⟩

/-- The time and the checksum are not part of the object. -/
theorem Applied.congr (h : Applied vchData object object')
    (hVch : object''.state.vchState = object'.state.vchState) (hMap : object''.mapData = object'.mapData) :
    Applied vchData object object'' := by
  have hFind : ∀ strName, object''.find strName = object'.find strName := by
    intro strName
    simp only [Object.find, Object.stream, hMap, hVch]
  have hValue : ∀ strName, valueOf object'' strName = valueOf object' strName := by
    intro strName
    rw [valueOf, hFind, valueOf]
  refine ⟨hMap.trans h.mapData, fun strName => ?_, fun strName hReserved => ?_,
    fun strName hMutable => ?_, fun strName => ?_⟩
  · rw [← h.types strName, Condition.fieldType, hFind, Condition.fieldType]
  · rw [hValue, h.reserved strName hReserved]
  · rw [hValue, h.immutable strName hMutable]
  · rw [hValue]
    exact h.given strName

/-- The instructions of a stream that was run to its end were applied. -/
theorem executeObject_applied (hSize : state.vchState.length ≤ 2 ^ 16)
    (h : Write.executeObject rt state vchData = .ok after) :
    AppliedTo vchData state ({ after with nModified := nTimestamp }.SetChecksum rt) := by
  simp only [Write.executeObject, bind_eq_ok, orError_eq_ok, pure_eq_ok] at h
  obtain ⟨object, hParse, object', hWrite, rfl⟩ := h
  obtain ⟨rfl, es, hes⟩ := Object.parsed_of_parse hParse hSize
  have hRooms := writeFields_rooms hes hWrite
  have hKind := (Object.parse_iff.mp hParse).1
  have hFinal : Object.Parsed ⟨{ object.state.SetState rt object'.state.vchState with
      nModified := nTimestamp }.SetChecksum rt, es.map Entry.toPair⟩ es :=
    ⟨hRooms.parsed.entries, rfl, hRooms.parsed.size⟩
  refine ⟨object, _, hParse, hFinal.parse hKind, ?_⟩
  exact (applied_of_rooms hes hRooms).congr rfl (hFinal.mapData.trans hRooms.parsed.mapData.symm)

/-! ## The call -/

theorem stateAfter_object (hObject : state.nType = REGISTER.OBJECT) :
    (∃ written, Write.executeObject rt state vchData = .ok written ∧
        stateAfter rt state vchData nTimestamp =
          { written with nModified := nTimestamp }.SetChecksum rt ∧
        Write.Execute rt state vchData nTimestamp =
          finish rt "post-state is in invalid state" written nTimestamp) ∨
      (stateAfter rt state vchData nTimestamp = state ∧
        ∃ e, Write.Execute rt state vchData nTimestamp = .error e) := by
  unfold stateAfter Write.Execute
  rw [if_pos hObject]
  cases h : Write.executeObject rt state vchData with
  | ok written => exact .inl ⟨written, rfl, rfl, rfl⟩
  | error e => exact .inr ⟨rfl, e, rfl⟩

theorem write_protected (rt : Runtime) (hObject : state.nType = REGISTER.OBJECT)
    (hSize : state.vchState.length ≤ 2 ^ 16) (vchData : List UInt8) (nTimestamp : UInt64) :
    (∀ after, Write.Execute rt state vchData nTimestamp = .ok after →
      after = stateAfter rt state vchData nTimestamp ∧ AppliedTo vchData state after) ∧
    ∀ e, Write.Execute rt state vchData nTimestamp = .error e →
      stateAfter rt state vchData nTimestamp = state ∨
        ((stateAfter rt state vchData nTimestamp).IsValid rt = false ∧
          AppliedTo vchData state (stateAfter rt state vchData nTimestamp)) := by
  rcases stateAfter_object hObject with ⟨written, hRun, hAfter, hExecute⟩ | ⟨hAfter, e, hError⟩
  · have hApplied : AppliedTo vchData state (stateAfter rt state vchData nTimestamp) := by
      rw [hAfter]
      exact executeObject_applied hSize hRun
    constructor
    · intro after hOk
      rw [hExecute, finish_eq_ok, ← hAfter] at hOk
      rw [hOk.1]
      exact ⟨rfl, hApplied⟩
    · intro e hError
      refine .inr ⟨?_, hApplied⟩
      -- a valid state would have been returned
      apply Bool.eq_false_iff.mpr
      intro hValid
      rw [hExecute, finish_eq_ok.mpr ⟨hAfter, hValid⟩] at hError
      cases hError
  · constructor
    · intro after hOk
      rw [hError] at hOk
      cases hOk
    · intro e' hError'
      exact .inl hAfter

/-! ## A note -/

/-- An instruction to write a text. -/
def writeText (strText : String) : List UInt8 :=
  serializeBytes (bytesOf "text") ++ [OP.TYPES.STRING] ++ serializeBytes (bytesOf strText)

theorem write_protected_text :
    ∃ after, Write.Execute exampleRuntime noteObject.state (writeText "xyz") 30 = .ok after ∧
      AppliedTo (writeText "xyz") noteObject.state after := by
  have hObject : noteObject.state.nType = REGISTER.OBJECT := by decide
  have hLaw := write_protected exampleRuntime hObject (by decide +kernel) (writeText "xyz") 30
  cases h : Write.Execute exampleRuntime noteObject.state (writeText "xyz") 30 with
  | ok after => exact ⟨after, rfl, (hLaw.1 after h).2⟩
  | error e =>
      have hOk : (Write.Execute exampleRuntime noteObject.state (writeText "xyz") 30).toOption.isSome =
          true := by
        decide +kernel
      rw [h] at hOk
      cases hOk

/-- A write at a time that is not yet allowed fails with the text in the state. -/
theorem write_invalid :
    Write.Execute exampleRuntime noteObject.state (writeText "xyz") 1000000000 =
        .error (.error "post-state is in invalid state") ∧
      stateAfter exampleRuntime noteObject.state (writeText "xyz") 1000000000 ≠ noteObject.state := by
  constructor
  · decide +kernel
  · decide +kernel

end Nexus.Safety
