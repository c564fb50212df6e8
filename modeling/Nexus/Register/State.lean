import Nexus.Util.Runtime

/-!
# Register states

A state register: version, type, owner, times, data and checksum.  Its hash
covers every field but the checksum, and equality of states (`operator==`) is
equality of hashes, so two states that compare equal can still differ in the
checksum they carry.

The file also has the round trip of a state through a stream.
-/

namespace Nexus.Register

open Nexus.Lib.Bytes
open Nexus.Lib.Checked
open Nexus.Util

/-! ## Register types and state markers -/

namespace REGISTER

def READONLY : UInt8 := 0x01
def APPEND : UInt8 := 0x02
def RAW : UInt8 := 0x03
def OBJECT : UInt8 := 0x04
def SYSTEM : UInt8 := 0x05

end REGISTER

namespace STATES

def PRESTATE : UInt8 := 0x01
def POSTSTATE : UInt8 := 0x02

end STATES

/-- Maximum register size, 1 KB. -/
def MAX_REGISTER_SIZE : Nat := 1024

/-- A register type a contract may create. -/
def Range (nType : UInt8) : Bool := 0 < nType && nType < REGISTER.SYSTEM

structure State where
  nVersion : UInt8 := 0
  nType : UInt8 := 0
  hashOwner : Uint256 := 0
  nCreated : UInt64 := 0
  nModified : UInt64 := 0
  vchState : List UInt8 := []
  hashChecksum : UInt64 := 0
  deriving DecidableEq, Repr

namespace State

/-- The serialized fields under `SER_GETHASH`, where the checksum is left out. -/
def hashBytes (state : State) : List UInt8 :=
  FixedWidth.encode state.nVersion ++ FixedWidth.encode state.nType ++
    FixedWidth.encode state.hashOwner ++ FixedWidth.encode state.nCreated ++
    FixedWidth.encode state.nModified ++ serializeBytes state.vchState

/-- The serialized state. -/
def serialize (state : State) : List UInt8 :=
  state.hashBytes ++ FixedWidth.encode state.hashChecksum

def GetHash (rt : Runtime) (state : State) : UInt64 := rt.SK64 state.hashBytes

def SetChecksum (rt : Runtime) (state : State) : State :=
  { state with hashChecksum := state.GetHash rt }

/-- A state register with no data and no checksum. -/
def IsNull (state : State) : Bool := state.vchState.isEmpty && state.hashChecksum == 0

/-- `operator==`. -/
def Equal (rt : Runtime) (state state' : State) : Bool :=
  state.GetHash rt == state'.GetHash rt

def IsValid (rt : Runtime) (state : State) : Bool :=
  !state.IsNull
    && state.GetHash rt == state.hashChecksum
    && state.nCreated ≤ rt.unifiedtimestamp + rt.maxdrift
    && state.nModified ≤ rt.unifiedtimestamp + rt.maxdrift
    && state.nVersion == 1
    && !(state.nType == REGISTER.SYSTEM && state.hashOwner != 0)

def SetState (rt : Runtime) (state : State) (vchStateIn : List UInt8) : State :=
  { state with vchState := vchStateIn }.SetChecksum rt

/-- Add data at the end of the state. -/
def Append (rt : Runtime) (state : State) (vchStateIn : List UInt8) : State :=
  { state with vchState := state.vchState ++ vchStateIn }.SetChecksum rt

end State

/-- `operator>>` for states. -/
def extractState (s : Stream) : Result (State × Stream) := do
  let (nVersion, s) ← s.extract UInt8
  let (nType, s) ← s.extract UInt8
  let (hashOwner, s) ← s.extract Uint256
  let (nCreated, s) ← s.extract UInt64
  let (nModified, s) ← s.extract UInt64
  let (vchState, s) ← s.extractBytes
  let (hashChecksum, s) ← s.extract UInt64
  return ({ nVersion, nType, hashOwner, nCreated, nModified, vchState, hashChecksum }, s)

/-! ## Checksums -/

namespace State

variable {rt : Runtime} {state state' : State}

@[simp] theorem hashBytes_SetChecksum : (state.SetChecksum rt).hashBytes = state.hashBytes := rfl

@[simp] theorem GetHash_SetChecksum : (state.SetChecksum rt).GetHash rt = state.GetHash rt := rfl

@[simp] theorem hashChecksum_SetChecksum :
    (state.SetChecksum rt).hashChecksum = state.GetHash rt := rfl

@[simp] theorem nType_SetChecksum : (state.SetChecksum rt).nType = state.nType := rfl

@[simp] theorem hashOwner_SetChecksum : (state.SetChecksum rt).hashOwner = state.hashOwner := rfl

@[simp] theorem vchState_SetChecksum : (state.SetChecksum rt).vchState = state.vchState := rfl

/-- A valid state carries the checksum of its other fields. -/
theorem IsValid.checksum (h : state.IsValid rt = true) :
    state.hashChecksum = state.GetHash rt := by
  simp only [IsValid, Bool.and_eq_true, beq_iff_eq] at h
  exact h.1.1.1.1.2.symm

theorem IsValid.version (h : state.IsValid rt = true) : state.nVersion = 1 := by
  simp only [IsValid, Bool.and_eq_true, beq_iff_eq] at h
  exact h.1.2

/-- A system register that is valid has no owner. -/
theorem IsValid.system (h : state.IsValid rt = true) (hOwner : state.hashOwner ≠ 0) :
    state.nType ≠ REGISTER.SYSTEM := by
  simp only [IsValid, Bool.and_eq_true, Bool.not_eq_true', Bool.and_eq_false_iff, beq_eq_false_iff_ne,
    bne_eq_false_iff_eq] at h
  exact h.2.resolve_right hOwner

/-- The hashed bytes determine every field but the checksum. -/
theorem hashBytes_inj (h : state.hashBytes = state'.hashBytes) :
    state = { state' with hashChecksum := state.hashChecksum } := by
  obtain ⟨nVersion, nType, hashOwner, nCreated, nModified, vchState, nChecksum⟩ := state
  obtain ⟨nVersion', nType', hashOwner', nCreated', nModified', vchState', nChecksum'⟩ := state'
  simp only [State.hashBytes, List.append_assoc] at h
  obtain ⟨hVersion, h₁⟩ := List.append_inj h (by simp only [FixedWidth.encode_length])
  obtain ⟨hType, h₂⟩ := List.append_inj h₁ (by simp only [FixedWidth.encode_length])
  obtain ⟨hOwner, h₃⟩ := List.append_inj h₂ (by simp only [FixedWidth.encode_length])
  obtain ⟨hCreated, h₄⟩ := List.append_inj h₃ (by simp only [FixedWidth.encode_length])
  obtain ⟨hModified, hState⟩ := List.append_inj h₄ (by simp only [FixedWidth.encode_length])
  obtain rfl := FixedWidth.encode_inj hVersion
  obtain rfl := FixedWidth.encode_inj hType
  obtain rfl := FixedWidth.encode_inj hOwner
  obtain rfl := FixedWidth.encode_inj hCreated
  obtain rfl := FixedWidth.encode_inj hModified
  obtain rfl := serializeBytes_inj hState
  rfl

end State

/-! ## Round trip -/

/-- A serialized state at the cursor is read back. -/
theorem extractState_serialize {s : Stream} {state : State} {vchRest : List UInt8}
    (h0 : s.Fits 0) (hMax : state.vchState.length ≤ Stream.MAX_SIZE)
    (h : s.vchData.drop s.nReadPos = state.serialize ++ vchRest) :
    extractState s = .ok (state, s.advance state.serialize.length) := by
  simp only [State.serialize, State.hashBytes, List.append_assoc] at h
  obtain ⟨hVersion, h1, hDrop⟩ := Stream.extract_step h0 h
  obtain ⟨hType, h2, hDrop⟩ := Stream.extract_step h1 hDrop
  obtain ⟨hOwner, h3, hDrop⟩ := Stream.extract_step h2 hDrop
  obtain ⟨hCreated, h4, hDrop⟩ := Stream.extract_step h3 hDrop
  obtain ⟨hModified, h5, hDrop⟩ := Stream.extract_step h4 hDrop
  obtain ⟨hState, h6, hDrop⟩ := Stream.extractBytes_step h5 hMax hDrop
  obtain ⟨hChecksum, -, -⟩ := Stream.extract_step h6 hDrop
  simp only [extractState, hVersion, ok_bind, hType, hOwner, hCreated, hModified, hState,
    hChecksum]
  simp only [Stream.advance_advance, State.serialize, State.hashBytes, List.length_append,
    FixedWidth.encode_length]
  rfl

/-- A serialized state with data above the limit of a stream is not read back. -/
theorem extractState_too_large {s : Stream} {state : State} {vchRest : List UInt8}
    (h0 : s.Fits 0) (hMax : Stream.MAX_SIZE < state.vchState.length)
    (hWord : state.vchState.length < 2 ^ 64)
    (h : s.vchData.drop s.nReadPos = state.serialize ++ vchRest) :
    ∃ e, extractState s = .error e := by
  simp only [State.serialize, State.hashBytes, List.append_assoc] at h
  obtain ⟨hVersion, h1, hDrop⟩ := Stream.extract_step h0 h
  obtain ⟨hType, h2, hDrop⟩ := Stream.extract_step h1 hDrop
  obtain ⟨hOwner, h3, hDrop⟩ := Stream.extract_step h2 hDrop
  obtain ⟨hCreated, h4, hDrop⟩ := Stream.extract_step h3 hDrop
  obtain ⟨hModified, h5, hDrop⟩ := Stream.extract_step h4 hDrop
  rw [serializeBytes, List.append_assoc] at hDrop
  obtain ⟨e, hSize⟩ := exists_error_of_isOk (Stream.readCompactSize_too_large h5 hMax hWord hDrop)
  refine ⟨e, ?_⟩
  simp only [extractState, hVersion, ok_bind, hType, hOwner, hCreated, hModified,
    Stream.extractBytes, hSize, error_bind]

end Nexus.Register
