import Nexus.Register.Address

/-!
# Object registers

The data of an object register is a sequence of named fields: a name, an
optional `MUTABLE` marker, a type byte and a value.  `Parse` records where the
type byte of every field is and whether the field is mutable; values are only
stepped over, without a bound check.  Reads and writes then go through the
recorded positions.

The kind of an object (`Standard`) is decided by the names, types and
mutability of its fields alone.
-/

namespace Nexus.Register

open Nexus.Lib.Bytes
open Nexus.Lib.Checked
open Nexus.Util

namespace TYPES

def UNSUPPORTED : UInt8 := 0x00
def UINT8_T : UInt8 := 0x01
def UINT16_T : UInt8 := 0x02
def UINT32_T : UInt8 := 0x03
def UINT64_T : UInt8 := 0x04
def UINT256_T : UInt8 := 0x05
def UINT512_T : UInt8 := 0x06
def UINT1024_T : UInt8 := 0x07
def STRING : UInt8 := 0x08
def BYTES : UInt8 := 0x09
def MUTABLE : UInt8 := 0xff

end TYPES

/-- The standard kinds of object registers. -/
inductive OBJECTS where
  | NONSTANDARD
  | ACCOUNT
  | TOKEN
  | TRUST
  | NAME
  | NAMESPACE
  | CRYPTO
  deriving DecidableEq, Repr

/-- Size of a value of a fixed-width type. -/
def fixedSize (nType : UInt8) : Option Nat :=
  if nType = TYPES.UINT8_T then some 1
  else if nType = TYPES.UINT16_T then some 2
  else if nType = TYPES.UINT32_T then some 4
  else if nType = TYPES.UINT64_T then some 8
  else if nType = TYPES.UINT256_T then some 32
  else if nType = TYPES.UINT512_T then some 64
  else if nType = TYPES.UINT1024_T then some 128
  else none

/-- Fixed-width types a field can have, with their type byte (`Object::type`). -/
class FieldType (α : Type) extends FixedWidth α where
  type : UInt8
  size : fixedSize type = some (FixedWidth.width α)

instance : FieldType UInt8 := { type := TYPES.UINT8_T, size := rfl }
instance : FieldType UInt16 := { type := TYPES.UINT16_T, size := rfl }
instance : FieldType UInt32 := { type := TYPES.UINT32_T, size := rfl }
instance : FieldType UInt64 := { type := TYPES.UINT64_T, size := rfl }
instance : FieldType Uint256 := { type := TYPES.UINT256_T, size := rfl }
instance : FieldType Uint512 := { type := TYPES.UINT512_T, size := rfl }
instance : FieldType Uint1024 := { type := TYPES.UINT1024_T, size := rfl }

/-- Where a field is: the offset of its type byte, kept in 16 bits, and whether it
is mutable. -/
structure Field where
  nPos : Nat
  fMutable : Bool
  deriving DecidableEq, Repr

/-- The fields of a parsed object by name. -/
abbrev DataMap := List (List UInt8 × Field)

structure Object where
  state : State
  mapData : DataMap := []
  deriving DecidableEq, Repr

/-! ## Parsing -/

/-- The type byte of a field and its mutability. -/
def extractType (s : Stream) : Result ((UInt8 × Bool) × Stream) := do
  let (nType, s) ← s.extract UInt8
  if nType = TYPES.MUTABLE then
    (s.extract UInt8).map fun (nType, s) => ((nType, true), s)
  else
    .ok ((nType, false), s)

/-- The size of a value, and the cursor at its first byte. -/
def valueSpan (nType : UInt8) (s : Stream) : Result (Nat × Stream) :=
  match fixedSize nType with
  | some nSize => .ok (nSize, s)
  | none =>
      if nType = TYPES.STRING ∨ nType = TYPES.BYTES then s.readCompactSize
      else .error (.error "malformed object register (unexpected type )")

/-- The loop of `Parse`.  Every turn consumes at least two bytes, so the length of
the data bounds the number of turns. -/
def parseFields : Nat → Stream → DataMap → Result DataMap
  | 0, s, mapData =>
      if s.size ≤ s.nReadPos then .ok mapData else .error (.error "object is not parsed")
  | n + 1, s, mapData =>
      if s.size ≤ s.nReadPos then .ok mapData
      else do
        let (name, s) ← s.extractBytes
        reject (mapData.lookup name).isSome (.error "duplicate value entries")
        let ((nType, fMutable), s) ← extractType s
        let field : Field := ⟨(s.nReadPos - 1) % 2 ^ 16, fMutable⟩
        let (nSize, s) ← valueSpan nType s
        parseFields n (s.advance nSize) (mapData ++ [(name, field)])

namespace Object

/-- A stream over the data, at a position. -/
def stream (object : Object) (nPos : Nat) : Stream := ⟨object.state.vchState, nPos⟩

def Parse (object : Object) : Result Object := do
  reject (object.mapData ≠ []) (.error "object is already parsed")
  reject (object.state.nType ≠ REGISTER.OBJECT ∧ object.state.nType ≠ REGISTER.SYSTEM)
    (.error "")
  let mapData ← parseFields object.state.vchState.length (object.stream 0) []
  return { object with mapData }

/-- `Check`: the field exists with this type and mutability.  The recorded position
of a field is inside the data, so reading the type byte does not throw. -/
def Check (object : Object) (strName : List UInt8) (nType : UInt8) (fMutable : Bool) : Bool :=
  match object.mapData.lookup strName with
  | some field => object.state.vchState[field.nPos]? == some nType && field.fMutable == fMutable
  | none => false

/-- `CheckName`: the field exists. -/
def CheckName (object : Object) (strName : List UInt8) : Bool :=
  (object.mapData.lookup strName).isSome

/-- The names of the nine keys of a crypto object. -/
def cryptoNames : List (List UInt8) :=
  ["auth", "lisp", "network", "sign", "verify", "cert", "app1", "app2", "app3"].map bytesOf

def Standard (object : Object) : OBJECTS :=
  if object.mapData.length = 1 ∧ object.Check (bytesOf "namespace") TYPES.STRING false then
    .NAMESPACE
  else if object.mapData.length = 9 ∧
      cryptoNames.all fun strName => object.Check strName TYPES.UINT256_T true then
    .CRYPTO
  else if object.mapData.length = 3 ∧ object.Check (bytesOf "namespace") TYPES.STRING false ∧
      object.Check (bytesOf "name") TYPES.STRING false ∧
      object.CheckName (bytesOf "address") then
    .NAME
  else if object.Check (bytesOf "token") TYPES.UINT256_T false ∧
      object.Check (bytesOf "balance") TYPES.UINT64_T true then
    if object.Check (bytesOf "supply") TYPES.UINT64_T false ∧
        object.Check (bytesOf "decimals") TYPES.UINT8_T false then
      .TOKEN
    else if object.Check (bytesOf "trust") TYPES.UINT64_T true ∧
        object.Check (bytesOf "stake") TYPES.UINT64_T true then
      .TRUST
    else .ACCOUNT
  else .NONSTANDARD

def Base (object : Object) : OBJECTS :=
  if object.Check (bytesOf "token") TYPES.UINT256_T false ∧
      object.Check (bytesOf "balance") TYPES.UINT64_T true then
    .ACCOUNT
  else if object.Check (bytesOf "namespace") TYPES.STRING false then .NAMESPACE
  else .NONSTANDARD

/-! ## Reading and writing fields -/

/-- The position of a field's value after the type byte was read. -/
def find (object : Object) (strName : List UInt8) : Result (Field × UInt8 × Stream) := do
  reject (object.mapData = []) (.error "object is not parsed")
  let field ← demand (object.mapData.lookup strName) (.error "")
  let (nType, s) ← (object.stream field.nPos).extract UInt8
  return (field, nType, s)

def Read (α : Type) [FieldType α] (object : Object) (strName : List UInt8) : Result α := do
  let (_, nType, s) ← object.find strName
  reject (nType = TYPES.UNSUPPORTED) (.error "unsupported type")
  reject (FieldType.type α ≠ nType) (.error "type mismatch")
  let (value, _) ← s.extract α
  return value

/-- `Read` of a string (`STRING`) or a byte vector (`BYTES`). -/
def ReadBytes (object : Object) (nTypeIn : UInt8) (strName : List UInt8) :
    Result (List UInt8) := do
  let (_, nType, s) ← object.find strName
  reject (nType = TYPES.UNSUPPORTED) (.error "unsupported type")
  reject (nTypeIn ≠ nType) (.error "type mismatch")
  let (value, _) ← s.extractBytes
  return value

/-- A failed `Read` inside `get` becomes an exception. -/
def orThrow {α : Type} : Result α → Result α
  | .error (.error _) => .error (.exception "member access read failed")
  | x => x

/-- `get<Type>`. -/
def get (α : Type) [FieldType α] (object : Object) (strName : List UInt8) : Result α :=
  orThrow (object.Read α strName)

/-- `get<std::string>`. -/
def getString (object : Object) (strName : List UInt8) : Result (List UInt8) :=
  orThrow (object.ReadBytes TYPES.STRING strName)

/-- Overwrite the data from a position on. -/
def patch (object : Object) (nPos : Nat) (vchData : List UInt8) : Object :=
  { object with state.vchState := overwrite object.state.vchState nPos vchData }

def Write {α : Type} [FieldType α] (object : Object) (strName : List UInt8) (value : α) :
    Result Object := do
  let (field, nType, s) ← object.find strName
  reject (!field.fMutable) (.error "cannot set value for READONLY data member")
  reject (nType = TYPES.UNSUPPORTED) (.error "unsupported type")
  reject (FieldType.type α ≠ nType) (.error "type mismatch")
  reject (object.state.vchState.length < s.nReadPos + FixedWidth.width α)
    (.error "performing an over-write")
  return object.patch s.nReadPos (FixedWidth.encode value)

/-- `Write` of a string (`STRING`) or a byte vector (`BYTES`). -/
def WriteBytes (object : Object) (nTypeIn : UInt8) (strName : List UInt8)
    (vchData : List UInt8) : Result Object := do
  let (field, nType, s) ← object.find strName
  reject (!field.fMutable) (.error "cannot set value for READONLY data member")
  reject (nType ≠ nTypeIn)
    (.error (if nTypeIn = TYPES.STRING then "type must be string" else "type must be bytes"))
  let (nSize, s) ← s.readCompactSize
  reject (nSize ≠ vchData.length)
    (.error (if nTypeIn = TYPES.STRING then "string size mismatch" else "bytes size mismatch"))
  reject (object.state.vchState.length < s.nReadPos + nSize) (.error "performing an over-write")
  return object.patch s.nReadPos vchData

/-! ## Fees -/

def NXS_COIN : UInt64 := 1000000
def NAME_FEE : UInt64 := 1 * NXS_COIN
def GLOBAL_NAME_FEE : UInt64 := 2000 * NXS_COIN
def NAMESPACE_FEE : UInt64 := 1000 * NXS_COIN
def TOKEN_FEE : UInt64 := 100 * NXS_COIN
def MIN_TOKEN_FEE : UInt64 := 1 * NXS_COIN
def ACCOUNT_FEE : UInt64 := 0 * NXS_COIN
def CRYPTO_FEE : UInt64 := 1 * NXS_COIN
def MIN_DATA_FEE : UInt64 := 1 * NXS_COIN
/-- `0.01 * NXS_COIN`. -/
def DATA_FEE_V1 : UInt64 := 10000
/-- `0.001 * NXS_COIN`. -/
def DATA_FEE : UInt64 := 1000

/-- The namespace of global names. -/
def NAMESPACE.GLOBAL : List UInt8 := bytesOf "~GLOBAL~"

/-- The fee of a token, by the number of digits of its supply. -/
def tokenCost (rt : Runtime) (nSupply : UInt64) : UInt64 :=
  let nBase := rt.log10 nSupply
  (max MIN_TOKEN_FEE.toInt64
    ((max 0 (nBase - 2).toInt64).toUInt64 * TOKEN_FEE).toInt64).toUInt64

/-- `Cost`: the fee of creating the object.  Version 2 is the current transaction
version. -/
def Cost (rt : Runtime) (object : Object) : Result UInt64 := do
  reject (object.mapData = []) (.exception "cannot get cost when object isn't parsed")
  match object.Standard with
  | .TOKEN => (object.get UInt64 (bytesOf "supply")).map (tokenCost rt)
  | .NAME =>
      (object.getString (bytesOf "namespace")).map fun strNamespace =>
        if strNamespace = NAMESPACE.GLOBAL then GLOBAL_NAME_FEE else NAME_FEE
  | .NAMESPACE => .ok NAMESPACE_FEE
  | .ACCOUNT => .ok ACCOUNT_FEE
  | .TRUST => .ok ACCOUNT_FEE
  | .CRYPTO => .ok CRYPTO_FEE
  | .NONSTANDARD =>
      let nSize := UInt64.ofNat object.state.vchState.length
      if rt.transactionVersionActive object.state.nCreated 2 then
        .ok (max MIN_DATA_FEE (nSize * DATA_FEE))
      else .ok (max MIN_DATA_FEE (nSize * DATA_FEE_V1))

end Object

end Nexus.Register
