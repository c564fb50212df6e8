import Nexus.Register.State

/-!
# Register addresses

A register address is a 256-bit hash whose most significant byte is its type.
Object registers carry the type of their kind, so that a payment can tell an
account from another object by its address alone.
-/

namespace Nexus.Register

open Nexus.Lib.Bytes
open Nexus.Lib.Checked
open Nexus.Util

abbrev Address := Uint256

/-- `base_uint::GetType`: the most significant byte. -/
def GetType {w : Nat} (hash : BitVec w) : UInt8 := UInt8.ofNat (hash.toNat / 2 ^ (w - 8))

/-- `base_uint::SetType`: replace the most significant byte. -/
def SetType {w : Nat} (hash : BitVec w) (nType : UInt8) : BitVec w :=
  BitVec.ofNat w (hash.toNat % 2 ^ (w - 8) + nType.toNat * 2 ^ (w - 8))

namespace Address

def READONLY : UInt8 := 0xd1
def APPEND : UInt8 := 0xd2
def RAW : UInt8 := 0xd3
def OBJECT : UInt8 := 0xd4
def CRYPTO : UInt8 := 0xd5
def ACCOUNT : UInt8 := 0xd6
def TOKEN : UInt8 := 0xd7
def TRUST : UInt8 := 0xd8
def NAME : UInt8 := 0xd9
def NAMESPACE : UInt8 := 0xda
def WILDCARD : UInt8 := 0xff
def LEGACY : UInt8 := 0x2a
def LEGACY_TESTNET : UInt8 := 0x6f

/-- The address has a type byte in use. -/
def IsValid (hashAddress : Address) : Bool :=
  GetType hashAddress ∈ [LEGACY, LEGACY_TESTNET, READONLY, APPEND, RAW, OBJECT, CRYPTO, ACCOUNT,
    TOKEN, TRUST, NAME, NAMESPACE, WILDCARD]

def IsReadonly (hashAddress : Address) : Bool := GetType hashAddress == READONLY
def IsAppend (hashAddress : Address) : Bool := GetType hashAddress == APPEND
def IsRaw (hashAddress : Address) : Bool := GetType hashAddress == RAW
def IsObject (hashAddress : Address) : Bool := GetType hashAddress == OBJECT
def IsCrypto (hashAddress : Address) : Bool := GetType hashAddress == CRYPTO
def IsAccount (hashAddress : Address) : Bool := GetType hashAddress == ACCOUNT
def IsToken (hashAddress : Address) : Bool := GetType hashAddress == TOKEN
def IsTrust (hashAddress : Address) : Bool := GetType hashAddress == TRUST
def IsName (hashAddress : Address) : Bool := GetType hashAddress == NAME
def IsNamespace (hashAddress : Address) : Bool := GetType hashAddress == NAMESPACE
def IsWildcard (hashAddress : Address) : Bool := GetType hashAddress == WILDCARD

/-- The address of a namespace register, from its name. -/
def ofNamespace (rt : Runtime) (strName : List UInt8) : Address :=
  SetType (rt.SK256 strName) NAMESPACE

/-- The deterministic address of a trust, name or crypto register. -/
def ofKey (rt : Runtime) (strKey : List UInt8) (hashNamespace : Uint256) (nType : UInt8) :
    Address :=
  SetType (rt.SK256 (strKey ++ FixedWidth.encode hashNamespace)) nType

end Address

/-- The address that stands for any register. -/
def WILDCARD_ADDRESS : Address := BitVec.allOnes 256

/-- `Reserved(hashAddress)`: no valid type, or a system register. -/
def Reserved (hashAddress : Address) : Bool :=
  !Address.IsValid hashAddress || hashAddress.toNat ≤ 0xff

theorem GetType_SetType {w : Nat} (hw : 8 ≤ w) (hash : BitVec w) (nType : UInt8) :
    GetType (SetType hash nType) = nType := by
  have hPos : 0 < 2 ^ (w - 8) := Nat.two_pow_pos _
  have hLow : hash.toNat % 2 ^ (w - 8) < 2 ^ (w - 8) := Nat.mod_lt _ hPos
  have hType : nType.toNat + 1 ≤ 256 := nType.toNat_lt
  have hPow : 2 ^ w = 256 * 2 ^ (w - 8) := by
    rw [show (256 : Nat) = 2 ^ 8 by norm_num, ← pow_add]
    congr 1
    omega
  have hLt : hash.toNat % 2 ^ (w - 8) + nType.toNat * 2 ^ (w - 8) < 2 ^ w := by
    rw [hPow]
    nlinarith
  apply UInt8.toNat_inj.mp
  rw [GetType, SetType, BitVec.toNat_ofNat, Nat.mod_eq_of_lt hLt, UInt8.toNat_ofNat',
    Nat.add_mul_div_right _ _ hPos, Nat.div_eq_of_lt hLow, Nat.zero_add]
  omega

example : GetType WILDCARD_ADDRESS = Address.WILDCARD := by decide

end Nexus.Register
