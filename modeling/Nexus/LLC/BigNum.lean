import Mathlib.Data.Nat.Digits.Defs
import Nexus.Lib.Bytes

/-!
# Big numbers

`CBigNum` holds an integer of any size, with the exact arithmetic of OpenSSL.  Its
byte form is little-endian with the sign in the highest bit: a magnitude that has
this bit set gets one byte more.
-/

namespace Nexus.LLC.CBigNum

open Nexus.Lib.Bytes

/-- `setvch`: the highest bit of the last byte is the sign. -/
def setvch (vch : List UInt8) : Int :=
  match vch.getLast? with
  | none => 0
  | some top =>
    if 0x80 ≤ top then -(leNat (vch.dropLast ++ [top - 0x80]) : Int) else (leNat vch : Int)

/-- The bytes of a magnitude, least significant first, without leading zeros. -/
def magnitude (n : Nat) : List UInt8 := (Nat.digits 256 n).map UInt8.ofNat

/-- `getvch`. -/
def getvch (n : Int) : List UInt8 :=
  let vch := magnitude n.natAbs
  match vch.getLast? with
  | none => []
  | some top =>
    if 0x80 ≤ top then vch ++ [if n < 0 then 0x80 else 0]
    else if n < 0 then vch.dropLast ++ [top + 0x80] else vch

/-- `getint32`, cut off at the limits of the type. -/
def getint32 (n : Int) : Int :=
  if 0 ≤ n then
    if n % 2 ^ 32 > 2 ^ 31 - 1 then 2 ^ 31 - 1 else n % 2 ^ 32
  else if -n % 2 ^ 32 > 2 ^ 31 - 1 then -2 ^ 31 else -(-n % 2 ^ 32)

end Nexus.LLC.CBigNum
