import Mathlib.Data.List.TakeWhile
import Nexus.LLC.BigNum

/-!
# Base 58

`encoding::EncodeBase58` and `DecodeBase58`: the bytes as one big number in the
digits of `pszBase58`, with a digit `1` for each leading zero byte.  A `const char*`
is the list of its characters before the terminating NUL.
-/

namespace Nexus.Util.encoding

open Nexus.Lib.Bytes
open Nexus.LLC

/-- What a `const char*` points at: the characters before the first NUL. -/
structure CString where
  chars : List Char
  noNul : '\x00' ∉ chars
  deriving DecidableEq

/-- `str.c_str()` -/
def c_str (str : List Char) : CString where
  chars := str.takeWhile (· ≠ '\x00')
  noNul := by
    intro h
    simpa using List.mem_takeWhile_imp h

/-- The digits of base 58. -/
def pszBase58 : List Char := "123456789ABCDEFGHJKLMNPQRSTUVWXYZabcdefghijkmnopqrstuvwxyz".toList

/-- `isspace` -/
def isspace (c : Char) : Bool := c = ' ' || ('\t' ≤ c && c ≤ '\r')

/-- `while(bn > bn0)`: the digits of a number, the least significant first. -/
def divisions (bn : Nat) : List Char :=
  if bn = 0 then [] else pszBase58.getD (bn % 58) '1' :: divisions (bn / 58)
  termination_by bn
  decreasing_by omega

/-- `EncodeBase58` -/
def EncodeBase58 (vch : List UInt8) : List Char :=
  -- the zero at the end makes the number positive
  let bn := CBigNum.setvch (vch.reverse ++ [0])
  let str := divisions bn.toNat ++ List.replicate (vch.takeWhile (· = 0)).length '1'
  str.reverse

/-- The loop of `DecodeBase58` over the characters from `p` on. -/
def decodeLoop : List Char → Nat → Option Nat
  | [], bn => some bn
  | c :: p, bn =>
    match pszBase58.idxOf? c with
    | none => if (c :: p).dropWhile isspace = [] then some bn else none
    | some p1 => decodeLoop p (bn * 58 + p1)

/-- The sign byte of `getvch`, where there is one, is cut off. -/
def trimSign (vchTmp : List UInt8) : List UInt8 :=
  if 2 ≤ vchTmp.length ∧ vchTmp.getLast? = some 0 ∧ 0x80 ≤ vchTmp.dropLast.getLastD 0 then
    vchTmp.dropLast
  else vchTmp

/-- `DecodeBase58(const char*)` -/
def DecodeBase58 (psz : CString) : Option (List UInt8) :=
  let psz := psz.chars.dropWhile isspace
  match decodeLoop psz 0 with
  | none => none
  | some bn =>
    let vchTmp := trimSign (CBigNum.getvch bn)
    let nLeadingZeros := (psz.takeWhile (· = '1')).length
    some (List.replicate nLeadingZeros 0 ++ vchTmp.reverse)

/-- `DecodeBase58(const std::string&)` -/
def DecodeBase58String (str : List Char) : Option (List UInt8) := DecodeBase58 (c_str str)

section Check

-- the 32 bytes of the hash of some bytes
variable (SK256 : List UInt8 → Vector UInt8 32)

/-- The four bytes that are appended to `vch`. -/
def checksum (vch : List UInt8) : List UInt8 := (SK256 vch).toList.take 4

/-- `EncodeBase58Check` -/
def EncodeBase58Check (vchIn : List UInt8) : List Char :=
  EncodeBase58 (vchIn ++ checksum SK256 vchIn)

/-- `DecodeBase58Check` -/
def DecodeBase58Check (psz : CString) : Option (List UInt8) :=
  match DecodeBase58 psz with
  | none => none
  | some vchRet =>
    if vchRet.length < 4 then none
    else if checksum SK256 (vchRet.take (vchRet.length - 4)) ≠ vchRet.drop (vchRet.length - 4) then none
    else some (vchRet.take (vchRet.length - 4))

end Check

end Nexus.Util.encoding
