import Mathlib.Data.List.Basic

/-!
# Base 64

`encoding::EncodeBase64` and `DecodeBase64`.  The strings are bytes, for the table of the digits is
read at a byte, and behind the end of a string is its NUL.
-/

namespace Nexus.Util.encoding

def pbase64 : List UInt8 :=
  "ABCDEFGHIJKLMNOPQRSTUVWXYZabcdefghijklmnopqrstuvwxyz0123456789+/".toList.map fun c =>
    UInt8.ofNat c.toNat

/-- `'='` -/
def PAD : UInt8 := 0x3d

/-- The loop of `EncodeBase64` and what follows it, with the bits that are left. -/
def encodeFrom : List UInt8 → Nat → Nat → List UInt8
  | [], mode, left =>
      if mode = 0 then [] else pbase64.getD left 0 :: PAD :: if mode = 1 then [PAD] else []
  | enc :: pch, mode, left =>
      match mode with
      | 0 => pbase64.getD (enc.toNat >>> 2) 0 :: encodeFrom pch 1 ((enc.toNat &&& 3) <<< 4)
      | 1 => pbase64.getD (left ||| enc.toNat >>> 4) 0 :: encodeFrom pch 2 ((enc.toNat &&& 15) <<< 2)
      | _ =>
          pbase64.getD (left ||| enc.toNat >>> 6) 0 :: pbase64.getD (enc.toNat &&& 63) 0 ::
            encodeFrom pch 0 left

def EncodeBase64 (pch : List UInt8) : List UInt8 := encodeFrom pch 0 0

def decode64_table : List Int :=
  [ -1, -1, -1, -1, -1, -1, -1, -1, -1, -1, -1, -1, -1, -1, -1, -1, -1, -1, -1, -1,
    -1, -1, -1, -1, -1, -1, -1, -1, -1, -1, -1, -1, -1, -1, -1, -1, -1, -1, -1, -1,
    -1, -1, -1, 62, -1, -1, -1, 63, 52, 53, 54, 55, 56, 57, 58, 59, 60, 61, -1, -1,
    -1, -1, -1, -1, -1,  0,  1,  2,  3,  4,  5,  6,  7,  8,  9, 10, 11, 12, 13, 14,
    15, 16, 17, 18, 19, 20, 21, 22, 23, 24, 25, -1, -1, -1, -1, -1, -1, 26, 27, 28,
    29, 30, 31, 32, 33, 34, 35, 36, 37, 38, 39, 40, 41, 42, 43, 44, 45, 46, 47, 48,
    49, 50, 51, -1, -1, -1, -1, -1, -1, -1, -1, -1, -1, -1, -1, -1, -1, -1, -1, -1,
    -1, -1, -1, -1, -1, -1, -1, -1, -1, -1, -1, -1, -1, -1, -1, -1, -1, -1, -1, -1,
    -1, -1, -1, -1, -1, -1, -1, -1, -1, -1, -1, -1, -1, -1, -1, -1, -1, -1, -1, -1,
    -1, -1, -1, -1, -1, -1, -1, -1, -1, -1, -1, -1, -1, -1, -1, -1, -1, -1, -1, -1,
    -1, -1, -1, -1, -1, -1, -1, -1, -1, -1, -1, -1, -1, -1, -1, -1, -1, -1, -1, -1,
    -1, -1, -1, -1, -1, -1, -1, -1, -1, -1, -1, -1, -1, -1, -1, -1, -1, -1, -1, -1,
    -1, -1, -1, -1, -1, -1, -1, -1, -1, -1, -1, -1, -1, -1, -1, -1 ]

/-- `decode64_table[(uint8_t)c]` -/
def decode64 (c : UInt8) : Int := decode64_table.getD c.toNat (-1)

/-- Where the loop of `DecodeBase64` ends. -/
structure Decoding where
  vchRet : List UInt8
  mode : Nat
  left : Nat
  p : List UInt8
  deriving DecidableEq, Repr

def Decoding.push (vch : UInt8) (state : Decoding) : Decoding :=
  { state with vchRet := vch :: state.vchRet }

/-- The loop of `DecodeBase64` from `p` on. -/
def decodeFrom : List UInt8 → Nat → Nat → Decoding
  | [], mode, left => { vchRet := [], mode, left, p := [] }
  | c :: p, mode, left =>
      if decode64 c = -1 then { vchRet := [], mode, left, p := c :: p }
      else
        let dec := (decode64 c).toNat
        match mode with
        | 0 => decodeFrom p 1 dec
        | 1 => (decodeFrom p 2 (dec &&& 15)).push (UInt8.ofNat (left <<< 2 ||| dec >>> 4))
        | 2 => (decodeFrom p 3 (dec &&& 3)).push (UInt8.ofNat (left <<< 4 ||| dec >>> 2))
        | _ => (decodeFrom p 0 left).push (UInt8.ofNat (left <<< 6 ||| dec))

/-- `*pfInvalid` -/
def Decoding.fInvalid (state : Decoding) : Bool :=
  match state.mode with
  | 0 => false
  | 1 => true
  | 2 =>
      state.left != 0 || state.p.getD 0 0 != PAD || state.p.getD 1 0 != PAD ||
        decode64 (state.p.getD 2 0) != -1
  | _ => state.left != 0 || state.p.getD 0 0 != PAD || decode64 (state.p.getD 1 0) != -1

/-- The bytes, and whether the string is invalid. -/
def DecodeBase64 (p : List UInt8) : List UInt8 × Bool :=
  ((decodeFrom p 0 0).vchRet, (decodeFrom p 0 0).fInvalid)

end Nexus.Util.encoding
