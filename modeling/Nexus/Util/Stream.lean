import Nexus.Lib.Bytes
import Nexus.Lib.Checked

/-!
# Byte streams

`BaseStream` is a byte vector with a read position.  Every read, seek and
rewind checks its bound and throws past the end, so a cursor of a stream is
never outside its data.

The file also fixes the two ways a call of the program ends without a result:
it returns `false` after logging an error, or it throws.

## Main results

* `extract_eq_ok`: what a fixed-width read returns and where it leaves the
  cursor, in terms of `peek` and `advance`.
* `rewind_advance`: rewinding what was read restores the cursor.
* `extractBytes_serialize`: a length-prefixed vector is read back as written.
-/

namespace Nexus.Util

open Nexus.Lib.Bytes
open Nexus.Lib.Checked

/-- How a call ends without a result. -/
inductive Fault where
  /-- `return debug::error(...)`, or a plain `return false`. -/
  | error (strMessage : String)
  /-- A thrown `std::exception`. -/
  | exception (strMessage : String)
  deriving DecidableEq, Repr

abbrev Result (α : Type) := Except Fault α

abbrev Uint256 := BitVec 256
abbrev Uint512 := BitVec 512
abbrev Uint576 := BitVec 576
abbrev Uint1024 := BitVec 1024

instance : FixedWidth Uint256 := FixedWidth.ofBitVec 256 32 rfl
instance : FixedWidth Uint512 := FixedWidth.ofBitVec 512 64 rfl
instance : FixedWidth Uint576 := FixedWidth.ofBitVec 576 72 rfl
instance : FixedWidth Uint1024 := FixedWidth.ofBitVec 1024 128 rfl

@[simp] theorem width_uint8 : FixedWidth.width UInt8 = 1 := rfl
@[simp] theorem width_uint16 : FixedWidth.width UInt16 = 2 := rfl
@[simp] theorem width_uint32 : FixedWidth.width UInt32 = 4 := rfl
@[simp] theorem width_uint64 : FixedWidth.width UInt64 = 8 := rfl
@[simp] theorem width_int64 : FixedWidth.width Int64 = 8 := rfl
@[simp] theorem width_uint256 : FixedWidth.width Uint256 = 32 := rfl
@[simp] theorem width_uint512 : FixedWidth.width Uint512 = 64 := rfl
@[simp] theorem width_uint576 : FixedWidth.width Uint576 = 72 := rfl

/-- The bytes of a `std::string` literal. -/
def bytesOf (str : String) : List UInt8 :=
  str.toList.map fun c => UInt8.ofNat c.toNat

/-- Byte vector with a read position. -/
structure Stream where
  vchData : List UInt8 := []
  nReadPos : Nat := 0
  deriving DecidableEq, Repr

namespace Stream

def size (s : Stream) : Nat := s.vchData.length

/-- The cursor is at the end of the data. -/
def atEnd (s : Stream) : Bool := s.nReadPos == s.size

def reset (s : Stream) : Stream := { s with nReadPos := 0 }

/-- A byte by position, without moving the cursor. -/
def get (s : Stream) (nPos : Nat) : Result UInt8 :=
  demand s.vchData[nPos]? (.exception "get out of bounds ")

/-- Move the cursor forward, with no check. -/
def advance (s : Stream) (n : Nat) : Stream := { s with nReadPos := s.nReadPos + n }

/-- The cursor can move `n` bytes forward. -/
def Fits (s : Stream) (n : Nat) : Prop := s.nReadPos + n ≤ s.size

instance (s : Stream) (n : Nat) : Decidable (s.Fits n) := by
  unfold Fits
  infer_instance

/-- `seek` from the cursor by a non-negative offset. -/
def seek (s : Stream) (nSeek : Nat) : Result Stream :=
  if s.Fits nSeek then .ok (s.advance nSeek) else .error (.exception "out of bounds ")

/-- `seek` from the cursor by a negative offset.  Past the beginning the unsigned
position wraps above every size and the seek throws. -/
def rewind (s : Stream) (nPos : Nat) : Result Stream :=
  if nPos ≤ s.nReadPos ∧ s.nReadPos - nPos ≤ s.size then
    .ok { s with nReadPos := s.nReadPos - nPos }
  else .error (.exception "out of bounds ")

/-- `seek` from the beginning. -/
def seekBegin (s : Stream) (nSeek : Nat) : Result Stream :=
  if nSeek ≤ s.size then .ok { s with nReadPos := nSeek }
  else .error (.exception "out of bounds ")

def read (s : Stream) (nSize : Nat) : Result (List UInt8 × Stream) :=
  if s.Fits nSize then .ok ((s.vchData.drop s.nReadPos).take nSize, s.advance nSize)
  else .error (.exception "reached end of stream ")

/-- `operator>>` for integers and hashes. -/
def extract (α : Type) [FixedWidth α] (s : Stream) : Result (α × Stream) := do
  let (vch, s) ← s.read (FixedWidth.width α)
  return (FixedWidth.decode vch, s)

/-- The largest size `ReadCompactSize` lets through. -/
def MAX_SIZE : Nat := 0x02000000

/-- The size after the leading byte of a compact size. -/
def readSize (chSize : UInt8) (s : Stream) : Result (Nat × Stream) :=
  if chSize < 253 then .ok (chSize.toNat, s)
  else if chSize = 253 then
    (s.extract UInt16).map fun (xSize, s) => (xSize.toNat, s)
  else if chSize = 254 then
    (s.extract UInt32).map fun (xSize, s) => (xSize.toNat, s)
  else
    (s.extract UInt64).map fun (xSize, s) => (xSize.toNat, s)

/-- `ReadCompactSize`: a size in 1, 3, 5 or 9 bytes. -/
def readCompactSize (s : Stream) : Result (Nat × Stream) := do
  let (chSize, s) ← s.extract UInt8
  let (nSizeRet, s) ← readSize chSize s
  reject (MAX_SIZE < nSizeRet) (.exception "ReadCompactSize() : size too large")
  return (nSizeRet, s)

/-- `operator>>` for byte vectors, strings and scripts. -/
def extractBytes (s : Stream) : Result (List UInt8 × Stream) := do
  let (nSize, s) ← s.readCompactSize
  s.read nSize

end Stream

/-- `GetSizeOfCompactSize`. -/
def getSizeOfCompactSize (nSize : Nat) : Nat :=
  if nSize < 253 then 1
  else if nSize ≤ 0xffff then 3
  else if nSize ≤ 0xffffffff then 5
  else 9

/-- The bytes of `WriteCompactSize`. -/
def writeCompactSize (nSize : Nat) : List UInt8 :=
  if nSize < 253 then FixedWidth.encode (UInt8.ofNat nSize)
  else if nSize ≤ 0xffff then
    FixedWidth.encode (253 : UInt8) ++ FixedWidth.encode (UInt16.ofNat nSize)
  else if nSize ≤ 0xffffffff then
    FixedWidth.encode (254 : UInt8) ++ FixedWidth.encode (UInt32.ofNat nSize)
  else
    FixedWidth.encode (255 : UInt8) ++ FixedWidth.encode (UInt64.ofNat nSize)

/-- The bytes of a serialized vector, string or script. -/
def serializeBytes (vch : List UInt8) : List UInt8 := writeCompactSize vch.length ++ vch

theorem encode_uint8 (b : UInt8) : FixedWidth.encode b = [b] := by
  have hLen : (FixedWidth.encode b).length = 1 := FixedWidth.encode_length b
  obtain ⟨c, hc⟩ := List.length_eq_one_iff.mp hLen
  rw [hc]
  have hDecode := FixedWidth.decode_encode b
  rw [hc] at hDecode
  rw [← hDecode]
  simp [FixedWidth.decode, leNat, FixedWidth.ofNat]

/-- The length of a compact size by its leading byte. -/
def sizeOfHead (b : UInt8) : Nat :=
  if b < 253 then 1 else if b = 253 then 3 else if b = 254 then 5 else 9

theorem writeCompactSize_head (n : Nat) :
    ∃ b, (writeCompactSize n).head? = some b ∧ (writeCompactSize n).length = sizeOfHead b := by
  unfold writeCompactSize
  split_ifs with hs hs16 hs32
  · refine ⟨UInt8.ofNat n, by rw [encode_uint8, List.head?_cons], ?_⟩
    have hLt : UInt8.ofNat n < 253 := by
      rw [UInt8.lt_iff_toNat_lt, UInt8.toNat_ofNat', Nat.mod_eq_of_lt (by omega)]
      exact hs
    rw [FixedWidth.encode_length, sizeOfHead, if_pos hLt, width_uint8]
  · exact ⟨253, by simp [encode_uint8], by simp; decide⟩
  · exact ⟨254, by simp [encode_uint8], by simp; decide⟩
  · exact ⟨255, by simp [encode_uint8], by simp; decide⟩

theorem serializeBytes_inj {vch vch' : List UInt8} (h : serializeBytes vch = serializeBytes vch') :
    vch = vch' := by
  obtain ⟨b, hHead, hLen⟩ := writeCompactSize_head vch.length
  obtain ⟨b', hHead', hLen'⟩ := writeCompactSize_head vch'.length
  have hSame : b = b' := by
    have := congrArg List.head? h
    rwa [serializeBytes, serializeBytes, List.head?_append, List.head?_append, hHead, hHead',
      Option.some_or, Option.some_or, Option.some.injEq] at this
  exact (List.append_inj h (by rw [hLen, hLen', hSame])).2

/-! ## Cursor rules

An accepting read is described by the stream it started from: the value is a
`peek` at an offset, the cursor moved by the width.  Offsets add up, so after
any number of reads every operand is a `peek` of the one initial stream. -/

namespace Stream

variable {α : Type} [FixedWidth α]

/-- The fixed-width value `n` bytes after the cursor. -/
def peek (α : Type) [FixedWidth α] (s : Stream) (n : Nat) : α :=
  FixedWidth.decode ((s.vchData.drop (s.nReadPos + n)).take (FixedWidth.width α))

@[simp] theorem advance_zero (s : Stream) : s.advance 0 = s := rfl

@[simp] theorem advance_advance (s : Stream) (m n : Nat) :
    (s.advance m).advance n = s.advance (m + n) := by
  simp [advance, Nat.add_assoc]

@[simp] theorem peek_advance (s : Stream) (m n : Nat) :
    (s.advance m).peek α n = s.peek α (m + n) := by
  simp [advance, peek, Nat.add_assoc]

@[simp] theorem advance_size (s : Stream) (n : Nat) : (s.advance n).size = s.size := rfl

@[simp] theorem advance_nReadPos (s : Stream) (n : Nat) :
    (s.advance n).nReadPos = s.nReadPos + n := rfl

@[simp] theorem advance_vchData (s : Stream) (n : Nat) :
    (s.advance n).vchData = s.vchData := rfl

@[simp] theorem advance_reset (s : Stream) (n : Nat) : (s.advance n).reset = s.reset := rfl

@[simp] theorem reset_reset (s : Stream) : s.reset.reset = s.reset := rfl

@[simp] theorem fits_advance (s : Stream) (m n : Nat) :
    (s.advance m).Fits n ↔ s.Fits (m + n) := by
  simp [Fits, advance, size, Nat.add_assoc]

theorem Fits.mono {s : Stream} {m n : Nat} (h : s.Fits n) (hmn : m ≤ n) : s.Fits m := by
  unfold Fits at *
  omega

theorem peek_uint8 {s : Stream} {n : Nat} (h : s.Fits (n + 1)) :
    s.vchData[s.nReadPos + n]? = some (s.peek UInt8 n) := by
  have hLt : s.nReadPos + n < s.vchData.length := by
    unfold Fits size at h
    omega
  rw [List.getElem?_eq_getElem hLt, peek, List.drop_eq_getElem_cons hLt, width_uint8,
    List.take_succ_cons, List.take_zero]
  simp [FixedWidth.decode, leNat, FixedWidth.ofNat]

/-- A high byte of a small value is zero. -/
theorem peek_byte_eq_zero {s : Stream} {n i : Nat} (hFits : s.Fits (n + FixedWidth.width α))
    (hi : i < FixedWidth.width α) (h : FixedWidth.toNat (s.peek α n) < 256 ^ i) :
    s.peek UInt8 (n + i) = 0 := by
  have hByte := peek_uint8 (n := n + i) (hFits.mono (by omega))
  have hAt : ((s.vchData.drop (s.nReadPos + n)).take (FixedWidth.width α))[i]? =
      some (s.peek UInt8 (n + i)) := by
    rw [List.getElem?_take, if_pos hi, List.getElem?_drop, Nat.add_assoc, hByte]
  have hLen : ((s.vchData.drop (s.nReadPos + n)).take (FixedWidth.width α)).length =
      FixedWidth.width α := by
    unfold Fits size at hFits
    rw [List.length_take, List.length_drop]
    omega
  have hLe := le_leNat hAt
  rw [peek, FixedWidth.toNat_decode hLen] at h
  have hZero : (s.peek UInt8 (n + i)).toNat = 0 := by
    by_contra hne
    have := Nat.le_mul_of_pos_right (256 ^ i) (Nat.pos_of_ne_zero hne)
    omega
  exact UInt8.toNat_inj.mp hZero

theorem read_eq_ok {s s' : Stream} {n : Nat} {vch : List UInt8} :
    s.read n = .ok (vch, s') ↔
      s.Fits n ∧ vch = (s.vchData.drop s.nReadPos).take n ∧ s' = s.advance n := by
  unfold read
  split <;> simp [*, eq_comm]

theorem extract_eq_ok {s s' : Stream} {a : α} :
    s.extract α = .ok (a, s') ↔
      s.Fits (FixedWidth.width α) ∧ a = s.peek α 0 ∧
        s' = s.advance (FixedWidth.width α) := by
  simp only [extract, bind_eq_ok, Prod.exists, read_eq_ok, pure_eq_ok, Prod.mk.injEq, peek,
    Nat.add_zero]
  constructor
  · rintro ⟨vch, s₁, ⟨hFits, rfl, rfl⟩, rfl, rfl⟩
    exact ⟨hFits, rfl, rfl⟩
  · rintro ⟨hFits, rfl, rfl⟩
    exact ⟨_, _, ⟨hFits, rfl, rfl⟩, rfl, rfl⟩

theorem seek_eq_ok {s s' : Stream} {n : Nat} :
    s.seek n = .ok s' ↔ s.Fits n ∧ s' = s.advance n := by
  unfold seek
  split <;> simp [*, eq_comm]

/-- Rewinding what was read restores the cursor. -/
theorem rewind_advance {s : Stream} {n : Nat} (h : s.Fits 0) :
    (s.advance n).rewind n = .ok s := by
  unfold rewind
  unfold Fits at h
  rw [if_pos ⟨by simp, by simpa using h⟩]
  simp [advance]

/-- A fixed-width value written at the cursor is read back. -/
theorem extract_of_drop {s : Stream} {a : α} {vch : List UInt8} (h0 : s.Fits 0)
    (h : s.vchData.drop s.nReadPos = FixedWidth.encode a ++ vch) :
    s.extract α = .ok (a, s.advance (FixedWidth.width α)) := by
  have hLen := congrArg List.length h
  simp only [List.length_drop, List.length_append, FixedWidth.encode_length] at hLen
  rw [extract_eq_ok]
  refine ⟨?_, ?_, rfl⟩
  · unfold Fits size at *
    omega
  · rw [peek, Nat.add_zero, h, List.take_left' (FixedWidth.encode_length a),
      FixedWidth.decode_encode]

/-- The data after the cursor, past a value that was written there. -/
theorem drop_advance {s : Stream} {n : Nat} {vch vchRest : List UInt8}
    (h : s.vchData.drop s.nReadPos = vch ++ vchRest) (hn : vch.length = n) :
    (s.advance n).vchData.drop (s.advance n).nReadPos = vchRest := by
  rw [advance_vchData, advance_nReadPos, ← List.drop_drop, h, ← hn, List.drop_left]

/-- The cursor stays inside the data past a value that was written there. -/
theorem fits_of_drop {s : Stream} {n : Nat} {vch vchRest : List UInt8} (h0 : s.Fits 0)
    (h : s.vchData.drop s.nReadPos = vch ++ vchRest) (hn : vch.length = n) :
    s.Fits n := by
  have hLen := congrArg List.length h
  simp only [List.length_drop, List.length_append] at hLen
  unfold Fits size at *
  omega

/-- Reading back one value of a sequence leaves the cursor at the next. -/
theorem extract_step {s : Stream} {a : α} {vchRest : List UInt8} (h0 : s.Fits 0)
    (h : s.vchData.drop s.nReadPos = FixedWidth.encode a ++ vchRest) :
    s.extract α = .ok (a, s.advance (FixedWidth.width α)) ∧
      (s.advance (FixedWidth.width α)).Fits 0 ∧
      (s.advance (FixedWidth.width α)).vchData.drop
        (s.advance (FixedWidth.width α)).nReadPos = vchRest := by
  have hLen : (FixedWidth.encode a).length = FixedWidth.width α := FixedWidth.encode_length a
  exact ⟨extract_of_drop h0 h, (fits_advance ..).mpr (fits_of_drop h0 h hLen),
    drop_advance h hLen⟩

/-! ### Length-prefixed data -/

/-- A compact size by its leading byte. -/
theorem readCompactSize_cases {s s' : Stream} {nSize : Nat}
    (h : s.readCompactSize = .ok (nSize, s')) :
    nSize ≤ MAX_SIZE ∧ s.Fits 1 ∧
      (s.peek UInt8 0 < 253 ∧ nSize = (s.peek UInt8 0).toNat ∧ s' = s.advance 1 ∨
        s.Fits 3 ∧ nSize = (s.peek UInt16 1).toNat ∧ s' = s.advance 3 ∨
        s.Fits 5 ∧ nSize = (s.peek UInt32 1).toNat ∧ s' = s.advance 5 ∨
        s.Fits 9 ∧ nSize = (s.peek UInt64 1).toNat ∧ s' = s.advance 9) := by
  simp only [readCompactSize, bind_eq_ok, Prod.exists, extract_eq_ok, reject_eq_ok,
    pure_eq_ok, Prod.mk.injEq] at h
  obtain ⟨chSize, s₁, ⟨hFits, rfl, rfl⟩, nRet, s₂, hSize, u, hMax, rfl, rfl⟩ := h
  simp only [readSize, ite_eq_ok, map_eq_ok, Prod.exists, extract_eq_ok,
    Except.ok.injEq, Prod.mk.injEq] at hSize
  refine ⟨by omega, hFits, ?_⟩
  rcases hSize with ⟨hByte, rfl, rfl⟩ | ⟨-, ⟨-, x, s₃, ⟨hx, rfl, rfl⟩, rfl, rfl⟩ |
    ⟨-, ⟨-, x, s₃, ⟨hx, rfl, rfl⟩, rfl, rfl⟩ | ⟨-, x, s₃, ⟨hx, rfl, rfl⟩, rfl, rfl⟩⟩⟩
  · exact .inl ⟨hByte, rfl, rfl⟩
  · exact .inr (.inl ⟨(fits_advance ..).mp hx, by simp, advance_advance ..⟩)
  · exact .inr (.inr (.inl ⟨(fits_advance ..).mp hx, by simp, advance_advance ..⟩))
  · exact .inr (.inr (.inr ⟨(fits_advance ..).mp hx, by simp, advance_advance ..⟩))

theorem readCompactSize_advance {s s' : Stream} {nSize : Nat}
    (h : s.readCompactSize = .ok (nSize, s')) :
    ∃ n, s.Fits n ∧ s' = s.advance n ∧ nSize ≤ MAX_SIZE := by
  obtain ⟨hMax, h1, ⟨-, -, rfl⟩ | ⟨h3, -, rfl⟩ | ⟨h5, -, rfl⟩ | ⟨h9, -, rfl⟩⟩ :=
    readCompactSize_cases h
  · exact ⟨_, h1, rfl, hMax⟩
  · exact ⟨_, h3, rfl, hMax⟩
  · exact ⟨_, h5, rfl, hMax⟩
  · exact ⟨_, h9, rfl, hMax⟩

theorem extractBytes_advance {s s' : Stream} {vch : List UInt8}
    (h : s.extractBytes = .ok (vch, s')) :
    ∃ n, s.Fits n ∧ s' = s.advance n ∧ vch.length ≤ MAX_SIZE := by
  simp only [extractBytes, bind_eq_ok, Prod.exists, read_eq_ok] at h
  obtain ⟨nSize, s₁, hSize, hFits, rfl, rfl⟩ := h
  obtain ⟨n, -, rfl, hMax⟩ := readCompactSize_advance hSize
  refine ⟨n + nSize, (fits_advance ..).mp hFits, advance_advance .., ?_⟩
  exact Nat.le_trans (List.length_take_le ..) hMax

/-- A vector of length zero is empty. -/
theorem extractBytes_zero {s : Stream} (h : s.Fits 1) (hByte : s.peek UInt8 0 = 0) :
    s.extractBytes = .ok ([], s.advance 1) := by
  have hRead : s.extract UInt8 = .ok (0, s.advance 1) := extract_eq_ok.mpr ⟨h, hByte.symm, rfl⟩
  have hFits : (s.advance 1).Fits 0 := (fits_advance ..).mpr h
  simp [extractBytes, readCompactSize, readSize, hRead, reject, read, hFits]

/-- A compact size written at the cursor is read back. -/
theorem readCompactSize_of_drop {s : Stream} {nSize : Nat} {vch : List UInt8} (h0 : s.Fits 0)
    (hMax : nSize ≤ MAX_SIZE)
    (h : s.vchData.drop s.nReadPos = writeCompactSize nSize ++ vch) :
    s.readCompactSize = .ok (nSize, s.advance (writeCompactSize nSize).length) := by
  have hMax' : nSize ≤ 0x02000000 := hMax
  have hNot : ¬ MAX_SIZE < nSize := by omega
  unfold writeCompactSize at h ⊢
  split_ifs at h ⊢ with hs hs16 hs32
  · have hNat : (UInt8.ofNat nSize).toNat = nSize := by
      rw [UInt8.toNat_ofNat']
      omega
    have hLt : UInt8.ofNat nSize < 253 := by
      rw [UInt8.lt_iff_toNat_lt, hNat]
      exact hs
    simp [readCompactSize, readSize, extract_of_drop h0 h, hLt, hNat, reject_of_not hNot]
  · have hNat : (UInt16.ofNat nSize).toNat = nSize := by
      rw [UInt16.toNat_ofNat']
      omega
    rw [List.append_assoc] at h
    have hNext := extract_of_drop
      ((fits_advance ..).mpr (fits_of_drop h0 h (FixedWidth.encode_length _)))
      (drop_advance h (FixedWidth.encode_length _))
    simp [readCompactSize, readSize, extract_of_drop h0 h, hNext, hNat, reject_of_not hNot]
  · have hNat : (UInt32.ofNat nSize).toNat = nSize := by
      rw [UInt32.toNat_ofNat']
      omega
    rw [List.append_assoc] at h
    have hNext := extract_of_drop
      ((fits_advance ..).mpr (fits_of_drop h0 h (FixedWidth.encode_length _)))
      (drop_advance h (FixedWidth.encode_length _))
    simp [readCompactSize, readSize, extract_of_drop h0 h, hNext, hNat, reject_of_not hNot]
  · omega

/-- A compact size above the limit is not read back. -/
theorem readCompactSize_too_large {s : Stream} {nSize : Nat} {vch : List UInt8} (h0 : s.Fits 0)
    (hMax : MAX_SIZE < nSize) (hWord : nSize < 2 ^ 64)
    (h : s.vchData.drop s.nReadPos = writeCompactSize nSize ++ vch) :
    s.readCompactSize.isOk = false := by
  have hMax' : 0x02000000 < nSize := hMax
  unfold writeCompactSize at h
  rw [if_neg (by omega), if_neg (by omega)] at h
  split_ifs at h with hs32
  · have hNat : (UInt32.ofNat nSize).toNat = nSize := by
      rw [UInt32.toNat_ofNat']
      omega
    rw [List.append_assoc] at h
    have hNext := extract_of_drop
      ((fits_advance ..).mpr (fits_of_drop h0 h (FixedWidth.encode_length _)))
      (drop_advance h (FixedWidth.encode_length _))
    simp [readCompactSize, readSize, extract_of_drop h0 h, hNext, hNat, reject, hMax, Except.isOk,
      Except.toBool]
  · have hNat : (UInt64.ofNat nSize).toNat = nSize := by
      rw [UInt64.toNat_ofNat']
      omega
    rw [List.append_assoc] at h
    have hNext := extract_of_drop
      ((fits_advance ..).mpr (fits_of_drop h0 h (FixedWidth.encode_length _)))
      (drop_advance h (FixedWidth.encode_length _))
    simp [readCompactSize, readSize, extract_of_drop h0 h, hNext, hNat, reject, hMax, Except.isOk,
      Except.toBool]

/-- A length-prefixed vector written at the cursor is read back. -/
theorem extractBytes_serialize {s : Stream} {vch vchRest : List UInt8} (h0 : s.Fits 0)
    (hMax : vch.length ≤ MAX_SIZE)
    (h : s.vchData.drop s.nReadPos = serializeBytes vch ++ vchRest) :
    s.extractBytes = .ok (vch, s.advance (serializeBytes vch).length) := by
  have hAll := fits_of_drop h0 h rfl
  rw [serializeBytes, List.append_assoc] at h
  have hRest := drop_advance h rfl
  rw [extractBytes, readCompactSize_of_drop h0 hMax h, ok_bind, read_eq_ok]
  refine ⟨?_, ?_, ?_⟩
  · rw [fits_advance]
    rwa [serializeBytes, List.length_append] at hAll
  · rw [hRest, List.take_left]
  · rw [advance_advance, serializeBytes, List.length_append]

theorem extractBytes_step {s : Stream} {vch vchRest : List UInt8} (h0 : s.Fits 0)
    (hMax : vch.length ≤ MAX_SIZE)
    (h : s.vchData.drop s.nReadPos = serializeBytes vch ++ vchRest) :
    s.extractBytes = .ok (vch, s.advance (serializeBytes vch).length) ∧
      (s.advance (serializeBytes vch).length).Fits 0 ∧
      (s.advance (serializeBytes vch).length).vchData.drop
        (s.advance (serializeBytes vch).length).nReadPos = vchRest :=
  ⟨extractBytes_serialize h0 hMax h, (fits_advance ..).mpr (fits_of_drop h0 h rfl),
    drop_advance h rfl⟩

end Stream

end Nexus.Util
