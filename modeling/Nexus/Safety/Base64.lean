import Mathlib.Algebra.Ring.Nat
import Mathlib.Tactic.Common
import Nexus.Util.Base64

/-!
# Base 64 round trips

Three bytes are four digits of six bits, and at the end of a string two or three digits are followed by
a padding and have no bits too many.  So a string that is valid is the one encoding of its bytes, and
the decoder stops behind it.

## Main results

* `decodeBase64_iff`: the valid strings are the encodings, with what is behind them.
-/

namespace Nexus.Safety

open Nexus.Util.encoding

namespace Base64

/-- The digit of a number. -/
def digit (d : Nat) : UInt8 := pbase64.getD d 0

/-- At `p` no digit follows. -/
def Stops (p : List UInt8) : Prop := decode64 (p.getD 0 0) = -1

theorem decode64_digit {d : Nat} (h : d < 64) : decode64 (digit d) = d := by
  have hAll : ∀ d < 64, decode64 (digit d) = d := by decide +kernel
  exact hAll d h

theorem digit_of_decode64 {c : UInt8} (h : decode64 c ≠ -1) : ∃ d < 64, c = digit d := by
  have hAll : ∀ n < 256, decode64_table.getD n (-1) ≠ -1 →
      (decode64_table.getD n (-1)).toNat < 64 ∧
        UInt8.ofNat n = digit (decode64_table.getD n (-1)).toNat := by decide +kernel
  obtain ⟨hLt, hSame⟩ := hAll c.toNat c.toNat_lt h
  rw [UInt8.ofNat_toNat] at hSame
  exact ⟨_, hLt, hSame⟩

theorem stops_or_digit (p : List UInt8) : Stops p ∨ ∃ d < 64, ∃ q, p = digit d :: q := by
  by_cases h : Stops p
  · exact .inl h
  · cases p with
    | nil => exact absurd rfl h
    | cons c q =>
        obtain ⟨d, hLt, rfl⟩ := digit_of_decode64 h
        exact .inr ⟨d, hLt, q, rfl⟩

/-! ## Bits -/

theorem shiftLeft_or {x y k : Nat} (h : y < 2 ^ k) : x <<< k ||| y = x * 2 ^ k + y := by
  rw [← Nat.shiftLeft_add_eq_or_of_lt h, Nat.shiftLeft_eq]

/-- The last `j` bits, in front of some that are `k` at most. -/
theorem last_or {x y j k : Nat} (h : y < 2 ^ k) :
    (x &&& (2 ^ j - 1)) <<< k ||| y = x % 2 ^ j * 2 ^ k + y := by
  rw [shiftLeft_or h, Nat.and_two_pow_sub_one_eq_mod]

theorem last_shiftLeft (x j k : Nat) : (x &&& (2 ^ j - 1)) <<< k = x % 2 ^ j * 2 ^ k := by
  rw [Nat.and_two_pow_sub_one_eq_mod, Nat.shiftLeft_eq]

theorem shiftRight_lt (b : UInt8) {j k : Nat} (h : j + k = 8) : b.toNat >>> j < 2 ^ k := by
  rw [Nat.shiftRight_eq_div_pow]
  refine Nat.div_lt_of_lt_mul ?_
  rw [← Nat.pow_add, h]
  exact b.toNat_lt

/-! ## Encoding -/

/-- The encoding, three bytes at a time. -/
def quanta : List UInt8 → List UInt8
  | b₁ :: b₂ :: b₃ :: bs =>
      digit (b₁.toNat / 4) :: digit (b₁.toNat % 4 * 16 + b₂.toNat / 16) ::
        digit (b₂.toNat % 16 * 4 + b₃.toNat / 64) :: digit (b₃.toNat % 64) :: quanta bs
  | [b₁, b₂] =>
      [digit (b₁.toNat / 4), digit (b₁.toNat % 4 * 16 + b₂.toNat / 16), digit (b₂.toNat % 16 * 4), PAD]
  | [b₁] => [digit (b₁.toNat / 4), digit (b₁.toNat % 4 * 16), PAD, PAD]
  | [] => []

theorem second_digit (b₁ b₂ : UInt8) :
    (b₁.toNat &&& 3) <<< 4 ||| b₂.toNat >>> 4 = b₁.toNat % 4 * 16 + b₂.toNat / 16 := by
  have hBits := last_or (x := b₁.toNat) (j := 2) (k := 4) (shiftRight_lt b₂ (j := 4) rfl)
  rwa [Nat.shiftRight_eq_div_pow] at hBits ⊢

theorem third_digit (b₂ b₃ : UInt8) :
    (b₂.toNat &&& 15) <<< 2 ||| b₃.toNat >>> 6 = b₂.toNat % 16 * 4 + b₃.toNat / 64 := by
  have hBits := last_or (x := b₂.toNat) (j := 4) (k := 2) (shiftRight_lt b₃ (j := 6) rfl)
  rwa [Nat.shiftRight_eq_div_pow] at hBits ⊢

theorem encodeFrom_eq (bs : List UInt8) (left : Nat) : encodeFrom bs 0 left = quanta bs := by
  have hFirst (b : UInt8) : b.toNat >>> 2 = b.toNat / 4 := Nat.shiftRight_eq_div_pow b.toNat 2
  have hFourth (b : UInt8) : b.toNat &&& 63 = b.toNat % 64 := Nat.and_two_pow_sub_one_eq_mod b.toNat 6
  induction bs using quanta.induct generalizing left with
  | case1 b₁ b₂ b₃ bs ih =>
      simp only [encodeFrom, hFirst, second_digit, third_digit, hFourth, ih]
      rfl
  | case2 b₁ b₂ =>
      have hThird : (b₂.toNat &&& 15) <<< 2 = b₂.toNat % 16 * 4 := last_shiftLeft b₂.toNat 4 2
      simp only [encodeFrom, hFirst, second_digit, hThird]
      rfl
  | case3 b₁ =>
      have hSecond : (b₁.toNat &&& 3) <<< 4 = b₁.toNat % 4 * 16 := last_shiftLeft b₁.toNat 2 4
      simp only [encodeFrom, hFirst, hSecond]
      rfl
  | case4 => rfl

/-! ## Decoding -/

variable {d d₁ d₂ d₃ d₄ left : Nat} {p : List UInt8}

theorem decodeFrom_stops (h : Stops p) (mode left : Nat) :
    decodeFrom p mode left = { vchRet := [], mode, left, p } := by
  cases p with
  | nil => rfl
  | cons c p => exact if_pos h

theorem decode64_ne (h : d < 64) : decode64 (digit d) ≠ -1 := by
  rw [decode64_digit h]
  omega

theorem decode_first (h : d < 64) : decodeFrom (digit d :: p) 0 left = decodeFrom p 1 d := by
  rw [decodeFrom, if_neg (decode64_ne h), decode64_digit h]
  rfl

theorem decode_second (h : d < 64) :
    decodeFrom (digit d :: p) 1 left =
      (decodeFrom p 2 (d % 16)).push (UInt8.ofNat (left * 4 + d / 16)) := by
  have hLast : d &&& 15 = d % 16 := Nat.and_two_pow_sub_one_eq_mod d 4
  have hFirst : d >>> 4 = d / 16 := Nat.shiftRight_eq_div_pow d 4
  rw [decodeFrom, if_neg (decode64_ne h), decode64_digit h, Int.toNat_natCast]
  show (decodeFrom p 2 (d &&& 15)).push (UInt8.ofNat (left <<< 2 ||| d >>> 4)) = _
  rw [hLast, hFirst, shiftLeft_or (by omega)]
  rfl

theorem decode_third (h : d < 64) :
    decodeFrom (digit d :: p) 2 left =
      (decodeFrom p 3 (d % 4)).push (UInt8.ofNat (left * 16 + d / 4)) := by
  have hLast : d &&& 3 = d % 4 := Nat.and_two_pow_sub_one_eq_mod d 2
  have hFirst : d >>> 2 = d / 4 := Nat.shiftRight_eq_div_pow d 2
  rw [decodeFrom, if_neg (decode64_ne h), decode64_digit h, Int.toNat_natCast]
  show (decodeFrom p 3 (d &&& 3)).push (UInt8.ofNat (left <<< 4 ||| d >>> 2)) = _
  rw [hLast, hFirst, shiftLeft_or (by omega)]
  rfl

theorem decode_fourth (h : d < 64) :
    decodeFrom (digit d :: p) 3 left = (decodeFrom p 0 left).push (UInt8.ofNat (left * 64 + d)) := by
  rw [decodeFrom, if_neg (decode64_ne h), decode64_digit h, Int.toNat_natCast]
  show (decodeFrom p 0 left).push (UInt8.ofNat (left <<< 6 ||| d)) = _
  rw [shiftLeft_or (by omega)]
  rfl

/-- A decoding that is valid, of these bytes. -/
def Valid (state : Decoding) (bs : List UInt8) : Prop := state.vchRet = bs ∧ state.fInvalid = false

theorem valid_push {state : Decoding} {b : UInt8} {bs : List UInt8} :
    Valid (state.push b) bs ↔ ∃ bs', bs = b :: bs' ∧ Valid state bs' := by
  constructor
  · intro h
    exact ⟨state.vchRet, h.1.symm, rfl, h.2⟩
  · rintro ⟨bs', rfl, hBytes, hValid⟩
    exact ⟨congrArg (List.cons b) hBytes, hValid⟩

theorem Valid.push {state : Decoding} {b : UInt8} {bs : List UInt8} {n : Nat} (h : Valid state bs)
    (hByte : n = b.toNat) : Valid (state.push (UInt8.ofNat n)) (b :: bs) := by
  rw [hByte, UInt8.ofNat_toNat]
  exact valid_push.mpr ⟨bs, rfl, h⟩

theorem stops_pad (p : List UInt8) : Stops (PAD :: p) := by
  have hPad : decode64 PAD = -1 := by decide
  exact hPad

theorem cons_of_pad (h : p.getD 0 0 = PAD) : ∃ q, p = PAD :: q := by
  cases p with
  | nil => exact absurd h (by decide)
  | cons c q => exact ⟨q, congrArg (· :: q) h⟩

/-- After three digits there is one character of padding. -/
theorem valid_third {bs : List UInt8} :
    Valid { vchRet := [], mode := 3, left, p } bs ↔
      bs = [] ∧ left = 0 ∧ ∃ rest, p = PAD :: rest ∧ Stops rest := by
  have hInvalid : Decoding.fInvalid { vchRet := [], mode := 3, left, p } = false ↔
      (left = 0 ∧ p.getD 0 0 = PAD) ∧ decode64 (p.getD 1 0) = -1 := by
    simp [Decoding.fInvalid]
  rw [Valid, hInvalid, eq_comm]
  constructor
  · rintro ⟨hBytes, ⟨hLeft, hPad⟩, hStops⟩
    obtain ⟨rest, rfl⟩ := cons_of_pad hPad
    exact ⟨hBytes, hLeft, rest, rfl, hStops⟩
  · rintro ⟨hBytes, hLeft, rest, rfl, hStops⟩
    exact ⟨hBytes, ⟨hLeft, rfl⟩, hStops⟩

/-- After two digits there are two. -/
theorem valid_second {bs : List UInt8} :
    Valid { vchRet := [], mode := 2, left, p } bs ↔
      bs = [] ∧ left = 0 ∧ ∃ rest, p = PAD :: PAD :: rest ∧ Stops rest := by
  have hInvalid : Decoding.fInvalid { vchRet := [], mode := 2, left, p } = false ↔
      ((left = 0 ∧ p.getD 0 0 = PAD) ∧ p.getD 1 0 = PAD) ∧ decode64 (p.getD 2 0) = -1 := by
    simp [Decoding.fInvalid]
  rw [Valid, hInvalid, eq_comm]
  constructor
  · rintro ⟨hBytes, ⟨⟨hLeft, hPad⟩, hPad'⟩, hStops⟩
    obtain ⟨q, rfl⟩ := cons_of_pad hPad
    obtain ⟨rest, rfl⟩ := cons_of_pad (p := q) hPad'
    exact ⟨hBytes, hLeft, rest, rfl, hStops⟩
  · rintro ⟨hBytes, hLeft, rest, rfl, hStops⟩
    exact ⟨hBytes, ⟨⟨hLeft, rfl⟩, rfl⟩, hStops⟩

/-- What is behind an encoding is not read, where it does not go on. -/
theorem valid_quanta {rest : List UInt8} (h : Stops rest) (bs : List UInt8) (left : Nat) :
    Valid (decodeFrom (quanta bs ++ rest) 0 left) bs := by
  induction bs using quanta.induct generalizing left with
  | case1 b₁ b₂ b₃ bs ih =>
      have hBound₁ := b₁.toNat_lt
      have hBound₂ := b₂.toNat_lt
      have hBound₃ := b₃.toNat_lt
      simp only [quanta, List.cons_append]
      rw [decode_first (by omega), decode_second (by omega), decode_third (by omega),
        decode_fourth (by omega)]
      exact (((ih _).push (by omega)).push (by omega)).push (by omega)
  | case2 b₁ b₂ =>
      have hBound₁ := b₁.toNat_lt
      have hBound₂ := b₂.toNat_lt
      simp only [quanta, List.cons_append, List.nil_append]
      rw [decode_first (by omega), decode_second (by omega), decode_third (by omega),
        decodeFrom_stops (stops_pad _)]
      have hEnd : Valid { vchRet := [], mode := 3, left := b₂.toNat % 16 * 4 % 4, p := PAD :: rest } [] :=
        valid_third.mpr ⟨rfl, by omega, rest, rfl, h⟩
      exact (hEnd.push (by omega)).push (by omega)
  | case3 b₁ =>
      have hBound₁ := b₁.toNat_lt
      simp only [quanta, List.cons_append, List.nil_append]
      rw [decode_first (by omega), decode_second (by omega), decodeFrom_stops (stops_pad _)]
      have hEnd : Valid
          { vchRet := [], mode := 2, left := b₁.toNat % 4 * 16 % 16, p := PAD :: PAD :: rest } [] :=
        valid_second.mpr ⟨rfl, by omega, rest, rfl, h⟩
      exact hEnd.push (by omega)
  | case4 =>
      rw [quanta, List.nil_append, decodeFrom_stops h]
      exact ⟨rfl, rfl⟩

/-! ## What is valid -/

theorem toNat_byte {n : Nat} (h : n < 256) : (UInt8.ofNat n).toNat = n := UInt8.toNat_ofNat_of_lt' h

/-- Four digits are the encoding of their bytes. -/
theorem quanta_digits (h₁ : d₁ < 64) (h₂ : d₂ < 64) (h₃ : d₃ < 64) (h₄ : d₄ < 64) (bs : List UInt8) :
    quanta (UInt8.ofNat (d₁ * 4 + d₂ / 16) :: UInt8.ofNat (d₂ % 16 * 16 + d₃ / 4) ::
        UInt8.ofNat (d₃ % 4 * 64 + d₄) :: bs) =
      digit d₁ :: digit d₂ :: digit d₃ :: digit d₄ :: quanta bs := by
  have hByte₁ : (d₁ * 4 + d₂ / 16) / 4 = d₁ := by omega
  have hByte₂ : (d₁ * 4 + d₂ / 16) % 4 * 16 + (d₂ % 16 * 16 + d₃ / 4) / 16 = d₂ := by omega
  have hByte₃ : (d₂ % 16 * 16 + d₃ / 4) % 16 * 4 + (d₃ % 4 * 64 + d₄) / 64 = d₃ := by omega
  have hByte₄ : (d₃ % 4 * 64 + d₄) % 64 = d₄ := by omega
  rw [quanta, toNat_byte (by omega), toNat_byte (by omega), toNat_byte (by omega), hByte₁, hByte₂, hByte₃,
    hByte₄]

theorem quanta_three (h₁ : d₁ < 64) (h₂ : d₂ < 64) (h₃ : d₃ < 64) (hNone : d₃ % 4 = 0) :
    quanta [UInt8.ofNat (d₁ * 4 + d₂ / 16), UInt8.ofNat (d₂ % 16 * 16 + d₃ / 4)] =
      [digit d₁, digit d₂, digit d₃, PAD] := by
  have hByte₁ : (d₁ * 4 + d₂ / 16) / 4 = d₁ := by omega
  have hByte₂ : (d₁ * 4 + d₂ / 16) % 4 * 16 + (d₂ % 16 * 16 + d₃ / 4) / 16 = d₂ := by omega
  have hByte₃ : (d₂ % 16 * 16 + d₃ / 4) % 16 * 4 = d₃ := by omega
  rw [quanta, toNat_byte (by omega), toNat_byte (by omega), hByte₁, hByte₂, hByte₃]

theorem quanta_two (h₁ : d₁ < 64) (h₂ : d₂ < 64) (hNone : d₂ % 16 = 0) :
    quanta [UInt8.ofNat (d₁ * 4 + d₂ / 16)] = [digit d₁, digit d₂, PAD, PAD] := by
  have hByte₁ : (d₁ * 4 + d₂ / 16) / 4 = d₁ := by omega
  have hByte₂ : (d₁ * 4 + d₂ / 16) % 4 * 16 = d₂ := by omega
  rw [quanta, toNat_byte (by omega), hByte₁, hByte₂]

/-- What is valid begins with the encoding of its bytes. -/
theorem quanta_of_valid {p bs : List UInt8} {left : Nat} (h : Valid (decodeFrom p 0 left) bs) :
    ∃ rest, p = quanta bs ++ rest ∧ Stops rest := by
  obtain hStops | ⟨d₁, h₁, p₁, rfl⟩ := stops_or_digit p
  · rw [decodeFrom_stops hStops] at h
    obtain ⟨rfl, -⟩ := h
    exact ⟨p, rfl, hStops⟩
  rw [decode_first h₁] at h
  obtain hStops | ⟨d₂, h₂, p₂, rfl⟩ := stops_or_digit p₁
  · rw [decodeFrom_stops hStops] at h
    exact absurd h.2 Bool.false_ne_true.symm
  rw [decode_second h₂, valid_push] at h
  obtain ⟨bs₁, rfl, h⟩ := h
  obtain hStops | ⟨d₃, h₃, p₃, rfl⟩ := stops_or_digit p₂
  · rw [decodeFrom_stops hStops, valid_second] at h
    obtain ⟨rfl, hLeft, rest, rfl, hRest⟩ := h
    refine ⟨rest, ?_, hRest⟩
    rw [quanta_two h₁ h₂ hLeft]
    rfl
  rw [decode_third h₃, valid_push] at h
  obtain ⟨bs₂, rfl, h⟩ := h
  obtain hStops | ⟨d₄, h₄, p₄, rfl⟩ := stops_or_digit p₃
  · rw [decodeFrom_stops hStops, valid_third] at h
    obtain ⟨rfl, hLeft, rest, rfl, hRest⟩ := h
    refine ⟨rest, ?_, hRest⟩
    rw [quanta_three h₁ h₂ h₃ hLeft]
    rfl
  rw [decode_fourth h₄, valid_push] at h
  obtain ⟨bs₃, rfl, h⟩ := h
  obtain ⟨rest, rfl, hRest⟩ := quanta_of_valid h
  refine ⟨rest, ?_, hRest⟩
  rw [quanta_digits h₁ h₂ h₃ h₄]
  rfl
  termination_by p.length

/-- A string is valid just where it begins with the encoding of its bytes, and no digit follows. -/
theorem decodeBase64_iff (p vch : List UInt8) :
    DecodeBase64 p = (vch, false) ↔ ∃ rest, p = EncodeBase64 vch ++ rest ∧ Stops rest := by
  rw [EncodeBase64, encodeFrom_eq, DecodeBase64, Prod.mk.injEq]
  constructor
  · exact quanta_of_valid
  · rintro ⟨rest, rfl, hStops⟩
    exact valid_quanta hStops vch 0

end Base64

end Nexus.Safety
