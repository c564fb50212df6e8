import Nexus.Util.Encoding
import Nexus.Lib.Radix

/-!
# Base 58 round trips

Both forms of an address are a list of digits: bytes in base 256, characters in base
58.  Each is its leading zeros and its number, and the conversion in either direction
keeps both, so the two conversions are inverse to each other.  The sign byte of the
big number and the white space of the string do not take part.
-/

namespace Nexus.Safety

open Nexus.Lib.Bytes
open Nexus.Lib.Radix
open Nexus.LLC
open Nexus.Util.encoding

namespace Base58

/-- The character of a digit. -/
def letter (d : Nat) : Char := pszBase58.getD d '1'

theorem idxOf_letter {d : Nat} (h : d < 58) : pszBase58.idxOf? (letter d) = some d := by
  have hAll : ∀ d < 58, pszBase58.idxOf? (letter d) = some d := by decide +kernel
  exact hAll d h

theorem letter_inj {d e : Nat} (hd : d < 58) (he : e < 58) (h : letter d = letter e) : d = e := by
  have hIndex := idxOf_letter hd
  rw [h, idxOf_letter he] at hIndex
  exact (Option.some.inj hIndex).symm

theorem eq_letter {c : Char} {d : Nat} (h : pszBase58.idxOf? c = some d) : d < 58 ∧ c = letter d := by
  rw [List.idxOf?_eq_some_iff] at h
  obtain ⟨hLt, hAt, -⟩ := h
  refine ⟨hLt, ?_⟩
  rw [letter, List.getD_eq_getElem?_getD, List.getElem?_eq_getElem hLt]
  exact hAt.symm

/-- A digit is neither white space nor NUL. -/
theorem letter_visible {d : Nat} (h : d < 58) : isspace (letter d) = false ∧ letter d ≠ '\x00' := by
  have hAll : ∀ d < 58, isspace (letter d) = false ∧ letter d ≠ '\x00' := by decide +kernel
  exact hAll d h

theorem letter_eq_one {d : Nat} (h : d < 58) : letter d = '1' ↔ d = 0 := by
  constructor
  · intro hOne
    exact letter_inj h (by norm_num) hOne
  · rintro rfl
    rfl

/-- The letters of some digits. -/
def letters (ds : List Nat) : List Char := ds.map letter

/-- The leading letters `1` are the leading zeros. -/
theorem takeWhile_letters {ds : List Nat} (h : ∀ d ∈ ds, d < 58) (ws : List Char)
    (hws : ∀ w ∈ ws, isspace w = true) :
    ((letters ds ++ ws).takeWhile (· = '1')).length = zeros ds := by
  induction ds with
  | nil =>
      cases ws with
      | nil => rfl
      | cons w ws =>
          have hw : w ≠ '1' := by
            rintro rfl
            exact absurd (hws '1' (List.mem_cons_self ..)) (by decide)
          simp [letters, zeros, hw]
  | cons d ds ih =>
      have hTail := ih fun x hx => h x (List.mem_cons_of_mem d hx)
      have hOne := letter_eq_one (h d (List.mem_cons_self ..))
      by_cases hd : d = 0
      · have hLetter : letter d = '1' := hOne.mpr hd
        subst hd
        rw [zeros, letters] at hTail
        simp only [letters, List.map_cons, List.cons_append, List.takeWhile_cons, hLetter,
          decide_true, if_true, List.length_cons, zeros, hTail]
      · simp [letters, zeros, hOne, hd]

/-! ## The loop of the decoder -/

theorem decodeLoop_letters {ds : List Nat} (h : ∀ d ∈ ds, d < 58) {ws : List Char}
    (hws : ∀ w ∈ ws, isspace w = true) (bn : Nat) :
    decodeLoop (letters ds ++ ws) bn = some (ds.foldl (fun n d => n * 58 + d) bn) := by
  induction ds generalizing bn with
  | nil =>
      cases ws with
      | nil => rfl
      | cons w ws =>
          have hSkip : (w :: ws).dropWhile isspace = [] := List.dropWhile_eq_nil_iff.mpr hws
          have hNone : pszBase58.idxOf? w = none := by
            cases hIndex : pszBase58.idxOf? w with
            | none => rfl
            | some d =>
                obtain ⟨hd, rfl⟩ := eq_letter hIndex
                have hSpace := hws _ (List.mem_cons_self ..)
                rw [(letter_visible hd).1] at hSpace
                exact absurd hSpace (by simp)
          show decodeLoop (w :: ws) bn = some bn
          rw [decodeLoop, hNone, hSkip]
          rfl
  | cons d ds ih =>
      show decodeLoop (letter d :: (letters ds ++ ws)) bn = _
      rw [decodeLoop, idxOf_letter (h d (List.mem_cons_self ..))]
      exact ih (fun x hx => h x (List.mem_cons_of_mem d hx)) _

/-- The loop accepts digits with white space behind them. -/
theorem decodeLoop_accepts {s : List Char} {bn n : Nat} (h : decodeLoop s bn = some n) :
    ∃ ds ws, (∀ d ∈ ds, d < 58) ∧ (∀ w ∈ ws, isspace w = true) ∧ s = letters ds ++ ws := by
  induction s generalizing bn with
  | nil => exact ⟨[], [], by simp, by simp, rfl⟩
  | cons c p ih =>
      rw [decodeLoop] at h
      cases hIndex : pszBase58.idxOf? c with
      | none =>
          rw [hIndex] at h
          by_cases hSkip : (c :: p).dropWhile isspace = []
          · exact ⟨[], c :: p, by simp, List.dropWhile_eq_nil_iff.mp hSkip, rfl⟩
          · simp [hSkip] at h
      | some d =>
          rw [hIndex] at h
          obtain ⟨ds, ws, hds, hws, rfl⟩ := ih h
          obtain ⟨hd, rfl⟩ := eq_letter hIndex
          refine ⟨d :: ds, ws, ?_, hws, rfl⟩
          intro x hx
          rcases List.mem_cons.mp hx with rfl | hx
          · exact hd
          · exact hds x hx

/-! ## The big number -/

/-- The bytes as digits. -/
def bytesOf (vch : List UInt8) : List Nat := vch.map UInt8.toNat

theorem bytesOf_lt {vch : List UInt8} {d : Nat} (h : d ∈ bytesOf vch) : d < 256 := by
  obtain ⟨x, -, rfl⟩ := List.mem_map.mp h
  exact x.toNat_lt

theorem leNat_eq (bs : List UInt8) : leNat bs = Nat.ofDigits 256 (bytesOf bs) := by
  induction bs with
  | nil => rfl
  | cons x bs ih =>
      show x.toNat + 256 * leNat bs = Nat.ofDigits 256 (x.toNat :: bytesOf bs)
      rw [ih, Nat.ofDigits_cons]

theorem zeros_bytesOf (vch : List UInt8) : zeros (bytesOf vch) = (vch.takeWhile (· = 0)).length := by
  induction vch with
  | nil => rfl
  | cons x vch ih =>
      by_cases hx : x = 0
      · subst hx
        simp only [zeros, bytesOf] at ih
        simp [zeros, bytesOf, ih]
      · have hNat : x.toNat ≠ 0 := fun h => hx (UInt8.toNat_inj.mp h)
        simp [zeros, bytesOf, hx, hNat]

theorem setvch_positive (vch : List UInt8) :
    (CBigNum.setvch (vch.reverse ++ [0])).toNat = number 256 (bytesOf vch) := by
  have hZero : ¬ (0x80 : UInt8) ≤ 0 := by decide
  have hTop : leNat (vch.reverse ++ [0]) = leNat vch.reverse := by
    rw [leNat_eq, leNat_eq, bytesOf, List.map_append]
    exact Nat.ofDigits_append_zero _
  rw [CBigNum.setvch, List.getLast?_concat]
  simp only [hZero, if_false, Int.toNat_natCast, hTop, leNat_eq, number, bytesOf, List.map_reverse]

theorem bytesOf_magnitude (n : Nat) : bytesOf (CBigNum.magnitude n) = Nat.digits 256 n := by
  rw [bytesOf, CBigNum.magnitude, List.map_map]
  have hSame : ∀ d ∈ Nat.digits 256 n, (UInt8.toNat ∘ UInt8.ofNat) d = d := by
    intro d hd
    exact UInt8.toNat_ofNat_of_lt' (Nat.digits_lt_base (by norm_num) hd)
  exact (List.map_congr_left hSame).trans (List.map_id _)

/-- Without its sign byte the big number is its magnitude. -/
theorem trimSign_getvch (n : Nat) : trimSign (CBigNum.getvch n) = CBigNum.magnitude n := by
  have hAbs : (n : Int).natAbs = n := Int.natAbs_natCast n
  have hSign : ¬ (n : Int) < 0 := by omega
  simp only [CBigNum.getvch, hAbs, hSign, if_false]
  cases hLast : (CBigNum.magnitude n).getLast? with
  | none => simp [trimSign, List.getLast?_eq_none_iff.mp hLast]
  | some top =>
      have hne : CBigNum.magnitude n ≠ [] := by
        rintro hNil
        simp [hNil] at hLast
      by_cases hBit : 0x80 ≤ top
      · have hPos := List.length_pos_of_ne_nil hne
        have hLastD : (CBigNum.magnitude n).getLastD 0 = top := by
          rw [List.getLastD_eq_getLast?, hLast]
          rfl
        simp only [hBit, if_true, trimSign]
        rw [if_pos]
        · exact List.dropLast_concat
        · rw [List.dropLast_concat, hLastD, List.getLast?_concat, List.length_append]
          exact ⟨by simpa using Nat.succ_le_of_lt hPos, rfl, hBit⟩
      · have hTop : top ≠ 0 := by
          rintro rfl
          have hn : n ≠ 0 := by
            rintro rfl
            simp [CBigNum.magnitude] at hne
          have hDigits := Nat.getLast_digit_ne_zero 256 hn
          have hMap : (Nat.digits 256 n).getLast? = some 0 := by
            rw [← bytesOf_magnitude, bytesOf, List.getLast?_map, hLast]
            rfl
          rw [List.getLast?_eq_some_getLast (Nat.digits_ne_nil_iff_ne_zero.mpr hn)] at hMap
          exact hDigits (Option.some.inj hMap)
        simp only [hBit, if_false, trimSign]
        rw [if_neg]
        rw [hLast]
        rintro ⟨-, hZero, -⟩
        exact hTop (Option.some.inj hZero)

/-! ## The two conversions -/

theorem divisions_eq (n : Nat) : divisions n = (Nat.digits 58 n).map letter := by
  induction n using Nat.strong_induction_on with
  | h n ih =>
      rw [divisions]
      by_cases hn : n = 0
      · simp [hn]
      · rw [if_neg hn, Nat.digits_def' (by norm_num) (Nat.pos_of_ne_zero hn), List.map_cons,
          ih (n / 58) (by omega)]
        rfl

/-- The string of some bytes: their leading zeros and their number in base 58. -/
theorem encode_eq (vch : List UInt8) : EncodeBase58 vch =
    letters (padded 58 (zeros (bytesOf vch)) (number 256 (bytesOf vch))) := by
  rw [EncodeBase58, setvch_positive, divisions_eq, zeros_bytesOf, padded, letters,
    List.reverse_append, List.reverse_replicate, List.map_append, List.map_replicate,
    List.map_reverse]
  rfl

theorem eq_of_bytesOf {xs ys : List UInt8} (h : bytesOf xs = bytesOf ys) : xs = ys :=
  List.map_injective_iff.mpr (fun _ _ hxy => UInt8.toNat_inj.mp hxy) h

/-- The bytes of some digits: their leading zeros and their number in base 256. -/
theorem decode_letters (psz : CString) {ds : List Nat} {ws : List Char} (h : ∀ d ∈ ds, d < 58)
    (hws : ∀ w ∈ ws, isspace w = true) (hChars : psz.chars.dropWhile isspace = letters ds ++ ws) :
    ∃ vch, DecodeBase58 psz = some vch ∧ bytesOf vch = padded 256 (zeros ds) (number 58 ds) := by
  simp only [DecodeBase58, hChars, decodeLoop_letters h hws, foldl_number,
    takeWhile_letters h ws hws, trimSign_getvch]
  refine ⟨_, rfl, ?_⟩
  rw [padded, bytesOf, List.map_append, List.map_replicate, List.map_reverse, ← bytesOf_magnitude,
    bytesOf]
  rfl

theorem dropWhile_letters {ds : List Nat} (h : ∀ d ∈ ds, d < 58) :
    (letters ds).dropWhile isspace = letters ds := by
  cases ds with
  | nil => rfl
  | cons d ds =>
      have hd := (letter_visible (h d (List.mem_cons_self ..))).1
      simp [letters, hd]

theorem noNul_letters {ds : List Nat} (h : ∀ d ∈ ds, d < 58) : '\x00' ∉ letters ds := by
  intro hMem
  obtain ⟨d, hd, hNul⟩ := List.mem_map.mp hMem
  exact (letter_visible (h d hd)).2 hNul

/-- The string of some bytes has no NUL, so it is the C string that is handed on. -/
theorem noNul_encode (vch : List UInt8) : '\x00' ∉ EncodeBase58 vch := by
  rw [encode_eq]
  exact noNul_letters fun d hd => padded_lt (by norm_num) hd

theorem decode_encode (vch : List UInt8) :
    DecodeBase58 ⟨EncodeBase58 vch, noNul_encode vch⟩ = some vch := by
  have hDigits : ∀ d ∈ padded 58 (zeros (bytesOf vch)) (number 256 (bytesOf vch)), d < 58 :=
    fun d hd => padded_lt (by norm_num) hd
  have hChars : (EncodeBase58 vch).dropWhile isspace =
      letters (padded 58 (zeros (bytesOf vch)) (number 256 (bytesOf vch))) ++ [] := by
    rw [encode_eq, dropWhile_letters hDigits, List.append_nil]
  obtain ⟨vch', hDecode, hBytes⟩ := decode_letters ⟨EncodeBase58 vch, noNul_encode vch⟩
    hDigits (by simp) hChars
  rw [zeros_padded, number_padded, padded_zeros_number (by norm_num) fun d hd => bytesOf_lt hd]
    at hBytes
  rw [hDecode, eq_of_bytesOf hBytes]

/-- A string without the white space around it. -/
def trim (s : List Char) : List Char := ((s.dropWhile isspace).reverse.dropWhile isspace).reverse

theorem trim_letters {s ws : List Char} {ds : List Nat} (h : ∀ d ∈ ds, d < 58)
    (hws : ∀ w ∈ ws, isspace w = true) (hChars : s.dropWhile isspace = letters ds ++ ws) :
    trim s = letters ds := by
  have hBack : (letters ds).reverse = letters ds.reverse := by
    rw [letters, letters, List.map_reverse]
  have hSkip : ws.reverse.dropWhile isspace = [] := by
    rw [List.dropWhile_eq_nil_iff]
    intro w hw
    exact hws w (List.mem_reverse.mp hw)
  rw [trim, hChars, List.reverse_append, List.dropWhile_append, hSkip, List.isEmpty_nil, if_pos rfl,
    hBack, dropWhile_letters fun d hd => h d (List.mem_reverse.mp hd), ← hBack, List.reverse_reverse]

theorem encode_decode {psz : CString} {vch : List UInt8} (h : DecodeBase58 psz = some vch) :
    EncodeBase58 vch = trim psz.chars := by
  have hLoop : ∃ n, decodeLoop (psz.chars.dropWhile isspace) 0 = some n := by
    rw [DecodeBase58] at h
    cases hn : decodeLoop (psz.chars.dropWhile isspace) 0 with
    | none =>
        simp only [hn] at h
        exact absurd h (by simp)
    | some n => exact ⟨n, rfl⟩
  obtain ⟨n, hn⟩ := hLoop
  obtain ⟨ds, ws, hds, hws, hChars⟩ := decodeLoop_accepts hn
  obtain ⟨vch', hDecode, hBytes⟩ := decode_letters psz hds hws hChars
  obtain rfl : vch' = vch := Option.some.inj (hDecode.symm.trans h)
  rw [encode_eq, hBytes, zeros_padded, number_padded, padded_zeros_number (by norm_num) hds,
    trim_letters hds hws hChars]

/-! ## The checksum -/

section Check

variable {SK256 : List UInt8 → Vector UInt8 32}

theorem checksum_length (vch : List UInt8) : (checksum SK256 vch).length = 4 := by
  simp [checksum]

theorem decodeCheck_iff (psz : CString) (vch : List UInt8) :
    DecodeBase58Check SK256 psz = some vch ↔
      DecodeBase58 psz = some (vch ++ checksum SK256 vch) := by
  rw [DecodeBase58Check]
  cases hDecode : DecodeBase58 psz with
  | none => simp
  | some vchRet =>
      simp only [Option.some.injEq]
      constructor
      · intro h
        by_cases hShort : vchRet.length < 4
        · simp [hShort] at h
        · rw [if_neg hShort] at h
          by_cases hSum : checksum SK256 (vchRet.take (vchRet.length - 4)) =
              vchRet.drop (vchRet.length - 4)
          · rw [if_neg (not_not.mpr hSum), Option.some.injEq] at h
            rw [← h, hSum, List.take_append_drop]
          · simp [hSum] at h
      · rintro rfl
        have hLength : (vch ++ checksum SK256 vch).length - 4 = vch.length := by
          rw [List.length_append, checksum_length]
          omega
        rw [hLength, List.take_left, List.drop_left, if_neg, if_neg (not_not.mpr rfl)]
        rw [List.length_append, checksum_length]
        omega

end Check

end Base58

open Base58 in
/-- Bytes come back from their string, a string that is accepted comes back from its bytes
without the white space around it, and the checked form accepts what ends with the first four
bytes of the hash of the rest. -/
theorem base58_round_trips (SK256 : List UInt8 → Vector UInt8 32) :
    (∀ vch : List UInt8, DecodeBase58String (EncodeBase58 vch) = some vch) ∧
    (∀ (psz : CString) (vch : List UInt8), DecodeBase58 psz = some vch →
      EncodeBase58 vch = trim psz.chars) ∧
    (∀ (psz : CString) (vch : List UInt8), DecodeBase58Check SK256 psz = some vch ↔
      DecodeBase58 psz = some (vch ++ ((SK256 vch).toList.take 4))) := by
  refine ⟨?_, fun psz vch h => encode_decode h, fun psz vch => decodeCheck_iff psz vch⟩
  intro vch
  have hWhole : c_str (EncodeBase58 vch) = ⟨EncodeBase58 vch, noNul_encode vch⟩ := by
    rw [c_str, CString.mk.injEq, List.takeWhile_eq_self_iff]
    intro c hc
    have hNul : c ≠ '\x00' := by
      rintro rfl
      exact noNul_encode vch hc
    simpa using hNul
  rw [DecodeBase58String, hWhole]
  exact decode_encode vch

end Nexus.Safety
