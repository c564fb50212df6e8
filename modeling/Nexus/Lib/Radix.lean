import Mathlib.Data.Nat.Digits.Defs
import Mathlib.Data.Nat.Digits.Lemmas

/-!
# Digits with their leading zeros

A list of digits, the most significant first, is given by its number of leading
zeros and its value; the value alone keeps only the digits behind the zeros.
-/

namespace Nexus.Lib.Radix

variable {b : Nat}

/-- How many zeros `ds` begins with. -/
def zeros (ds : List Nat) : Nat := (ds.takeWhile (· = 0)).length

/-- The number that the digits `ds` write in base `b`, the most significant first. -/
def number (b : Nat) (ds : List Nat) : Nat := Nat.ofDigits b ds.reverse

/-- The digits of `n` in base `b`, the most significant first, behind `z` zeros. -/
def padded (b z n : Nat) : List Nat := List.replicate z 0 ++ (Nat.digits b n).reverse

theorem number_append_digit (ds : List Nat) (d : Nat) :
    number b (ds ++ [d]) = number b ds * b + d := by
  rw [number, number, List.reverse_append, List.reverse_singleton, List.singleton_append,
    Nat.ofDigits_cons, Nat.mul_comm, Nat.add_comm]

/-- Reading the digits one after the other gives their number. -/
theorem foldl_number (ds : List Nat) : ds.foldl (fun n d => n * b + d) 0 = number b ds := by
  induction ds using List.reverseRecOn with
  | nil => rfl
  | append_singleton ds d ih =>
      rw [List.foldl_append, ih, List.foldl_cons, List.foldl_nil, number_append_digit]

theorem zeros_replicate_append {z : Nat} {ds : List Nat} (h : ∀ d ds', ds = d :: ds' → d ≠ 0) :
    zeros (List.replicate z 0 ++ ds) = z := by
  induction z with
  | zero =>
      cases ds with
      | nil => rfl
      | cons d ds' => simp [zeros, h d ds' rfl]
  | succ z ih =>
      rw [zeros, List.replicate_succ, List.cons_append, List.takeWhile_cons]
      simpa [zeros] using ih

/-- The first digit of a number is not zero. -/
theorem digits_head_ne_zero {n d : Nat} {ds : List Nat} (h : (Nat.digits b n).reverse = d :: ds) :
    d ≠ 0 := by
  have hDigits : Nat.digits b n = ds.reverse ++ [d] := by
    rw [← List.reverse_reverse (Nat.digits b n), h, List.reverse_cons]
  have hZero : n ≠ 0 := by
    rintro rfl
    simp at hDigits
  have hLast := Nat.getLast_digit_ne_zero b hZero
  simpa only [hDigits, List.getLast_concat] using hLast

@[simp] theorem zeros_padded (z n : Nat) : zeros (padded b z n) = z :=
  zeros_replicate_append fun _ _ h => digits_head_ne_zero h

@[simp] theorem number_padded (z n : Nat) : number b (padded b z n) = n := by
  rw [number, padded, List.reverse_append, List.reverse_reverse, List.reverse_replicate,
    Nat.ofDigits_append_replicate_zero, Nat.ofDigits_digits]

theorem padded_lt (hb : 1 < b) {z n d : Nat} (h : d ∈ padded b z n) : d < b := by
  rw [padded, List.mem_append, List.mem_replicate, List.mem_reverse] at h
  rcases h with ⟨-, rfl⟩ | h
  · omega
  · exact Nat.digits_lt_base hb h

/-- A list of digits is its leading zeros before the digits of its number. -/
theorem padded_zeros_number (hb : 1 < b) {ds : List Nat} (h : ∀ d ∈ ds, d < b) :
    padded b (zeros ds) (number b ds) = ds := by
  induction ds with
  | nil => simp [padded, zeros, number]
  | cons d ds ih =>
      have hTail := ih fun x hx => h x (List.mem_cons_of_mem d hx)
      by_cases hd : d = 0
      · subst hd
        have hZeros : zeros (0 :: ds) = zeros ds + 1 := by simp [zeros]
        have hNumber : number b (0 :: ds) = number b ds := Nat.ofDigits_reverse_zero_cons ds
        rw [hZeros, hNumber, padded, List.replicate_succ, List.cons_append]
        rw [padded] at hTail
        rw [hTail]
      · have hZeros : zeros (d :: ds) = 0 := by simp [zeros, hd]
        have hDigits : Nat.digits b (number b (d :: ds)) = (d :: ds).reverse := by
          apply Nat.digits_ofDigits b hb
          · intro l hl
            exact h l (List.mem_reverse.mp hl)
          · intro hne
            simpa using hd
        rw [hZeros, padded, hDigits, List.reverse_reverse]
        rfl

end Nexus.Lib.Radix
