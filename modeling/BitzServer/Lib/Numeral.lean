import Mathlib.Data.Nat.Digits.Defs
import Mathlib.Data.Nat.Digits.Lemmas

/-!
# Positional numerals

The digits of a number in a base, most significant digit first, as they are printed, and the value a parser accumulates from
them digit by digit.
-/

namespace Numeral

/-- The value of a list of digits in base `b`, most significant first: the accumulator of a digit-by-digit parser. -/
def value (b : Nat) (ds : List Nat) : Nat := ds.foldl (fun v d => v * b + d) 0

/-- The digits of `n` in base `b` as they are printed: most significant first, a single zero for zero. -/
def numeral (b n : Nat) : List Nat := if n = 0 then [0] else (Nat.digits b n).reverse

/-- The value of a printed list is the value of the reversed list of digits, least significant first. -/
theorem value_eq_ofDigits (b : Nat) (ds : List Nat) : value b ds = Nat.ofDigits b ds.reverse := by
  rw [value, ← List.foldr_reverse, Nat.ofDigits_eq_foldr]
  congr 1
  funext d v
  simp only [Nat.cast_id]
  ring

/-- What is printed is read back. -/
theorem value_numeral (b n : Nat) : value b (numeral b n) = n := by
  unfold numeral
  by_cases hn : n = 0
  · simp [hn, value]
  · rw [if_neg hn, value_eq_ofDigits, List.reverse_reverse, Nat.ofDigits_digits]

/-- A printed number has a digit. -/
theorem numeral_ne_nil (b n : Nat) : numeral b n ≠ [] := by
  unfold numeral
  by_cases hn : n = 0
  · simp [hn]
  · rw [if_neg hn]
    simpa using Nat.digits_ne_nil_iff_ne_zero.mpr hn

/-- A number below a power of the base is printed with no more digits than the power has. -/
theorem length_numeral_le {b n k : Nat} (hb : 1 < b) (hk : 0 < k) (h : n < b ^ k) : (numeral b n).length ≤ k := by
  unfold numeral
  by_cases hn : n = 0
  · rw [if_pos hn]
    exact hk
  · rw [if_neg hn, List.length_reverse]
    exact (Nat.digits_length_le_iff hb n).mpr h

/-- Every printed digit is below the base. -/
theorem lt_of_mem_numeral {b n d : Nat} (hb : 1 < b) (hd : d ∈ numeral b n) : d < b := by
  unfold numeral at hd
  by_cases hn : n = 0
  · rw [if_pos hn, List.mem_singleton] at hd
    omega
  · rw [if_neg hn, List.mem_reverse] at hd
    exact Nat.digits_lt_base hb hd

end Numeral
