import Mathlib.Data.Nat.Digits.Lemmas
import Mathlib.Data.List.Induction

/-!
# Positional numerals

The digits of a number in a base, the most significant first and without leading zeros,
and the number that a list of digits stands for.
-/

namespace OsToyI386.Lib

variable {b n k : ℕ}

/-- The digits of `n` in base `b`, the most significant first. Zero has one digit. -/
def numeral (b n : ℕ) : List ℕ := if n = 0 then [0] else (Nat.digits b n).reverse

/-- The number that digits stand for in base `b`. -/
def value (b : ℕ) (ds : List ℕ) : ℕ := ds.foldl (fun acc d => b * acc + d) 0

lemma value_append_one (ds : List ℕ) (d : ℕ) : value b (ds ++ [d]) = b * value b ds + d := by
  rw [value, List.foldl_append]
  rfl

lemma value_eq_ofDigits (ds : List ℕ) : value b ds = Nat.ofDigits b ds.reverse := by
  induction ds using List.reverseRecOn with
  | nil => rfl
  | append_singleton ds d ih =>
    rw [value_append_one, ih, List.reverse_append, List.reverse_singleton, List.singleton_append,
      Nat.ofDigits_cons, Nat.add_comm]

lemma value_numeral (b n : ℕ) : value b (numeral b n) = n := by
  rw [numeral]
  split
  · rename_i hn
    simp [value, hn]
  · rw [value_eq_ofDigits, List.reverse_reverse, Nat.ofDigits_digits]

lemma lt_of_mem_numeral (hb : 1 < b) {d : ℕ} (hd : d ∈ numeral b n) : d < b := by
  rw [numeral] at hd
  split at hd
  · rw [List.mem_singleton] at hd
    omega
  · exact Nat.digits_lt_base hb (List.mem_reverse.mp hd)

lemma numeral_of_lt (h : n < b) : numeral b n = [n] := by
  rw [numeral]
  split
  · rename_i hn
    rw [hn]
  · rename_i hn
    rw [Nat.digits_of_lt b n hn h, List.reverse_singleton]

lemma numeral_of_le (hb : 1 < b) (h : b ≤ n) : numeral b n = numeral b (n / b) ++ [n % b] := by
  have hpos : 0 < n := by omega
  have hdiv : n / b ≠ 0 := by
    have := Nat.div_pos h (by omega)
    omega
  rw [numeral, if_neg (by omega), Nat.digits_def' hb hpos, List.reverse_cons, numeral,
    if_neg hdiv]

lemma length_numeral_pos (b n : ℕ) : 0 < (numeral b n).length := by
  rw [numeral]
  split
  · simp
  · rename_i hn
    rw [List.length_reverse, List.length_pos_iff]
    exact Nat.digits_ne_nil_iff_ne_zero.mpr hn

lemma length_numeral_le (hb : 1 < b) (hk : 0 < k) (h : n < b ^ k) : (numeral b n).length ≤ k := by
  rw [numeral]
  split
  · exact hk
  · rw [List.length_reverse]
    exact (Nat.digits_length_le_iff hb n).mpr h

end OsToyI386.Lib
