import Mathlib.Data.List.Induction
import Mathlib.Logic.Function.Basic

/-!
# Lists in numbered cells

A row of cells is a function of the cell's number. `write` puts a list into consecutive
cells and `slice` reads one back; the rules say how writes compose and what they leave alone.
-/

namespace OsToyI386.Lib

variable {β : Type*} {f : ℕ → β} {p q n : ℕ} {x y : β} {xs ys : List β}

/-- The cells with the list put in from cell `p` on. -/
def write (f : ℕ → β) (p : ℕ) : List β → ℕ → β
  | [] => f
  | x :: xs => write (Function.update f p x) (p + 1) xs

/-- The `n` cells from `p` on. -/
def slice (f : ℕ → β) (p n : ℕ) : List β := (List.range n).map fun i => f (p + i)

@[simp] lemma write_nil : write f p [] = f := rfl

lemma write_append : write f p (xs ++ ys) = write (write f p xs) (p + xs.length) ys := by
  induction xs generalizing f p with
  | nil => rfl
  | cons x xs ih =>
    rw [List.cons_append, write, write, ih, List.length_cons]
    congr 1
    omega

lemma write_snoc : write f p (xs ++ [x]) = Function.update (write f p xs) (p + xs.length) x := by
  rw [write_append]
  rfl

lemma write_of_lt (h : q < p) : write f p xs q = f q := by
  induction xs generalizing f p with
  | nil => rfl
  | cons x xs ih => rw [write, ih (by omega), Function.update_of_ne (by omega)]

lemma write_of_le (h : p + xs.length ≤ q) : write f p xs q = f q := by
  induction xs generalizing f p with
  | nil => rfl
  | cons x xs ih =>
    rw [List.length_cons] at h
    rw [write, ih (by omega), Function.update_of_ne (by omega)]

lemma write_add (i : ℕ) (h : i < xs.length) : write f p xs (p + i) = xs[i] := by
  induction xs generalizing f p i with
  | nil => simp at h
  | cons x xs ih =>
    cases i with
    | zero => rw [write, write_of_lt (by omega), Nat.add_zero, Function.update_self]; rfl
    | succ i =>
      have hi : i < xs.length := by simpa using h
      rw [write, ← Nat.add_assoc, Nat.add_right_comm, ih i hi]
      rfl

lemma write_update (h : q < p ∨ p + xs.length ≤ q) :
    write (Function.update f q y) p xs = Function.update (write f p xs) q y := by
  induction xs generalizing f p with
  | nil => rfl
  | cons x xs ih =>
    rw [List.length_cons] at h
    rw [write, write, Function.update_comm (by omega), ih (by omega)]

lemma slice_succ : slice f p (n + 1) = f p :: slice f (p + 1) n := by
  rw [slice, List.range_succ_eq_map, List.map_cons, List.map_map, slice, Nat.add_zero]
  congr 2
  funext i
  simp only [Function.comp_apply]
  congr 1
  omega

lemma slice_congr {g : ℕ → β} (h : ∀ i < n, f (p + i) = g (p + i)) : slice f p n = slice g p n :=
  List.map_congr_left fun i hi => h i (List.mem_range.mp hi)

lemma slice_write : slice (write f p xs) p xs.length = xs := by
  apply List.ext_getElem
  · simp [slice]
  · intro i h h'
    simp [slice, write_add i h']

end OsToyI386.Lib
