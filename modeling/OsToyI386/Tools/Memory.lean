import OsToyI386.Lib.CopyUp
import OsToyI386.Tools.Strings

/-!
# Copies in memory

`kernel_memcpy`, `kernel_strcpy` and `kernel_mem_equal` of `tools/klib.c`. They take the bytes
as they stand when their pointers come to them, also where they have written before.
-/

namespace OsToyI386

open Lib

/-- `while(size--)`. -/
def memcpyLoop : Nat → (dest src : BitVec 32) → Mem → Mem
  | 0, _, _, m => m
  | size + 1, dest, src, m =>
    memcpyLoop size (dest + 1) (src + 1) (Function.update m dest (m src))

/-- `kernel_memcpy`. -/
def Mem.kernelMemcpy (m : Mem) (dest src size : BitVec 32) : Mem :=
  if size = 0 then m else memcpyLoop size.toNat dest src m

/-- `while (*src)`, and the NUL behind the loop. -/
def strcpyLoop : Nat → (dest src : BitVec 32) → Mem → Option Mem
  | 0, _, _, _ => none
  | fuel + 1, dest, src, m =>
    if m src ≠ 0 then strcpyLoop fuel (dest + 1) (src + 1) (Function.update m dest (m src))
    else some (Function.update m dest 0)

/-- `kernel_strcpy`, as far as it gets in `fuel` turns. -/
def Mem.kernelStrcpy (m : Mem) (dest src : BitVec 32) (fuel : Nat) : Option Mem :=
  strcpyLoop fuel dest src m

/-- `for (uint32_t i = 0; i < size; i++)`, by the turns that are left. -/
def memEqualLoop (m : Mem) : Nat → (p1 p2 : BitVec 32) → Int
  | 0, _, _ => 1
  | n + 1, p1, p2 => if m p1 ≠ m p2 then 0 else memEqualLoop m n (p1 + 1) (p2 + 1)

/-- `kernel_mem_equal`. -/
def Mem.kernelMemEqual (m : Mem) (d1 d2 size : BitVec 32) : Int :=
  memEqualLoop m size.toNat d1 d2

section Loops

variable {m : Mem} {dest src size : BitVec 32} {k n : Nat}

lemma add_ofNat_succ (p : BitVec 32) (k : Nat) :
    p + BitVec.ofNat 32 k + 1 = p + BitVec.ofNat 32 (k + 1) := add_ofNat_add p k 1

lemma add_one_add_ofNat (p : BitVec 32) (k : Nat) :
    p + 1 + BitVec.ofNat 32 k = p + BitVec.ofNat 32 (k + 1) := by
  rw [Nat.add_comm]
  exact add_ofNat_add p 1 k

lemma memcpyLoop_copyUp (n : Nat) :
    memcpyLoop n (dest + BitVec.ofNat 32 k) (src + BitVec.ofNat 32 k) (copyUp m src dest k) =
      copyUp m src dest (k + n) := by
  induction n generalizing k with
  | zero => rfl
  | succ n ih =>
    have hnext := ih (k := k + 1)
    rw [copyUp] at hnext
    rw [memcpyLoop, add_ofNat_succ, add_ofNat_succ, hnext, Nat.add_right_comm]
    rfl

lemma kernelMemcpy_eq : m.kernelMemcpy dest src size = copyUp m src dest size.toNat := by
  unfold Mem.kernelMemcpy
  split
  · rename_i hzero
    rw [hzero]
    rfl
  · have hloop : memcpyLoop size.toNat (dest + BitVec.ofNat 32 0) (src + BitVec.ofNat 32 0)
        (copyUp m src dest 0) = copyUp m src dest (0 + size.toNat) := memcpyLoop_copyUp size.toNat
    rw [BitVec.add_zero, BitVec.add_zero, Nat.zero_add] at hloop
    exact hloop

/-- A byte between the pointers that is NUL ends the loop when its turn comes. -/
lemma strcpyLoop_copyUp {fuel : Nat}
    (hchar : ∀ j, j < n → m (src + BitVec.ofNat 32 (j % (dest - src).toNat)) ≠ 0)
    (hnul : m (src + BitVec.ofNat 32 (n % (dest - src).toNat)) = 0) (hk : k ≤ n) :
    strcpyLoop fuel (dest + BitVec.ofNat 32 k) (src + BitVec.ofNat 32 k) (copyUp m src dest k) =
      if n < k + fuel then some (copyUp m src dest (n + 1)) else none := by
  induction fuel generalizing k with
  | zero =>
    rw [if_neg (by omega)]
    rfl
  | succ fuel ih =>
    rw [strcpyLoop, copyUp_read]
    rcases hk.lt_or_eq with hlt | rfl
    · have hnext := ih (k := k + 1) hlt
      rw [copyUp, copyUp_read] at hnext
      rw [if_pos (hchar k hlt), add_ofNat_succ, add_ofNat_succ, hnext]
      exact if_congr (by omega) rfl rfl
    · rw [if_neg (by simpa using hnul), if_pos (by omega), copyUp, copyUp_read, hnul]

/-- No NUL between the pointers: the loop overtakes the end of its string for ever. -/
lemma strcpyLoop_spins {fuel : Nat}
    (hchar : ∀ j, m (src + BitVec.ofNat 32 (j % (dest - src).toNat)) ≠ 0) :
    strcpyLoop fuel (dest + BitVec.ofNat 32 k) (src + BitVec.ofNat 32 k) (copyUp m src dest k) =
      none := by
  induction fuel generalizing k with
  | zero => rfl
  | succ fuel ih =>
    have hnext := ih (k := k + 1)
    rw [copyUp, copyUp_read] at hnext
    rw [strcpyLoop, copyUp_read, if_pos (hchar k), add_ofNat_succ, add_ofNat_succ]
    exact hnext

lemma memEqualLoop_eq_one_iff {p1 p2 : BitVec 32} : memEqualLoop m n p1 p2 = 1 ↔
    ∀ k, k < n → m (p1 + BitVec.ofNat 32 k) = m (p2 + BitVec.ofNat 32 k) := by
  induction n generalizing p1 p2 with
  | zero => simp [memEqualLoop]
  | succ n ih =>
    rw [memEqualLoop]
    by_cases h0 : m p1 = m p2
    · rw [if_neg (not_not.mpr h0), ih]
      constructor
      · rintro h (_ | k) hk
        · simpa using h0
        · rw [← add_one_add_ofNat, ← add_one_add_ofNat]
          exact h k (by omega)
      · intro h k hk
        rw [add_one_add_ofNat, add_one_add_ofNat]
        exact h (k + 1) (by omega)
    · rw [if_pos h0]
      refine ⟨fun h => absurd h (by decide), fun h => absurd ?_ h0⟩
      simpa using h 0 (by omega)

end Loops

end OsToyI386
