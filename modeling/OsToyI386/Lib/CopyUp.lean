import OsToyI386.Lib.Blocks

/-!
# Copying upwards

A block is copied byte by byte, lowest address first, from one place in memory to another. The
two places may overlap: a byte that has been written before it is read is read as it is by
then, so that what stands between the two pointers is repeated over and over.
-/

namespace OsToyI386.Lib

variable {w : ℕ} {β : Type*} {m : BitVec w → β} {src dest a : BitVec w} {i n : ℕ}

/-- The memory after `n` bytes. -/
def copyUp (m : BitVec w → β) (src dest : BitVec w) : ℕ → BitVec w → β
  | 0 => m
  | n + 1 =>
    Function.update (copyUp m src dest n) (dest + BitVec.ofNat w n)
      (copyUp m src dest n (src + BitVec.ofNat w n))

lemma copyUp_of_ne (h : ∀ j, j < n → a ≠ dest + BitVec.ofNat w j) :
    copyUp m src dest n a = m a := by
  induction n with
  | zero => rfl
  | succ n ih =>
    rw [copyUp, Function.update_of_ne (h n n.lt_succ_self)]
    exact ih fun j hj => h j (hj.trans n.lt_succ_self)

/-- A byte stays as it was written until the addresses have wrapped around. -/
lemma copyUp_written (hi : i < n) (hn : n ≤ i + 2 ^ w) :
    copyUp m src dest n (dest + BitVec.ofNat w i) =
      copyUp m src dest i (src + BitVec.ofNat w i) := by
  induction n with
  | zero => exact absurd hi (Nat.not_lt_zero i)
  | succ n ih =>
    rcases Nat.lt_succ_iff_lt_or_eq.mp hi with hlt | rfl
    · have hne : dest + BitVec.ofNat w i ≠ dest + BitVec.ofNat w n := by
        intro heq
        have hsub : BitVec.ofNat w i = BitVec.ofNat w n := by
          rwa [BitVec.add_right_inj] at heq
        have hmod : i % 2 ^ w = n % 2 ^ w := by
          simpa using congrArg BitVec.toNat hsub
        have hdvd : 2 ^ w ∣ n - i := (Nat.modEq_iff_dvd' hlt.le).mp hmod
        have hle := Nat.le_of_dvd (by omega) hdvd
        omega
      rw [copyUp, Function.update_of_ne hne]
      exact ih hlt (by omega)
    · rw [copyUp, Function.update_self]

lemma copyUp_same (m : BitVec w → β) (src : BitVec w) (n : ℕ) : copyUp m src src n = m := by
  induction n with
  | zero => rfl
  | succ n ih => rw [copyUp, ih, Function.update_eq_self]

/-- Where the pointers are `(dest - src).toNat` bytes apart, the byte read next is one of
those between them. -/
theorem copyUp_read (m : BitVec w → β) (src dest : BitVec w) (i : ℕ) :
    copyUp m src dest i (src + BitVec.ofNat w i) =
      m (src + BitVec.ofNat w (i % (dest - src).toNat)) := by
  induction i using Nat.strong_induction_on with
  | _ i ih =>
    have hdest : dest = src + BitVec.ofNat w (dest - src).toNat := by
      rw [BitVec.ofNat_toNat, BitVec.setWidth_eq, BitVec.add_comm, BitVec.sub_add_cancel]
    have hlt := (dest - src).isLt
    generalize (dest - src).toNat = d at ih hdest hlt
    by_cases hi : i < d
    · rw [Nat.mod_eq_of_lt hi]
      refine copyUp_of_ne fun j hj heq => ?_
      rw [hdest, add_ofNat_add, BitVec.add_right_inj] at heq
      have hmod : i % 2 ^ w = (d + j) % 2 ^ w := by
        simpa using congrArg BitVec.toNat heq
      have hdvd : 2 ^ w ∣ d + j - i := (Nat.modEq_iff_dvd' (by omega)).mp hmod
      have hle := Nat.le_of_dvd (by omega) hdvd
      omega
    · rcases Nat.eq_zero_or_pos d with rfl | hd
      · rw [hdest, BitVec.add_zero, copyUp_same, Nat.mod_zero]
      · have hread : src + BitVec.ofNat w i = dest + BitVec.ofNat w (i - d) := by
          rw [hdest, add_ofNat_add, Nat.add_sub_cancel' (by omega)]
        have hwritten : copyUp m src dest i (dest + BitVec.ofNat w (i - d)) =
            copyUp m src dest (i - d) (src + BitVec.ofNat w (i - d)) :=
          copyUp_written (by omega) (by omega)
        rw [hread, hwritten, ih (i - d) (by omega), ← Nat.mod_eq_sub_mod (by omega)]

/-- As long as the addresses do not wrap around the bytes make up one block. -/
theorem copyUp_eq_blit (hn : n ≤ 2 ^ w) : copyUp m src dest n =
    blit m dest (fun k => m (src + BitVec.ofNat w (k % (dest - src).toNat))) n := by
  induction n with
  | zero => rw [blit_zero, copyUp]
  | succ n ih =>
    rw [copyUp, copyUp_read, ih (by omega)]
    exact blit_succ (f := fun k => m (src + BitVec.ofNat w (k % (dest - src).toNat))) (by omega)

end OsToyI386.Lib
