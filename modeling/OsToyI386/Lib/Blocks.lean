import Mathlib.Data.BitVec
import Mathlib.Logic.Function.Basic

/-!
# Blocks of memory

A memory maps addresses to bytes; addresses wrap around. A block of `n` bytes is written in
one piece by `blit`, and the rules say how a block grows by a byte, how two blocks that meet
are one, and what a block leaves alone.
-/

namespace OsToyI386.Lib

variable {w : ℕ} {β : Type*}

/-- `a` is one of the `n` addresses from `start` on. -/
def Within (a start : BitVec w) (n : ℕ) : Prop := (a - start).toNat < n

instance (a start : BitVec w) (n : ℕ) : Decidable (Within a start n) :=
  inferInstanceAs (Decidable (_ < _))

/-- No address lies in both ranges. -/
def RangesApart (s : BitVec w) (n : ℕ) (s' : BitVec w) (n' : ℕ) : Prop :=
  ∀ a, Within a s n → ¬ Within a s' n'

/-- The memory with the bytes `f 0, …, f (n - 1)` from `dest` on. -/
def blit (m : BitVec w → β) (dest : BitVec w) (f : ℕ → β) (n : ℕ) : BitVec w → β :=
  fun a => if Within a dest n then f (a - dest).toNat else m a

section Ranges

variable {a start : BitVec w} {i j n k : ℕ}

lemma within_add (hi : i < n) (hn : n ≤ 2 ^ w) : Within (start + BitVec.ofNat w i) start n := by
  have hsub : start + BitVec.ofNat w i - start = BitVec.ofNat w i := by
    rw [BitVec.add_comm, BitVec.add_sub_cancel]
  rw [Within, hsub, BitVec.toNat_ofNat, Nat.mod_eq_of_lt (hi.trans_le hn)]
  exact hi

lemma Within.exists_add (h : Within a start n) : ∃ i, i < n ∧ a = start + BitVec.ofNat w i := by
  refine ⟨(a - start).toNat, h, ?_⟩
  rw [BitVec.ofNat_toNat, BitVec.setWidth_eq, BitVec.add_comm, BitVec.sub_add_cancel]

lemma Within.mono (h : Within a start n) (hk : n ≤ k) : Within a start k := lt_of_lt_of_le h hk

lemma offset_add (hi : i < 2 ^ w) : (start + BitVec.ofNat w i - start).toNat = i := by
  rw [BitVec.add_comm, BitVec.add_sub_cancel, BitVec.toNat_ofNat, Nat.mod_eq_of_lt hi]

lemma add_ofNat_add (start : BitVec w) (i j : ℕ) :
    start + BitVec.ofNat w i + BitVec.ofNat w j = start + BitVec.ofNat w (i + j) := by
  rw [BitVec.add_assoc, BitVec.ofNat_add]

lemma Within.sub (h : Within a (start + BitVec.ofNat w i) j) (hij : i + j ≤ n) (hn : n ≤ 2 ^ w) :
    Within a start n := by
  obtain ⟨k, hk, rfl⟩ := h.exists_add
  rw [add_ofNat_add]
  exact within_add (by omega) hn

lemma within_iff_toNat (h : start.toNat + n ≤ 2 ^ w) :
    Within a start n ↔ start.toNat ≤ a.toNat ∧ a.toNat < start.toNat + n := by
  have ha := a.isLt
  have hs := start.isLt
  rw [Within, BitVec.toNat_sub]
  by_cases hle : start.toNat ≤ a.toNat
  · have hsum : 2 ^ w - start.toNat + a.toNat = a.toNat - start.toNat + 2 ^ w := by omega
    rw [hsum, Nat.add_mod_right, Nat.mod_eq_of_lt (by omega)]
    omega
  · rw [Nat.mod_eq_of_lt (by omega)]
    omega

lemma rangesApart_of_le {start' : BitVec w} (h : start.toNat + n ≤ start'.toNat)
    (h' : start'.toNat + k ≤ 2 ^ w) : RangesApart start n start' k := by
  intro a ha ha'
  rw [within_iff_toNat (by omega)] at ha
  rw [within_iff_toNat h'] at ha'
  omega

end Ranges

section Blit

variable {m : BitVec w → β} {dest a : BitVec w} {f g : ℕ → β} {n k : ℕ}

@[simp] lemma blit_zero : blit m dest f 0 = m := by
  funext a
  simp [blit, Within]

lemma blit_of_within (h : Within a dest n) : blit m dest f n a = f (a - dest).toNat := if_pos h

lemma blit_of_not_within (h : ¬ Within a dest n) : blit m dest f n a = m a := if_neg h

lemma blit_add (hk : k < n) (hn : n ≤ 2 ^ w) :
    blit m dest f n (dest + BitVec.ofNat w k) = f k := by
  rw [blit_of_within (within_add hk hn), offset_add (hk.trans_le hn)]

lemma blit_succ [DecidableEq (BitVec w)] (hn : n < 2 ^ w) :
    Function.update (blit m dest f n) (dest + BitVec.ofNat w n) (f n) =
      blit m dest f (n + 1) := by
  funext a
  by_cases ha : a = dest + BitVec.ofNat w n
  · subst ha
    rw [Function.update_self, blit_add n.lt_succ_self hn]
  · rw [Function.update_of_ne ha]
    have hne : (a - dest).toNat ≠ n := by
      intro heq
      apply ha
      rw [← heq, BitVec.ofNat_toNat, BitVec.setWidth_eq, BitVec.add_comm, BitVec.sub_add_cancel]
    have hiff : Within a dest (n + 1) ↔ Within a dest n := by
      simp only [Within]
      omega
    simp only [blit, hiff]

lemma blit_congr (h : ∀ i, i < n → f i = g i) : blit m dest f n = blit m dest g n := by
  funext a
  by_cases ha : Within a dest n
  · rw [blit_of_within ha, blit_of_within ha]
    exact h _ ha
  · rw [blit_of_not_within ha, blit_of_not_within ha]

lemma blit_append (hn : n + k ≤ 2 ^ w) :
    blit (blit m dest f n) (dest + BitVec.ofNat w n) (fun i => f (n + i)) k =
      blit m dest f (n + k) := by
  induction k with
  | zero => simp
  | succ k ih =>
    have hk : k < 2 ^ w := by omega
    rw [← blit_succ hk, ih (by omega), add_ofNat_add]
    exact blit_succ (by omega)

end Blit

end OsToyI386.Lib
