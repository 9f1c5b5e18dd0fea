import OsToyI386.Properties.Strings
import OsToyI386.Tools.Memory

/-!
# What the copies leave

A copy onto its own source repeats what stands between the two pointers. `kernel_memcpy` is
then no copy, and `kernel_strcpy` does not come to an end.
-/

namespace OsToyI386

open Lib

variable {m : Mem} {dest src size : BitVec 32} {xs : List (BitVec 8)}

lemma kernelMemcpy_blit : m.kernelMemcpy dest src size =
    blit m dest (fun k => m (src + BitVec.ofNat 32 (k % (dest - src).toNat))) size.toNat := by
  rw [kernelMemcpy_eq]
  exact copyUp_eq_blit size.isLt.le

lemma kernelMemcpy_byte {k : Nat} (hk : k < size.toNat) :
    m.kernelMemcpy dest src size (dest + BitVec.ofNat 32 k) =
      m (src + BitVec.ofNat 32 (k % (dest - src).toNat)) := by
  rw [kernelMemcpy_blit]
  exact blit_add hk size.isLt.le

lemma dest_eq (dest src : BitVec 32) : dest = src + BitVec.ofNat 32 (dest - src).toNat := by
  rw [BitVec.ofNat_toNat, BitVec.setWidth_eq, BitVec.add_comm, BitVec.sub_add_cancel]

/-- Where the destination does not reach around to the source, the bytes of the source that it
covers repeat as its own do. -/
lemma kernelMemcpy_source {k : Nat} (h : (dest - src).toNat + size.toNat ≤ 2 ^ 32)
    (hk : k < size.toNat) : m.kernelMemcpy dest src size (src + BitVec.ofNat 32 k) =
      m (src + BitVec.ofNat 32 (k % (dest - src).toNat)) := by
  have hdest := dest_eq dest src
  by_cases hkd : k < (dest - src).toNat
  · have hout : ¬ Within (src + BitVec.ofNat 32 k) dest size.toNat := by
      intro hin
      obtain ⟨i, hi, heq⟩ := hin.exists_add
      rw [hdest, add_ofNat_add, BitVec.add_right_inj] at heq
      have hmod := congrArg BitVec.toNat heq
      rw [BitVec.toNat_ofNat, BitVec.toNat_ofNat, Nat.mod_eq_of_lt (by omega),
        Nat.mod_eq_of_lt (by omega)] at hmod
      omega
    rw [kernelMemcpy_blit, blit_of_not_within hout, Nat.mod_eq_of_lt hkd]
  · have hsrc : src + BitVec.ofNat 32 k = dest + BitVec.ofNat 32 (k - (dest - src).toNat) := by
      have hback := congrArg (· + BitVec.ofNat 32 (k - (dest - src).toNat)) hdest
      rw [hback, add_ofNat_add, Nat.add_sub_cancel' (by omega)]
    rw [hsrc, kernelMemcpy_byte (by omega), ← Nat.mod_eq_sub_mod (by omega)]

/-- Whatever the pointers, each byte of the destination is one of the bytes between them, and
nothing else changes. The destination gets every content of the source exactly if it does not
begin inside of it; the two compare equal afterwards even if it does. -/
theorem memcpy_repeats (dest src size : BitVec 32) :
    (∀ m : Mem,
      (∀ k, k < size.toNat → m.kernelMemcpy dest src size (dest + BitVec.ofNat 32 k) =
        m (src + BitVec.ofNat 32 (k % (dest - src).toNat))) ∧
      ∀ a, ¬ Within a dest size.toNat → m.kernelMemcpy dest src size a = m a) ∧
    ((∀ (m : Mem) (k : Nat), k < size.toNat →
      m.kernelMemcpy dest src size (dest + BitVec.ofNat 32 k) = m (src + BitVec.ofNat 32 k)) ↔
        dest = src ∨ size.toNat ≤ (dest - src).toNat) ∧
    ((dest - src).toNat + size.toNat ≤ 2 ^ 32 → ∀ m : Mem,
      (m.kernelMemcpy dest src size).kernelMemEqual dest src size = 1) := by
  refine ⟨fun m => ⟨fun k hk => kernelMemcpy_byte hk, fun a ha => ?_⟩, ⟨fun h => ?_, ?_⟩, ?_⟩
  · rw [kernelMemcpy_blit]
    exact blit_of_not_within ha
  · by_contra! hno
    obtain ⟨hne, hlt⟩ := hno
    -- the first byte that has been overwritten before it is read
    have hbyte := h (fun a => if a = src then 1 else 0) (dest - src).toNat hlt
    rw [kernelMemcpy_byte hlt, Nat.mod_self, BitVec.add_zero, ← dest_eq, if_pos rfl,
      if_neg hne] at hbyte
    exact absurd hbyte (by decide)
  · rintro (rfl | hle) m k hk
    · rw [kernelMemcpy_byte hk, BitVec.sub_self, BitVec.toNat_zero, Nat.mod_zero]
    · rw [kernelMemcpy_byte hk, Nat.mod_eq_of_lt (by omega)]
  · intro hround m
    refine memEqualLoop_eq_one_iff.mpr fun k hk => ?_
    rw [kernelMemcpy_byte hk, kernelMemcpy_source hround hk]

/-- The destination does not begin behind the first byte of the string and before its end. -/
def Clear (dest src : BitVec 32) (xs : List (BitVec 8)) : Prop :=
  dest = src ∨ xs.length < (dest - src).toNat

lemma StringAt.char_ne_zero (h : StringAt m src xs) {j : Nat} (hj : j < xs.length) :
    m (src + BitVec.ofNat 32 j) ≠ 0 := by
  intro hzero
  rw [h.char j hj] at hzero
  have hmem := List.getElem_mem hj
  rw [hzero] at hmem
  exact h.nonzero hmem

lemma Clear.mod_eq (h : Clear dest src xs) {j : Nat} (hj : j ≤ xs.length) :
    j % (dest - src).toNat = j := by
  rcases h with rfl | hlt
  · rw [BitVec.sub_self, BitVec.toNat_zero, Nat.mod_zero]
  · exact Nat.mod_eq_of_lt (by omega)

lemma kernelStrcpy_eq (fuel : Nat) : m.kernelStrcpy dest src fuel = strcpyLoop fuel
    (dest + BitVec.ofNat 32 0) (src + BitVec.ofNat 32 0) (copyUp m src dest 0) := by
  rw [BitVec.add_zero, BitVec.add_zero]
  rfl

lemma kernelStrcpy_of_clear (h : StringAt m src xs) (hclear : Clear dest src xs) (fuel : Nat) :
    m.kernelStrcpy dest src fuel =
      if xs.length < fuel then some (copyUp m src dest (xs.length + 1)) else none := by
  have hchar : ∀ j, j < xs.length → m (src + BitVec.ofNat 32 (j % (dest - src).toNat)) ≠ 0 := by
    intro j hj
    rw [hclear.mod_eq hj.le]
    exact h.char_ne_zero hj
  have hnul : m (src + BitVec.ofNat 32 (xs.length % (dest - src).toNat)) = 0 := by
    rw [hclear.mod_eq le_rfl]
    exact h.nul
  rw [kernelStrcpy_eq, strcpyLoop_copyUp hchar hnul (Nat.zero_le _), Nat.zero_add]

lemma kernelStrcpy_spins (h : StringAt m src xs) (hclear : ¬ Clear dest src xs) (fuel : Nat) :
    m.kernelStrcpy dest src fuel = none := by
  have hpos : 0 < (dest - src).toNat := by
    rw [Nat.pos_iff_ne_zero]
    intro hzero
    have hdest := dest_eq dest src
    rw [hzero, BitVec.add_zero] at hdest
    exact hclear (Or.inl hdest)
  have hle : (dest - src).toNat ≤ xs.length := not_lt.mp fun hlt => hclear (Or.inr hlt)
  rw [kernelStrcpy_eq]
  refine strcpyLoop_spins fun j => h.char_ne_zero ?_
  exact (Nat.mod_lt j hpos).trans_le hle

lemma StringAt.copied (h : StringAt m src xs) (hclear : Clear dest src xs) :
    StringAt (copyUp m src dest (xs.length + 1)) dest xs := by
  have hfits := h.fits
  have hbyte : ∀ j, j ≤ xs.length → copyUp m src dest (xs.length + 1)
      (dest + BitVec.ofNat 32 j) = m (src + BitVec.ofNat 32 j) := by
    intro j hj
    rw [copyUp_written (by omega) (by omega), copyUp_read, hclear.mod_eq hj]
  refine ⟨fun i hi => ?_, ?_, h.nonzero⟩
  · rw [hbyte i hi.le]
    exact h.char i hi
  · rw [hbyte _ le_rfl]
    exact h.nul

/-- A string is copied, with its NUL and nothing else, if the destination does not begin behind
the string's first byte and before its end; otherwise the copy runs for ever. -/
theorem strcpy_returns_iff (h : StringAt m src xs) :
    ((∃ fuel, (m.kernelStrcpy dest src fuel).isSome = true) ↔
      dest = src ∨ xs.length < (dest - src).toNat) ∧
    ∀ fuel m', m.kernelStrcpy dest src fuel = some m' →
      StringAt m' dest xs ∧ ∀ a, ¬ Within a dest (xs.length + 1) → m' a = m a := by
  have hfits := h.fits
  by_cases hclear : Clear dest src xs
  · refine ⟨iff_of_true ⟨xs.length + 1, ?_⟩ hclear, fun fuel m' hm' => ?_⟩
    · rw [kernelStrcpy_of_clear h hclear, if_pos (by omega)]
      rfl
    · rw [kernelStrcpy_of_clear h hclear] at hm'
      split at hm'
      · cases hm'
        refine ⟨h.copied hclear, fun a ha => ?_⟩
        rw [copyUp_eq_blit (by omega)]
        exact blit_of_not_within ha
      · cases hm'
  · refine ⟨iff_of_false ?_ hclear, fun fuel m' hm' => ?_⟩
    · rintro ⟨fuel, hsome⟩
      rw [kernelStrcpy_spins h hclear] at hsome
      cases hsome
    · rw [kernelStrcpy_spins h hclear] at hm'
      cases hm'

/-- The string "abcd" at 0 is not copied to the address of its second byte. -/
theorem strcpy_returns_iff_abcd : ¬ ∃ fuel, (threeStrings.kernelStrcpy 1 0 fuel).isSome = true := by
  rw [(strcpy_returns_iff threeStrings_first).1]
  decide

end OsToyI386
