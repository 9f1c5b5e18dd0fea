import OsToyI386.Tools.Strings

/-!
# Comparing strings

`kernel_str_equal` reads the two strings only, but it does not look at all of their
characters: two strings of one length are told apart by their first half.
-/

namespace OsToyI386

/-- The call returns, and reads no byte behind a terminator. Its result says whether the
strings are equal except when they have one length and differ in their second half only. -/
theorem str_equal_decides (m : Mem) (s1 s2 : BitVec 32) (xs ys : List (BitVec 8))
    (h1 : StringAt m s1 xs) (h2 : StringAt m s2 ys) :
    ∃ res reads, m.kernelStrEqual s1 s2 [] = some (res, reads) ∧
      (∀ a ∈ reads, a ∈ cells s1 xs ∨ a ∈ cells s2 ys) ∧
      ((res = 1 ↔ xs = ys) ↔
        (xs.length ≠ ys.length ∨ xs = ys ∨ ∃ i, 2 * i < xs.length ∧ xs[i]? ≠ ys[i]?)) := by
  obtain ⟨res, reads, hexec, hres, hreads⟩ := kernelStrEqual_spec h1 h2 []
  refine ⟨res, reads, hexec, fun a ha => by simpa using hreads a ha, ?_⟩
  rw [hres]
  constructor
  · intro hiff
    by_contra hno
    push Not at hno
    obtain ⟨hlen, hne, hsame⟩ := hno
    exact hne (hiff.mp ⟨hlen, hsame⟩)
  · rintro (hlen | rfl | ⟨i, hi, hdiff⟩)
    · exact ⟨fun h => absurd h.1 hlen, fun he => absurd (congrArg List.length he) hlen⟩
    · exact ⟨fun _ => rfl, fun _ => ⟨rfl, fun _ _ => rfl⟩⟩
    · exact ⟨fun h => absurd (h.2 i hi) hdiff, fun he => absurd (by rw [he]) hdiff⟩

/-- `abcd` at 0, `abcX` at 5 and `Xbcd` at 10. -/
def threeStrings : Mem := fun a =>
  (lit "abcd" ++ [0#8] ++ lit "abcX" ++ [0#8] ++ lit "Xbcd" ++ [0#8]).getD a.toNat 0

lemma threeStrings_first : StringAt threeStrings 0 (lit "abcd") := by
  refine ⟨fun i hi => ?_, by decide, by decide⟩
  have hi : i < 4 := hi
  interval_cases i <;> rfl

lemma threeStrings_second : StringAt threeStrings 5 (lit "abcX") := by
  refine ⟨fun i hi => ?_, by decide, by decide⟩
  have hi : i < 4 := hi
  interval_cases i <;> rfl

lemma threeStrings_third : StringAt threeStrings 10 (lit "Xbcd") := by
  refine ⟨fun i hi => ?_, by decide, by decide⟩
  have hi : i < 4 := hi
  interval_cases i <;> rfl

theorem str_equal_decides_abcd : ∃ res reads,
    threeStrings.kernelStrEqual 0 10 [] = some (res, reads) ∧ res ≠ 1 := by
  obtain ⟨res, reads, hexec, -, hiff⟩ :=
    str_equal_decides threeStrings 0 10 _ _ threeStrings_first threeStrings_third
  have hres := hiff.mpr (Or.inr (Or.inr ⟨0, by decide, by decide⟩))
  exact ⟨res, reads, hexec, fun he => absurd (hres.mp he) (by decide)⟩

/-- `abcd` and `abcX` are taken for equal. -/
theorem str_equal_misses_last : ∃ reads, StringAt threeStrings 0 (lit "abcd") ∧
    StringAt threeStrings 5 (lit "abcX") ∧ lit "abcd" ≠ lit "abcX" ∧
    threeStrings.kernelStrEqual 0 5 [] = some (1, reads) := by
  obtain ⟨res, reads, hexec, hres, -⟩ :=
    kernelStrEqual_spec threeStrings_first threeStrings_second []
  have hhalf : ∀ i, 2 * i < (lit "abcd").length → (lit "abcd")[i]? = (lit "abcX")[i]? := by
    intro i hi
    have hi : i < 2 := by
      have hlen : (lit "abcd").length = 4 := rfl
      omega
    interval_cases i <;> rfl
  rw [hres.mpr ⟨rfl, hhalf⟩] at hexec
  exact ⟨reads, threeStrings_first, threeStrings_second, by decide, hexec⟩

end OsToyI386
