import Mathlib.Data.List.Nodup
import Mathlib.Logic.Function.Basic

/-!
# Families of queues kept apart

A family of lists is apart when no element stands twice, neither in one list of the
family nor in two of them. Every queueing discipline on such a family comes down to
replacing the content of one list, so one replacement rule carries all the others.
-/

namespace OsToyI386.Lib

variable {ι α : Type*}

/-- No element stands twice in the family, neither in one list nor in two. -/
structure Apart (q : ι → List α) : Prop where
  nodup : ∀ i, (q i).Nodup
  unique : ∀ i j a, a ∈ q i → a ∈ q j → i = j

/-- Takes `a` out of list `i` and puts it at the end of list `j`. -/
def moveTo [DecidableEq ι] [DecidableEq α] (q : ι → List α) (i j : ι) (a : α) : ι → List α :=
  let q := Function.update q i ((q i).erase a)
  Function.update q j (q j ++ [a])

lemma mem_moveTo_of_ne [DecidableEq ι] [DecidableEq α] {q : ι → List α} {i j k : ι} {a b : α}
    (hb : b ≠ a) : b ∈ moveTo q i j a k ↔ b ∈ q k := by
  by_cases hkj : k = j <;> by_cases hki : k = i <;> by_cases hji : j = i <;>
    simp_all [moveTo, List.mem_erase_of_ne hb]

lemma exists_mem_moveTo [DecidableEq ι] [DecidableEq α] {q : ι → List α} {i j : ι} {a b : α}
    (ha : a ∈ q i) : (∃ k, b ∈ moveTo q i j a k) ↔ ∃ k, b ∈ q k := by
  by_cases hb : b = a
  · subst hb
    refine iff_of_true ⟨j, ?_⟩ ⟨i, ha⟩
    simp [moveTo]
  · exact exists_congr fun k => mem_moveTo_of_ne hb

/-- Any number of moves of queued elements. -/
inductive Moves [DecidableEq ι] [DecidableEq α] : (ι → List α) → (ι → List α) → Prop
  | refl (q : ι → List α) : Moves q q
  | step {q q' : ι → List α} {i j : ι} {a : α} :
      Moves q q' → a ∈ q' i → Moves q (moveTo q' i j a)

namespace Moves

variable [DecidableEq ι] [DecidableEq α] {q q' q'' : ι → List α} {i j : ι} {a : α}

lemma single (ha : a ∈ q i) : Moves q (moveTo q i j a) := step (refl q) ha

lemma trans (h : Moves q q') (h' : Moves q' q'') : Moves q q'' := by
  induction h' with
  | refl => exact h
  | step _ ha ih => exact step ih ha

lemma exists_mem (h : Moves q q') : (∃ k, a ∈ q' k) ↔ ∃ k, a ∈ q k := by
  induction h with
  | refl => rfl
  | step _ ha ih => rw [exists_mem_moveTo ha, ih]

end Moves

namespace Apart

variable [DecidableEq ι] {q : ι → List α}

/-- Replacement: the new content of list `i` has no repetition, and each of its
elements stood in list `i` before or in no list at all. -/
theorem replace (h : Apart q) {i : ι} {xs : List α} (hxs : xs.Nodup)
    (hold : ∀ a ∈ xs, a ∈ q i ∨ ∀ j, a ∉ q j) : Apart (Function.update q i xs) := by
  have hforeign : ∀ j a, j ≠ i → a ∈ xs → a ∉ q j := by
    intro j a hji ha haj
    rcases hold a ha with hi | hnone
    · exact hji (h.unique j i a haj hi)
    · exact hnone j haj
  constructor
  · intro j
    by_cases hj : j = i
    · subst hj
      simpa using hxs
    · simpa [hj] using h.nodup j
  · intro j k a haj hak
    by_cases hj : j = i
    · by_cases hk : k = i
      · rw [hj, hk]
      · rw [hj, Function.update_self] at haj
        rw [Function.update_of_ne hk] at hak
        exact absurd hak (hforeign k a hk haj)
    · rw [Function.update_of_ne hj] at haj
      by_cases hk : k = i
      · rw [hk, Function.update_self] at hak
        exact absurd haj (hforeign j a hj hak)
      · rw [Function.update_of_ne hk] at hak
        exact h.unique j k a haj hak

/-- Shrinking one list keeps the family apart. -/
theorem shrink (h : Apart q) {i : ι} {xs : List α} (hsub : xs.Sublist (q i)) :
    Apart (Function.update q i xs) :=
  h.replace (hsub.nodup (h.nodup i)) (fun _ ha => Or.inl (hsub.subset ha))

/-- An element of no list may join any list at its end. -/
theorem snoc (h : Apart q) {i : ι} {a : α} (ha : ∀ j, a ∉ q j) :
    Apart (Function.update q i (q i ++ [a])) := by
  apply h.replace
  · rw [List.nodup_append_comm]
    exact List.nodup_cons.mpr ⟨ha i, h.nodup i⟩
  · intro b hb
    rcases List.mem_append.mp hb with hb | hb
    · exact Or.inl hb
    · rw [List.mem_singleton] at hb
      exact Or.inr (hb ▸ ha)

/-- An element of no list may join any list at its front. -/
theorem cons (h : Apart q) {i : ι} {a : α} (ha : ∀ j, a ∉ q j) :
    Apart (Function.update q i (a :: q i)) := by
  apply h.replace (List.nodup_cons.mpr ⟨ha i, h.nodup i⟩)
  intro b hb
  rcases List.mem_cons.mp hb with hb | hb
  · exact Or.inr (hb ▸ ha)
  · exact Or.inl hb

/-- An element removed from its list stands in no list any more. -/
theorem not_mem_erase [DecidableEq α] (h : Apart q) {i : ι} {a : α} (ha : a ∈ q i) (j : ι) :
    a ∉ Function.update q i ((q i).erase a) j := by
  by_cases hj : j = i
  · subst hj
    simpa using (h.nodup j).not_mem_erase
  · rw [Function.update_of_ne hj]
    exact fun haj => hj (h.unique j i a haj ha)

variable [DecidableEq α] {i j : ι} {a : α}

lemma erase (h : Apart q) : Apart (Function.update q i ((q i).erase a)) :=
  h.shrink List.erase_sublist

/-- A queued element may move to the end of any list of the family. -/
theorem moveTo (h : Apart q) (ha : a ∈ q i) : Apart (moveTo q i j a) :=
  h.erase.snoc (h.not_mem_erase ha)

theorem moves {q' : ι → List α} (h : Apart q) (hm : Moves q q') : Apart q' := by
  induction hm with
  | refl => exact h
  | step _ ha ih => exact ih.moveTo ha

end Apart

end OsToyI386.Lib
