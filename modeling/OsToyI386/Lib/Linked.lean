import Mathlib.Data.List.Nodup

/-!
# Doubly linked sequences

A map from nodes to their two links represents a sequence when, wherever the sequence is
cut at a node, the links of that node are its neighbours on both sides of the cut. The
rules below say how a sequence changes when a node is linked at an end or unlinked
anywhere, and that walking the links in either direction reads the sequence back.
-/

namespace OsToyI386.Lib

variable {ν : Type*}

/-- The two links embedded in a node. -/
structure Links (ν : Type*) where
  pre : Option ν
  next : Option ν
  deriving DecidableEq

/-- The links of every node of the sequence are its neighbours. -/
def Linked (node : ν → Links ν) (xs : List ν) : Prop :=
  ∀ ys n zs, xs = ys ++ n :: zs → node n = ⟨ys.getLast?, zs.head?⟩

/-- At most `k` nodes met by following a link function from a starting pointer. -/
def follow (f : ν → Option ν) : ℕ → Option ν → List ν
  | 0, _ => []
  | _ + 1, none => []
  | k + 1, some n => n :: follow f k (f n)

@[simp] lemma follow_none (f : ν → Option ν) (k : ℕ) : follow f k none = [] := by
  cases k <;> rfl

namespace Linked

variable {node node' : ν → Links ν} {xs ys zs : List ν} {n : ν}

@[simp] lemma nil : Linked node [] := by
  intro ys n zs h
  simp at h

lemma congr (h : Linked node xs) (heq : ∀ n ∈ xs, node' n = node n) : Linked node' xs := by
  intro ys n zs hcut
  rw [heq n (by simp [hcut]), h ys n zs hcut]

lemma next_eq (h : Linked node (ys ++ n :: zs)) : (node n).next = zs.head? := by
  rw [h ys n zs rfl]

lemma mirror (h : Linked node xs) :
    Linked (fun n => ⟨(node n).next, (node n).pre⟩) xs.reverse := by
  intro ys n zs hcut
  have hxs : xs = zs.reverse ++ n :: ys.reverse := by
    rw [← List.reverse_reverse xs, hcut]
    simp
  simp [h _ _ _ hxs, List.head?_reverse, List.getLast?_reverse]

lemma snoc (h : Linked node xs) (hnodup : xs.Nodup)
    (hn : node' n = ⟨xs.getLast?, none⟩)
    (hlast : ∀ e, xs.getLast? = some e → node' e = ⟨(node e).pre, some n⟩)
    (hrest : ∀ m ∈ xs, xs.getLast? ≠ some m → node' m = node m) :
    Linked node' (xs ++ [n]) := by
  intro ys m zs hcut
  rcases List.eq_nil_or_concat zs with rfl | ⟨zs', b, rfl⟩
  · have hend : xs = ys ∧ [n] = [m] := List.append_inj' hcut rfl
    obtain ⟨rfl, hm⟩ := hend
    rw [List.singleton_inj] at hm
    rw [← hm, hn]
    rfl
  · have hcut' : xs ++ [n] = (ys ++ m :: zs') ++ [b] := by simpa using hcut
    have hend : xs = ys ++ m :: zs' ∧ [n] = [b] := List.append_inj' hcut' rfl
    obtain ⟨hxs, hb⟩ := hend
    rw [List.singleton_inj] at hb
    subst hb
    by_cases hz : zs' = []
    · subst hz
      have hm : xs.getLast? = some m := by simp [hxs]
      rw [hlast m hm, h ys m [] hxs]
      rfl
    · have hm : xs.getLast? ≠ some m := by
        intro hm
        have hmem : m ∈ zs' := by
          rw [hxs, List.getLast?_append_of_ne_nil _ (by simp),
            List.getLast?_cons_of_ne_nil hz] at hm
          exact List.mem_of_getLast? hm
        rw [hxs] at hnodup
        exact (List.nodup_cons.mp (hnodup.of_append_right)).1 hmem
      rw [hrest m (by simp [hxs]) hm, h ys m zs' hxs]
      cases zs' with
      | nil => exact absurd rfl hz
      | cons a t => rfl

lemma cons (h : Linked node xs) (hnodup : xs.Nodup)
    (hn : node' n = ⟨none, xs.head?⟩)
    (hfirst : ∀ e, xs.head? = some e → node' e = ⟨some n, (node e).next⟩)
    (hrest : ∀ m ∈ xs, xs.head? ≠ some m → node' m = node m) :
    Linked node' (n :: xs) := by
  have hmirror : Linked (fun m => ⟨(node' m).next, (node' m).pre⟩) (xs.reverse ++ [n]) := by
    apply h.mirror.snoc (List.nodup_reverse.mpr hnodup)
    · simp [hn, List.getLast?_reverse]
    · intro e he
      rw [List.getLast?_reverse] at he
      simp [hfirst e he]
    · intro m hm hne
      rw [List.getLast?_reverse] at hne
      simp [hrest m (List.mem_reverse.mp hm) hne]
  simpa using hmirror.mirror

lemma unlink (h : Linked node (ys ++ n :: zs)) (hnodup : (ys ++ n :: zs).Nodup)
    (hleft : ∀ e, ys.getLast? = some e → node' e = ⟨(node e).pre, zs.head?⟩)
    (hright : ∀ e, zs.head? = some e → node' e = ⟨ys.getLast?, (node e).next⟩)
    (hrest : ∀ m ∈ ys ++ zs, ys.getLast? ≠ some m → zs.head? ≠ some m → node' m = node m) :
    Linked node' (ys ++ zs) := by
  have hdisj : ∀ a ∈ ys, a ∉ zs := by
    intro a ha hz
    exact (List.nodup_append.mp hnodup).2.2 a ha a (List.mem_cons_of_mem _ hz) rfl
  intro as m bs hcut
  rcases List.append_eq_append_iff.mp hcut with ⟨cs, has, hzs⟩ | ⟨cs, hys, hbs⟩
  · -- the cut lies in `zs`
    subst has
    have hm : m ∈ zs := by simp [hzs]
    have hold := h (ys ++ n :: cs) m bs (by simp [hzs])
    have hl : ys.getLast? ≠ some m := fun hy => hdisj m (List.mem_of_getLast? hy) hm
    cases cs with
    | nil =>
      rw [hright m (by simp [hzs]), hold]
      simp
    | cons c cs =>
      have hr : zs.head? ≠ some m := by
        rw [hzs]
        have hnd : zs.Nodup := (List.nodup_cons.mp hnodup.of_append_right).2
        rw [hzs] at hnd
        intro hc
        simp only [List.cons_append, List.head?_cons, Option.some.injEq] at hc
        subst hc
        simp at hnd
      rw [hrest m (by simp [hm]) hl hr, hold]
      simp [List.getLast?_append, List.getLast?_cons]
  · cases cs with
    | nil =>
      -- the cut lies between `ys` and `zs`
      simp only [List.append_nil, List.nil_append] at hys hbs
      subst hys
      rw [hright m (by simp [← hbs])]
      have hold := h (ys ++ [n]) m bs (by simp [← hbs])
      rw [hold]
    | cons c cs =>
      -- the cut lies in `ys`
      simp only [List.cons_append, List.cons.injEq] at hbs
      obtain ⟨rfl, rfl⟩ := hbs
      have hm : m ∈ ys := by simp [hys]
      have hold := h as m (cs ++ n :: zs) (by simp [hys])
      have hr : zs.head? ≠ some m := fun hz => hdisj m hm (List.mem_of_head? hz)
      cases hcs : cs with
      | nil =>
        rw [hleft m (by simp [hys, hcs]), hold]
        simp
      | cons d ds =>
        have hl : ys.getLast? ≠ some m := by
          have hnd : ys.Nodup := hnodup.of_append_left
          rw [hys, hcs] at hnd ⊢
          intro hc
          rw [List.getLast?_append_of_ne_nil _ (by simp),
            List.getLast?_cons_of_ne_nil (by simp)] at hc
          exact (List.nodup_cons.mp hnd.of_append_right).1 (List.mem_of_getLast? hc)
        rw [hrest m (by simp [hm]) hl hr, hold, hcs]
        simp

lemma follow_next (ys zs : List ν) (h : Linked node (ys ++ zs)) (k : ℕ) :
    follow (fun n => (node n).next) k zs.head? = zs.take k := by
  induction k generalizing ys zs with
  | zero => rfl
  | succ k ih =>
    cases zs with
    | nil => rfl
    | cons n zs =>
      simp only [List.head?_cons, follow, h.next_eq, List.take_succ_cons]
      rw [ih (ys ++ [n]) _ (by simpa using h)]

lemma follow_pre (h : Linked node xs) (k : ℕ) :
    follow (fun n => (node n).pre) k xs.getLast? = xs.reverse.take k := by
  have hm := follow_next [] _ (by simpa using h.mirror) k
  simpa [List.head?_reverse] using hm

end Linked

end OsToyI386.Lib
