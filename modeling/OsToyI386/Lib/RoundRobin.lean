import Mathlib.Data.List.Nodup
import Mathlib.Data.Set.Basic
import OsToyI386.Lib.Runs

/-!
# Round robin

The first member of a queue is served unit by unit; when its quantum is used up it goes to
the end with a new one. Of two members that leave the queue for no other reason, whatever
the others do, the one that stood before the other is ahead by one quantum at most.
-/

namespace OsToyI386.Lib

/-- A queue and what is left of each member's quantum. -/
structure RoundRobin (α : Type*) (quantum : Int) where
  queue : List α
  left : α → Int
  nodup : queue.Nodup
  pos : ∀ x ∈ queue, 1 ≤ left x
  le : ∀ x ∈ queue, left x ≤ quantum

namespace RoundRobin

variable {α : Type*} {quantum : Int}

/-- One step, labelled with the member that is served. Only members outside of `S` give up
their turn. -/
inductive Step (S : Set α) : RoundRobin α quantum → Option α → RoundRobin α quantum → Prop
  | serve {r r' : RoundRobin α quantum} {c : α} {xs new : List α} : r.queue = c :: xs →
      r.left c ≠ 1 → r'.queue = r.queue ++ new → r'.left c = r.left c - 1 →
      (∀ x ∈ xs, r'.left x = r.left x) → Step S r (some c) r'
  | expire {r r' : RoundRobin α quantum} {c : α} {xs new : List α} : r.queue = c :: xs →
      r.left c = 1 → r'.queue = xs ++ [c] ++ new → r'.left c = quantum →
      (∀ x ∈ xs, r'.left x = r.left x) → Step S r (some c) r'
  | join {r r' : RoundRobin α quantum} {new : List α} : r'.queue = r.queue ++ new →
      (∀ x ∈ r.queue, r'.left x = r.left x) → Step S r none r'
  | pass {r r' : RoundRobin α quantum} {c : α} {xs new : List α} : r.queue = c :: xs → c ∉ S →
      r'.queue = xs ++ new → (∀ x ∈ xs, r'.left x = r.left x) → Step S r none r'

variable [DecidableEq α] {S : Set α} {r₀ r r' : RoundRobin α quantum} {l : Option α}
  {cs : List (Option α)} {t u : α} {d : Int}

/-- What a member has got of new quanta since `r₀`. -/
def renewed (r₀ : RoundRobin α quantum) (cs : List (Option α)) (r : RoundRobin α quantum)
    (x : α) : Int :=
  cs.count (some x) + r.left x - r₀.left x

/-- Since `r₀` the services `cs` have led to `r`, where `t` has its turn before `u`, which
has not used anything of its last quantum. -/
structure Ahead (r₀ : RoundRobin α quantum) (cs : List (Option α)) (r : RoundRobin α quantum)
    (t u : α) (d : Int) : Prop where
  before : [t, u].Sublist r.queue
  renewed_eq : renewed r₀ cs r t = renewed r₀ cs r u + d
  unused : r.left u = quantum ∨ (d = 0 ∧ cs.count (some u) = 0)

lemma renewed_snoc (x : α) : renewed r₀ (cs ++ [l]) r' x =
    renewed r₀ cs r x + (if l = some x then 1 else 0) + (r'.left x - r.left x) := by
  unfold renewed
  rw [List.count_append]
  by_cases hl : l = some x
  · simp [hl]
    omega
  · simp [hl]
    omega

lemma renewed_snoc_of_ne {x : α} (hl : l ≠ some x) (hleft : r'.left x = r.left x) :
    renewed r₀ (cs ++ [l]) r' x = renewed r₀ cs r x := by
  rw [renewed_snoc (r := r), if_neg hl, hleft]
  omega

lemma count_snoc_of_ne {x : α} (hl : l ≠ some x) :
    (cs ++ [l]).count (some x) = cs.count (some x) := by
  simp [List.count_append, hl]

namespace Ahead

lemma mem (h : Ahead r₀ cs r t u d) : t ∈ r.queue ∧ u ∈ r.queue :=
  ⟨h.before.subset (by simp), h.before.subset (by simp)⟩

lemma second_mem (h : Ahead r₀ cs r t u d) {c : α} {xs : List α} (hq : r.queue = c :: xs) :
    u ∈ xs := by
  have hsub := h.before
  rw [hq] at hsub
  cases hsub with
  | cons _ hrest => exact hrest.subset (by simp)
  | cons_cons _ hrest => exact hrest.subset (by simp)

lemma some_ne (h : Ahead r₀ cs r t u d) {c : α} {xs : List α} (hq : r.queue = c :: xs) :
    some c ≠ some u := by
  rintro ⟨⟩
  have hnd := r.nodup
  rw [hq] at hnd
  exact (List.nodup_cons.mp hnd).1 (h.second_mem hq)

lemma sublist_tail (h : Ahead r₀ cs r t u d) {c : α} {xs : List α} (hq : r.queue = c :: xs)
    (htc : t ≠ c) : [t, u].Sublist xs := by
  have hsub := h.before
  rw [hq] at hsub
  cases hsub with
  | cons _ hrest => exact hrest
  | cons_cons => exact absurd rfl htc

lemma of_ne (h : Ahead r₀ cs r t u d) (hl : l ≠ some t ∧ l ≠ some u)
    (hbefore : [t, u].Sublist r'.queue) (hleft : r'.left t = r.left t ∧ r'.left u = r.left u) :
    Ahead r₀ (cs ++ [l]) r' t u d := by
  refine ⟨hbefore, ?_, ?_⟩
  · rw [renewed_snoc_of_ne hl.1 hleft.1, renewed_snoc_of_ne hl.2 hleft.2, h.renewed_eq]
  · rw [hleft.2, count_snoc_of_ne hl.2]
    exact h.unused

lemma step (h : Ahead r₀ cs r t u d) (ht : t ∈ S) (hs : Step S r l r') :
    Ahead r₀ (cs ++ [l]) r' t u d ∨ Ahead r₀ (cs ++ [l]) r' u t (-quantum - d) := by
  cases hs with
  | @serve _ c xs new hq hleft hq' hc hrest =>
    have hsub : [t, u].Sublist r'.queue := by
      rw [hq']
      exact h.before.trans (List.sublist_append_left _ _)
    have hu := hrest u (h.second_mem hq)
    have hcu := h.some_ne hq
    left
    by_cases htc : t = c
    · subst htc
      refine ⟨hsub, ?_, ?_⟩
      · rw [renewed_snoc (r := r), if_pos rfl, renewed_snoc_of_ne hcu hu, hc, h.renewed_eq]
        omega
      · rw [hu, count_snoc_of_ne hcu]
        exact h.unused
    · have htxs := (h.sublist_tail hq htc).subset (List.mem_cons_self ..)
      exact h.of_ne ⟨by simpa using Ne.symm htc, hcu⟩ hsub ⟨hrest t htxs, hu⟩
  | @expire _ c xs new hq hleft hq' hc hrest =>
    have hu := hrest u (h.second_mem hq)
    have hcu := h.some_ne hq
    by_cases htc : t = c
    · subst htc
      right
      have hsub : [u, t].Sublist r'.queue := by
        rw [hq']
        exact ((List.singleton_sublist.mpr (h.second_mem hq)).append (.refl [t])).trans
          (List.sublist_append_left _ _)
      refine ⟨hsub, ?_, Or.inl hc⟩
      rw [renewed_snoc (r := r) t, if_pos rfl, renewed_snoc_of_ne hcu hu, hc, hleft,
        h.renewed_eq]
      omega
    · left
      have hxs := h.sublist_tail hq htc
      refine h.of_ne ⟨by simpa using Ne.symm htc, hcu⟩ ?_ ⟨hrest t (hxs.subset (by simp)), hu⟩
      rw [hq', List.append_assoc]
      exact hxs.trans (List.sublist_append_left _ _)
  | join hq' hrest =>
    left
    refine h.of_ne ⟨by simp, by simp⟩ ?_ ⟨hrest t h.mem.1, hrest u h.mem.2⟩
    rw [hq']
    exact h.before.trans (List.sublist_append_left _ _)
  | @pass _ c xs new hq hS hq' hrest =>
    left
    have htc : t ≠ c := fun heq => hS (heq ▸ ht)
    have hxs := h.sublist_tail hq htc
    refine h.of_ne ⟨by simp, by simp⟩ ?_
      ⟨hrest t (hxs.subset (by simp)), hrest u (h.second_mem hq)⟩
    rw [hq']
    exact hxs.trans (List.sublist_append_left _ _)

end Ahead

lemma ahead_run (ht : t ∈ S) (hu : u ∈ S) (hbefore : [t, u].Sublist r.queue)
    (h : Run (Step S) r cs r') :
    Ahead r cs r' t u 0 ∨ Ahead r cs r' u t (-quantum) := by
  refine h.history (P := fun cs r' => Ahead r cs r' t u 0 ∨ Ahead r cs r' u t (-quantum)) ?_ ?_
  · exact Or.inl ⟨hbefore, by simp [renewed], Or.inr ⟨rfl, rfl⟩⟩
  · rintro ls v l w - (h | h) hs
    · rcases h.step ht hs with h' | h'
      · exact Or.inl h'
      · right
        simpa using h'
    · rcases h.step hu hs with h' | h'
      · exact Or.inr h'
      · left
        simpa using h'

/-- The one that stood before the other is ahead by one quantum at most, and behind by what
it had less at the beginning. -/
theorem shares (ht : t ∈ S) (hu : u ∈ S) (hbefore : [t, u].Sublist r.queue)
    (h : Run (Step S) r cs r') :
    min 0 (r.left t - r.left u) ≤ cs.count (some t) - cs.count (some u) ∧
      (cs.count (some t) : Int) - cs.count (some u) ≤ quantum + (r.left t - r.left u) := by
  have hule := r.le u (hbefore.subset (by simp))
  rcases ahead_run ht hu hbefore h with ha | ha
  · have heq := ha.renewed_eq
    have htpos := r'.pos t ha.mem.1
    have htle := r'.le t ha.mem.1
    have hule' := r'.le u ha.mem.2
    unfold renewed at heq
    rcases ha.unused with hfull | ⟨hd, hzero⟩
    · omega
    · omega
  · have heq := ha.renewed_eq
    have hupos := r'.pos u ha.mem.1
    have hule' := r'.le u ha.mem.1
    unfold renewed at heq
    rcases ha.unused with hfull | ⟨hd, hzero⟩
    · omega
    · omega

end RoundRobin

end OsToyI386.Lib
