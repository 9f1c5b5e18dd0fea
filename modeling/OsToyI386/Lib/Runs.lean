import Mathlib.Data.List.Basic
import Mathlib.Data.List.Induction

/-!
# Runs of a labelled transition relation

A run is a finite sequence of labelled steps. The rules are the two inductions every
system needs: an invariant kept by each step holds at the end of each run, and a measure
that some labels lower and no label raises bounds how often those labels occur before
the goal is met.
-/

namespace OsToyI386.Lib

variable {σ Λ : Type*}

/-- `Run R s ls t`: steps labelled `ls` lead from `s` to `t`. -/
inductive Run (R : σ → Λ → σ → Prop) : σ → List Λ → σ → Prop
  | nil (s : σ) : Run R s [] s
  | cons {s t u : σ} {l : Λ} {ls : List Λ} : R s l t → Run R t ls u → Run R s (l :: ls) u

namespace Run

variable {R R' : σ → Λ → σ → Prop} {s t u : σ} {l : Λ} {ls ls' : List Λ}

lemma single (h : R s l t) : Run R s [l] t := cons h (nil t)

lemma append (h : Run R s ls t) (h' : Run R t ls' u) : Run R s (ls ++ ls') u := by
  induction h with
  | nil => exact h'
  | cons hstep _ ih => exact cons hstep (ih h')

lemma snoc (h : Run R s ls t) (hstep : R t l u) : Run R s (ls ++ [l]) u :=
  h.append (single hstep)

lemma mono (hR : ∀ s l t, R s l t → R' s l t) (h : Run R s ls t) : Run R' s ls t := by
  induction h with
  | nil => exact nil _
  | cons hstep _ ih => exact cons (hR _ _ _ hstep) ih

lemma relabel {Λ' : Type*} {S : σ → Λ' → σ → Prop} (f : Λ → Λ')
    (hR : ∀ s l t, R s l t → S s (f l) t) (h : Run R s ls t) : Run S s (ls.map f) t := by
  induction h with
  | nil => exact nil _
  | cons hstep _ ih => exact cons (hR _ _ _ hstep) ih

/-- What the steps of a run yield, in order. -/
def collect {α : Type*} (step : σ → Λ → Option σ) (f : σ → Λ → List α) : σ → List Λ → List α
  | _, [] => []
  | s, l :: ls =>
    f s l ++
      match step s l with
      | none => []
      | some t => collect step f t ls

lemma collect_snoc {α : Type*} {step : σ → Λ → Option σ} {f : σ → Λ → List α}
    (hR : ∀ s l t, R s l t → step s l = some t) (h : Run R s ls t) (l : Λ) :
    collect step f s (ls ++ [l]) = collect step f s ls ++ f t l := by
  induction h with
  | nil s =>
    simp only [List.nil_append, collect]
    cases step s l <;> simp
  | cons hs _ ih => simp only [List.cons_append, collect, hR _ _ _ hs, ih, List.append_assoc]

lemma split (h : Run R s (ls ++ ls') u) : ∃ t, Run R s ls t ∧ Run R t ls' u := by
  induction ls generalizing s with
  | nil => exact ⟨s, nil s, h⟩
  | cons l ls ih =>
    cases h with
    | cons hstep hrest =>
      obtain ⟨t, h1, h2⟩ := ih hrest
      exact ⟨t, cons hstep h1, h2⟩

/-- The invariant rule. -/
theorem invariant {I : σ → Prop} (hstep : ∀ s l t, I s → R s l t → I t)
    (h : Run R s ls t) (hs : I s) : I t := by
  induction h with
  | nil => exact hs
  | cons h1 _ ih => exact ih (hstep _ _ _ hs h1)

/-- The history rule: what holds of the empty run and is kept by a further step holds of
each run and its end. -/
theorem history {P : List Λ → σ → Prop} (h0 : P [] s)
    (hstep : ∀ ls t l u, Run R s ls t → P ls t → R t l u → P (ls ++ [l]) u)
    (h : Run R s ls t) : P ls t := by
  induction ls using List.reverseRecOn generalizing t with
  | nil =>
    cases h
    exact h0
  | append_singleton ls l ih =>
    obtain ⟨u, hr, hlast⟩ := h.split
    cases hlast with
    | cons hs hnil =>
      cases hnil
      exact hstep ls u l _ hr (ih hr) hs

/-- Two runs of a deterministic system that both end where nothing goes on end in one state. -/
theorem end_unique (hdet : ∀ s l t l' t', R s l t → R s l' t' → t = t')
    (h : Run R s ls t) (h' : Run R s ls' u) (ht : ∀ l v, ¬ R t l v) (hu : ∀ l v, ¬ R u l v) :
    t = u := by
  induction h generalizing ls' with
  | nil s =>
    cases h' with
    | nil => rfl
    | cons hstep _ => exact absurd hstep (ht _ _)
  | cons hstep _ ih =>
    cases h' with
    | nil => exact absurd hstep (hu _ _)
    | cons hstep' hrest =>
      obtain rfl := hdet _ _ _ _ _ hstep hstep'
      exact ih hrest ht

/-- The measure rule. While `W` holds the measure is positive, no step raises it, each
step whose label is counted lowers it, and a step that ends `W` meets the goal `G`. Then
a run with as many counted labels as the measure passes through the goal. -/
theorem reaches_goal {I W G : σ → Prop} {μ : σ → ℕ} {p : Λ → Bool}
    (hI : ∀ s l t, I s → R s l t → I t)
    (hpos : ∀ s, I s → W s → 0 < μ s)
    (hstep : ∀ s l t, I s → W s → R s l t →
      G t ∨ (W t ∧ μ t ≤ μ s ∧ (p l = true → μ t < μ s)))
    (h : Run R s ls t) (hs : I s) (hw : W s) (hcount : μ s ≤ ls.countP p) :
    ∃ ls₁ ls₂ v, ls = ls₁ ++ ls₂ ∧ Run R s ls₁ v ∧ Run R v ls₂ t ∧ G v := by
  induction h with
  | nil s =>
    have := hpos s hs hw
    simp at hcount
    omega
  | @cons s t u l ls h1 h2 ih =>
    rcases hstep s l t hs hw h1 with hg | ⟨hw', hle, hlt⟩
    · exact ⟨[l], ls, t, rfl, single h1, h2, hg⟩
    · have hcount' : μ t ≤ ls.countP p := by
        by_cases hp : p l = true
        · have := hlt hp
          rw [List.countP_cons_of_pos hp] at hcount
          omega
        · rw [List.countP_cons_of_neg hp] at hcount
          omega
      obtain ⟨ls₁, ls₂, v, hls, hr1, hr2, hg⟩ := ih (hI s l t hs h1) hw' hcount'
      exact ⟨l :: ls₁, ls₂, v, by rw [hls]; rfl, cons h1 hr1, hr2, hg⟩

/-- What is before a state that a first step leads to, or is the first state. -/
lemma before_cons {P : σ → Prop} {ls₁ : List Λ} (hdet : ∀ s l t t', R s l t → R s l t' → t = t')
    (h : R s l t) (hs : P s)
    (ht : ∀ xs l' ys w, ls₁ = xs ++ l' :: ys → Run R t xs w → P w) :
    ∀ xs l' ys w, l :: ls₁ = xs ++ l' :: ys → Run R s xs w → P w := by
  intro xs l' ys w hsplit hr
  cases hr with
  | nil => exact hs
  | cons h1 h2 =>
    obtain ⟨rfl, hrest⟩ := List.cons.inj hsplit
    obtain rfl := hdet _ _ _ _ h h1
    exact ht _ _ _ _ hrest h2

/-- The countdown rule. While `W k` holds, a step leaves the count alone, or raises it by one
and leads to `W j` with `k = j + 1`, or to the goal `G` if `k` is 0. Then a run that raises the
count by more than `k` passes through the goal when it has raised it by `k + 1`, and some `W`
holds in every state before. -/
theorem counts_down {I G : σ → Prop} {W : ℕ → σ → Prop} {c : σ → ℕ} {k : ℕ}
    (hdet : ∀ s l t t', R s l t → R s l t' → t = t')
    (hI : ∀ s l t, I s → R s l t → I t)
    (hstep : ∀ k s l t, I s → W k s → R s l t →
      (W k t ∧ c t = c s) ∨ (c t = c s + 1 ∧ (k = 0 → G t) ∧ ∀ j, k = j + 1 → W j t))
    (h : Run R s ls t) (hs : I s) (hw : W k s) (hcount : c s + k < c t) :
    ∃ ls₁ ls₂ v, ls = ls₁ ++ ls₂ ∧ Run R s ls₁ v ∧ Run R v ls₂ t ∧ c v = c s + k + 1 ∧ I v ∧
      G v ∧ ∀ xs l ys w, ls₁ = xs ++ l :: ys → Run R s xs w → ∃ j, W j w := by
  induction h generalizing k with
  | nil s => omega
  | @cons s t u l ls h1 h2 ih =>
    have ht := hI s l t hs h1
    rcases hstep k s l t hs hw h1 with ⟨hw', hsame⟩ | ⟨hmore, hgoal, hnext⟩
    · obtain ⟨ls₁, ls₂, v, hls, hr1, hr2, hc, hv, hg, hbefore⟩ := ih ht hw' (by omega)
      exact ⟨l :: ls₁, ls₂, v, by rw [hls]; rfl, cons h1 hr1, hr2, by omega, hv, hg,
        before_cons hdet h1 ⟨k, hw⟩ hbefore⟩
    · cases k with
      | zero =>
        refine ⟨[l], ls, t, rfl, single h1, h2, hmore, ht, hgoal rfl,
          before_cons hdet h1 ⟨0, hw⟩ fun xs l' ys w hsplit _ => ?_⟩
        simp at hsplit
      | succ j =>
        obtain ⟨ls₁, ls₂, v, hls, hr1, hr2, hc, hv, hg, hbefore⟩ :=
          ih ht (hnext j rfl) (by omega)
        exact ⟨l :: ls₁, ls₂, v, by rw [hls]; rfl, cons h1 hr1, hr2, by omega, hv, hg,
          before_cons hdet h1 ⟨j + 1, hw⟩ hbefore⟩

/-- The simulation rule. Each step of the one system is matched by steps of the other, under
the labels that `f` turns its label into. -/
theorem simulate {τ Λ' : Type*} {S : τ → Λ' → τ → Prop} {r : σ → τ → Prop} {f : Λ → List Λ'}
    (hstep : ∀ s l t x, r s x → R s l t → ∃ y, Run S x (f l) y ∧ r t y)
    (h : Run R s ls t) {x : τ} (hs : r s x) : ∃ y, Run S x (ls.flatMap f) y ∧ r t y := by
  induction h generalizing x with
  | nil s => exact ⟨x, nil x, hs⟩
  | cons h1 _ ih =>
    obtain ⟨y, hy, hry⟩ := hstep _ _ _ _ hs h1
    obtain ⟨z, hz, hrz⟩ := ih hry
    exact ⟨z, hy.append hz, hrz⟩

end Run

end OsToyI386.Lib
