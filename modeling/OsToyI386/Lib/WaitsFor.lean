import Mathlib.Logic.Relation
import Mathlib.Order.WellFoundedSet

/-!
# Parties that wait for resources

A party waits for resources that other parties hold. Where every party asks only for
resources of higher rank than those it holds, no party waits for itself, however long the
detour, and among finitely many waiting parties each one waits for some party that can go on.
-/

namespace OsToyI386.Lib

variable {α ρ : Type*}

/-- Who waits for what, and who holds what. -/
structure Waiting (α ρ : Type*) where
  waits : α → ρ → Prop
  holds : α → ρ → Prop

namespace Waiting

variable {W : Waiting α ρ} {rank : ρ → ℕ} {a b : α}

/-- Party `a` waits for a resource that party `b` holds. -/
def For (W : Waiting α ρ) (a b : α) : Prop := ∃ x, W.waits a x ∧ W.holds b x

/-- What a party waits for ranks above all that it holds. -/
def Ordered (W : Waiting α ρ) (rank : ρ → ℕ) : Prop :=
  ∀ a x y, W.waits a x → W.holds a y → rank y < rank x

lemma Ordered.rank_le (h : W.Ordered rank) (hab : Relation.TransGen W.For a b) :
    ∃ x y, W.waits a x ∧ W.holds b y ∧ rank x ≤ rank y := by
  induction hab with
  | single hstep =>
    obtain ⟨x, hw, hh⟩ := hstep
    exact ⟨x, x, hw, hh, le_rfl⟩
  | tail _ hstep ih =>
    obtain ⟨x, y, hw, hh, hle⟩ := ih
    obtain ⟨z, hw', hh'⟩ := hstep
    exact ⟨x, z, hw, hh', hle.trans (h _ z y hw' hh).le⟩

/-- There is no circle of parties each of which waits for the next. -/
theorem Ordered.acyclic (h : W.Ordered rank) (a : α) : ¬ Relation.TransGen W.For a a := by
  intro hcycle
  obtain ⟨x, y, hw, hh, hle⟩ := h.rank_le hcycle
  exact absurd (h a x y hw hh) (not_lt.mpr hle)

/-- Each waiting party waits, over others perhaps, for one that holds something and does not
wait. -/
theorem Ordered.leads_to_free (h : W.Ordered rank) (hfin : {a | ∃ x, W.waits a x}.Finite)
    (hheld : ∀ a x, W.waits a x → ∃ b, W.holds b x) (ha : ∃ x, W.waits a x) :
    ∃ b, Relation.TransGen W.For a b ∧ ¬ ∃ x, W.waits b x := by
  let r : α → α → Prop := fun b a => Relation.TransGen W.For a b
  have : IsStrictOrder α r :=
    { irrefl := h.acyclic
      trans := fun _ _ _ hab hbc => hbc.trans hab }
  have hwf : {a | ∃ x, W.waits a x}.WellFoundedOn r := hfin.wellFoundedOn
  refine hwf.induction (P := fun a => ∃ b, Relation.TransGen W.For a b ∧ ¬ ∃ x, W.waits b x)
    ha fun c hc ih => ?_
  obtain ⟨x, hw⟩ := hc
  obtain ⟨d, hd⟩ := hheld c x hw
  have hcd : Relation.TransGen W.For c d := .single ⟨x, hw, hd⟩
  by_cases hwait : ∃ y, W.waits d y
  · obtain ⟨b, hdb, hb⟩ := ih d hwait hcd
    exact ⟨b, hcd.trans hdb, hb⟩
  · exact ⟨d, hcd, hwait⟩

end Waiting

end OsToyI386.Lib
