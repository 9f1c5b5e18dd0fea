import OsToyI386.Properties.Trap

/-!
# Where the vectors lead

The stub behind each of the 128 gates once `irq_init` and `init_pit` have run.
-/

namespace OsToyI386

variable {addr : Stub → BitVec 32} {idt : Nat → GateDesc} {vector n : ℕ}

/-- The vectors without a stub of their own lead to the default one. -/
def stubAt (vector : ℕ) : Stub :=
  ((ownStubs.find? fun x => x.1 = vector).map Prod.snd).getD (.exn .unknown)

lemma irqDefault_of_lt (h : vector < n) :
    irqDefault addr idt n vector = stubGate (addr (.exn .unknown)) := by
  induction n with
  | zero => exact absurd h (Nat.not_lt_zero vector)
  | succ n ih =>
    rw [irqDefault, irqInstall]
    by_cases hn : vector = n
    · rw [hn, Function.update_self]
      rfl
    · rw [Function.update_of_ne hn]
      exact ih (by omega)

lemma stubAt_cases (vector : ℕ) :
    (vector, stubAt vector) ∈ ownStubs ∨
      stubAt vector = .exn .unknown ∧ ∀ x ∈ ownStubs, x.1 ≠ vector := by
  cases hfind : ownStubs.find? fun x => x.1 = vector with
  | some x =>
    left
    have hx : x.1 = vector := by simpa using List.find?_some hfind
    rw [stubAt, hfind, ← hx]
    exact List.mem_of_find?_eq_some hfind
  | none =>
    right
    refine ⟨by rw [stubAt, hfind]; rfl, fun x hx => ?_⟩
    simpa using List.find?_eq_none.mp hfind x hx

lemma gate_stubAt (h : vector < idtTableNr) :
    initPit addr (irqInit addr idt) vector = stubGate (addr (stubAt vector)) := by
  rcases stubAt_cases vector with hmem | ⟨hstub, hne⟩
  · exact gate_of_ownStubs hmem
  · have htimer : vector ≠ irq0Timer := fun he => hne (irq0Timer, .timer) (by decide) he.symm
    have hnot : vector ∉ irqStubs.map Prod.fst := by
      intro hmem
      obtain ⟨x, hx, hxv⟩ := List.mem_map.mp hmem
      exact hne (x.1, .exn x.2) (List.mem_append_left _ (List.mem_map.mpr ⟨x, hx, rfl⟩)) hxv
    rw [initPit, irqInstall, Function.update_of_ne htimer, irqInit, installs_of_not_mem hnot,
      irqDefault_of_lt h, hstub]

end OsToyI386
