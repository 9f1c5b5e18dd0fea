import OsToyI386.Kernel.Init
import OsToyI386.Properties.LogLines
import OsToyI386.Properties.Semaphore

/-!
# Contexts that follow programs

What a context has called, what its calls have done: its lines have begun in order, its
notifications are in the trace, and its waits have been granted but for the one it is in.
-/

namespace OsToyI386

open Lib

lemma Program.calls_succ (p : Program) (n : Nat) :
    p.calls (n + 1) = p.calls n ++ (p n).toList := by
  rw [calls, calls, List.range_succ, List.filterMap_append]
  cases h : p n <;> simp [h]

def Op.text : Op → Option (List (BitVec 8))
  | log text => some text
  | _ => none

/-- The texts that calls log. -/
def textsIn (ops : List Op) : List (List (BitVec 8)) := ops.filterMap Op.text

lemma textsIn_append (xs ys : List Op) : textsIn (xs ++ ys) = textsIn xs ++ textsIn ys :=
  List.filterMap_append ..

lemma textsIn_logged (l : Label) (c : Ctx) :
    textsIn (l.calls c c) = textsOf c (l.logged c) := by
  cases l with
  | call op => cases op <;> simp [Label.calls, Label.logged, textsIn, textsOf, Op.text]
  | run => rfl
  | tick => rfl

lemma Label.count_calls (l : Label) (c : Ctx) (op : Op) :
    (l.calls c c).count op = [l].count (.call op) := by
  cases l with
  | call op' => simp [Label.calls, List.count_singleton]
  | run => rfl
  | tick => rfl

/-- The record agrees with what has begun to be written. -/
structure Machine.Records (M : Machine Core) (made : Ctx → List Op) : Prop where
  texts : ∀ c, textsIn (made c) = textsOf c (begunCalls M.sys.trace) ++ (M.ctl c).pc.unbegun
  last : ∀ c text, (M.ctl c).pc.unbegun = [text] → (made c).getLast? = some (.log text)

namespace Machine.Records

variable {M : Machine Core} {made : Ctx → List Op} {l : Label} {a : Act} {rest : List Epilogue}
  {pc : Pc} {new : List TaskPtr}

lemma calls_ne (l : Label) {c d : Ctx} (h : d ≠ c) : l.calls c d = [] := by
  cases l with
  | call op => simp [Label.calls, h]
  | run => rfl
  | tick => rfl

lemma begun_ne (hd : M.Does l a rest pc new) {c : Ctx} (hc : c ≠ M.sys.curr) :
    textsOf c (begunCalls (M.sys.exec a).trace) = textsOf c (begunCalls M.sys.trace) := by
  by_cases ha : ∃ d text, a = .note (.logBegin d text)
  · obtain ⟨d, text, rfl⟩ := ha
    have hcurr : d = M.sys.curr := by
      rcases does_unbegun hd with ⟨text', ha, -⟩ | ⟨ha, -⟩ | ⟨ha, -⟩
      · cases ha
        rfl
      · exact absurd rfl (ha d text)
      · exact absurd rfl (ha d text)
    have hbegun : begunCalls (M.sys.exec (.note (.logBegin d text))).trace =
        begunCalls M.sys.trace ++ [(d, text)] := begunCalls_append ..
    rw [hbegun, textsOf_append]
    simp [textsOf, hcurr, Ne.symm hc]
  · rw [Core.exec_begun fun d text he => ha ⟨d, text, he⟩]

theorem after (h : M.Records made) (hM : M.Sound) (hd : M.Does l a rest pc new) :
    (M.after a rest pc new).Records fun d => made d ++ l.calls M.sys.curr d := by
  obtain ⟨hrun, hothers⟩ := hM.place_after hd
  have hsys : (M.after a rest pc new).sys = M.sys.exec a := rfl
  refine ⟨fun c => ?_, fun c text hc => ?_⟩
  · rw [textsIn_append, h.texts c, hsys]
    by_cases hc : c = M.sys.curr
    · subst hc
      rw [hrun, textsIn_logged]
      rcases does_unbegun hd with ⟨text, rfl, hl, hold, hnew⟩ | ⟨ha, hl, hold⟩ | ⟨ha, hl, hsame⟩
      · have hbegun : begunCalls (M.sys.exec (.note (.logBegin M.sys.curr text))).trace =
            begunCalls M.sys.trace ++ [(M.sys.curr, text)] := begunCalls_append ..
        rw [hbegun, hl, hold, hnew, textsOf_append]
        simp [textsOf]
      · rw [Core.exec_begun ha, hl, hold, List.append_nil]
      · rw [Core.exec_begun ha, hl, hsame]
        exact List.append_nil _
    · rw [hothers c hc, calls_ne l hc, begun_ne hd hc]
      exact List.append_nil _
  · by_cases hcurr : c = M.sys.curr
    · subst hcurr
      rw [hrun] at hc
      rcases does_unbegun hd with ⟨text', -, -, -, hnew⟩ | ⟨-, hl, -⟩ | ⟨-, hl, hsame⟩
      · rw [hnew] at hc
        cases hc
      · -- the step is the call that logs the text
        rw [hc, ← textsIn_logged] at hl
        cases l with
        | call op =>
          have hop : op.text = some text := by
            cases hop : op.text <;> simp [Label.calls, textsIn, hop] at hl ⊢
            exact hl
          have hlog : op = .log text := by
            cases op <;> cases hop
            rfl
          simp [Label.calls, hlog]
        | run => cases hl
        | tick => cases hl
      · cases l with
        | call op =>
          cases hd with
          | call hown _ =>
            have hown' : M.ctl M.sys.curr = .own := hown
            rw [hsame, hown'] at hc
            cases hc
        | run =>
          rw [hsame] at hc
          simpa [Label.calls] using h.last _ text hc
        | tick =>
          rw [hsame] at hc
          simpa [Label.calls] using h.last _ text hc
    · rw [hothers c hcurr] at hc
      rw [calls_ne l hcurr, List.append_nil]
      exact h.last c text hc

lemma boot (b : BootMem) : b.abstract.Records fun _ => [] := by
  have hpc : ∀ c, (b.abstract.ctl c).pc.unbegun = [] := by
    intro c
    by_cases hc : c = none
    · simp [BootMem.abstract, BootMem.machine, hc, Pc.unbegun]
    · simp [BootMem.abstract, BootMem.machine, hc, Ctl.own, Pc.unbegun]
  refine ⟨fun c => ?_, fun c text h => ?_⟩
  · rw [hpc c]
    rfl
  · rw [hpc c] at h
    cases h

end Machine.Records

end OsToyI386
