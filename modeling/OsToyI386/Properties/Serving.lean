import OsToyI386.Properties.Fairness
import OsToyI386.Properties.Semaphore
import OsToyI386.Properties.Tick
import OsToyI386.Scheduler.Serving

/-!
# Waiters are served

A task that waits for a mutex or a semaphore becomes ready when its turn has come, as many
hand-overs or notifications later as its place in the wait list says, and then runs after a
bounded number of ticks.
-/

namespace OsToyI386

open Lib

variable {b : BootMem} {ls ls' : List Label} {m m' : Machine Sys} {o : Obj} {t : TaskPtr} {k : Nat}

lemma Core.Inv.curr_of_waiting {K : Core} (hK : K.Inv) (ht : (K.queue o.queue)[k]? = some t) :
    K.curr ≠ none := by
  intro hboot
  rw [(hK.boot hboot).others o.queue o.queue_ne_ready] at ht
  cases ht

namespace Machine

/-- The task is the last of `q + 1` ready tasks, and owns the mutex that it waited for. -/
structure TurnCome (m : Machine Sys) (o : Obj) (t : TaskPtr) (q : Nat) : Prop where
  pos : 1 ≤ q
  last : m.sys.ReadyAt t q
  count : listCount m.sys.heap .readyList = q + 1
  owner : ∀ x, o = .mutex x → m.sys.mutex x = ⟨some t, 1#32⟩

lemma Sim.turnCome {M : Machine Core} (h : m.Sim M) (ht : M.sys.Served o t) :
    ∃ q, m.TurnCome o t q := by
  obtain ⟨xs, hne, hready⟩ := ht.ready
  refine ⟨xs.length, List.length_pos_of_ne_nil hne, h.readyAt_iff.mpr ?_, ?_, fun x hx => ?_⟩
  · rw [hready, List.getElem?_concat_length]
  · have hcount : listCount m.sys.heap .readyList = _ := h.sys.listCount_eq .ready
    rw [hcount, hready, List.length_append]
    rfl
  · rw [h.sys.mutex]
    exact ht.owner x hx

lemma Sim.advances {M : Machine Core} {l : Label} (h : m.Sim M) (hM : M.Sound)
    (hs : m.Step l m') (ht : (m.sys.waiters o)[k]? = some t) :
    ((m'.sys.waiters o)[k]? = some t ∧ servings o m'.sys.trace = servings o m.sys.trace) ∨
      (servings o m'.sys.trace = servings o m.sys.trace + 1 ∧
        (k = 0 → ∃ M', m'.Sim M' ∧ M'.Sound ∧ M'.sys.Served o t) ∧
        ∀ j, k = j + 1 → (m'.sys.waiters o)[j]? = some t) := by
  obtain ⟨M', hs', h', hM'⟩ := h.step hM hs
  obtain ⟨-, a, rest, pc, new, hd, rfl⟩ := step_iff.mp hs'
  rw [h.sys.waiters] at ht
  rw [h'.sys.waiters, h.sys.trace, h'.sys.trace]
  rcases Core.Advances.exec hM.core (hM.enabled hd) ht with hstay | ⟨hone, hfirst, hup⟩
  · exact Or.inl hstay
  · exact Or.inr ⟨hone, fun hk => ⟨_, h', hM', hfirst hk⟩, hup⟩

end Machine

/-- The task at place `k` of a wait list waits until the serving number `k + 1` from now on, with
which it becomes ready and owns the mutex; and it runs once ten ticks have passed for each
task that is ready then. -/
theorem waiters_served_in_turn (h : b.Reaches ls m) (hwait : (m.sys.waiters o)[k]? = some t)
    (hr : Run Machine.Step m ls' m')
    (hserved : servings o m.sys.trace + k < servings o m'.sys.trace) :
    ∃ ls₁ ls₂ v q, ls' = ls₁ ++ ls₂ ∧ Run Machine.Step m ls₁ v ∧ Run Machine.Step v ls₂ m' ∧
      servings o v.sys.trace = servings o m.sys.trace + k + 1 ∧ v.TurnCome o t q ∧
      (∀ xs l ys w, ls₁ = xs ++ l :: ys → Run Machine.Step m xs w → t ∈ w.sys.waiters o) ∧
      (10 * q ≤ ls₂.countP Label.isTick →
        ∃ ls₃ ls₄ w, ls₂ = ls₃ ++ ls₄ ∧ Run Machine.Step v ls₃ w ∧ Run Machine.Step w ls₄ m' ∧
          w.sys.currTask = some t) := by
  obtain ⟨M, -, hsim, hM⟩ := h.sim
  have hplace : (M.sys.queue o.queue)[k]? = some t := by rwa [← hsim.sys.waiters]
  have hcurr : m.sys.currTask ≠ none := hsim.sys.curr ▸ hM.core.curr_of_waiting hplace
  have hkeep : ∀ m l m', (∃ M, m.Sim M ∧ M.Sound ∧ m.sys.currTask ≠ none) →
      Machine.Step m l m' → ∃ M, m'.Sim M ∧ M.Sound ∧ m'.sys.currTask ≠ none := by
    rintro m l m' ⟨M, h, hM, hc⟩ hs
    obtain ⟨M', hs', h', hM'⟩ := h.step hM hs
    exact ⟨M', h', hM', h'.sys.curr ▸ Machine.Sim.curr_ne_none hM hs' (h.sys.curr ▸ hc)⟩
  obtain ⟨ls₁, ls₂, v, hls, hr1, hr2, hcount, ⟨-, -, -, hcv⟩, ⟨M', hsim', hM', hturn⟩, hbefore⟩ :=
    hr.counts_down (fun _ _ _ _ hs hs' => Option.some.inj (hs.symm.trans hs')) hkeep
      (fun k m l m' ⟨M, h, hM, _⟩ ht hs => h.advances hM hs ht) ⟨M, hsim, hM, hcurr⟩ hwait hserved
  obtain ⟨q, hq⟩ := hsim'.turnCome hturn
  refine ⟨ls₁, ls₂, v, q, hls, hr1, hr2, hcount, hq, fun xs l ys w hxs hrun => ?_,
    fun hticks => ?_⟩
  · obtain ⟨j, hj⟩ := hbefore xs l ys w hxs hrun
    exact List.mem_of_getElem? hj
  · exact hsim'.runs_at_last hM' hcv hq.pos hq.last hr2 hticks

/-- The second task notifies the main task. -/
theorem waiters_served_in_turn_main : ∃ ls m m', BootMem.broke.Reaches ls m ∧
    m.sys.waiters (.sem ⟨0⟩) = [.mainTask] ∧ m.Step (.call (.semNotify ⟨0⟩)) m' ∧
    ∃ (v : Machine Sys) (q : Nat), v.TurnCome (.sem ⟨0⟩) .mainTask q := by
  obtain ⟨K, ls, m, m', hm, -, hrep, -, hwaiting, hs, hrep'⟩ := BootMem.broke_notifies
  have hserved : servings (.sem ⟨0⟩) m.sys.trace + 0 < servings (.sem ⟨0⟩) m'.sys.trace := by
    have hone : servings (.sem ⟨0⟩) (K.exec (.notify ⟨0⟩)).trace = _ :=
      Core.Advances.servings_notify K ⟨0⟩
    rw [hrep.trace, hrep'.trace]
    exact hone ▸ Nat.lt_succ_self _
  have hfirst : (m.sys.waiters (.sem ⟨0⟩))[0]? = some .mainTask := by rw [hwaiting]; rfl
  obtain ⟨-, -, v, q, -, -, -, -, hturn, -⟩ :=
    waiters_served_in_turn hm hfirst (.single hs) hserved
  exact ⟨ls, m, m', hm, hwaiting, hs, v, q, hturn⟩

end OsToyI386
