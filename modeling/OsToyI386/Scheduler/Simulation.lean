import OsToyI386.Scheduler.Control
import OsToyI386.Scheduler.Refinement

/-!
# The machine simulates its abstraction

Every run over memory is a run over the queues: the same labels, the same places and
epilogues of every context, and a memory that holds the queues all along. What is proved
of the abstract machine therefore holds of the code.
-/

namespace OsToyI386

open Lib

/-- The machine over memory is a picture of the machine over queues. -/
structure Machine.Sim (m : Machine Sys) (M : Machine Core) : Prop where
  sys : Repr m.sys M.sys
  ctl : m.ctl = M.ctl
  started : m.started = M.started

namespace Machine.Sim

variable {m m' : Machine Sys} {M : Machine Core} {l : Label} {ls : List Label} {a : Act}
  {rest : List Epilogue} {pc : Pc} {new : List TaskPtr}

lemma running (h : m.Sim M) : m.running = M.running := h.sys.curr

lemma cpu (h : m.Sim M) : Kernel.cpu m.sys = Kernel.cpu M.sys := h.sys.cpu

lemma allows (h : m.Sim M) (op : Op) : m.allows op = M.allows op := by
  rw [Machine.allows, Machine.allows, h.running, h.started]

lemma live_iff (h : m.Sim M) : m.Live ↔ M.Live := by
  rw [Live, Live, ← h.cpu, ← h.running]

lemma does_iff (h : m.Sim M) : m.Does l a rest pc new ↔ M.Does l a rest pc new := by
  constructor
  · intro hd
    cases hd with
    | tick hi =>
      rw [h.ctl, h.running]
      exact .tick (h.cpu ▸ hi)
    | ret hp =>
      rw [h.ctl, h.running] at hp ⊢
      exact .ret hp
    | code hp hnext =>
      rw [h.ctl, h.running] at hp hnext
      exact .code hp (h.cpu ▸ hnext)
    | call hown hop =>
      rw [h.ctl, h.running] at hown
      exact .call hown (h.allows _ ▸ hop)
  · intro hd
    cases hd with
    | tick hi =>
      rw [← h.ctl, ← h.running]
      exact .tick (h.cpu ▸ hi)
    | ret hp =>
      rw [← h.ctl, ← h.running] at hp ⊢
      exact .ret hp
    | code hp hnext =>
      rw [← h.ctl, ← h.running] at hp hnext
      exact .code hp (h.cpu ▸ hnext)
    | call hown hop =>
      rw [← h.ctl, ← h.running] at hown
      exact .call hown (h.allows _ ▸ hop)

lemma after (h : m.Sim M) (hM : M.Sound) (he : M.sys.Enabled a) :
    (m.after a rest pc new).Sim (M.after a rest pc new) := by
  obtain ⟨hsys, hleaves⟩ := exec_refines h.sys hM.core he
  have hrun : Kernel.currTask m.sys = Kernel.currTask M.sys := h.running
  have hl : (Kernel.exec a m.sys).2 = (Kernel.exec a M.sys).2 := hleaves
  refine ⟨hsys, ?_, ?_⟩
  · simp only [Machine.after, commit, Machine.running, h.ctl, hl, hrun]
  · simp only [Machine.after, commit, h.started]

/-- Each step is a step of the abstract machine. -/
theorem step (h : m.Sim M) (hM : M.Sound) (hs : m.Step l m') :
    ∃ M', M.Step l M' ∧ m'.Sim M' ∧ M'.Sound := by
  obtain ⟨hlive, a, rest, pc, new, hd, rfl⟩ := step_iff.mp hs
  have hd' := h.does_iff.mp hd
  exact ⟨_, step_iff.mpr ⟨h.live_iff.mp hlive, a, rest, pc, new, hd', rfl⟩,
    h.after hM (hM.enabled hd'), hM.after hd'⟩

/-- Each step of the abstract machine is a step over memory. -/
theorem step_back {M' : Machine Core} (h : m.Sim M) (hM : M.Sound) (hs : M.Step l M') :
    ∃ m', m.Step l m' ∧ m'.Sim M' := by
  obtain ⟨hlive, a, rest, pc, new, hd, rfl⟩ := step_iff.mp hs
  refine ⟨_, step_iff.mpr ⟨h.live_iff.mpr hlive, a, rest, pc, new, h.does_iff.mpr hd, rfl⟩, ?_⟩
  exact h.after hM (hM.enabled hd)

theorem run_back {M' : Machine Core} (h : m.Sim M) (hM : M.Sound) (hr : Run Step M ls M') :
    ∃ m', Run Step m ls m' ∧ m'.Sim M' := by
  induction hr generalizing m with
  | nil => exact ⟨m, .nil m, h⟩
  | cons hs _ ih =>
    obtain ⟨m₁, hs₁, h₁⟩ := h.step_back hM hs
    obtain ⟨m', hr', h'⟩ := ih h₁ (hM.step hs)
    exact ⟨m', .cons hs₁ hr', h'⟩

/-- Each run is a run of the abstract machine. -/
theorem run (h : m.Sim M) (hM : M.Sound) (hr : Run Step m ls m') :
    ∃ M', Run Step M ls M' ∧ m'.Sim M' ∧ M'.Sound := by
  induction hr generalizing M with
  | nil => exact ⟨M, .nil M, h, hM⟩
  | cons hs _ ih =>
    obtain ⟨M₁, hs₁, h₁, hM₁⟩ := h.step hM hs
    obtain ⟨M', hr', h', hM'⟩ := ih h₁ hM₁
    exact ⟨M', .cons hs₁ hr', h', hM'⟩

end Machine.Sim

namespace BootMem

/-- The abstract state at boot: nobody is anywhere. -/
def core (b : BootMem) : Core where
  toCpu := b.sys.toCpu
  queue := fun _ => []
  tasks := []
  curr := none
  task := b.task
  mutex := fun _ => reinMutexInit
  sem := fun p => b.semCount p
  trace := []

def abstract (b : BootMem) : Machine Core := ⟨b.core, b.machine.ctl, b.machine.started⟩

lemma boot_represents (b : BootMem) : b.machine.Sim b.abstract := by
  refine ⟨⟨⟨?_, fun l _ => ?_, fun l _ => ?_, fun l hl => ?_⟩, rfl, rfl, rfl, rfl, rfl, rfl⟩,
    rfl, rfl⟩
  · refine ⟨fun l => ?_, fun l l' n hn => ?_⟩
    · cases l <;> exact List.nodup_nil
    · cases l <;> cases hn
  · cases l <;> rfl
  · cases l <;> exact Linked.nil
  · exact absurd (Set.mem_univ l) hl

lemma core_inv (b : BootMem) : b.core.Inv := by
  refine ⟨⟨⟨⟨fun _ => List.nodup_nil, fun _ _ _ h => by cases h⟩, List.nodup_nil, fun t => ?_,
    by simp [core]⟩, by simp [core], by simp [core], by simp [core], by simp [core]⟩,
    by simp [core], fun _ => ⟨fun _ _ => rfl, by simp [core], fun _ => rfl⟩⟩
  simp [core]

lemma boot_sound (b : BootMem) : b.abstract.Sound := by
  have hpc : ∀ c, c ≠ none → (b.abstract.ctl c).pc = .user := by
    intro c hc
    simp [abstract, machine, hc, Ctl.own]
  have hnone : (b.abstract.ctl none).pc =
      .allocLock (.tssInit ⟨.idleTask, idleTaskName, b.idleEntry, b.idleEsp⟩) := by
    simp [abstract, machine]
  have honly : ∀ c r, (b.abstract.ctl c).pc.creation = some r → c = none ∧ r.task = .idleTask := by
    intro c r hr
    by_cases hc : c = none
    · subst hc
      rw [hnone] at hr
      cases hr
      exact ⟨rfl, rfl⟩
    · rw [hpc c hc] at hr
      cases hr
  refine ⟨b.core_inv, fun c => ?_, fun c c' r r' hr hr' _ => ?_, by simp [abstract, core],
    by simp [abstract, machine], by simp [abstract, core], fun _ => ?_, fun _ => ?_, fun _ => ?_,
    fun _ c hc => by simp [abstract, machine, hc]⟩
  · by_cases hc : c = none
    · subst hc
      rw [hnone]
      exact ⟨fun r hr => by cases hr; simp [abstract, machine],
        fun r hr _ => by cases hr; exact Or.inl rfl, fun r _ hn => absurd rfl hn,
        fun r _ => by simp [abstract, core], by simp, by simp, by simp, by simp⟩
    · rw [hpc c hc]
      exact .user
  · rw [(honly c r hr).1, (honly c' r' hr').1]
  · rw [hnone]
    simp [abstract, core, Pc.mainQueued]
  · simp [abstract, core, sys, Cpu.interruptible]
  · simp [abstract, machine]

/-- A reachable machine is a picture of a sound abstract machine reached by the same run. -/
theorem Reaches.sim {b : BootMem} {ls : List Label} {m : Machine Sys} (h : b.Reaches ls m) :
    ∃ M, Run Machine.Step b.abstract ls M ∧ m.Sim M ∧ M.Sound :=
  b.boot_represents.run b.boot_sound h

/-- The invariant rule over the abstract machine. -/
theorem Reaches.invariant {b : BootMem} {ls : List Label} {m : Machine Sys}
    {I : Machine Core → Prop} (h : b.Reaches ls m) (h0 : I b.abstract)
    (hstep : ∀ M l a rest pc new, M.Sound → I M → M.Live → M.Does l a rest pc new →
      I (M.after a rest pc new)) :
    ∃ M, m.Sim M ∧ M.Sound ∧ I M := by
  obtain ⟨M, hr, hsim, -⟩ := h.sim
  refine ⟨M, hsim, hr.invariant (I := fun M => M.Sound ∧ I M) ?_ ⟨b.boot_sound, h0⟩⟩
  rintro M l M' ⟨hM, hI⟩ hs
  obtain ⟨hlive, a, rest, pc, new, hd, rfl⟩ := Machine.step_iff.mp hs
  exact ⟨hM.after hd, hstep M l a rest pc new hM hI hlive hd⟩

end BootMem

end OsToyI386
