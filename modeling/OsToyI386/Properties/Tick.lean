import OsToyI386.Scheduler.Filling

/-!
# What a tick does

`task_time_tick` in closed form, for any number of sleepers that are due at once: who still
sleeps, who has become ready and in which order, whose slice has changed, and who runs.
-/

namespace OsToyI386

open Lib

/-- The tasks that stand in a list of memory. -/
def Sys.tasksIn (s : Sys) (q : Queue) : List TaskPtr := (s.heap.toList q.list).map containerOf

lemma Repr.tasksIn {s : Sys} {K : Core} (h : Repr s K) (q : Queue) : s.tasksIn q = K.queue q := by
  rw [Sys.tasksIn, h.toList_eq, List.map_map]
  have hid : containerOf ∘ q.node = id := by
    funext t
    exact q.containerOf_node t
  rw [hid, List.map_id]

namespace Sys

/-- The sleepers that are due, in the order of the sleep list. -/
def woken (s : Sys) : List TaskPtr :=
  (s.tasksIn .sleep).filter fun t => (s.task t).sleepTicks = 1

/-- The running task has a slice, and this is its last tick. -/
def sliceEnds (s : Sys) (c : TaskPtr) : Prop := c ≠ .idleTask ∧ (s.task c).sliceTicks = 1

instance (s : Sys) (c : TaskPtr) : Decidable (s.sliceEnds c) :=
  inferInstanceAs (Decidable (_ ∧ _))

end Sys

/-- From `s`, where `c` runs, to `s'` one tick has passed. -/
structure TickEffect (s : Sys) (c : TaskPtr) (s' : Sys) : Prop where
  /-- The loop over the sleepers comes to its end. -/
  ends : s'.halt = s.halt ∨ s'.halt = some .cpuFault
  sleep : s'.tasksIn .sleep = (s.tasksIn .sleep).filter fun t => 1 < (s.task t).sleepTicks
  sleepTicks : ∀ t ∈ s'.tasksIn .sleep, (s'.task t).sleepTicks = (s.task t).sleepTicks - 1
  woken : ∀ t ∈ s.woken, t ∈ s'.tasksIn .ready ∧
    (s'.task t).state = if s'.currTask = some t then .running else .ready
  ready : s'.tasksIn .ready =
    (if s.sliceEnds c then (s.tasksIn .ready).erase c ++ [c] else s.tasksIn .ready) ++ s.woken
  curr : s'.currTask = some ((s'.tasksIn .ready).head?.getD .idleTask)
  slice : (s'.task c).sliceTicks =
    if c = .idleTask then (s.task c).sliceTicks
    else if (s.task c).sliceTicks = 1 then (s.task c).timeTicks
    else (s.task c).sliceTicks - 1
  others : ∀ u, u ≠ c → (s'.task u).sliceTicks = (s.task u).sliceTicks

namespace Core

variable {K : Core} {c t u : TaskPtr}

lemma tick_halt (hc : K.curr = some c) : K.tick.halt = K.halt ∨ K.tick.halt = some .cpuFault := by
  have hcpu : ((K.sliceTick c).sleepersTick).halt = K.halt :=
    congrArg Cpu.halt ((sleepersTick_cpu _).trans (sliceTick_cpu K c))
  rw [tick_eq hc, ← hcpu]
  exact dispatch_halt _

lemma sliceTick_other (K : Core) (hu : u ≠ c) :
    ((K.sliceTick c).task u).sliceTicks = (K.task u).sliceTicks := by
  unfold sliceTick
  split
  · rfl
  · split <;> simp [pop, leave, wake, join, setTask, emit, hu]

lemma sliceTick_own (K : Core) (c : TaskPtr) :
    ((K.sliceTick c).task c).sliceTicks =
      if c = .idleTask then (K.task c).sliceTicks
      else if (K.task c).sliceTicks = 1 then (K.task c).timeTicks
      else (K.task c).sliceTicks - 1 := by
  unfold sliceTick
  split
  · rfl
  · split <;> simp [pop, leave, wake, join, setTask, emit]

lemma dispatch_state (hne : K.curr ≠ some u) (hu : u ∈ K.queue .ready) :
    (K.dispatch.task u).state =
      if K.dispatch.curr = some u then .running else (K.task u).state := by
  have hr : K.queue .ready ≠ [] := List.ne_nil_of_mem hu
  unfold dispatch
  by_cases hhead : K.curr = some K.head
  · rw [if_pos hhead, if_neg]
    · rfl
    · exact hne
  · rw [if_neg hhead]
    by_cases hu' : K.head = u
    · simp [hr, hu']
    · simp [hr, Ne.symm hu', hu']

lemma Inv.tick_woken (h : K.Inv) (hc : K.curr = some c) (ht : t ∈ K.queue .sleep)
    (hdue : K.due t = true) :
    t ∈ K.tick.queue .ready ∧
      (K.tick.task t).state = if K.tick.curr = some t then .running else .ready := by
  have hnd := h.placed.apart.nodup .sleep
  have hready : t ∈ K.tick.queue .ready := by
    rw [tick_ready hnd hc]
    exact List.mem_append_right _ (List.mem_filter.mpr ⟨ht, hdue⟩)
  refine ⟨hready, ?_⟩
  have hne : c ≠ t := by
    rintro rfl
    have hidle : c ≠ .idleTask := fun hi => h.idle_not_mem .sleep (hi ▸ ht)
    cases h.placed.apart.unique _ _ c ht (h.mem_ready hc hidle)
  rw [← sliceTick_sleep K c] at ht hnd
  have hcurr : (K.sliceTick c).sleepersTick.curr ≠ some t := by
    have hpass : (K.sliceTick c).sleepersTick.curr = (K.sliceTick c).curr := (pass_rest _ _).2.1
    have hslice : (K.sliceTick c).curr = K.curr := by
      unfold sliceTick
      split
      · rfl
      · split <;> rfl
    rw [hpass, hslice, hc]
    simpa using hne
  rw [tick_eq hc, dispatch_queue] at hready
  rw [tick_eq hc, dispatch_state hcurr hready, sleepersTick_task hnd, if_pos ht]
  simp [slept, sliceTick_due, hdue]

end Core

namespace Repr

variable {s s' : Sys} {K : Core} {c : TaskPtr}

lemma woken (h : Repr s K) : s.woken = (K.queue .sleep).filter K.due := by
  rw [Sys.woken, h.tasksIn, h.task]
  rfl

lemma tickEffect (h : Repr s K) (hK : K.Inv) (hc : K.curr = some c) (h' : Repr s' K.tick) :
    TickEffect s c s' := by
  have hnd := hK.placed.apart.nodup .sleep
  have hhalt : ∀ {r : Sys} {L : Core}, Repr r L → r.halt = L.halt :=
    fun hr => congrArg Cpu.halt hr.cpu
  refine ⟨?_, ?_, ?_, ?_, ?_, ?_, ?_, ?_⟩
  · rw [hhalt h', hhalt h]
    exact Core.tick_halt hc
  · rw [h'.tasksIn, h.tasksIn, h.task, Core.tick_sleep hnd hc]
    apply List.filter_congr
    intro t ht
    have hpos := hK.asleep t ht
    simp only [Core.due, ← decide_not, decide_eq_decide]
    omega
  · intro t ht
    rw [h'.tasksIn, Core.tick_sleep hnd hc] at ht
    rw [h'.task, h.task]
    exact Core.tick_sleepTicks hnd hc (List.mem_of_mem_filter ht)
  · intro t ht
    rw [h.woken] at ht
    obtain ⟨hsleep, hdue⟩ := List.mem_filter.mp ht
    rw [h'.tasksIn, h'.task, h'.curr]
    exact hK.tick_woken hc hsleep hdue
  · rw [h'.tasksIn, h.tasksIn, h.woken, Core.tick_ready hnd hc]
    by_cases hidle : c = .idleTask
    · simp [hidle, Core.sliceTick, Sys.sliceEnds]
    · obtain ⟨xs, hr⟩ := hK.ready_cons hc hidle
      rw [Core.sliceTick_ready hr hidle, hr]
      simp [hidle, Sys.sliceEnds, h.task]
  · rw [h'.tasksIn, h'.curr, Core.tick_eq hc, Core.dispatch_queue, Core.dispatch_curr]
    rfl
  · rw [h'.task, h.task, Core.tick_slice hnd hc, Core.sliceTick_own]
  · intro u hu
    rw [h'.task, h.task, Core.tick_slice hnd hc, Core.sliceTick_other K hu]

end Repr

variable {b : BootMem} {ls : List Label} {m : Machine Sys} {c : TaskPtr}

/-- In every reachable state `task_time_tick` handles each sleeper exactly once, and the
timer interrupt does the same. -/
theorem tick_handles_each_sleeper (h : b.Reaches ls m) (hc : m.sys.currTask = some c) :
    TickEffect m.sys c (taskTimeTick m.sys).1 ∧
      ∀ m', m.Step .tick m' → TickEffect m.sys c m'.sys := by
  obtain ⟨M, -, hsim, hM⟩ := h.sim
  have hrep := hsim.sys
  have hcurr : M.sys.curr = some c := hrep.curr ▸ hc
  have hsome : M.sys.curr ≠ none := by simp [hcurr]
  refine ⟨hrep.tickEffect hM.core hcurr (hrep.taskTimeTick hM.core hsome).1, fun m' hs => ?_⟩
  obtain ⟨-, a, rest, pc, new, hd, rfl⟩ := Machine.step_iff.mp hs
  cases hd with
  | tick =>
    have htick := hrep.off.taskTimeTick hM.core.off hsome
    have heffect : TickEffect (m.sys.cpu Cpu.cli) c (taskTimeTick (m.sys.cpu Cpu.cli)).1 :=
      hrep.off.tickEffect hM.core.off hcurr htick.1
    exact ⟨heffect.1, heffect.2, heffect.3, heffect.4, heffect.5, heffect.6, heffect.7,
      heffect.8⟩

section Sleepers

open Machine

lemma BootMem.two_sleep (b : BootMem) : ∃ ops M, b.Plays ops M ∧
    M.sys.curr = some .mainTask ∧ M.sys.queue .sleep = [.obj 0, .obj 1] ∧
    (M.sys.task (.obj 0)).sleepTicks = 1 ∧ (M.sys.task (.obj 1)).sleepTicks = 3 := by
  obtain ⟨K, st, h, hfilled, -⟩ := b.fills 2 (by decide)
  -- the main task yields
  obtain ⟨hcurr₁, hready₁, hqueue₁, -, -, -, hhalt₁⟩ := Core.exec_yield hfilled.runs.curr
    (hfilled.queue .ready)
  have h₁ := h.call .sysSchedYield hfilled.runs.halt hfilled.runs.curr (place_self ..) rfl
    (by simp [Op.creates]) (Or.inr ⟨_, rfl, by simp, by simp⟩)
  have hlive₁ := h₁.unhalted (hhalt₁.imp_left fun h => h.trans hfilled.runs.halt)
  -- the first of the others sleeps
  obtain ⟨hcurr₂, hready₂, hsleep₂, -, -, -, hticks₂, hhalt₂, -⟩ :=
    Core.exec_sleep 0#32 hcurr₁ hready₁
  have h₂ := h₁.call (.sysSleep 0#32) hlive₁ hcurr₁ (by simp [place]) rfl (by simp [Op.creates])
    (Or.inr ⟨_, rfl, by simp, by simp⟩)
  have hlive₂ := h₂.unhalted (hhalt₂.imp_left fun h => h.trans hlive₁)
  -- and the second one
  obtain ⟨hcurr₃, -, hsleep₃, -, -, -, hticks₃, -⟩ :=
    Core.exec_sleep 20#32 hcurr₂ hready₂
  have h₃ := h₂.call (.sysSleep 20#32) hlive₂ hcurr₂ (by simp [place]) rfl (by simp [Op.creates])
    (Or.inr ⟨_, rfl, by simp, by simp⟩)
  refine ⟨_, _, h₃, hcurr₃, ?_, ?_, ?_⟩
  · have hnone : (K.exec .yield).queue .sleep = [] := by
      rw [hqueue₁ _ (by simp), hfilled.queue, if_neg (by simp)]
    rw [hnone] at hsleep₂
    rw [hsleep₂] at hsleep₃
    exact hsleep₃
  · refine (hticks₃ _).trans ?_
    rw [if_neg (by simp), hticks₂, if_pos rfl]
    decide
  · refine (hticks₃ _).trans ?_
    rw [if_pos rfl]
    decide

/-- The tick wakes the first of two sleepers. -/
theorem tick_handles_each_sleeper_main : ∃ ls m, BootMem.zeroed.Reaches ls m ∧
    m.sys.tasksIn .sleep = [.obj 0, .obj 1] ∧
    (taskTimeTick m.sys).1.tasksIn .sleep = [.obj 1] ∧
    ((taskTimeTick m.sys).1.task (.obj 1)).sleepTicks = 2 ∧
    .obj 0 ∈ (taskTimeTick m.sys).1.tasksIn .ready := by
  obtain ⟨ops, M, hplays, hcurr, hsleep, hone, hthree⟩ := BootMem.zeroed.two_sleep
  obtain ⟨ls, m, hm, hsim, -⟩ := hplays.real
  have hasleep : m.sys.tasksIn .sleep = [.obj 0, .obj 1] := by
    rw [hsim.sys.tasksIn]
    exact hsleep
  rw [← hsim.sys.task] at hone hthree
  have htick := (tick_handles_each_sleeper hm.reaches (hsim.sys.curr.trans hcurr)).1
  have hafter : (taskTimeTick m.sys).1.tasksIn .sleep = [.obj 1] := by
    rw [htick.sleep, hasleep]
    simp [hone, hthree]
  refine ⟨ls, m, hm.reaches, hasleep, hafter, ?_, (htick.woken _ ?_).1⟩
  · rw [htick.sleepTicks _ (by rw [hafter]; exact List.mem_singleton_self _), hthree]
    rfl
  · rw [Sys.woken, hasleep]
    simp [hone]

end Sleepers

end OsToyI386
