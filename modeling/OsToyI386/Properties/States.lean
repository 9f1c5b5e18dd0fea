import OsToyI386.Properties.Sleep
import OsToyI386.Properties.Tick
import OsToyI386.Scheduler.States

/-!
# Whether the state fields tell the truth

No function writes `TASK_WAITTING`, `task_main_init` leaves the main task `TASK_READY`, and
so does the end of a slice when no other task is ready. In all other states that can be
reached each task's state says where the task is.
-/

namespace OsToyI386

open Lib

/-- The state of a task says where it is. -/
structure Sys.StateTrue (s : Sys) (t : TaskPtr) : Prop where
  running : (s.task t).state = .running ↔ s.currTask = some t
  ready : (s.task t).state = .ready ↔ t ∈ s.tasksIn .ready ∧ s.currTask ≠ some t
  sleep : (s.task t).state = .sleep ↔ t ∈ s.tasksIn .sleep
  waitting : (s.task t).state = .waitting ↔
    (∃ m, t ∈ s.tasksIn (.mutexWait m)) ∨ ∃ p, t ∈ s.tasksIn (.semWait p)

namespace Sys

/-- The states of all tasks in `task_list` are true; the idle task is not in it. -/
def StatesTrue (s : Sys) : Prop := ∀ t, ⟨t, .allNode⟩ ∈ s.heap.toList .taskList → s.StateTrue t

/-- No mutex and no semaphore has a waiter. -/
def NobodyWaits (s : Sys) : Prop :=
  (∀ m, s.tasksIn (.mutexWait m) = []) ∧ ∀ p, s.tasksIn (.semWait p) = []

/-- The next tick ends the slice of `c`, and no other task is ready. -/
def LastTickAlone (s : Sys) (c : TaskPtr) : Prop :=
  s.tasksIn .ready = [c] ∧ (s.task c).sliceTicks = 1

end Sys

/-- A step in which `c` goes on, without the end of a slice after which it goes on alone. -/
def Machine.KeepsTurn (c : TaskPtr) (m : Machine Sys) (l : Label) (m' : Machine Sys) : Prop :=
  m.Step l m' ∧ m'.sys.currTask = some c ∧ ¬ (l = .tick ∧ m.sys.LastTickAlone c)

/-- The last switch of the run was from another task to `c`, and `c` has kept its turn
since. -/
def BootMem.SwitchedTo (b : BootMem) (ls : List Label) (m : Machine Sys) (c : TaskPtr) : Prop :=
  ∃ ls₁ l ls₂ m₀ m₁, ls = ls₁ ++ l :: ls₂ ∧ b.Reaches ls₁ m₀ ∧ m₀.Step l m₁ ∧
    m₀.sys.currTask ≠ none ∧ m₀.sys.currTask ≠ some c ∧ m₁.sys.currTask = some c ∧
    Run (Machine.KeepsTurn c) m₁ ls₂ m

lemma Repr.mem_taskList {s : Sys} {K : Core} (h : Repr s K) (t : TaskPtr) :
    ⟨t, .allNode⟩ ∈ s.heap.toList .taskList ↔ t ∈ K.tasks := by
  rw [h.heap.toList_eq (Set.mem_univ _), Core.lists_taskList]
  exact List.mem_map_of_injective fun t t' htt => congrArg NodePtr.task htt

namespace Core

variable {K : Core} {c : TaskPtr}

/-- Apart from the running task and the waiters the states are true. -/
lemma Inv.statesTrue_iff {s : Sys} (h : K.Inv) (hK : K.Honest K.curr) (hrep : Repr s K) :
    s.StatesTrue ↔
      s.NobodyWaits ∧ ∀ c, s.currTask = some c → c ≠ .idleTask → (s.task c).state = .running := by
  have hlisted := hrep.mem_taskList
  have hplaced := h.placed.placed
  have hunique := h.placed.apart.unique
  constructor
  · intro hall
    have hnever : ∀ t ∈ K.tasks, ¬ ((∃ m, t ∈ s.tasksIn (.mutexWait m)) ∨
        ∃ p, t ∈ s.tasksIn (.semWait p)) := by
      intro t ht hwaits
      apply hK.never t ht
      rw [← hrep.task]
      exact (hall t ((hlisted t).mpr ht)).waitting.mpr hwaits
    refine ⟨⟨fun m => ?_, fun p => ?_⟩, fun c hc hidle => ?_⟩
    · apply List.eq_nil_iff_forall_not_mem.mpr
      intro t ht
      have ht' := ht
      rw [hrep.tasksIn] at ht'
      exact hnever t ((hplaced t).mpr ⟨_, ht'⟩) (Or.inl ⟨m, ht⟩)
    · apply List.eq_nil_iff_forall_not_mem.mpr
      intro t ht
      have ht' := ht
      rw [hrep.tasksIn] at ht'
      exact hnever t ((hplaced t).mpr ⟨_, ht'⟩) (Or.inr ⟨p, ht⟩)
    · have hready := h.mem_ready (hrep.curr ▸ hc) hidle
      exact (hall c ((hlisted c).mpr ((hplaced c).mpr ⟨_, hready⟩))).running.mpr hc
  · rintro ⟨⟨hmutex, hsem⟩, hrun⟩ t ht
    obtain ⟨q, hq⟩ := (hplaced t).mp ((hlisted t).mp ht)
    have hidle : t ≠ .idleTask := fun hi => h.idle_not_mem q (hi ▸ hq)
    have hnobody : ¬ ((∃ m, t ∈ s.tasksIn (.mutexWait m)) ∨ ∃ p, t ∈ s.tasksIn (.semWait p)) := by
      simp [hmutex, hsem]
    have hin : ∀ q', t ∈ s.tasksIn q' ↔ q' = q := by
      intro q'
      rw [hrep.tasksIn]
      exact ⟨fun hq' => hunique q' q t hq' hq, fun he => he ▸ hq⟩
    have hcurr : s.currTask = some t → q = .ready := by
      intro hc
      exact hunique q .ready t hq (h.mem_ready (hrep.curr ▸ hc) hidle)
    cases q with
    | ready =>
      by_cases hc : s.currTask = some t
      · have hstate := hrun t hc hidle
        exact ⟨by simp [hstate, hc], by simp [hstate, hc], by simp [hstate, hin],
          by simp [hstate, hnobody]⟩
      · have hstate : (s.task t).state = .ready := by
          rw [hrep.task]
          exact hK.ready t hq (hrep.curr ▸ hc)
        exact ⟨by simp [hstate, hc], by simp [hstate, hc, hin], by simp [hstate, hin],
          by simp [hstate, hnobody]⟩
    | sleep =>
      have hstate : (s.task t).state = .sleep := by
        rw [hrep.task]
        exact hK.sleep t hq
      have hc : s.currTask ≠ some t := fun hc => by cases hcurr hc
      exact ⟨by simp [hstate, hc], by simp [hstate, hin], by simp [hstate, hin],
        by simp [hstate, hnobody]⟩
    | mutexWait m => exact absurd (Or.inl ⟨m, (hin _).mpr rfl⟩) hnobody
    | semWait p => exact absurd (Or.inr ⟨p, (hin _).mpr rfl⟩) hnobody

end Core

namespace BootMem

variable {b : BootMem} {ls : List Label} {m m' : Machine Sys} {l : Label} {c : TaskPtr}

lemma Reaches.honest (h : b.Reaches ls m) :
    ∃ M, m.Sim M ∧ M.Sound ∧ M.sys.Honest M.sys.curr := by
  apply h.invariant (I := fun M => M.sys.Honest M.sys.curr)
  · exact ⟨by simp [abstract, core], by simp [abstract, core], by simp [abstract, core]⟩
  · intro M l a rest pc new hM hI _ hd
    exact hM.core.honest_exec hI (hM.enabled hd)

lemma Reaches.step_exec (h : b.Reaches ls m) (hs : m.Step l m') :
    ∃ K a, Repr m.sys K ∧ K.Inv ∧ K.Honest K.curr ∧ K.Enabled a ∧ Repr m'.sys (K.exec a) ∧
      (a = .timer ↔ l = .tick) := by
  obtain ⟨M, hsim, hM, hK⟩ := h.honest
  obtain ⟨-, a, rest, pc, new, hd, rfl⟩ := Machine.step_iff.mp hs
  have hd' := hsim.does_iff.mp hd
  refine ⟨M.sys, a, hsim.sys, hM.core, hK, hM.enabled hd', (hsim.after hM (hM.enabled hd')).sys,
    fun ha => ?_, fun hl => ?_⟩
  · have htick := Machine.Sound.does_timer hd' ha
    cases l <;> first | rfl | cases htick
  · subst hl
    cases hd'
    rfl

lemma slipsBy_iff {s : Sys} {K : Core} {a : Act} (hrep : Repr s K) (ha : a = .timer ↔ l = .tick) :
    K.slipsBy c a ↔ l = .tick ∧ s.LastTickAlone c := by
  rw [Core.slipsBy, Sys.LastTickAlone, hrep.tasksIn, hrep.task, ha]

lemma Reaches.keepsTurn (h : b.Reaches ls m) {ls' : List Label}
    (hr : Run (Machine.KeepsTurn c) m ls' m') (hc : m.sys.currTask = some c)
    (hidle : c ≠ .idleTask) (hstate : (m.sys.task c).state = .running) :
    (m'.sys.task c).state = .running := by
  induction hr generalizing ls with
  | nil => exact hstate
  | cons hs _ ih =>
    obtain ⟨hstep, hc', hslip⟩ := hs
    obtain ⟨K, a, hrep, hK, -, he, hrep', ha⟩ := h.step_exec hstep
    refine ih (h.snoc hstep) hc' ?_
    rw [← slipsBy_iff hrep ha] at hslip
    rw [hrep'.task, (hK.exec_turn he (hrep.curr ▸ hc) hidle (hrep'.curr ▸ hc')).2 hslip,
      ← hrep.task]
    exact hstate

lemma Reaches.running_iff (h : b.Reaches ls m) (hc : m.sys.currTask = some c)
    (hidle : c ≠ .idleTask) : (m.sys.task c).state = .running ↔ b.SwitchedTo ls m c := by
  constructor
  · intro hstate
    suffices hall : ∀ c, m.sys.currTask = some c → c ≠ .idleTask →
        (m.sys.task c).state = .running → b.SwitchedTo ls m c from hall c hc hidle hstate
    clear hc hidle hstate
    refine Run.history (P := fun ls m => ∀ c, m.sys.currTask = some c → c ≠ .idleTask →
      (m.sys.task c).state = .running → b.SwitchedTo ls m c) ?_ ?_ h
    · intro c hc
      simp [machine, sys] at hc
    · intro ls m l m' hr ih hs c hc' hidle hstate
      have hreach : b.Reaches ls m := hr
      obtain ⟨K, a, hrep, hK, hhonest, he, hrep', ha⟩ := hreach.step_exec hs
      by_cases hc : m.sys.currTask = some c
      · -- the task kept its turn
        have hturn := hK.exec_turn he (hrep.curr ▸ hc) hidle (hrep'.curr ▸ hc')
        have hslip : ¬ K.slipsBy c a := by
          intro hslip
          rw [hrep'.task, hturn.1 hslip] at hstate
          cases hstate
        have hbefore : (m.sys.task c).state = .running := by
          rw [hrep.task, ← hturn.2 hslip, ← hrep'.task]
          exact hstate
        obtain ⟨ls₁, l₀, ls₂, m₀, m₁, hls, hr₀, hs₀, hne, hother, hc₁, hkeeps⟩ :=
          ih c hc hidle hbefore
        rw [slipsBy_iff hrep ha] at hslip
        exact ⟨ls₁, l₀, ls₂ ++ [l], m₀, m₁, by simp [hls], hr₀, hs₀, hne, hother, hc₁,
          hkeeps.snoc ⟨hs, hc', hslip⟩⟩
      · by_cases hnone : m.sys.currTask = none
        · -- the boot context has become the main task
          exfalso
          have hmain : a = .becomeMain := by
            by_contra hne
            have hboot := (Core.exec_curr hK he).mpr ⟨hrep.curr ▸ hnone, hne⟩
            rw [← hrep'.curr, hc'] at hboot
            cases hboot
          subst hmain
          have hcurr : some TaskPtr.mainTask = some c := hrep'.curr.symm.trans hc'
          obtain rfl : TaskPtr.mainTask = c := Option.some.inj hcurr
          have hready : (K.task .mainTask).state = .ready :=
            hhonest.ready _ (by simp [he.2]) (by simp [he.1])
          rw [hrep'.task] at hstate
          rw [Core.exec] at hstate
          simp [hready] at hstate
        · exact ⟨ls, l, [], m, m', rfl, hr, hs, hnone, hc, hc', .nil m'⟩
  · rintro ⟨ls₁, l, ls₂, m₀, m₁, rfl, hr₀, hs, hnone, hother, hc₁, hkeeps⟩
    obtain ⟨K, a, hrep, hK, -, he, hrep', -⟩ := hr₀.step_exec hs
    have ha : a ≠ .becomeMain := by
      rintro rfl
      exact hnone (hrep.curr.trans he.1)
    have hrun := Core.exec_switch he ha (hrep.curr ▸ hother) (hrep'.curr ▸ hc₁) hidle
    have hr₁ : b.Reaches _ m₁ := hr₀.snoc hs
    exact hr₁.keepsTurn hkeeps hc₁ hidle (by rw [hrep'.task]; exact hrun)

end BootMem

variable {b : BootMem} {ls : List Label} {m : Machine Sys}

/-- The state fields are true exactly when nobody waits for a mutex or a semaphore and the
running task was switched to and has kept its turn. -/
theorem states_true_iff (h : b.Reaches ls m) :
    m.sys.StatesTrue ↔ m.sys.NobodyWaits ∧
      ∀ c, m.sys.currTask = some c → c ≠ .idleTask → b.SwitchedTo ls m c := by
  obtain ⟨M, hsim, hM, hK⟩ := h.honest
  rw [hM.core.statesTrue_iff hK hsim.sys]
  constructor
  · rintro ⟨hnobody, hrun⟩
    exact ⟨hnobody, fun c hcurr hidle => (h.running_iff hcurr hidle).mp (hrun c hcurr hidle)⟩
  · rintro ⟨hnobody, hswitched⟩
    exact ⟨hnobody, fun c hcurr hidle => (h.running_iff hcurr hidle).mpr (hswitched c hcurr hidle)⟩

/-- While the main task sleeps and the idle task runs all states are true. -/
theorem states_true_asleep : ∃ ls m, BootMem.zeroed.Reaches ls m ∧
    m.sys.currTask = some .idleTask ∧ m.sys.StatesTrue := by
  obtain ⟨ls, m, m', tr, hm, hc, hs, hsim⟩ := main_calls_sleep BootMem.zeroed 25#32
  have hbooted := BootMem.zeroed.atMain_booted tr
  have hcurr : m'.sys.currTask = some .idleTask :=
    hsim.sys.curr.trans (hbooted.sleeps 25#32 (by decide)).1.curr
  have hqueue : ∀ q, q ≠ .ready → q ≠ .sleep →
      ((BootMem.zeroed.atMain tr).exec (.sleep 25#32)).queue q = [] := by
    intro q hr hsl
    have hq := hbooted.queue q
    have hmain : (BootMem.zeroed.atMain tr).off.curr = some .mainTask := hbooted.runs.curr
    rw [if_neg hr] at hq
    rw [Core.exec, Core.sleep, hmain]
    simp [Core.dispatch_queue, Core.join, Core.setTask, Core.pop, Core.leave, Core.emit, Core.off,
      Core.cpu, hr, hsl, hq]
  have hm' : BootMem.zeroed.Reaches _ m' := hm.snoc hs
  refine ⟨_, m', hm', hcurr, (states_true_iff hm').mpr ⟨⟨fun x => ?_, fun p => ?_⟩, ?_⟩⟩
  · rw [hsim.sys.tasksIn]
    exact hqueue _ (by simp) (by simp)
  · rw [hsim.sys.tasksIn]
    exact hqueue _ (by simp) (by simp)
  · intro c hc' hidle
    rw [hcurr] at hc'
    exact absurd (Option.some.inj hc').symm hidle

lemma Core.initialised_state {K : Core} {r : InitReq} {found : Option Nat} (hok : r.nameOk = true)
    (hidle : r.task ≠ .idleTask) : ((K.initialised r found).task r.task).state = .ready := by
  rw [Core.initialised, if_pos hok, Core.enrolled, if_neg hidle]
  simp [Core.create, Core.wake, Core.join, Core.setTask]

/-- The main task is `TASK_READY` while it runs, with interrupts on. -/
theorem main_task_stays_ready : ¬ ∀ (b : BootMem) (ls : List Label) (m : Machine Sys),
    b.Reaches ls m → m.sys.currTask ≠ none → m.sys.interruptible = true → m.sys.StatesTrue := by
  intro hall
  obtain ⟨ls, m, tr, hm, hsim, hM⟩ := BootMem.zeroed.reaches_main
  have hbooted := BootMem.zeroed.atMain_booted (tr ++ [.initReturn .mainTask 0])
  have hcall := step_call (f := fun _ => .own) (s := [.mainTask, .idleTask])
    .irqEnableGlobal hbooted.runs
    (allows_place hbooted.runs rfl (by simp [Op.creates]) (Or.inr ⟨_, rfl, by simp, by simp⟩))
  obtain ⟨m', hs, hsim'⟩ := hsim.step_back hM hcall.2
  have hcurr : m'.sys.currTask = some .mainTask := hsim'.sys.curr
  have hint : m'.sys.interruptible = true := by
    have hcpu : m'.sys.toCpu = (BootMem.zeroed.atMain (tr ++ [.initReturn .mainTask 0])).sti :=
      hsim'.sys.cpu
    rw [hcpu]
    simp [Cpu.interruptible, Cpu.sti]
  have hlisted : ⟨.mainTask, .allNode⟩ ∈ m'.sys.heap.toList .taskList := by
    have hM' := (hM.step hcall.2).core
    refine (hsim'.sys.mem_taskList _).mpr ((hM'.placed.placed _).mpr ⟨.ready, ?_⟩)
    have hq := hbooted.queue .ready
    simp [Core.exec, Op.first, Core.cpu, Machine.place, hq]
  have htrue := hall _ _ _ (hm.reaches.snoc hs) (by simp [hcurr]) hint _ hlisted
  have hready : (m'.sys.task .mainTask).state = .ready := by
    rw [hsim'.sys.task]
    have hstate : ∀ found, ((BootMem.zeroed.withIdle.initialised mainReq found).task
        .mainTask).state = .ready := fun found => Core.initialised_state (by decide) (by decide)
    exact hstate (some 4)
  have hrunning := htrue.running.mpr hcurr
  rw [hready] at hrunning
  cases hrunning

end OsToyI386
