import OsToyI386.Properties.Sleep
import OsToyI386.Scheduler.Starting

/-!
# The kernel goes on

Every task but the main task starts with interrupts on and keeps them on as long as its own
code does not turn them off. The idle task, whose code is `hlt` in a loop, can therefore be
interrupted whenever it runs, and a machine that has not faulted is never stuck.
-/

namespace OsToyI386

open Lib Machine

namespace Pc

variable {pc : Pc}

lemma next_of_ne_user (h : pc ≠ .user) (c : Ctx) (p : Cpu) : ∃ x, pc.next c p = some x := by
  fun_cases next c p pc with
  | case1 => exact absurd rfl h
  | _ => exact ⟨_, rfl⟩

end Pc

section Idle

variable {σ : Type} [Kernel σ] {m m' : Machine σ} {l : Label} {ls : List Label}

lemma Machine.Step.keeps_idle (h : m.Step l m') : m.StepKeeping (some .idleTask) l m' := by
  refine ⟨h, fun hrun op hl => ?_⟩
  subst hl
  obtain ⟨-, a, rest, pc, new, hd, -⟩ := step_iff.mp h
  cases hd with
  | call hown hop => exact absurd rfl (allows_task hop hrun).1

lemma Machine.starting_idle (h : Run StepWithRoom m ls m') :
    Run (StepStarting (some .idleTask)) m ls m' :=
  h.mono fun _ _ _ hs => ⟨hs, hs.2.keeps_idle⟩

end Idle

variable {b : BootMem} {ls : List Label} {m : Machine Sys} {t : TaskPtr}

lemma Machine.Starts.interruptible {M : Machine Core} {own : Nat → Option Owner}
    (h : M.Starts own t) (hc : M.sys.curr = some t) (hp : (M.ctl (some t)).pending = []) :
    M.sys.interruptible = true := by
  rcases h with h | h
  · exact absurd hc h.curr
  · rcases h.own hp with ⟨-, hi⟩ | ⟨hn, -⟩
    · exact hi
    · cases hn

/-- A task that has not turned interrupts off runs its own code with interrupts on, from
its first instruction on. -/
theorem task_runs_interruptible (hapart : ∀ u, u ≠ t → b.tssAddr u ≠ b.tssAddr t)
    (ht : t ≠ .mainTask) (h : Run (StepStarting (some t)) b.machine ls m)
    (hhalt : m.sys.halt = none) (hrest : m.AtRest (some t)) : m.sys.interruptible = true := by
  obtain ⟨M, own, hsim, -, -, hstarts⟩ := BootMem.starts hapart ht h
  have hc : M.sys.curr = some t := hsim.sys.curr ▸ hrest.1
  have hon := (hstarts hhalt).interruptible hc (hsim.ctl ▸ hrest.2)
  rw [hsim.sys.cpu]
  exact hon

/-- A machine that has not stopped can go on, and where the idle task waits in `hlt` the
timer interrupt wakes it up. -/
theorem never_stuck (hapart : ∀ u, u ≠ .idleTask → b.tssAddr u ≠ b.tssAddr .idleTask)
    (h : b.ReachesWithRoom ls m) (hhalt : m.sys.halt = none) :
    (∃ l m', m.Step l m') ∧ (m.AtRest (some .idleTask) → ∃ m', m.Step .tick m') := by
  have hlive := h.live hhalt
  have htick : m.AtRest (some .idleTask) → ∃ m', m.Step .tick m' := by
    intro hrest
    obtain ⟨M, own, hsim, -, -, hstarts⟩ := BootMem.starts hapart (by simp) (starting_idle h)
    have hc : M.sys.curr = some .idleTask := hsim.sys.curr ▸ hrest.1
    have hon : (Kernel.cpu m.sys).interruptible = true := by
      rw [hsim.cpu]
      exact (hstarts hhalt).interruptible hc (hsim.ctl ▸ hrest.2)
    exact ⟨_, step_iff.mpr ⟨hlive, _, _, _, _, .tick hon, rfl⟩⟩
  refine ⟨?_, htick⟩
  have hcall : ∀ op, m.ctl m.running = .own → m.allows op = true → ∃ l m', m.Step l m' :=
    fun op hown hop => ⟨_, _, step_iff.mpr ⟨hlive, _, _, _, _, .call hown hop, rfl⟩⟩
  cases hp : (m.ctl m.running).pending with
  | cons e rest => exact ⟨_, _, step_iff.mpr ⟨hlive, _, _, _, _, .ret hp, rfl⟩⟩
  | nil =>
    by_cases hpc : (m.ctl m.running).pc = .user
    · have hown : m.ctl m.running = .own := by
        cases hk : m.ctl m.running with
        | mk pending pc =>
          rw [hk] at hp hpc
          cases hp
          cases hpc
          rfl
      cases hrun : m.running with
      | none =>
        refine hcall .irqDisableGlobal hown ?_
        rw [allows, hrun]
        rfl
      | some c =>
        by_cases hidle : c = .idleTask
        · subst hidle
          obtain ⟨m', hs⟩ := htick ⟨hrun, hrun ▸ hp⟩
          exact ⟨_, _, hs⟩
        · refine hcall .sysSchedYield hown ?_
          rw [allows, hrun]
          simp only [Op.present, Op.nameable, Op.creates, List.all_nil, Bool.and_self, ne_eq,
            hidle, not_false_eq_true, decide_true, reduceCtorEq]
    · obtain ⟨⟨a, pc⟩, hnext⟩ := Pc.next_of_ne_user hpc m.running (Kernel.cpu m.sys)
      exact ⟨_, _, step_iff.mpr ⟨hlive, _, _, _, _, .code hp hnext, rfl⟩⟩

/-- Memory in which no two TSSs share an address. -/
def BootMem.spread : BootMem :=
  { BootMem.zeroed with
    tssAddr := fun t =>
      match t with
      | .mainTask => 0x20000#32
      | .idleTask => 0x20100#32
      | .obj _ => 0x30000#32 }

lemma BootMem.spread_apart (u : TaskPtr) (hu : u ≠ .idleTask) :
    BootMem.spread.tssAddr u ≠ BootMem.spread.tssAddr .idleTask := by
  cases u with
  | idleTask => exact absurd rfl hu
  | mainTask => simp [spread]
  | obj a => simp [spread]

lemma BootMem.spread_idles : ∃ ls m, BootMem.spread.ReachesWithRoom ls m ∧
    m.sys.halt = none ∧ m.AtRest (some .idleTask) ∧ m.started = [.mainTask, .idleTask] ∧
    (m.ctl (some .mainTask)).pending.length = 2 := by
  obtain ⟨ls, m, tr, hm, hsim, hM⟩ := BootMem.spread.reaches_main
  have hbooted := BootMem.spread.atMain_booted (tr ++ [.initReturn .mainTask 0])
  have hcall := step_call (f := fun _ => .own) (s := [.mainTask, .idleTask])
    (.sysSleep 25#32) hbooted.runs
    (allows_place hbooted.runs rfl (by simp [Op.creates]) (Or.inr ⟨_, rfl, by simp, by simp⟩))
  obtain ⟨m', hs, hsim'⟩ := hsim.step_back hM hcall.2
  obtain ⟨hruns, -⟩ := hbooted.sleeps 25#32 (by simp [spread])
  refine ⟨_, m', hm.snoc ⟨hsim.findsRoom_iff.mpr hcall.1, hs⟩, ?_, ?_, hsim'.started, ?_⟩
  · rw [hsim'.sys.cpu]
    exact hruns.halt
  · refine ⟨hsim'.sys.curr.trans hruns.curr, ?_⟩
    rw [hsim'.ctl]
    simp [place, Ctl.own]
  · rw [hsim'.ctl]
    rfl

theorem task_runs_interruptible_idle : ∃ ls m, BootMem.spread.ReachesWithRoom ls m ∧
    m.AtRest (some .idleTask) ∧ m.sys.interruptible = true := by
  obtain ⟨ls, m, hm, hhalt, hrest, -⟩ := BootMem.spread_idles
  exact ⟨ls, m, hm, hrest, task_runs_interruptible BootMem.spread_apart (by simp)
    (starting_idle hm) hhalt hrest⟩

theorem never_stuck_idle : ∃ ls m m', BootMem.spread.ReachesWithRoom ls m ∧
    m.AtRest (some .idleTask) ∧ m.Step .tick m' := by
  obtain ⟨ls, m, hm, hhalt, hrest, -⟩ := BootMem.spread_idles
  obtain ⟨m', hs⟩ := (never_stuck BootMem.spread_apart hm hhalt).2 hrest
  exact ⟨ls, m, m', hm, hrest, hs⟩

end OsToyI386
