import OsToyI386.Scheduler.Clock
import OsToyI386.Scheduler.Filling

/-!
# The tick and the hardware

The machine, in which the timer may interrupt wherever interrupts are on, is what the kernel
does on the hardware, whatever the devices do; and `sys_tick` counts its ticks.
-/

namespace OsToyI386

open Lib

/-- The timer has raised its line since the last interrupt. -/
def TimerRaised (ls : List ClockLabel) : Prop :=
  ∃ ls₁ ls₂, ls = ls₁ ++ .raise .timer :: ls₂ ∧ ∀ x ∈ ls₂, x.isInterrupt = false

namespace TimerRaised

variable {ls : List ClockLabel} {x : ClockLabel}

lemma nil : ¬ TimerRaised [] := by
  rintro ⟨ls₁, ls₂, h, -⟩
  simp at h

lemma snoc_raise (ls : List ClockLabel) : TimerRaised (ls ++ [.raise .timer]) :=
  ⟨ls, [], rfl, by simp⟩

lemma not_snoc_interrupt (v : BitVec 8) : ¬ TimerRaised (ls ++ [.interrupt v]) := by
  rintro ⟨ls₁, ls₂, h, hls₂⟩
  rcases List.eq_nil_or_concat ls₂ with rfl | ⟨l, y, rfl⟩
  · have hlast := (List.append_inj' h rfl).2
    simp at hlast
  · rw [List.concat_eq_append, ← List.cons_append, ← List.append_assoc] at h
    have hlast := (List.append_inj' h rfl).2
    have hy := hls₂ y (by simp)
    rw [← List.singleton_inj.mp hlast] at hy
    cases hy

lemma snoc (hx : x.isInterrupt = false) (hne : x ≠ .raise .timer) :
    TimerRaised (ls ++ [x]) ↔ TimerRaised ls := by
  constructor
  · rintro ⟨ls₁, ls₂, h, hls₂⟩
    rcases List.eq_nil_or_concat ls₂ with rfl | ⟨l, y, rfl⟩
    · have hlast := (List.append_inj' h rfl).2
      exact absurd (List.singleton_inj.mp hlast) hne
    · rw [List.concat_eq_append, ← List.cons_append, ← List.append_assoc] at h
      exact ⟨ls₁, l, (List.append_inj' h rfl).1, fun z hz => hls₂ z (by simp [hz])⟩
  · rintro ⟨ls₁, ls₂, rfl, hls₂⟩
    refine ⟨ls₁, ls₂ ++ [x], by simp, fun z hz => ?_⟩
    rcases List.mem_append.mp hz with hz | hz
    · exact hls₂ z hz
    · rw [List.mem_singleton.mp hz]
      exact hx

end TimerRaised

namespace Clocked

variable {c c' : Clocked} {l : ClockLabel} {ls : List ClockLabel} {b : BootMem} {d : Board}

lemma inv_of_run (h : Run Clocked.Step (boot b d) ls c) : c.Inv :=
  h.invariant (I := Inv) (fun _ _ _ hi hs => (hi.step hs).2) (boot_inv b d)

lemma pending_iff (h : Run Clocked.Step (boot b d) ls c) :
    c.board.lines.pending .timer = true ↔ TimerRaised ls := by
  refine h.history (P := fun ls c => c.board.lines.pending .timer = true ↔ TimerRaised ls) ?_ ?_
  · rw [boot_pending]
    simp [TimerRaised.nil]
  · intro ls c l c' hr ih hs
    have hc := inv_of_run hr
    cases l with
    | raise x =>
      obtain ⟨-, -, -, hpending⟩ := hc.raise hs
      rw [hpending]
      by_cases hx : x = .timer
      · subst hx
        simp [TimerRaised.snoc_raise]
      · rw [Function.update_of_ne (Ne.symm hx), ih, TimerRaised.snoc rfl (by simpa using hx)]
    | kernel k =>
      obtain ⟨-, -, -, hboard⟩ := hc.kernel hs
      rw [hboard, ih, TimerRaised.snoc rfl (by simp)]
    | interrupt v =>
      obtain ⟨-, -, -, -, -, hpending⟩ := hc.interrupt hs
      rw [hpending, Function.update_self]
      simp [TimerRaised.not_snoc_interrupt]

lemma count_interrupts (h : Run Clocked.Step (boot b d) ls c) :
    ls.countP ClockLabel.isInterrupt + (c.board.lines.pending .timer).toNat ≤
      ls.count (.raise .timer) := by
  refine h.history (P := fun ls c => ls.countP ClockLabel.isInterrupt +
    (c.board.lines.pending .timer).toNat ≤ ls.count (.raise .timer)) ?_ ?_
  · rw [boot_pending]
    simp
  · intro ls c l c' hr ih hs
    have hc := inv_of_run hr
    rw [List.countP_append, List.count_append, List.countP_singleton, List.count_singleton]
    cases l with
    | raise x =>
      obtain ⟨-, -, -, hpending⟩ := hc.raise hs
      rw [hpending]
      by_cases hx : x = .timer
      · subst hx
        have := Bool.toNat_le (c.board.lines.pending .timer)
        simp [ClockLabel.isInterrupt]
        omega
      · rw [Function.update_of_ne (Ne.symm hx)]
        simp [ClockLabel.isInterrupt, hx]
        omega
    | kernel k =>
      obtain ⟨-, -, -, hboard⟩ := hc.kernel hs
      rw [hboard]
      simpa [ClockLabel.isInterrupt] using ih
    | interrupt v =>
      obtain ⟨-, hset, -, -, -, hpending⟩ := hc.interrupt hs
      rw [hset] at ih
      rw [hpending, Function.update_self]
      simpa [ClockLabel.isInterrupt] using ih

lemma sysTick_eq (h : Run Clocked.Step (boot b d) ls c) :
    c.sysTick = BitVec.ofNat 32 (ls.countP ClockLabel.isInterrupt) := by
  refine h.history (P := fun ls c =>
    c.sysTick = BitVec.ofNat 32 (ls.countP ClockLabel.isInterrupt)) rfl ?_
  intro ls c l c' hr ih hs
  have hc := inv_of_run hr
  rw [List.countP_append, List.countP_singleton]
  cases l with
  | raise x =>
    obtain ⟨-, htick, -, -⟩ := hc.raise hs
    rw [htick, ih]
    rfl
  | kernel k =>
    obtain ⟨-, htick, -, -⟩ := hc.kernel hs
    rw [htick, ih]
    rfl
  | interrupt v =>
    obtain ⟨-, -, -, htick, -, -⟩ := hc.interrupt hs
    rw [htick, ih, ← BitVec.ofNat_add]
    rfl

end Clocked

lemma ClockLabel.count_clocked (ls : List Label) :
    (ls.flatMap Label.clocked).countP isInterrupt = ls.countP Label.isTick := by
  induction ls with
  | nil => rfl
  | cons l ls ih =>
    rw [List.flatMap_cons, List.countP_append, ih, List.countP_cons, Nat.add_comm]
    cases l <;> rfl

variable (b : BootMem) (d : Board)

lemma BootMem.Reaches.clocked {b : BootMem} {ls : List Label} {m : Machine Sys}
    (h : b.Reaches ls m) :
    ∃ c, Run Clocked.Step (Clocked.boot b d) (ls.flatMap Label.clocked) c ∧ c.machine = m := by
  obtain ⟨c, hrun, hc, -⟩ := h.simulate (S := Clocked.Step) (f := Label.clocked)
    (r := fun m c => c.machine = m ∧ c.Inv)
    (fun m k m' c hr hs => by
      obtain ⟨rfl, hinv⟩ := hr
      exact hinv.exists_run hs)
    (x := Clocked.boot b d) ⟨rfl, Clocked.boot_inv b d⟩
  exact ⟨c, hrun, hc⟩

/-- Whatever the chips held before and the devices do, the kernel on the hardware goes through
the runs of the machine, and through all of them. -/
theorem hardware_runs_are_machine_runs (ls : List Label) (m : Machine Sys) :
    b.Reaches ls m ↔ ∃ ls' c, Run Clocked.Step (Clocked.boot b d) ls' c ∧
      ls'.flatMap ClockLabel.labels = ls ∧ c.machine = m := by
  constructor
  · intro h
    obtain ⟨c, hrun, hc⟩ := h.clocked d
    refine ⟨ls.flatMap Label.clocked, c, hrun, ?_, hc⟩
    rw [List.flatMap_assoc]
    simp
  · rintro ⟨ls', c, hrun, rfl, rfl⟩
    obtain ⟨m, hm, rfl, -⟩ := hrun.simulate (S := Machine.Step) (f := ClockLabel.labels)
      (r := fun c m => c.machine = m ∧ c.Inv)
      (fun c k c' m hr hs => by
        obtain ⟨rfl, hinv⟩ := hr
        obtain ⟨hm, hinv'⟩ := hinv.step hs
        exact ⟨_, hm, rfl, hinv'⟩)
      (x := b.machine) ⟨rfl, Clocked.boot_inv b d⟩
    exact hm

variable {b d}

/-- At each point of a run `sys_tick` is the number of ticks, no interrupt is in service at the
controllers, and the only interrupt to come is the timer's: once for a line that has been raised
since the last one, wherever the machine may be interrupted. -/
theorem sys_tick_counts_ticks {ls : List ClockLabel} {c : Clocked}
    (h : Run Clocked.Step (Clocked.boot b d) ls c) :
    c.sysTick = BitVec.ofNat 32 (ls.countP ClockLabel.isInterrupt) ∧
      ls.countP ClockLabel.isInterrupt ≤ ls.count (.raise .timer) ∧
      c.board.pics.master.isr = 0#8 ∧ c.board.pics.slave.isr = 0#8 ∧
      c.board.pit.reload.toNat = 1193182 * 10 / 1000 ∧
      ∀ v m, (∃ c', c.Step (.interrupt v) c' ∧ c'.machine = m) ↔
        v = 0x20#8 ∧ TimerRaised ls ∧ c.machine.Step .tick m := by
  have hc := Clocked.inv_of_run h
  have hpending := Clocked.pending_iff h
  refine ⟨Clocked.sysTick_eq h, le_trans (Nat.le_add_right _ _) (Clocked.count_interrupts h),
    hc.idle.pics.master_isr, hc.idle.pics.slave_isr, by rw [hc.pit]; rfl, fun v m => ?_⟩
  constructor
  · rintro ⟨c', hs, rfl⟩
    obtain ⟨hv, hset, hm, -⟩ := hc.interrupt hs
    exact ⟨hv, hpending.mp hset, hm⟩
  · rintro ⟨rfl, hraised, hm⟩
    exact hc.exists_interrupt (hpending.mpr hraised) hm

/-- Chips whose registers are all clear. -/
def Board.zeroed : Board :=
  ⟨⟨⟨.ready, 0, 0, 0, 0, 0, 0, 0⟩, ⟨.ready, 0, 0, 0, 0, 0, 0, 0⟩⟩, ⟨0, none, 0⟩⟩

/-- The first tick, and then the keyboard raises its line: no interrupt comes. -/
theorem sys_tick_counts_ticks_boot : ∃ ls c,
    Run Clocked.Step (Clocked.boot BootMem.zeroed Board.zeroed) ls c ∧
      ls.countP ClockLabel.isInterrupt = 1 ∧ c.sysTick = 1#32 ∧
      c.board.pics.master.isr = 0#8 ∧ ∀ v c', ¬ c.Step (.interrupt v) c' := by
  obtain ⟨K, st, hplays, hfilled, -⟩ := BootMem.zeroed.fills 0 (by decide)
  obtain ⟨hon, hruns, hflag⟩ := hplays.enable hfilled.runs (by simp)
  obtain ⟨ls, m, m', hm, hticks, -, hs⟩ := hon.tick hruns.halt hflag
  obtain ⟨c, hrun, -⟩ := BootMem.Reaches.clocked Board.zeroed (hm.reaches.snoc hs)
  have hrun' := hrun.snoc (c.step_raise (x := .pic0 1) (by decide))
  have hone : ((ls ++ [Label.tick]).flatMap Label.clocked ++ [ClockLabel.raise (.pic0 1)]).countP
      ClockLabel.isInterrupt = 1 := by
    rw [List.countP_append, ClockLabel.count_clocked, List.countP_append, hticks]
    rfl
  have hraised : ¬ TimerRaised
      ((ls ++ [Label.tick]).flatMap Label.clocked ++ [.raise (.pic0 1)]) := by
    have hother : ClockLabel.raise (.pic0 1) ≠ .raise .timer := by
      rintro ⟨⟩
    rw [TimerRaised.snoc rfl hother, List.flatMap_append]
    have hlast : ls.flatMap Label.clocked ++ [Label.tick].flatMap Label.clocked =
        ls.flatMap Label.clocked ++ [.raise .timer] ++ [.interrupt 0x20#8] := by
      rw [List.append_assoc]
      rfl
    rw [hlast]
    exact TimerRaised.not_snoc_interrupt _
  obtain ⟨htick, -, hisr, -, -, hnext⟩ := sys_tick_counts_ticks hrun'
  rw [hone] at htick
  refine ⟨_, _, hrun', hone, htick, hisr, fun v c' hstep => ?_⟩
  exact hraised ((hnext v c'.machine).mp ⟨c', hstep, rfl⟩).2.1

end OsToyI386
