import OsToyI386.Properties.Placement

/-!
# How long a task sleeps

`sleep_ticks` counts down one a tick from the number that `sys_sleep` computes, and the
task is ready again with the tick that brings it to zero. The number is one more than the
milliseconds rounded up to ticks, unless the rounding wraps around.
-/

namespace OsToyI386

open Lib

namespace Core

variable {K : Core} {t c : TaskPtr} {a : Act}

lemma Inv.exec_asleep (h : K.Inv) (he : K.Enabled a) (ha : a ≠ .timer)
    (ht : t ∈ K.queue .sleep) :
    t ∈ (K.exec a).queue .sleep ∧ ((K.exec a).task t).sleepTicks = (K.task t).sleepTicks := by
  have htasks : t ∈ K.tasks := (h.placed.placed t).mpr ⟨.sleep, ht⟩
  by_cases hs : shuffling a = true
  · have hsettle := h.exec_settles he hs
    rw [hsettle.sleep, hsettle.task t]
    exact ⟨ht, rfl⟩
  · cases a with
    | note e => exact ⟨ht, rfl⟩
    | timer => exact absurd rfl ha
    | sleep ms =>
      obtain ⟨c, hc⟩ := Option.ne_none_iff_exists'.mp he.1
      have hready := h.mem_ready hc (fun hi => he.2 (hi ▸ hc))
      have hne : t ≠ c := by
        rintro rfl
        cases h.placed.apart.unique _ _ t ht hready
      have hc' : K.off.curr = some c := hc
      rw [Core.exec, Core.sleep, hc']
      simp only [dispatch_queue]
      rw [dispatch_task]
      simp [join, Core.setTask, pop, leave, emit, Core.off, Core.cpu, hne, ht]
    | fill sel r =>
      have hne : t ≠ r.task := fun htr => he (htr ▸ htasks)
      simp [Core.exec, Core.setTask, Core.cpu, hne, ht]
    | fields r =>
      have hne : t ≠ r.task := fun htr => he (htr ▸ htasks)
      simp [Core.exec, Core.setTask, hne, ht]
    | ready u =>
      have hne : t ≠ u := fun htu => he.1 (htu ▸ htasks)
      simp [Core.exec, Core.create, wake, join, Core.setTask, Core.off, Core.cpu, hne, ht]
    | becomeMain => exact ⟨ht, rfl⟩
    | _ => exact absurd rfl hs

lemma Inv.tick_asleep (h : K.Inv) (hc : K.curr = some c) (ht : t ∈ K.queue .sleep) :
    if (K.task t).sleepTicks = 1 then
      t ∉ K.tick.queue .sleep ∧ t ∈ K.tick.queue .ready
    else
      t ∈ K.tick.queue .sleep ∧ (K.tick.task t).sleepTicks = (K.task t).sleepTicks - 1 := by
  have hnd := h.placed.apart.nodup .sleep
  rw [tick_sleep hnd hc, tick_ready hnd hc, tick_sleepTicks hnd hc ht]
  split
  · rename_i hdue
    simp [ht, due, hdue]
  · rename_i hdue
    simp [ht, due, hdue]

lemma sleep_asleep {ms : BitVec 32} (hc : K.curr = some c) :
    c ∈ (K.exec (.sleep ms)).queue .sleep ∧
      ((K.exec (.sleep ms)).task c).sleepTicks = (sleepTicksOf ms).toInt := by
  have hc' : K.off.curr = some c := hc
  rw [Core.exec, Core.sleep, hc']
  simp only [dispatch_queue]
  rw [dispatch_task]
  simp [join, Core.setTask]

end Core

namespace Machine.Sound

variable {M M' : Machine Core} {l : Label} {ls : List Label} {t : TaskPtr} {n : Nat}

lemma does_timer {a : Act} {rest : List Epilogue} {pc : Pc} {new : List TaskPtr}
    (hd : M.Does l a rest pc new) (ha : a = .timer) : l.isTick = true := by
  cases hd with
  | tick => rfl
  | ret => cases ha
  | code _ hnext =>
    revert hnext
    fun_cases Pc.next M.running (Kernel.cpu M.sys) (M.ctl M.running).pc <;> intro hnext <;>
      cases hnext <;> cases ha
  | @call op hown hop => cases op <;> cases ha

lemma asleep_other (h : M.Sound) (hs : M.Step l M') (hl : l.isTick ≠ true)
    (ht : t ∈ M.sys.queue .sleep) :
    t ∈ M'.sys.queue .sleep ∧ (M'.sys.task t).sleepTicks = (M.sys.task t).sleepTicks := by
  obtain ⟨-, a, rest, pc, new, hd, rfl⟩ := Machine.step_iff.mp hs
  exact h.core.exec_asleep (h.enabled hd) (fun ha => hl (does_timer hd ha)) ht

lemma asleep_tick (h : M.Sound) (hs : M.Step .tick M') (ht : t ∈ M.sys.queue .sleep) :
    if (M.sys.task t).sleepTicks = 1 then
      t ∉ M'.sys.queue .sleep ∧ t ∈ M'.sys.queue .ready
    else
      t ∈ M'.sys.queue .sleep ∧ (M'.sys.task t).sleepTicks = (M.sys.task t).sleepTicks - 1 := by
  obtain ⟨-, a, rest, pc, new, hd, rfl⟩ := Machine.step_iff.mp hs
  have he := h.enabled hd
  cases hd with
  | tick =>
    obtain ⟨c, hc⟩ := Option.ne_none_iff_exists'.mp he
    exact h.core.off.tick_asleep hc ht

lemma asleep_run (h : M.Sound) (hr : Run Machine.Step M ls M') (ht : t ∈ M.sys.queue .sleep)
    (hn : (M.sys.task t).sleepTicks = n) (hk : ls.countP Label.isTick < n) :
    t ∈ M'.sys.queue .sleep ∧
      (M'.sys.task t).sleepTicks = (n - ls.countP Label.isTick : Nat) := by
  induction hr generalizing n with
  | nil => simpa using ⟨ht, hn⟩
  | @cons M M₁ M' l ls hs hr ih =>
    have h₁ := h.step hs
    by_cases hl : l.isTick = true
    · rw [List.countP_cons_of_pos hl] at hk ⊢
      obtain rfl : l = .tick := by cases l <;> first | rfl | cases hl
      have htick := h.asleep_tick hs ht
      rw [if_neg (by omega)] at htick
      obtain ⟨hmem, hticks⟩ := ih h₁ htick.1 (n := n - 1) (by omega) (by omega)
      refine ⟨hmem, hticks.trans ?_⟩
      congr 1
      omega
    · rw [List.countP_cons_of_neg hl] at hk ⊢
      obtain ⟨hmem, hsame⟩ := h.asleep_other hs hl ht
      exact ih h₁ hmem (hsame.trans hn) hk

lemma asleep_last (h : M.Sound) (ls : List Label) (hr : Run Machine.Step M (ls ++ [.tick]) M')
    (ht : t ∈ M.sys.queue .sleep) (hn : (M.sys.task t).sleepTicks = n)
    (hk : ls.countP Label.isTick + 1 = n) :
    t ∉ M'.sys.queue .sleep ∧ t ∈ M'.sys.queue .ready := by
  obtain ⟨M₁, hr₁, hlast⟩ := hr.split
  obtain ⟨hmem, hticks⟩ := h.asleep_run hr₁ ht hn (by omega)
  have h₁ := h.run hr₁
  cases hlast with
  | cons hs hnil =>
    cases hnil
    have htick := h₁.asleep_tick hs hmem
    rwa [if_pos (by omega)] at htick

end Machine.Sound

/-- The milliseconds in full ticks, rounded up over the integers. -/
def msTicks (ms : BitVec 32) : Nat := (ms.toNat + 9) / 10

/-- What a task `c` that goes to sleep for `n` ticks can expect at the end of a run `ls`:
it sleeps through `n` ticks and is ready with the next. -/
structure Sys.SleepsThrough (s : Sys) (c : TaskPtr) (n : Nat) (ls : List Label) : Prop where
  asleep : ls.countP Label.isTick ≤ n → ⟨c, .runNode⟩ ∈ s.heap.toList .sleepList
  woken : ∀ ls', ls = ls' ++ [.tick] → ls.countP Label.isTick = n + 1 →
    ⟨c, .runNode⟩ ∉ s.heap.toList .sleepList ∧ ⟨c, .runNode⟩ ∈ s.heap.toList .readyList
  ticks : ⟨c, .runNode⟩ ∈ s.heap.toList .sleepList → 1 ≤ (s.task c).sleepTicks

namespace Machine.Sim

variable {m m' v : Machine Sys} {M M' : Machine Core} {ls : List Label} {c : TaskPtr}
  {ms : BitVec 32}

lemma called_sleep (h : m.Sim M) (hM : M.Sound) (hcall : m.Step (.call (.sysSleep ms)) m')
    (hc : m.sys.currTask = some c) :
    ∃ M', m'.Sim M' ∧ M'.Sound ∧ c ∈ M'.sys.queue .sleep ∧
      (M'.sys.task c).sleepTicks = ((ms.toNat + 9) % 2 ^ 32 / 10 + 1 : Nat) := by
  obtain ⟨M', hs, h', hM'⟩ := h.step hM hcall
  refine ⟨M', h', hM', ?_⟩
  obtain ⟨-, a, rest, pc, new, hd, rfl⟩ := Machine.step_iff.mp hs
  cases hd with
  | call hown hop =>
    rw [← sleepTicksOf_toInt]
    exact Core.sleep_asleep (h.sys.curr ▸ hc)

end Machine.Sim

lemma Label.first_tick {ls : List Label} (h : 0 < ls.countP isTick) :
    ∃ ls₁ ls₂, ls = (ls₁ ++ [.tick]) ++ ls₂ ∧ ls₁.countP isTick = 0 := by
  obtain ⟨l, hl, htick⟩ := List.countP_pos_iff.mp h
  obtain rfl : l = .tick := by cases l <;> first | rfl | cases htick
  obtain ⟨ls₁, ls₂, hls, hnot⟩ := List.eq_append_cons_of_mem hl
  refine ⟨ls₁, ls₂, by simp [hls], List.countP_eq_zero.mpr fun l hl' htick' => ?_⟩
  obtain rfl : l = .tick := by cases l <;> first | rfl | cases htick'
  exact hnot hl'

variable {b : BootMem} {ls ls' : List Label} {m m' v : Machine Sys} {c : TaskPtr}
  {ms : BitVec 32}

/-- A task that calls `sys_sleep` sleeps as long as it asked for if and only if the
rounding does not wrap around. -/
theorem sleeps_as_asked_iff (h : b.Reaches ls m) (hc : m.sys.currTask = some c)
    (hcall : m.Step (.call (.sysSleep ms)) m') (hr : Run Machine.Step m' ls' v) :
    (∀ ls₁ ls₂ u, ls' = ls₁ ++ ls₂ → Run Machine.Step m' ls₁ u → Run Machine.Step u ls₂ v →
      u.sys.SleepsThrough c (msTicks ms) ls₁) ↔
    (ms.toNat + 9 < 2 ^ 32 ∨ ls'.countP Label.isTick = 0) := by
  obtain ⟨M, -, hsim, hM⟩ := h.sim
  obtain ⟨M', hsim', hM', hmem, hticks⟩ := hsim.called_sleep hM hcall hc
  have hms := ms.isLt
  constructor
  · intro hall
    by_contra hno
    obtain ⟨hwrap, hsome⟩ := not_or.mp hno
    obtain ⟨ls₁, ls₂, hls, hnone⟩ := Label.first_tick (Nat.pos_of_ne_zero hsome)
    subst hls
    obtain ⟨u, hr₁, hr₂⟩ := hr.split
    have hcount : (ls₁ ++ [Label.tick]).countP Label.isTick = 1 := by
      rw [List.countP_append, hnone]
      rfl
    have hasleep := (hall _ _ u rfl hr₁ hr₂).asleep (by rw [hcount, msTicks]; omega)
    obtain ⟨U, hrU, hsimU, -⟩ := hsim'.run hM' hr₁
    have hwoken := hM'.asleep_last _ hrU hmem hticks (by omega)
    exact hwoken.1 ((hsimU.sys.mem_toList .sleep c).mp hasleep)
  · intro hcond ls₁ ls₂ u hls hr₁ hr₂
    have hcount : ls'.countP Label.isTick = ls₁.countP Label.isTick + ls₂.countP Label.isTick := by
      rw [hls, List.countP_append]
    obtain ⟨U, hrU, hsimU, hU⟩ := hsim'.run hM' hr₁
    refine ⟨fun hle => ?_, fun ls₀ hlast hn => ?_, fun hsleep => ?_⟩
    · refine (hsimU.sys.mem_toList .sleep c).mpr (hM'.asleep_run hrU hmem hticks ?_).1
      rw [msTicks] at hle
      omega
    · have hfit : ms.toNat + 9 < 2 ^ 32 := hcond.resolve_right (by omega)
      subst hlast
      have hone : (ls₀ ++ [Label.tick]).countP Label.isTick = ls₀.countP Label.isTick + 1 := by
        rw [List.countP_append]
        rfl
      have hwoken := hM'.asleep_last _ hrU hmem hticks (by
        rw [Nat.mod_eq_of_lt hfit, ← msTicks]
        omega)
      exact ⟨fun hs => hwoken.1 ((hsimU.sys.mem_toList .sleep c).mp hs),
        (hsimU.sys.mem_toList .ready c).mpr hwoken.2⟩
    · rw [hsimU.sys.task]
      exact hU.core.asleep c ((hsimU.sys.mem_toList .sleep c).mp hsleep)

lemma farJump_eflags {p : Cpu} {i j : Nat} (hi : i < gdtTableSize) (hj : 0 < j)
    (hj' : j < gdtTableSize) (htr : p.tr = selOf i) (hav : (p.gdt j).isAvailableTss = true)
    (hne : (p.gdt j).base ≠ (p.gdt i).base) (hij : i ≠ j) :
    (farJump (selOf j) p).eflags = getDword (p.tss (p.gdt j).base) Tss.eflags := by
  have hsel : selInGdt (selOf j) = true := selInGdt_selOf hj hj'
  simp [farJump, hsel, selIndex_selOf hj', selIndex_selOf hi, htr, hav, Cpu.setDesc, hij.symm, hne,
    base_setBusy]

lemma Core.Booted.sleeps {K : Core} (h : K.Booted b) (ms : BitVec 32)
    (hne : b.tssAddr .idleTask ≠ b.tssAddr .mainTask) :
    (K.exec (.sleep ms)).Runs (some .idleTask) ∧ (K.exec (.sleep ms)).interruptible = true := by
  have hcurr : K.off.curr = some .mainTask := h.runs.curr
  have hready : K.queue .ready = [.mainTask] := h.queue .ready
  have hsleep : K.queue .sleep = [] := h.queue .sleep
  have hexec : (K.exec (.sleep ms)).curr = some .idleTask ∧
      (K.exec (.sleep ms)).toCpu = farJump (selOf 3) K.off.toCpu.cli := by
    have hidle : (K.task .idleTask).tssSel = (3 * 8 : Nat) := h.idleSel
    rw [Core.exec, Core.sleep, hcurr]
    constructor <;>
      simp [Core.dispatch, Core.head, Core.join, Core.setTask, Core.pop, Core.leave, Core.emit,
        Core.off, Core.cpu, hready, h.runs.curr, hidle, switchToTss, selOf]
  have h3 : (K.off.toCpu.cli.gdt 3).base = b.tssAddr .idleTask := by
    have hidle : K.off.toCpu.cli.gdt 3 = tssDesc (b.tssAddr .idleTask) := h.idle
    rw [hidle, tssDesc_base]
  have h4 : (K.off.toCpu.cli.gdt 4).base = b.tssAddr .mainTask := by
    have hmain : K.off.toCpu.cli.gdt 4 = (tssDesc (b.tssAddr .mainTask)).setBusy := h.main
    rw [hmain, base_setBusy, tssDesc_base]
  have hav : (K.off.toCpu.cli.gdt 3).isAvailableTss = true := by
    have hidle : K.off.toCpu.cli.gdt 3 = tssDesc (b.tssAddr .idleTask) := h.idle
    rw [hidle]
    exact isAvailableTss_of_attr (tssDesc_attr _)
  have htr : K.off.toCpu.cli.tr = selOf 4 := h.tr
  obtain ⟨hgdt, htr', haddr, hhalt⟩ := farJump_gdt (i := 4) (j := 3) (by decide) (by decide)
    (by decide) (by decide) htr hav
  have hflags := farJump_eflags (i := 4) (j := 3) (by decide) (by decide) (by decide) htr hav
    (by rw [h3, h4]; exact hne) (by decide)
  refine ⟨⟨?_, hexec.1, ?_⟩, ?_⟩
  · rw [hexec.2, hhalt]
    exact h.runs.halt
  · have haddr' : K.off.toCpu.cli.tssAddr = b.tssAddr := h.tssAddr
    rw [hexec.2, Cpu.runs, htr', selIndex_selOf (by decide), hgdt, Function.update_self,
      base_setBusy, h3, haddr, haddr']
    exact beq_self_eq_true _
  · have htss : K.off.toCpu.cli.tss = K.tss := rfl
    rw [hexec.2, Cpu.interruptible, hflags, h3, htss, h.idleFlags]
    decide

lemma main_calls_sleep (b : BootMem) (ms : BitVec 32) : ∃ ls m m' tr, b.Reaches ls m ∧
    m.sys.currTask = some .mainTask ∧ m.Step (.call (.sysSleep ms)) m' ∧
    m'.Sim (Machine.place ((b.atMain tr).exec (.sleep ms)) (fun _ => .own)
      [.mainTask, .idleTask] (some .mainTask)
      ⟨(b.atMain tr).leaves (.sleep ms), .user⟩) := by
  obtain ⟨ls, m, tr, hm, hsim, hM⟩ := b.reaches_main
  have hruns := (b.atMain_booted (tr ++ [.initReturn .mainTask 0])).runs
  have hcall := step_call (f := fun _ => .own) (s := [.mainTask, .idleTask])
    (.sysSleep ms) hruns
    (allows_place hruns rfl (by simp [Op.creates]) (Or.inr ⟨_, rfl, by simp, by simp⟩))
  obtain ⟨m', hs, hsim'⟩ := hsim.step_back hM hcall.2
  exact ⟨ls, m, m', _, hm.reaches, hsim.sys.curr, hs, hsim'⟩

/-- A task that asks for 25 milliseconds has three ticks to sleep. -/
theorem sleeps_as_asked_iff_main : ∃ ls m m', BootMem.zeroed.Reaches ls m ∧
    m.Step (.call (.sysSleep 25#32)) m' ∧ m'.sys.SleepsThrough .mainTask 3 [] := by
  obtain ⟨ls, m, m', tr, hm, hc, hs, -⟩ := main_calls_sleep BootMem.zeroed 25#32
  exact ⟨ls, m, m', hm, hs, (sleeps_as_asked_iff hm hc hs (.nil m')).mpr (Or.inl (by decide))
    [] [] m' rfl (.nil m') (.nil m')⟩

/-- A task that asks for 4294967295 milliseconds is ready after the first tick. -/
theorem sleep_wraps_around : ¬ ∀ (b : BootMem) (ls : List Label) (m : Machine Sys) (c : TaskPtr)
    (ms : BitVec 32) (m' : Machine Sys) (ls' : List Label) (v : Machine Sys),
    b.Reaches ls m → m.sys.currTask = some c → m.Step (.call (.sysSleep ms)) m' →
    Run Machine.Step m' ls' v → v.sys.SleepsThrough c (msTicks ms) ls' := by
  intro hall
  obtain ⟨ls, m, m', tr, hm, hc, hs, hsim'⟩ := main_calls_sleep BootMem.zeroed 4294967295#32
  have hbooted := BootMem.zeroed.atMain_booted tr
  obtain ⟨hruns, hint⟩ := hbooted.sleeps 4294967295#32 (by decide)
  obtain ⟨M, -, hsim, hM⟩ := hm.sim
  obtain ⟨M', h', hM', hmem, hticks⟩ := hsim.called_sleep hM hs hc
  -- the next tick
  have htick : ∃ u, m'.Step .tick u := by
    refine ⟨_, Machine.step_iff.mpr ⟨hsim'.live_iff.mpr hruns.live, _, _, _, _, .tick ?_, rfl⟩⟩
    rw [hsim'.cpu]
    exact hint
  obtain ⟨u, hu⟩ := htick
  have hasleep := (hall _ _ _ _ _ _ _ _ hm hc hs (.single hu)).asleep (by decide)
  obtain ⟨U, hrU, hsimU, -⟩ := h'.run hM' (.single hu)
  have hwoken := hM'.asleep_last [] (n := 1) hrU hmem (by rw [hticks]; decide) rfl
  exact hwoken.1 ((hsimU.sys.mem_toList .sleep _).mp hasleep)

end OsToyI386
