import OsToyI386.Scheduler.RoundRobin

/-!
# Busy tasks share the processor

Tasks that stay ready and do not yield get the same number of ticks, up to one slice,
however long the run is and whatever all other tasks do in it.
-/

namespace OsToyI386

open Lib

/-- A step of the context `x.1` in which the tasks in `S` stay ready and do not yield. -/
def Machine.StepBusy (S : Set TaskPtr) (m : Machine Sys) (x : Ctx × Label)
    (m' : Machine Sys) : Prop :=
  m.running = x.1 ∧ m.Step x.2 m' ∧
    ∀ t ∈ S, x ≠ (some t, .call .sysSchedYield) ∧ ∃ p, m'.sys.ReadyAt t p

/-- The task that a step charges a tick. -/
def charged : Ctx × Label → Option TaskPtr
  | (some c, .tick) => if c = .idleTask then none else some c
  | _ => none

lemma charged_eq_some_iff {x : Ctx × Label} {t : TaskPtr} (ht : t ≠ .idleTask) :
    charged x = some t ↔ x = (some t, .tick) := by
  rcases x with ⟨_ | c, l⟩
  · simp [charged]
  · cases l with
    | tick =>
      by_cases hc : c = .idleTask
      · simp [charged, hc, ht.symm]
      · simp [charged, hc]
    | run => simp [charged]
    | call op => simp [charged]

lemma count_charged {t : TaskPtr} (ht : t ≠ .idleTask) (xs : List (Ctx × Label)) :
    (xs.flatMap fun x => [charged x]).count (some t) = xs.count (some t, .tick) := by
  induction xs with
  | nil => rfl
  | cons x xs ih =>
    rw [List.flatMap_cons, List.count_append, ih, List.count_cons, List.count_cons,
      List.count_nil]
    have hiff : (charged x == some t) = (x == (some t, .tick)) := by
      rw [Bool.eq_iff_iff, beq_iff_eq, beq_iff_eq]
      exact charged_eq_some_iff ht
    rw [hiff]
    omega

namespace Machine

variable {M M' : Machine Core} {m m' : Machine Sys} {l : Label} {S : Set TaskPtr}
  {x : Ctx × Label} {c : TaskPtr}

lemma does_yield {a : Act} {rest : List Epilogue} {pc : Pc} {new : List TaskPtr}
    (hd : M.Does l a rest pc new) (ha : a = .yield) : l = .call .sysSchedYield := by
  cases hd with
  | tick => cases ha
  | ret => cases ha
  | code _ hnext =>
    revert hnext
    fun_cases Pc.next M.running (Kernel.cpu M.sys) (M.ctl M.running).pc <;> intro hnext <;>
      cases hnext <;> cases ha
  | @call op hown hop => cases op <;> cases ha; rfl

lemma Sound.roundRobin_step (h : M.Sound) (hs : M.Step l M') (h' : M'.Sound)
    (hc : M.sys.curr = some c)
    (hS : c ∈ S → l ≠ .call .sysSchedYield ∧ c ∈ M'.sys.queue .ready) :
    RoundRobin.Step S (M.sys.roundRobin h.core) (charged (some c, l))
      (M'.sys.roundRobin h'.core) := by
  obtain ⟨-, a, rest, pc, new, hd, rfl⟩ := Machine.step_iff.mp hs
  by_cases ha : a = .timer
  · subst ha
    have hl : l = .tick := by
      have htick := Sound.does_timer hd rfl
      cases l <;> first | rfl | cases htick
    subst hl
    have hcharged : charged (some c, .tick) = if c = .idleTask then none else some c := rfl
    rw [hcharged]
    by_cases hidle : c = .idleTask
    · rw [if_pos hidle]
      exact h.core.off.roundRobin_idle (hidle ▸ hc)
    · rw [if_neg hidle]
      exact h.core.off.roundRobin_tick hc hidle
  · have hl : charged (some c, l) = none := by
      cases l with
      | tick =>
        cases hd
        exact absurd rfl ha
      | run => rfl
      | call op => rfl
    rw [hl]
    exact h.core.roundRobin_exec (h.enabled hd) hc ha fun hcS =>
      ⟨fun hy => (hS hcS).1 (does_yield hd hy), (hS hcS).2⟩

/-- The machine in `m` has its ready queue in the order and with the slices of `r`. -/
def InTurns (m : Machine Sys) (r : RoundRobin TaskPtr taskTimeSliceDefault) : Prop :=
  ∃ (M : Machine Core) (hM : M.Sound), m.Sim M ∧ M.sys.curr ≠ none ∧
    r = M.sys.roundRobin hM.core

lemma StepBusy.roundRobin {r : RoundRobin TaskPtr taskTimeSliceDefault}
    (hs : m.StepBusy S x m') (h : m.InTurns r) :
    ∃ r', RoundRobin.Step S r (charged x) r' ∧ m'.InTurns r' := by
  obtain ⟨hx, hstep, hbusy⟩ := hs
  obtain ⟨M, hM, hsim, hcurr, rfl⟩ := h
  obtain ⟨M', hs', hsim', hM'⟩ := hsim.step hM hstep
  obtain ⟨c, hc⟩ := Option.ne_none_iff_exists'.mp hcurr
  have hxc : x.1 = some c := by
    rw [← hx, ← hc]
    exact hsim.sys.curr
  have hxl : x = (some c, x.2) := Prod.ext hxc rfl
  refine ⟨_, ?_, M', hM', hsim', Sim.curr_ne_none hM hs' hcurr, rfl⟩
  rw [hxl]
  refine hM.roundRobin_step hs' hM' hc fun hcS => ⟨fun hl => ?_, ?_⟩
  · exact (hbusy c hcS).1 (hxl.trans (by rw [hl]))
  · obtain ⟨p, hp⟩ := (hbusy c hcS).2
    exact List.mem_of_getElem? (hsim'.readyAt_iff.mp hp)

end Machine

variable {b : BootMem} {ls : List Label} {m m' : Machine Sys} {S : Set TaskPtr}
  {xs : List (Ctx × Label)}

/-- Of two busy tasks the one that stood before the other is ahead by one slice at most, and
behind by no more than the other had more left at the beginning. -/
theorem busy_tasks_share (h : b.Reaches ls m) (hr : Run (Machine.StepBusy S) m xs m') :
    ∀ t ∈ S, ∀ u ∈ S, ∀ p q, m.sys.ReadyAt t p → m.sys.ReadyAt u q → p < q →
      min 0 ((m.sys.task t).sliceTicks - (m.sys.task u).sliceTicks) ≤
          (xs.count (some t, .tick) : Int) - xs.count (some u, .tick) ∧
        (xs.count (some t, .tick) : Int) - xs.count (some u, .tick) ≤
          10 + ((m.sys.task t).sliceTicks - (m.sys.task u).sliceTicks) := by
  intro t ht u hu p q hp hq hpq
  obtain ⟨M, -, hsim, hM⟩ := h.sim
  rw [hsim.readyAt_iff] at hp hq
  have htmem := List.mem_of_getElem? hp
  have humem := List.mem_of_getElem? hq
  have hbefore : [t, u].Sublist (M.sys.queue .ready) := by
    have htake : t ∈ (M.sys.queue .ready).take q := by
      rw [List.mem_take_iff_getElem]
      obtain ⟨hlt, hget⟩ := List.getElem?_eq_some_iff.mp hp
      exact ⟨p, by omega, hget⟩
    have hdrop : u ∈ (M.sys.queue .ready).drop q := by
      rw [List.mem_drop_iff_getElem]
      obtain ⟨hlt, hget⟩ := List.getElem?_eq_some_iff.mp hq
      exact ⟨0, by omega, by simpa using hget⟩
    rw [← List.take_append_drop q (M.sys.queue .ready)]
    exact (List.singleton_sublist.mpr htake).append (List.singleton_sublist.mpr hdrop)
  have hne : t ≠ u := by
    have hnd := hbefore.nodup (hM.core.placed.apart.nodup .ready)
    rintro rfl
    simp at hnd
  have hcurr : M.sys.curr ≠ none := by
    intro hn
    have hboot := hM.core.boot hn
    exact hne ((hboot.ready t htmem).trans (hboot.ready u humem).symm)
  obtain ⟨r', hrun, -⟩ := hr.simulate (S := RoundRobin.Step S) (r := Machine.InTurns)
    (f := fun x => [charged x])
    (fun m x m' r hrel hs => by
      obtain ⟨r', hstep, hrel'⟩ := hs.roundRobin hrel
      exact ⟨r', .single hstep, hrel'⟩)
    ⟨M, hM, hsim, hcurr, rfl⟩
  have hshares := RoundRobin.shares ht hu hbefore hrun
  have hidle : ∀ v ∈ M.sys.queue .ready, v ≠ .idleTask := fun v hv hi =>
    hM.core.idle_not_mem .ready (hi ▸ hv)
  rw [count_charged (hidle t htmem), count_charged (hidle u humem)] at hshares
  rw [hsim.sys.task]
  exact hshares

lemma Core.Inv.tick_mem_ready {K : Core} {c t : TaskPtr} (h : K.Inv) (hc : K.curr = some c)
    (hidle : c ≠ .idleTask) (ht : t ∈ K.queue .ready) : t ∈ K.tick.queue .ready := by
  obtain ⟨xs, hr⟩ := h.ready_cons hc hidle
  rw [Core.tick_ready (h.placed.apart.nodup .sleep) hc, Core.sliceTick_ready hr hidle]
  rw [hr] at ht
  split
  · simp only [List.mem_append, List.mem_cons] at ht ⊢
    tauto
  · exact List.mem_append_left _ ht

lemma BootMem.main_shares (b : BootMem) : ∃ ls m m', b.Reaches ls m ∧
    m.sys.ReadyAt .mainTask 0 ∧ m.sys.ReadyAt (.obj 0) 1 ∧
    Run (Machine.StepBusy {.mainTask, .obj 0}) m
      [(some .mainTask, .call .irqEnableGlobal), (some .mainTask, .tick)] m' := by
  obtain ⟨K, s, hplays, hfilled, -⟩ := b.fills 1 (by decide)
  obtain ⟨ls, m, hm, hsim, -⟩ := hplays.real
  have hM := hplays.sound
  have hruns := hfilled.runs
  have hready : K.queue .ready = [.mainTask, .obj 0] := hfilled.queue .ready
  have hcall := (step_call (f := fun _ => .own) (s := s) .irqEnableGlobal hruns
    (allows_place hruns rfl (by simp [Op.creates]) (Or.inr ⟨_, rfl, by simp, by simp⟩))).2
  have hon : (K.exec .enable).Runs (some .mainTask) := ⟨hruns.halt, hruns.curr, hruns.runs⟩
  have hflag : (K.exec .enable).interruptible = true := by
    simp [Core.exec, Core.cpu, Cpu.interruptible, Cpu.sti]
  obtain ⟨m₁, hs₁, hsim₁⟩ := hsim.step_back hM hcall
  have hM₁ := hM.step hcall
  have htick := Machine.step_iff.mpr ⟨hon.live (f := fun _ => .own) (s := s)
    (d := some .mainTask) (k := .own), _, _, _, _, .tick hflag, rfl⟩
  obtain ⟨m₂, hs₂, hsim₂⟩ := hsim₁.step_back hM₁ htick
  have hrunning : m.running = some .mainTask := hsim.running.trans hruns.curr
  have hrunning₁ : m₁.running = some .mainTask := hsim₁.running.trans hon.curr
  have hready₁ : ∀ t ∈ ({.mainTask, .obj 0} : Set TaskPtr), t ∈ (K.exec .enable).queue .ready := by
    intro t ht
    have hsame : (K.exec .enable).queue .ready = [.mainTask, .obj 0] := hready
    rw [hsame]
    simpa using ht
  refine ⟨ls, m, m₂, hm.reaches, ?_, ?_, .cons ⟨hrunning, hs₁, fun t ht => ⟨by simp, ?_⟩⟩
    (.single ⟨hrunning₁, hs₂, fun t ht => ⟨by simp, ?_⟩⟩)⟩
  · rw [hsim.readyAt_iff]
    exact congrArg (·[0]?) hready
  · rw [hsim.readyAt_iff]
    exact congrArg (·[1]?) hready
  · obtain ⟨p, hp⟩ := List.getElem?_of_mem (hready₁ t ht)
    exact ⟨p, hsim₁.readyAt_iff.mpr hp⟩
  · have hmem := hM₁.core.off.tick_mem_ready hon.curr (by simp) (hready₁ t ht)
    obtain ⟨p, hp⟩ := List.getElem?_of_mem hmem
    exact ⟨p, hsim₂.readyAt_iff.mpr hp⟩

/-- The first tick makes the main task the busier of the two. -/
theorem busy_tasks_share_main : ∃ ls m m', BootMem.zeroed.Reaches ls m ∧
    Run (Machine.StepBusy {.mainTask, .obj 0}) m
      [(some .mainTask, .call .irqEnableGlobal), (some .mainTask, .tick)] m' ∧
    (1 : Int) ≤ 10 + ((m.sys.task .mainTask).sliceTicks - (m.sys.task (.obj 0)).sliceTicks) := by
  obtain ⟨ls, m, m', hm, hp, hq, hr⟩ := BootMem.zeroed.main_shares
  have hshare := busy_tasks_share hm hr .mainTask (by simp) (.obj 0) (by simp) 0 1 hp hq (by simp)
  exact ⟨ls, m, m', hm, hr, hshare.2⟩

end OsToyI386
