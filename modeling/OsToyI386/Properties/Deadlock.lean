import OsToyI386.Scheduler.Calls
import OsToyI386.Scheduler.Filling
import OsToyI386.Scheduler.LockOrder
import OsToyI386.Scheduler.Logging

/-!
# No deadlock on ordered mutexes

As long as every context locks its mutexes in the order of a rank, no tasks wait for each
other's mutexes in a circle, and every task that waits for a mutex waits in the end for a
context that waits for none.
-/

namespace OsToyI386

open Lib

/-- Who stands in the wait list of which mutex, and who has which mutex. -/
def Machine.waiting (m : Machine Sys) : Waiting Ctx MutexPtr where
  waits c x := ∃ t, c = some t ∧ t ∈ m.sys.waiters (.mutex x)
  holds c x := (m.sys.mutex x).takenBy c

namespace Machine.Sim

variable {m : Machine Sys} {M : Machine Core} {rank : MutexPtr → ℕ} {c : Ctx} {x : MutexPtr}

lemma waits_iff (h : m.Sim M) :
    m.waiting.waits c x ↔ ∃ t, c = some t ∧ t ∈ M.sys.queue (.mutexWait x) := by
  simp only [Machine.waiting, h.sys.waiters]
  rfl

lemma holds_iff (h : m.Sim M) : m.waiting.holds c x ↔ (M.sys.mutex x).takenBy c := by
  rw [Machine.waiting, h.sys.mutex]

lemma ordered (h : m.Sim M) (hO : M.sys.LockOrdered rank) : m.waiting.Ordered rank := by
  intro c x y hw hh
  obtain ⟨t, rfl, ht⟩ := h.waits_iff.mp hw
  exact hO.order x y t ht (h.holds_iff.mp hh)

lemma waiting_finite (h : m.Sim M) (hM : M.Sound) : {c | ∃ x, m.waiting.waits c x}.Finite := by
  refine (M.sys.tasks.map some).toFinset.finite_toSet.subset ?_
  rintro c ⟨x, hw⟩
  obtain ⟨t, rfl, ht⟩ := h.waits_iff.mp hw
  have htask : t ∈ M.sys.tasks := (hM.core.placed.placed t).mpr ⟨_, ht⟩
  simpa using htask

end Machine.Sim

variable {b : BootMem} {rank : MutexPtr → ℕ} {ls : List Label} {m : Machine Sys}

/-- Mutexes that are taken in the order of their ranks do not deadlock. -/
theorem ordered_locks_never_deadlock (h : Run (Machine.StepOrdered rank) b.machine ls m) :
    (∀ c, ¬ Relation.TransGen m.waiting.For c c) ∧
      ∀ x, ∀ t ∈ m.sys.waiters (.mutex x),
        ∃ c, Relation.TransGen m.waiting.For (some t) c ∧ ∀ y, ¬ m.waiting.waits c y := by
  obtain ⟨M, hsim, hM, hO⟩ := BootMem.lockOrdered h
  have hord := hsim.ordered hO
  refine ⟨hord.acyclic, fun x t ht => ?_⟩
  have hheld : ∀ c x, m.waiting.waits c x → ∃ d, m.waiting.holds d x := by
    intro c y hw
    obtain ⟨u, -, hu⟩ := hsim.waits_iff.mp hw
    obtain ⟨d, hd⟩ := hO.held y (List.ne_nil_of_mem hu)
    exact ⟨d, hsim.holds_iff.mpr hd⟩
  obtain ⟨c, hc, hfree⟩ := hord.leads_to_free (hsim.waiting_finite hM) hheld
    (a := some t) ⟨x, t, rfl, ht⟩
  exact ⟨c, hc, fun y hy => hfree ⟨y, hy⟩⟩

section Ordered

open Machine

variable {M M' : Machine Core} {ops : List (Ctx × Op)} {l : Label} {x : MutexPtr}

/-- A step in which the running context keeps to the order. -/
def Machine.StepInOrder (rank : MutexPtr → ℕ) (M : Machine Core) (l : Label) (M' : Machine Core) :
    Prop :=
  M.StepWithRoom l M' ∧ ∀ x, M.Locks l x →
    ∀ y, (M.sys.mutex y).takenBy M.sys.curr → y ≠ x → rank y < rank x

lemma Machine.Sim.run_ordered (h : m.Sim M) (hM : M.Sound)
    (hr : Run (Machine.StepInOrder rank) M ls M') :
    ∃ m', Run (Machine.StepOrdered rank) m ls m' ∧ m'.Sim M' := by
  induction hr generalizing m with
  | nil => exact ⟨m, .nil m, h⟩
  | @cons M _ _ _ _ hs _ ih =>
    obtain ⟨m₁, hs₁, h₁⟩ := h.step_back hM hs.1.2
    obtain ⟨m', hr', h'⟩ := ih h₁ (hM.step hs.1.2)
    refine ⟨m', .cons ⟨hs₁, fun x hl y hy => ?_⟩ hr', h'⟩
    obtain ⟨rest, pc, new, hd⟩ := hl
    have hcurr : m.sys.currTask = M.sys.curr := h.running
    rw [h.sys.mutex, hcurr] at hy
    exact hs.2 x ⟨rest, pc, new, h.does_iff.mp hd⟩ y hy

lemma Machine.Locks.cases (h : M.Locks l x) :
    l = .call (.reinMutexLock x) ∨ x = .gdtMutex ∨ (M.ctl M.running).pc.unbegun ≠ [] := by
  obtain ⟨rest, pc, new, hd⟩ := h
  generalize ha : Act.lock x = a at hd
  cases hd with
  | tick => cases ha
  | ret => cases ha
  | code _ hnext =>
    subst ha
    refine Or.inr ?_
    revert hnext
    fun_cases Pc.next M.running (Kernel.cpu M.sys) (M.ctl M.running).pc <;>
      intro hnext <;> cases hnext
    · exact Or.inl rfl
    · exact Or.inr (by simp [Pc.unbegun])
  | @call op _ _ =>
    cases op <;> cases ha
    exact Or.inl rfl

/-- As long as the only calls are creations, no mutex but that of the GDT is taken, and no
line is to be logged. -/
structure Machine.Creates (M : Machine Core) : Prop where
  mutex : ∀ x, x ≠ .gdtMutex → M.sys.mutex x = ⟨none, 0#32⟩
  unbegun : ∀ c, (M.ctl c).pc.unbegun = []

lemma Machine.Creates.step (h : M.Creates) (hM : M.Sound) (hs : M.Step l M')
    (hl : ∀ op, l = .call op → op.creates ≠ []) :
    M'.Creates ∧ ∀ x, M.Locks l x → x = .gdtMutex := by
  have hlocks : ∀ x, M.Locks l x → x = .gdtMutex := by
    intro x hx
    rcases hx.cases with rfl | hgdt | hpc
    · exact absurd rfl (hl _ rfl)
    · exact hgdt
    · exact absurd (h.unbegun _) hpc
  refine ⟨?_, hlocks⟩
  obtain ⟨-, a, rest, pc, new, hd, rfl⟩ := step_iff.mp hs
  refine ⟨fun x hx => ?_, fun c => ?_⟩
  · by_cases ha : a.obj = some (.mutex x)
    · cases a with
      | lock y =>
        cases ha
        exact absurd (hlocks x ⟨rest, pc, new, hd⟩) hx
      | unlock y =>
        cases ha
        rcases Core.unlock_cases (K := M.sys) (m := x) with ⟨-, hexec, -⟩ | ⟨hz, -⟩
        · exact (congrFun (congrArg Core.mutex hexec) x).trans (h.mutex x hx)
        · exact absurd (congrArg ReinMutex.locker (h.mutex x hx)) hz
      | ret e => exact h.mutex x hx
      | _ => cases ha
    · exact ((Core.exec_spares (hM.enabled hd) ha).mutex x rfl).trans (h.mutex x hx)
  · have hpc : pc.unbegun = [] := by
      cases hd with
      | tick => exact h.unbegun _
      | ret => exact h.unbegun _
      | code _ hnext =>
        have hold := h.unbegun M.running
        rcases Pc.next_log hnext with ⟨text, -, hpc, -⟩ | ⟨_, _, _, -, -, -, -, hnew⟩ |
          ⟨-, -, -, hsame⟩
        · rw [hpc] at hold
          cases hold
        · exact hnew
        · exact hsame.trans hold
      | @call op _ _ =>
        have hne := hl op rfl
        cases op <;> first | rfl | exact absurd rfl hne
    rcases Sound.after_pc hd c with huser | ⟨-, hsame⟩ | ⟨-, hnew, -⟩
    · rw [huser]
      rfl
    · rw [hsame]
      exact h.unbegun c
    · rwa [hnew]

lemma BootMem.creations_in_order {xs : List (Ctx × Label)}
    (h : Run (StepBy StepWithRoom) b.abstract xs M)
    (hops : ∀ y ∈ madeBy xs, y.2.creates ≠ []) :
    Run (StepBy (StepInOrder rank)) b.abstract xs M ∧ M.Creates := by
  refine Run.history (P := fun xs M => (∀ y ∈ madeBy xs, y.2.creates ≠ []) →
    Run (StepBy (StepInOrder rank)) b.abstract xs M ∧ M.Creates) ?_ ?_ h hops
  · exact fun _ => ⟨.nil _, fun _ _ => rfl, fun c => by
      by_cases hc : c = none <;> simp [abstract, core, machine, hc, Ctl.own, Pc.unbegun]⟩
  · rintro xs M ⟨c, l⟩ M' hr ih hs hops
    rw [madeBy_append] at hops
    obtain ⟨hrun, hC⟩ := ih fun y hy => hops y (List.mem_append_left _ hy)
    have hM := b.boot_sound.run (hr.relabel Prod.snd fun _ _ _ hs => hs.2.2.2)
    obtain ⟨hC', hlocks⟩ := hC.step hM hs.2.2.2 fun op hl =>
      hops (c, op) (List.mem_append_right _ (by simp [show l = _ from hl, madeBy, Label.made]))
    refine ⟨hrun.snoc (l := (c, l)) ⟨hs.1, hs.2.1, hs.2.2, fun x hx y hy hne => ?_⟩, hC'⟩
    obtain rfl := hlocks x hx
    rw [hC.mutex y hne] at hy
    obtain ⟨hc, hz | hc'⟩ := hy
    · exact absurd rfl hz
    · exact absurd hc.symm hc'

/-- A run of steps that keep to the order makes the calls `ops` and leads to `M`. -/
def BootMem.PlaysInOrder (b : BootMem) (rank : MutexPtr → ℕ) (ops : List (Ctx × Op))
    (M : Machine Core) : Prop :=
  ∃ xs, Run (StepBy (StepInOrder rank)) b.abstract xs M ∧ madeBy xs = ops

namespace BootMem.PlaysInOrder

variable {c : Ctx} {e : Epilogue} {rest : List Epilogue} {pc : Pc}

lemma plays (h : b.PlaysInOrder rank ops M) : b.Plays ops M := by
  obtain ⟨xs, hr, hops⟩ := h
  exact ⟨xs, hr.mono fun _ _ _ hs => ⟨hs.1, hs.2.1, hs.2.2.1⟩, hops⟩

lemma creations (rank : MutexPtr → ℕ) (h : b.Plays ops M)
    (hops : ∀ y ∈ ops, y.2.creates ≠ []) :
    b.PlaysInOrder rank ops M := by
  obtain ⟨xs, hr, rfl⟩ := h
  exact ⟨xs, (creations_in_order hr hops).1, rfl⟩

lemma call (op : Op) (h : b.PlaysInOrder rank ops M) (hhalt : M.sys.halt = none)
    (hc : M.sys.curr = c) (hown : M.ctl c = .own) (hop : (op.present && op.nameable) = true)
    (hnew : ∀ t ∈ op.creates, t ∉ M.started) (hwho : (c = none ∧ op.atBoot = true) ∨
      ∃ t, c = some t ∧ t ≠ .idleTask ∧ op ≠ .taskMainInit)
    (hord : ∀ x, op = .reinMutexLock x → ∀ y, (M.sys.mutex y).takenBy c → y ≠ x →
      rank y < rank x) :
    b.PlaysInOrder rank (ops ++ [(c, op)]) (place (M.sys.exec op.first.1) M.ctl
      (op.creates ++ M.started) c ⟨M.sys.leaves op.first.1, op.first.2⟩) := by
  have hstep := h.plays.call_step op hhalt hc hown hop hnew hwho
  obtain ⟨xs, hr, rfl⟩ := h
  refine ⟨_, hr.snoc (l := (c, .call op)) ⟨hc, rfl, hstep, fun x hl => ?_⟩, madeBy_append ..⟩
  obtain ⟨rest, pc, new, hd⟩ := hl
  have hact := hd.acts
  simp only [acts, List.cons.injEq, Prod.mk.injEq, and_true, true_and] at hact
  subst hc
  exact hord x (by cases op <;> cases hact; rfl)

lemma ret (h : b.PlaysInOrder rank ops M) (hhalt : M.sys.halt = none) (hc : M.sys.curr = c)
    (hp : M.ctl c = ⟨e :: rest, pc⟩) :
    b.PlaysInOrder rank ops (place (M.sys.exec (.ret e)) M.ctl M.started c ⟨rest, pc⟩) := by
  have hstep := solo_ret (w := true) (f := M.ctl) (s := M.started) (e := e) rest pc
    (h.plays.runs hhalt hc)
  rw [place_eq hp] at hstep
  obtain ⟨xs, hr, rfl⟩ := h
  refine ⟨xs ++ [(c, .run)], hr.snoc ⟨hc, rfl, ⟨hstep.2.2.2.2 rfl, hstep.1⟩, fun x hl => ?_⟩, by
    rw [madeBy_append, show madeBy [(c, Label.run)] = [] from rfl, List.append_nil]⟩
  obtain ⟨rest', pc', new, hd⟩ := hl
  have hact := hd.acts
  have hrun : M.running = c := hc
  simp [acts, hrun, hp] at hact

lemma lock {t : TaskPtr} (h : b.PlaysInOrder rank ops M) (hhalt : M.sys.halt = none)
    (hc : M.sys.curr = some t) (hidle : t ≠ .idleTask) (hown : M.ctl (some t) = .own)
    (addr : Nat) (hfree : M.sys.mutex (.obj addr) = ⟨none, 0#32⟩)
    (hord : ∀ y, (M.sys.mutex y).takenBy (some t) → rank y < rank (.obj addr)) :
    ∃ K, b.PlaysInOrder rank (ops ++ [(some t, .reinMutexLock (.obj addr))])
        (place K M.ctl M.started (some t) .own) ∧
      K.halt = none ∧ K.curr = some t ∧ K.queue = M.sys.queue ∧
      K.mutex = Function.update M.sys.mutex (.obj addr) ⟨some t, 1#32⟩ := by
  rcases Core.lock_cases (m := .obj addr) h.plays.sound.core (by simp [hc, hidle]) with
    ⟨-, hexec, hleaves⟩ | ⟨u, -, -, hz, -⟩
  · rw [hc, hfree] at hexec
    have hcall := h.call (.reinMutexLock (.obj addr)) hhalt hc hown rfl (by simp [Op.creates])
      (Or.inr ⟨t, rfl, hidle, by simp⟩) fun x hx y hy _ => by
        cases hx
        exact hord y hy
    rw [Op.first, hleaves] at hcall
    have hhalt' : (M.sys.exec (.lock (.obj addr))).halt = none := by
      rw [hexec]
      exact hhalt
    have hc' : (M.sys.exec (.lock (.obj addr))).curr = some t := by
      rw [hexec]
      exact hc
    have hret := hcall.ret hhalt' hc' (place_self ..)
    rw [place_again] at hret
    have hq' : (M.sys.exec (.lock (.obj addr))).queue = M.sys.queue := by
      rw [hexec]
      rfl
    have hm' : (M.sys.exec (.lock (.obj addr))).mutex =
        Function.update M.sys.mutex (.obj addr) ⟨some t, 1#32⟩ := by
      rw [hexec]
      rfl
    exact ⟨_, hret, hhalt', hc', hq', hm'⟩
  · exact absurd (congrArg ReinMutex.locker hfree) hz

end BootMem.PlaysInOrder

/-- The mutexes of `log.c` and of the GDT rank below all others. -/
def byAddress : MutexPtr → ℕ
  | .obj addr => addr + 1
  | _ => 0

lemma BootMem.main_locks_two : ∃ ops M, BootMem.zeroed.PlaysInOrder byAddress ops M ∧
    M.sys.queue (.mutexWait (.obj 0)) = [.obj 0] ∧
    ∀ y, M.sys.mutex y = if y = .obj 0 ∨ y = .obj 1 then ⟨some .mainTask, 1#32⟩
      else ⟨none, 0#32⟩ := by
  obtain ⟨K, st, hplays, hfilled, -⟩ := BootMem.zeroed.fills 1 (by decide)
  have h := BootMem.PlaysInOrder.creations byAddress hplays (by simp [Op.creates])
  have hnone : ∀ y c, ¬ (K.mutex y).takenBy (some c) := fun y c hy => by
    rw [hfilled.mutex] at hy
    cases hy.1
  obtain ⟨K₁, h₁, hhalt₁, hcurr₁, hq₁, hm₁⟩ := h.lock hfilled.runs.halt hfilled.runs.curr
    (by simp) (place_self ..) 0 (hfilled.mutex _) fun y hy => absurd hy (hnone y _)
  have hbelow : ∀ y, (K₁.mutex y).takenBy (some .mainTask) → byAddress y < byAddress (.obj 1) := by
    intro y hy
    by_cases hy0 : y = .obj 0
    · subst hy0
      decide
    · rw [hm₁, Function.update_of_ne hy0] at hy
      exact absurd hy (hnone y _)
  have hfree₁ : K₁.mutex (.obj 1) = ⟨none, 0#32⟩ := by
    rw [hm₁, Function.update_of_ne (by simp)]
    exact hfilled.mutex _
  obtain ⟨K₂, h₂, hhalt₂, hcurr₂, hq₂, hm₂⟩ := h₁.lock hhalt₁ hcurr₁ (by simp) (place_self ..) 1
    hfree₁ hbelow
  -- the main task yields
  have hready : K₂.queue .ready = [.mainTask, .obj 0] := by
    rw [hq₂, place, hq₁]
    exact hfilled.queue .ready
  obtain ⟨hcurr₃, hready₃, hqueue₃, hm₃, -, -, hhalt₃⟩ := Core.exec_yield hcurr₂ hready
  have h₃ := h₂.call .sysSchedYield hhalt₂ hcurr₂ (place_self ..) rfl (by simp [Op.creates])
    (Or.inr ⟨_, rfl, by simp, by simp⟩) (by simp)
  have hlive₃ := h₃.plays.unhalted (hhalt₃.imp_left fun h => h.trans hhalt₂)
  have hmutex : ∀ y, (K₂.exec .yield).mutex y = if y = .obj 0 ∨ y = .obj 1 then
      ⟨some .mainTask, 1#32⟩ else ⟨none, 0#32⟩ := by
    intro y
    rw [hm₃, hm₂, place, hm₁]
    by_cases hy1 : y = .obj 1
    · simp [hy1]
    · by_cases hy0 : y = .obj 0
      · simp [hy0]
      · simp [hy0, hy1, place, hfilled.mutex]
  -- the other task waits for the first mutex
  have h₄ := h₃.call (.reinMutexLock (.obj 0)) hlive₃ hcurr₃ (by simp [place]) rfl
    (by simp [Op.creates]) (Or.inr ⟨_, rfl, by simp, by simp⟩) fun x _ y hy => by
      have howner := hy.1
      simp only [place, Op.first, hmutex] at howner
      split at howner <;> cases howner
  obtain ⟨hwait, hm₄, -⟩ := Core.lock_waits h₃.plays.sound.core hcurr₃ (by simp) hready₃
    ((hmutex (.obj 0)).trans (if_pos (Or.inl rfl))) (by decide) (by simp)
  have hempty : (K₂.exec .yield).queue (.mutexWait (.obj 0)) = [] := by
    rw [hqueue₃ _ (by simp), hq₂, place, hq₁]
    exact hfilled.queue (.mutexWait (.obj 0))
  exact ⟨_, _, h₄, hwait.trans (congrArg (· ++ [TaskPtr.obj 0]) hempty),
    fun y => (congrFun hm₄ y).trans (hmutex y)⟩

/-- The main task locks two mutexes in order and yields to another task, which waits for the
first of them. -/
theorem ordered_locks_never_deadlock_boot : ∃ ls m,
    Run (Machine.StepOrdered byAddress) BootMem.zeroed.machine ls m ∧
      m.waiting.holds (some .mainTask) (.obj 0) ∧ m.waiting.holds (some .mainTask) (.obj 1) ∧
      m.sys.waiters (.mutex (.obj 0)) = [.obj 0] ∧
      ∃ c, Relation.TransGen m.waiting.For (some (.obj 0)) c ∧ ∀ y, ¬ m.waiting.waits c y := by
  obtain ⟨ops, M, ⟨xs, hr, -⟩, hwait, hmutex⟩ := BootMem.main_locks_two
  obtain ⟨m, hm, hsim⟩ := BootMem.zeroed.boot_represents.run_ordered BootMem.zeroed.boot_sound
    (hr.relabel Prod.snd fun _ _ _ hs => hs.2.2)
  have hwaiters : m.sys.waiters (.mutex (.obj 0)) = [.obj 0] := by
    rw [hsim.sys.waiters]
    exact hwait
  have hholds : ∀ y, y = .obj 0 ∨ y = .obj 1 → m.waiting.holds (some .mainTask) y := by
    intro y hy
    refine hsim.holds_iff.mpr ?_
    have hrecord : M.sys.mutex y = ⟨some .mainTask, 1#32⟩ := (hmutex y).trans (if_pos hy)
    exact hrecord ▸ ⟨rfl, Or.inl (by simp)⟩
  exact ⟨_, m, hm, hholds _ (Or.inl rfl), hholds _ (Or.inr rfl), hwaiters,
    (ordered_locks_never_deadlock hm).2 _ _ (by rw [hwaiters]; exact List.mem_singleton_self _)⟩

end Ordered

end OsToyI386
