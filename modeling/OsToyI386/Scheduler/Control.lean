import OsToyI386.Scheduler.Invariant

/-!
# Contexts and their places

What a step of the machine is made of, the invariant that ties the places of all contexts
to the queues, and that only enabled actions are ever taken.
-/

namespace OsToyI386

open Lib

/-- The parts of a step: label, action, epilogues kept, next place and tasks begun. -/
inductive Machine.Does {σ : Type} [Kernel σ] (m : Machine σ) :
    Label → Act → List Epilogue → Pc → List TaskPtr → Prop
  | tick : (Kernel.cpu m.sys).interruptible = true →
      m.Does .tick .timer (m.ctl m.running).pending (m.ctl m.running).pc []
  | ret {e : Epilogue} {rest : List Epilogue} : (m.ctl m.running).pending = e :: rest →
      m.Does .run (.ret e) rest (m.ctl m.running).pc []
  | code {a : Act} {pc : Pc} : (m.ctl m.running).pending = [] →
      (m.ctl m.running).pc.next m.running (Kernel.cpu m.sys) = some (a, pc) →
      m.Does .run a [] pc []
  | call {op : Op} : m.ctl m.running = .own → m.allows op = true →
      m.Does (.call op) op.first.1 [] op.first.2 op.creates

/-- The machine is not stopped and the running context is the one in the processor. -/
def Machine.Live {σ : Type} [Kernel σ] (m : Machine σ) : Prop :=
  (Kernel.cpu m.sys).halt = none ∧ (Kernel.cpu m.sys).runs m.running = true

/-- The state after the parts of a step. -/
def Machine.after {σ : Type} [Kernel σ] (m : Machine σ) (a : Act) (rest : List Epilogue)
    (pc : Pc) (new : List TaskPtr) : Machine σ :=
  { m with started := new ++ m.started }.commit a rest pc

theorem Machine.step_iff {σ : Type} [Kernel σ] {m m' : Machine σ} {l : Label} :
    m.Step l m' ↔
      m.Live ∧ ∃ a rest pc new, m.Does l a rest pc new ∧ m' = m.after a rest pc new := by
  constructor
  · intro h
    simp only [Step, step] at h
    split at h
    · rename_i hlive
      refine ⟨hlive, ?_⟩
      cases l with
      | tick =>
        simp only [] at h
        split at h
        · rename_i hi
          exact ⟨_, _, _, _, .tick hi, (Option.some.inj h).symm⟩
        · cases h
      | run =>
        simp only [] at h
        split at h
        · rename_i e rest hp
          exact ⟨_, _, _, _, .ret hp, (Option.some.inj h).symm⟩
        · rename_i hp
          obtain ⟨⟨a, pc⟩, hnext, hm⟩ := Option.map_eq_some_iff.mp h
          exact ⟨_, _, _, _, .code hp hnext, hm.symm⟩
      | call op =>
        simp only [] at h
        split at h
        · rename_i hop
          exact ⟨_, _, _, _, .call hop.1 hop.2, (Option.some.inj h).symm⟩
        · cases h
    · cases h
  · rintro ⟨hlive, a, rest, pc, new, hdoes, rfl⟩
    have hlive' : (Kernel.cpu m.sys).halt = none ∧ (Kernel.cpu m.sys).runs m.running = true := hlive
    simp only [Step, step, if_pos hlive']
    cases hdoes with
    | tick hi => simp [hi, after]
    | ret hp => simp [hp, after]
    | code hp hnext => simp [hp, hnext, after]
    | call hown hop => simp [hown, hop, after]

section Calls

variable {σ : Type} [Kernel σ] {m : Machine σ} {op : Op}

lemma Machine.allows_boot (h : m.allows op = true) (hc : m.running = none) : op.atBoot = true := by
  simp only [allows, hc, Bool.and_eq_true] at h
  exact h.2

lemma Machine.allows_task {t : TaskPtr} (h : m.allows op = true) (hc : m.running = some t) :
    t ≠ .idleTask ∧ op ≠ .taskMainInit := by
  simp only [allows, hc, Bool.and_eq_true] at h
  simpa using h.2

lemma Machine.allows_new (h : m.allows op = true) {t : TaskPtr} (ht : t ∈ op.creates) :
    t ∉ m.started := by
  simp only [allows, Bool.and_eq_true, List.all_eq_true] at h
  simpa using h.1.2 t ht

lemma Machine.allows_lock {x : MutexPtr} (h : m.allows op = true) (hop : op.first.1 = .lock x) :
    ∃ addr, x = .obj addr := by
  simp only [allows, Bool.and_eq_true] at h
  have hname := h.1.1.2
  cases op <;> cases hop
  cases x <;> first | exact ⟨_, rfl⟩ | cases hname

/-- The step is a call of `rein_mutex_lock(x)`, by a context's own code or from within
`get_alloc_desc` or the log functions. -/
def Machine.Locks (m : Machine σ) (l : Label) (x : MutexPtr) : Prop :=
  ∃ rest pc new, m.Does l (.lock x) rest pc new

end Calls

def AllocFor.creation : AllocFor → Option InitReq
  | tssInit r => some r
  | direct _ => none

/-- The new task that an action sets up. -/
def Act.about : Act → Option TaskPtr
  | fill _ r | fields r => some r.task
  | ready t => some t
  | _ => none

namespace Pc

/-- The creation that a place belongs to, as long as its task is not queued. -/
def unborn : Pc → Option InitReq
  | allocLock k | allocTest _ k | allocClaim _ k | allocUnlock _ k | allocReturn _ k => k.creation
  | tssInitSet _ r | tssInitFill _ r | taskInitName r | taskInitReady r => some r
  | _ => none

/-- The creation that a place belongs to. -/
def creation : Pc → Option InitReq
  | taskInitReturn r _ => some r
  | pc => pc.unborn

/-- The places of the boot code where the main task is queued. -/
def mainQueued : Pc → Bool
  | mainTr | mainCurr => true
  | taskInitReturn r _ => r.task = .mainTask
  | _ => false

lemma creation_of_unborn {pc : Pc} {r : InitReq} (h : pc.unborn = some r) :
    pc.creation = some r := by
  cases pc <;> first | exact h | cases h

variable {c : Ctx} {p : Cpu} {a : Act} {pc pc' : Pc} {r : InitReq}

lemma next_creation (h : pc.next c p = some (a, pc')) (hr : pc'.creation = some r) :
    pc.creation = some r := by
  revert h
  fun_cases next c p pc <;> intro h <;> cases h <;> first | exact hr | cases hr

lemma next_unborn (h : pc.next c p = some (a, pc')) (hr : pc'.unborn = some r) :
    pc.unborn = some r ∧ a ≠ .ready r.task := by
  revert h
  fun_cases next c p pc <;> intro h <;> cases h <;>
    first | exact ⟨hr, by simp⟩ | cases hr

lemma next_born (h : pc.next c p = some (a, .taskInitReturn r 0)) :
    a = .ready r.task ∨ r.task = .idleTask := by
  revert h
  fun_cases next c p pc <;> intro h <;> cases h
  · exact Or.inl rfl
  · rename_i hidle
    exact Or.inr (not_not.mp hidle)

lemma next_filled (h : pc.next c p = some (a, .taskInitReady r)) : a = .fields r := by
  revert h
  fun_cases next c p pc <;> intro h <;> cases h
  rfl

lemma next_atMain (h : pc.next c p = some (a, pc')) (hpc : pc' = .mainTr ∨ pc' = .mainCurr) :
    pc = .mainTr ∨ ∃ r, pc.creation = some r ∧ r.task = .mainTask := by
  revert h
  fun_cases next c p pc <;> intro h <;> cases h <;> first | simp at hpc; done | skip
  · rename_i r _ hmain
    exact Or.inr ⟨r, rfl, hmain⟩
  · exact Or.inl rfl

lemma next_about (h : pc.next c p = some (a, pc')) {t : TaskPtr} (ha : a.about = some t) :
    ∃ r, pc.unborn = some r ∧ r.task = t := by
  revert h
  fun_cases next c p pc <;> intro h <;> cases h <;>
    first
    | exact ⟨_, rfl, Option.some.inj ha⟩
    | cases ha

lemma next_mainQueued (h : pc.next c p = some (a, pc')) (ha : a ≠ .becomeMain)
    (hboot : ∀ r, pc.creation = some r → r.task = .idleTask ∨ r = mainReq) :
    pc'.mainQueued = true ↔ pc.mainQueued = true ∨ a = .ready .mainTask := by
  have hname : mainReq.nameOk = true := by decide
  revert h
  fun_cases next c p pc <;> intro h <;> cases h <;>
    first
    | exact absurd rfl ha
    | simp [mainQueued]; done
    | skip
  · -- the name is refused
    rename_i r hok
    rcases hboot r rfl with hi | rfl
    · simp [mainQueued, hi]
    · exact absurd hname hok
  · rename_i r hr
    simp [mainQueued, not_not.mp hr]
  · rename_i r _ hr
    simp [mainQueued, hr]
  · rename_i r _ hr
    simp [mainQueued, hr]

lemma next_becomeMain (h : pc.next c p = some (.becomeMain, pc')) :
    pc = .mainCurr ∧ pc' = .user := by
  revert h
  fun_cases next c p pc <;> intro h <;> cases h
  exact ⟨rfl, rfl⟩

end Pc

namespace Op

variable {K : Core} {op : Op}

lemma enabled_boot (h : op.atBoot = true) (hc : K.curr = none) : K.Enabled op.first.1 := by
  have hidle : K.curr ≠ some .idleTask := by simp [hc]
  cases op with
  | reinMutexLock m => exact hidle
  | reinMutexUnlock m => exact hidle
  | getAllocDesc seg => exact trivial
  | log text => exact trivial
  | irqDisableGlobal => exact trivial
  | taskMainInit => exact trivial
  | _ => cases h

lemma enabled_task {t : TaskPtr} (ht : t ≠ .idleTask) (hc : K.curr = some t) :
    K.Enabled op.first.1 := by
  have hsome : K.curr ≠ none := by simp [hc]
  have hidle : K.curr ≠ some .idleTask := by simp [hc, ht]
  cases op with
  | reinMutexLock m => exact hidle
  | reinMutexUnlock m => exact hidle
  | semWait s => exact ⟨hsome, hidle⟩
  | semNotify s => exact ⟨hsome, hidle⟩
  | sysSleep ms => exact ⟨hsome, hidle⟩
  | sysSchedYield => exact ⟨hsome, hidle⟩
  | taskDispatch => exact hsome
  | irqEnableGlobal => exact hsome
  | _ => exact trivial

lemma creates_of_creation {r : InitReq} (h : op.first.2.creation = some r) :
    op.creates = [r.task] ∧ (op.atBoot = true → r = mainReq) := by
  cases op with
  | taskInit r' =>
    obtain rfl := Option.some.inj h
    exact ⟨rfl, fun hboot => by cases hboot⟩
  | taskMainInit =>
    obtain rfl := Option.some.inj h
    exact ⟨rfl, fun _ => rfl⟩
  | _ => cases h

end Op

/-- What the place of a context means for the task that it creates. -/
structure CtxOk (K : Core) (started : List TaskPtr) (c : Ctx) (pc : Pc) : Prop where
  started : ∀ r, pc.creation = some r → r.task ∈ started
  boot : ∀ r, pc.creation = some r → c = none → r.task = .idleTask ∨ r = mainReq
  later : ∀ r, pc.creation = some r → c ≠ none → r.task ≠ .idleTask ∧ r.task ≠ .mainTask
  unborn : ∀ r, pc.unborn = some r → r.task ∉ K.tasks
  born : ∀ r, pc = .taskInitReturn r 0 → r.task ∈ K.tasks ∨ r.task = .idleTask
  filled : ∀ r, pc = .taskInitReady r → (K.task r.task).sliceTicks = taskTimeSliceDefault ∧
    (K.task r.task).timeTicks = taskTimeSliceDefault
  atMain : pc = .mainTr ∨ pc = .mainCurr → c = none
  idle : c = some .idleTask → pc = .user

/-- The invariant of the machine over the abstract state. -/
structure Machine.Sound (M : Machine Core) : Prop where
  core : M.sys.Inv
  ctx : ∀ c, CtxOk M.sys M.started c (M.ctl c).pc
  alone : ∀ c c' r r', (M.ctl c).pc.creation = some r → (M.ctl c').pc.creation = some r' →
    r.task = r'.task → c = c'
  tasks : ∀ t ∈ M.sys.tasks, t ∈ M.started
  idle : .idleTask ∈ M.started
  main : M.sys.curr ≠ none → .mainTask ∈ M.started
  queued : M.sys.curr = none → (.mainTask ∈ M.sys.tasks ↔ (M.ctl none).pc.mainQueued = true)
  flags : M.sys.curr = none → M.sys.interruptible = false
  saved : M.sys.curr = none → ∀ e ∈ (M.ctl none).pending, e.state.getLsbD 9 = false
  others : M.sys.curr = none → ∀ c, c ≠ none → M.ctl c = .own

lemma CtxOk.user {K : Core} {started : List TaskPtr} {c : Ctx} : CtxOk K started c .user :=
  ⟨by simp [Pc.creation, Pc.unborn], by simp [Pc.creation, Pc.unborn],
    by simp [Pc.creation, Pc.unborn], by simp [Pc.unborn], by simp, by simp, by simp, fun _ => rfl⟩

namespace Machine.Sound

variable {M : Machine Core} {l : Label} {a : Act} {rest : List Epilogue} {pc : Pc}
  {new : List TaskPtr}

lemma enabled_code (h : M.Sound) {k : Pc} (hk : (M.ctl M.sys.curr).pc = k)
    (hnext : k.next M.sys.curr M.sys.toCpu = some (a, pc)) : M.sys.Enabled a := by
  have hctx := h.ctx M.sys.curr
  rw [hk] at hctx
  have hidle : k ≠ .user → M.sys.curr ≠ some .idleTask := fun hne hc => hne (hctx.idle hc)
  have hnote : ∀ r ret, k = .taskInitReturn r ret →
      M.sys.Enabled (.note (.initReturn r.task ret)) := by
    intro r ret hr
    refine ⟨rfl, fun t ht => ?_⟩
    cases ht
    exact hctx.born r hr
  revert hnext
  fun_cases Pc.next M.sys.curr M.sys.toCpu k <;> intro hnext <;> cases hnext <;>
    first
    | exact trivial
    | exact hidle (by simp)
    | exact hnote _ _ rfl
    | exact ⟨rfl, by simp⟩
    | exact hctx.unborn _ rfl
    | skip
  · -- the task joins the ready queue
    rename_i r hr
    obtain ⟨hslice, htime⟩ := hctx.filled r rfl
    refine ⟨hctx.unborn r rfl, hr, hidle (by simp), fun hc => ?_, hslice, htime⟩
    rcases hctx.boot r rfl hc with hi | hm
    · exact absurd hi hr
    · rw [hm]
      rfl
  · -- the boot context becomes the main task
    have hc : M.sys.curr = none := hctx.atMain (Or.inr rfl)
    have hpc : (M.ctl none).pc.mainQueued = true := by rw [← hc, hk]; rfl
    exact ⟨hc, h.core.ready_at_boot hc ((h.queued hc).mpr hpc)⟩

/-- Only enabled actions are taken. -/
theorem enabled (h : M.Sound) (hd : M.Does l a rest pc new) : M.sys.Enabled a := by
  cases hd with
  | tick hi =>
    intro hc
    have hi' : M.sys.interruptible = true := hi
    simp [h.flags hc] at hi'
  | ret hp => exact trivial
  | code hp hnext => exact h.enabled_code rfl hnext
  | @call op hown hop =>
    rcases Option.eq_none_or_eq_some M.sys.curr with hc | ⟨t, hc⟩
    · exact Op.enabled_boot (allows_boot hop hc) hc
    · exact Op.enabled_task (allows_task hop hc).1 hc

lemma becomeMain_pc (hd : M.Does l a rest pc new) (ha : a = .becomeMain) :
    pc = .user ∧ rest = [] ∧ (M.ctl M.sys.curr).pc = .mainCurr := by
  cases hd with
  | tick => cases ha
  | ret => cases ha
  | code hp hnext =>
    subst ha
    exact ⟨(Pc.next_becomeMain hnext).2, rfl, (Pc.next_becomeMain hnext).1⟩
  | @call op hown hop => cases op <;> cases ha

lemma after_pc (hd : M.Does l a rest pc new) (c : Ctx) :
    ((M.after a rest pc new).ctl c).pc = .user ∨
      (c ≠ M.sys.curr ∧ ((M.after a rest pc new).ctl c).pc = (M.ctl c).pc) ∨
      (c = M.sys.curr ∧ ((M.after a rest pc new).ctl c).pc = pc ∧ a ≠ .becomeMain) := by
  have hrun : { M with started := new ++ M.started }.running = M.sys.curr := rfl
  by_cases ha : a = .becomeMain
  · obtain ⟨hpc, -, -⟩ := becomeMain_pc hd ha
    subst ha
    by_cases hmain : c = some .mainTask
    · left
      simp [after, commit, hmain, hpc]
    · by_cases hc : c = M.sys.curr
      · left
        simp [after, commit, hrun, hc ▸ hmain, hc, Ctl.own]
      · right; left
        simp [after, commit, hrun, hmain, hc]
  · by_cases hc : c = M.sys.curr
    · right; right
      simp [after, commit, hrun, hc, ha]
    · right; left
      simp [after, commit, hrun, hc, ha]

lemma creation_after (hd : M.Does l a rest pc new) {r : InitReq}
    (hr : pc.creation = some r) :
    (M.ctl M.sys.curr).pc.creation = some r ∨
      (new = [r.task] ∧ r.task ∉ M.started ∧ (M.sys.curr = none → r = mainReq)) := by
  cases hd with
  | tick => exact Or.inl hr
  | ret => exact Or.inl hr
  | code _ hnext => exact Or.inl (Pc.next_creation hnext hr)
  | @call op hown hop =>
    right
    have hcreates := Op.creates_of_creation hr
    refine ⟨hcreates.1, allows_new hop (by simp [hcreates.1]), fun hc => ?_⟩
    exact hcreates.2 (allows_boot hop hc)

lemma rest_subset (hd : M.Does l a rest pc new) : ∀ e ∈ rest, e ∈ (M.ctl M.sys.curr).pending := by
  intro e he
  cases hd with
  | tick => exact he
  | ret hp => exact (hp ▸ List.mem_cons_of_mem _ he : e ∈ (M.ctl M.running).pending)
  | code => cases he
  | call => cases he

lemma after_ctl_curr (ha : a ≠ .becomeMain) :
    (M.after a rest pc new).ctl M.sys.curr = ⟨M.sys.leaves a ++ rest, pc⟩ := by
  have hrun : { M with started := new ++ M.started }.running = M.sys.curr := rfl
  simp only [after, commit, hrun, if_neg ha, Function.update_self]
  rfl

lemma after_ctl_ne (ha : a ≠ .becomeMain) {c : Ctx} (hc : c ≠ M.sys.curr) :
    (M.after a rest pc new).ctl c = M.ctl c := by
  have hrun : { M with started := new ++ M.started }.running = M.sys.curr := rfl
  simp [Machine.after, commit, hrun, ha, hc]

lemma place_after (h : M.Sound) (hd : M.Does l a rest pc new) :
    ((M.after a rest pc new).ctl M.sys.curr).pc = pc ∧
      ∀ c, c ≠ M.sys.curr → ((M.after a rest pc new).ctl c).pc = (M.ctl c).pc := by
  by_cases ha : a = .becomeMain
  · have hpc := (becomeMain_pc hd ha).1
    subst ha hpc
    have hboot : M.sys.curr = none := (h.enabled hd).1
    have hrun : { M with started := new ++ M.started }.running = none := hboot
    refine ⟨?_, fun c hc => ?_⟩
    · simp [after, commit, hrun, hboot, Ctl.own]
    · rw [hboot] at hc
      by_cases hmain : c = some .mainTask
      · subst hmain
        rw [h.others hboot _ (by simp)]
        simp [after, commit, Ctl.own]
      · simp [after, commit, hrun, hc, hmain]
  · refine ⟨?_, fun c hc => ?_⟩
    · rw [after_ctl_curr ha]
    · rw [after_ctl_ne ha hc]

lemma about_own (hd : M.Does l a rest pc new) {t : TaskPtr} (ha : a.about = some t) :
    ∃ r, (M.ctl M.sys.curr).pc.unborn = some r ∧ r.task = t := by
  cases hd with
  | tick => cases ha
  | ret => cases ha
  | code _ hnext => exact Pc.next_about hnext ha
  | @call op hown hop => cases op <;> cases ha

lemma ctx_frame (h : M.Sound) (hd : M.Does l a rest pc new) {c : Ctx} (hc : c ≠ M.sys.curr) :
    CtxOk (M.sys.exec a) (new ++ M.started) c (M.ctl c).pc := by
  have he := h.enabled hd
  have hctx := h.ctx c
  have hforeign : ∀ r t, (M.ctl c).pc.creation = some r → a.about = some t → r.task ≠ t := by
    intro r t hr ha hrt
    obtain ⟨r', hr', ht⟩ := about_own hd ha
    exact hc (h.alone c _ r r' hr (Pc.creation_of_unborn hr') (hrt.trans ht.symm))
  refine ⟨fun r hr => List.mem_append_right _ (hctx.started r hr), hctx.boot, hctx.later,
    fun r hr hmem => ?_, fun r hr => ?_, fun r hr => ?_, hctx.atMain, hctx.idle⟩
  · rcases (Core.mem_exec_tasks h.core he).mp hmem with hmem | ha
    · exact hctx.unborn r hr hmem
    · exact hforeign r r.task (Pc.creation_of_unborn hr) (by rw [ha]; rfl) rfl
  · rcases hctx.born r hr with hmem | hidle
    · exact Or.inl ((Core.mem_exec_tasks h.core he).mpr (Or.inl hmem))
    · exact Or.inr hidle
  · have hcr : (M.ctl c).pc.creation = some r := by rw [hr]; rfl
    have hun : (M.ctl c).pc.unborn = some r := by rw [hr]; rfl
    obtain ⟨hslice, htime⟩ := hctx.filled r hr
    obtain ⟨h1, h2⟩ := Core.exec_clock h.core he (hctx.unborn r hun) (fun r' ha hrt =>
      hforeign r r'.task hcr (by rw [ha]; rfl) hrt.symm)
    exact ⟨h1.trans hslice, h2.trans htime⟩

lemma ctx_running (h : M.Sound) (hd : M.Does l a rest pc new) (ha : a ≠ .becomeMain) :
    CtxOk (M.sys.exec a) (new ++ M.started) M.sys.curr pc := by
  have he := h.enabled hd
  have hctx := h.ctx M.sys.curr
  refine ⟨fun r hr => ?_, fun r hr hc => ?_, fun r hr hc => ?_, fun r hr hmem => ?_,
    fun r hr => ?_, fun r hr => ?_, fun hpc => ?_, fun hidle => ?_⟩
  · rcases creation_after hd hr with hold | ⟨hnew, -, -⟩
    · exact List.mem_append_right _ (hctx.started r hold)
    · rw [hnew]
      exact List.mem_append_left _ (List.mem_singleton_self _)
  · rcases creation_after hd hr with hold | ⟨-, -, hboot⟩
    · exact hctx.boot r hold hc
    · exact Or.inr (hboot hc)
  · rcases creation_after hd hr with hold | ⟨-, hfresh, -⟩
    · exact hctx.later r hold hc
    · exact ⟨fun hi => hfresh (hi ▸ h.idle), fun hm => hfresh (hm ▸ h.main hc)⟩
  · rcases (Core.mem_exec_tasks h.core he).mp hmem with hold | hready
    · cases hd with
      | tick => exact hctx.unborn r hr hold
      | ret => exact hctx.unborn r hr hold
      | code _ hnext => exact hctx.unborn r (Pc.next_unborn hnext hr).1 hold
      | @call op hown hop =>
        have hcr := creation_after (.call hown hop) (Pc.creation_of_unborn hr)
        rw [show M.ctl M.sys.curr = .own from hown] at hcr
        rcases hcr with hcr | ⟨-, hfresh, -⟩
        · cases hcr
        · exact hfresh (h.tasks r.task hold)
    · cases hd with
      | tick => cases hready
      | ret => cases hready
      | code _ hnext => exact (Pc.next_unborn hnext hr).2 hready
      | @call op hown hop => cases op <;> cases hready
  · rw [Core.mem_exec_tasks h.core he]
    cases hd with
    | tick => exact (hctx.born r hr).imp_left Or.inl
    | ret => exact (hctx.born r hr).imp_left Or.inl
    | code _ hnext =>
      subst hr
      exact (Pc.next_born hnext).imp_left Or.inr
    | @call op hown hop => cases op <;> cases hr
  · cases hd with
    | tick =>
      have hun : (M.ctl M.running).pc.unborn = some r := by rw [hr]; rfl
      obtain ⟨hslice, htime⟩ := hctx.filled r hr
      obtain ⟨h1, h2⟩ := Core.exec_clock h.core he (hctx.unborn r hun) (by simp)
      exact ⟨h1.trans hslice, h2.trans htime⟩
    | ret => exact hctx.filled r hr
    | code _ hnext =>
      subst hr
      rw [Pc.next_filled hnext]
      simp [Core.exec, Core.setTask]
    | @call op hown hop => cases op <;> cases hr
  · cases hd with
    | tick => exact hctx.atMain hpc
    | ret => exact hctx.atMain hpc
    | code _ hnext =>
      rcases Pc.next_atMain hnext hpc with htr | ⟨r, hr, hmain⟩
      · exact hctx.atMain (Or.inl htr)
      · by_contra hne
        exact (hctx.later r hr hne).2 hmain
    | @call op hown hop => cases op <;> simp [Op.first] at hpc
  · cases hd with
    | tick => exact hctx.idle hidle
    | ret => exact hctx.idle hidle
    | code _ hnext =>
      have huser : (M.ctl M.running).pc = .user := hctx.idle hidle
      rw [huser] at hnext
      cases hnext
    | @call op hown hop => exact absurd rfl (allows_task hop hidle).1

lemma ctx_after (h : M.Sound) (hd : M.Does l a rest pc new) (c : Ctx) :
    CtxOk (M.sys.exec a) (new ++ M.started) c ((M.after a rest pc new).ctl c).pc := by
  rcases after_pc hd c with hu | ⟨hne, hpc⟩ | ⟨rfl, hpc, ha⟩
  · rw [hu]
    exact .user
  · rw [hpc]
    exact h.ctx_frame hd hne
  · rw [hpc]
    exact h.ctx_running hd ha

lemma creation_ne (h : M.Sound) (hd : M.Does l a rest pc new) {c : Ctx} {r r' : InitReq}
    (hne : c ≠ M.sys.curr) (hr : pc.creation = some r) (hr' : (M.ctl c).pc.creation = some r') :
    r.task ≠ r'.task := by
  intro heq
  rcases creation_after hd hr with hold | ⟨-, hfresh, -⟩
  · exact hne (h.alone c _ r' r hr' hold heq.symm)
  · exact hfresh (heq ▸ (h.ctx c).started r' hr')

lemma alone_after (h : M.Sound) (hd : M.Does l a rest pc new) {c c' : Ctx} {r r' : InitReq}
    (hr : ((M.after a rest pc new).ctl c).pc.creation = some r)
    (hr' : ((M.after a rest pc new).ctl c').pc.creation = some r') (heq : r.task = r'.task) :
    c = c' := by
  rcases after_pc hd c with hu | ⟨hne, hpc⟩ | ⟨hceq, hpc, -⟩
  · rw [hu] at hr
    cases hr
  · rw [hpc] at hr
    rcases after_pc hd c' with hu' | ⟨hne', hpc'⟩ | ⟨hceq', hpc', -⟩
    · rw [hu'] at hr'
      cases hr'
    · rw [hpc'] at hr'
      exact h.alone c c' r r' hr hr' heq
    · rw [hpc'] at hr'
      exact absurd heq.symm (h.creation_ne hd hne hr' hr)
  · rw [hpc] at hr
    rcases after_pc hd c' with hu' | ⟨hne', hpc'⟩ | ⟨hceq', hpc', -⟩
    · rw [hu'] at hr'
      cases hr'
    · rw [hpc'] at hr'
      exact absurd heq (h.creation_ne hd hne' hr hr')
    · rw [hceq, hceq']

lemma tasks_after (h : M.Sound) (hd : M.Does l a rest pc new) {t : TaskPtr}
    (ht : t ∈ (M.sys.exec a).tasks) : t ∈ new ++ M.started := by
  rcases (Core.mem_exec_tasks h.core (h.enabled hd)).mp ht with ht | ha
  · exact List.mem_append_right _ (h.tasks t ht)
  · obtain ⟨r, hr, hrt⟩ := about_own hd (t := t) (by rw [ha]; rfl)
    exact List.mem_append_right _
      (hrt ▸ (h.ctx M.sys.curr).started r (Pc.creation_of_unborn hr))

lemma main_after (h : M.Sound) (hd : M.Does l a rest pc new) (hc : (M.sys.exec a).curr ≠ none) :
    TaskPtr.mainTask ∈ new ++ M.started := by
  apply List.mem_append_right
  by_cases hcn : M.sys.curr = none
  · have ha : a = .becomeMain := by
      by_contra hne
      exact hc ((Core.exec_curr h.core (h.enabled hd)).mpr ⟨hcn, hne⟩)
    have hpc := (becomeMain_pc hd ha).2.2
    rw [hcn] at hpc
    exact h.tasks _ ((h.queued hcn).mpr (by rw [hpc]; rfl))
  · exact h.main hcn

lemma queued_after (h : M.Sound) (hd : M.Does l a rest pc new) (hcn : M.sys.curr = none)
    (ha : a ≠ .becomeMain) :
    .mainTask ∈ (M.sys.exec a).tasks ↔
      ((M.after a rest pc new).ctl none).pc.mainQueued = true := by
  have hctl : (M.after a rest pc new).ctl M.sys.curr = _ := after_ctl_curr ha
  rw [hcn] at hctl
  rw [hctl, Core.mem_exec_tasks h.core (h.enabled hd), h.queued hcn]
  have hrun : M.running = none := hcn
  cases hd with
  | tick => simp [← hcn]; rfl
  | ret => simp [← hcn]; rfl
  | code _ hnext =>
    rw [hrun] at hnext
    exact (Pc.next_mainQueued hnext ha fun r hr => (h.ctx none).boot r hr rfl).symm
  | @call op hown hop =>
    rw [hrun] at hown
    rw [hown]
    cases op <;> simp [Op.first, Ctl.own, Pc.mainQueued]

lemma flags_after (h : M.Sound) (hd : M.Does l a rest pc new) (hcn : M.sys.curr = none) :
    (M.sys.exec a).interruptible = false := by
  refine Core.exec_boot_flags (h.enabled hd) hcn (h.core.boot hcn).owner (h.flags hcn)
    (fun e hae => ?_)
  have hrun : M.running = none := hcn
  refine h.saved hcn e ?_
  cases hd with
  | tick => cases hae
  | ret hp =>
    cases hae
    rw [hrun] at hp
    simp [hp]
  | code _ hnext =>
    revert hnext
    fun_cases Pc.next M.running (Kernel.cpu M.sys) (M.ctl M.running).pc <;>
      intro hnext <;> cases hnext <;> cases hae
  | @call op hown hop => cases op <;> cases hae

lemma saved_after (h : M.Sound) (hd : M.Does l a rest pc new) (hcn : M.sys.curr = none)
    (ha : a ≠ .becomeMain) {e : Epilogue}
    (he : e ∈ ((M.after a rest pc new).ctl none).pending) : e.state.getLsbD 9 = false := by
  have hctl : (M.after a rest pc new).ctl M.sys.curr = _ := after_ctl_curr ha
  rw [hcn] at hctl
  rw [hctl] at he
  rcases List.mem_append.mp he with hmem | hmem
  · rcases Core.leaves_state hmem with hs | hs
    · rw [hs]
      exact h.flags hcn
    · rw [hs]
      exact Core.off_interruptible
  · exact h.saved hcn e (hcn ▸ rest_subset hd e hmem)

/-- The invariant of the step. -/
theorem after (h : M.Sound) (hd : M.Does l a rest pc new) : (M.after a rest pc new).Sound where
  core := h.core.exec (h.enabled hd)
  ctx c := h.ctx_after hd c
  alone _ _ _ _ hr hr' heq := h.alone_after hd hr hr' heq
  tasks _ ht := h.tasks_after hd ht
  idle := List.mem_append_right _ h.idle
  main hc := h.main_after hd hc
  queued hc := by
    obtain ⟨hcn, ha⟩ := (Core.exec_curr h.core (h.enabled hd)).mp hc
    exact h.queued_after hd hcn ha
  flags hc := h.flags_after hd ((Core.exec_curr h.core (h.enabled hd)).mp hc).1
  saved hc e he := by
    obtain ⟨hcn, ha⟩ := (Core.exec_curr h.core (h.enabled hd)).mp hc
    exact h.saved_after hd hcn ha he
  others hc c hne := by
    obtain ⟨hcn, ha⟩ := (Core.exec_curr h.core (h.enabled hd)).mp hc
    rw [after_ctl_ne ha (hcn ▸ hne)]
    exact h.others hcn c hne

theorem step {M' : Machine Core} (h : M.Sound) (hs : M.Step l M') : M'.Sound := by
  obtain ⟨-, a, rest, pc, new, hd, rfl⟩ := step_iff.mp hs
  exact h.after hd

theorem run {M' : Machine Core} {ls : List Label} (h : M.Sound) (hr : Run Step M ls M') :
    M'.Sound :=
  hr.invariant (fun _ _ _ hM hs => hM.step hs) h

/-- Which epilogues the running context had before the action, and which it keeps. -/
lemma pending_cases (hd : M.Does l a rest pc new) :
    (∃ e, a = .ret e ∧ (M.ctl M.sys.curr).pending = e :: rest) ∨
      ((∀ e, a ≠ .ret e) ∧ (M.ctl M.sys.curr).pending = rest ∧ (a ≠ .timer → rest = [])) := by
  cases hd with
  | tick => exact Or.inr ⟨by simp, rfl, fun hn => absurd rfl hn⟩
  | ret hp => exact Or.inl ⟨_, rfl, hp⟩
  | code hp hnext =>
    refine Or.inr ⟨fun e he => ?_, hp, fun _ => rfl⟩
    revert hnext
    fun_cases Pc.next M.running (Kernel.cpu M.sys) (M.ctl M.running).pc <;>
      intro hnext <;> cases hnext <;> cases he
  | @call op hown hop =>
    have hown' : M.ctl M.sys.curr = .own := hown
    refine Or.inr ⟨fun e he => ?_, by rw [hown']; rfl, fun _ => rfl⟩
    cases op <;> cases he

lemma after_ctl (h : M.Sound) (hd : M.Does l a rest pc new) (c : Ctx) :
    (M.after a rest pc new).ctl c =
      if c = M.sys.curr then ⟨M.sys.leaves a ++ rest, pc⟩ else M.ctl c := by
  by_cases ha : a = .becomeMain
  · -- the boot code has nothing left to do, and neither has the new main task
    obtain ⟨rfl, rfl, hpc⟩ := becomeMain_pc hd ha
    have hcn : M.sys.curr = none := (h.ctx _).atMain (Or.inr hpc)
    have hrun : { M with started := new ++ M.started }.running = none := hcn
    subst ha
    by_cases hmain : c = some .mainTask
    · subst hmain
      rw [hcn, if_neg (by simp), h.others hcn _ (by simp)]
      simp [Machine.after, commit]
      rfl
    · by_cases hc : c = none
      · subst hc
        rw [hcn, if_pos rfl]
        simp [Machine.after, commit, hrun]
        rfl
      · rw [hcn, if_neg hc]
        simp [Machine.after, commit, hrun, hmain, hc]
  · by_cases hc : c = M.sys.curr
    · rw [if_pos hc, hc, after_ctl_curr ha]
    · rw [if_neg hc, after_ctl_ne ha hc]

lemma after_pending (h : M.Sound) (hd : M.Does l a rest pc new) (c : Ctx) :
    ((M.after a rest pc new).ctl c).pending =
      if c = M.sys.curr then M.sys.leaves a ++ rest else (M.ctl c).pending := by
  rw [h.after_ctl hd]
  split <;> rfl

end Machine.Sound

end OsToyI386
