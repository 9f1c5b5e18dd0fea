import OsToyI386.Scheduler.Plays

/-!
# The boot

`task_manager_init` creates the idle task and `task_main_init` the main task, which then
has the processor. The kernel gets there from every memory, so the states reached later
are not reached in vain.
-/

namespace OsToyI386

open Lib Machine

namespace Machine

variable {roomy : Bool} {c : Ctx} {M M' : Machine Core}

lemma Goes.run (h : Goes roomy c M M') : ∃ ls, Run Machine.Step M ls M' := by
  obtain ⟨ls, hr⟩ := h
  exact ⟨ls, hr.mono fun _ _ _ hs => hs.1⟩

end Machine

lemma getDword_putDword (mem : Nat → BitVec 8) (off : Nat) (v : BitVec 32) :
    getDword (putDword mem off v) off = v := by
  have h0 : putDword mem off v off = v.setWidth 8 := by simp [putDword]
  have h1 : putDword mem off v (off + 1) = (v >>> 8).setWidth 8 := by simp [putDword]
  have h2 : putDword mem off v (off + 2) = (v >>> 16).setWidth 8 := by simp [putDword]
  have h3 : putDword mem off v (off + 3) = (v >>> 24).setWidth 8 := by simp [putDword]
  rw [getDword, h0, h1, h2, h3]
  ext i hi
  simp only [BitVec.getElem_append]
  grind

lemma Tss.fill_eflags (tss : Tss) (entry sp : BitVec 32) :
    getDword (Tss.fill tss entry sp) Tss.eflags = 0x202#32 := by
  rw [fill, getDword_putDword]
  decide

/-- What the kernel has set up when the main task begins. -/
structure Core.Booted (K : Core) (b : BootMem) : Prop where
  runs : K.Runs (some .mainTask)
  tr : K.tr = selOf 4
  tssAddr : K.tssAddr = b.tssAddr
  idle : K.gdt 3 = tssDesc (b.tssAddr .idleTask)
  main : K.gdt 4 = (tssDesc (b.tssAddr .mainTask)).setBusy
  used : ∀ j, 1 ≤ j → j < 5 → (K.gdt j).attr ≠ 0
  free : ∀ j, 5 ≤ j → j < gdtTableSize → (K.gdt j).attr = 0
  mutex : ∀ m, K.mutex m = ⟨none, 0#32⟩
  queue : ∀ q, K.queue q = if q = .ready then [.mainTask] else []
  idleSel : (K.task .idleTask).tssSel = 24
  idleFlags : getDword (K.tss (b.tssAddr .idleTask)) Tss.eflags = 0x202#32
  others : ∀ a, (K.task (.obj a)).tssSel = (b.task (.obj a)).tssSel

lemma selIndex_ne {K : Core} {found : Option Nat} (hfind : K.Finds found)
    (htr : selIndex K.tr ≠ 0 → (K.gdt (selIndex K.tr)).attr ≠ 0) :
    ∀ n, found = some n → selIndex K.tr ≠ n := by
  rintro n rfl rfl
  have hpos := hfind.1
  exact htr (by omega) hfind.2.2.1

/-- The main task has the processor, and `d` describes its TSS. -/
def Core.entered (K : Core) (d : SegmentDesc) (tr : List Event) : Core :=
  { K with
    gdt := Function.update K.gdt 4 d
    tr := selOf 4
    curr := some .mainTask
    trace := tr }

lemma Core.entered_frame (K : Core) (d : SegmentDesc) (tr : List Event) :
    (K.entered d tr).tss = K.tss ∧ (K.entered d tr).tssAddr = K.tssAddr ∧
      (K.entered d tr).task = K.task ∧ (K.entered d tr).mutex = K.mutex ∧
      (K.entered d tr).queue = K.queue ∧ (K.entered d tr).halt = K.halt :=
  ⟨rfl, rfl, rfl, rfl, rfl, rfl⟩

namespace BootMem

/-- `task_manager_init` creates the idle task. -/
def idleReq (b : BootMem) : InitReq := ⟨.idleTask, idleTaskName, b.idleEntry, b.idleEsp⟩

/-- The state in which `task_main_init` is called. -/
def withIdle (b : BootMem) : Core := b.core.initialised b.idleReq (some 3)

lemma finds_idle (b : BootMem) : b.core.Finds (some 3) := by
  refine ⟨by omega, by rw [gdtTableSize]; omega, (gdtInit_attr b.gdt 3 (by decide)).mpr (by simp),
    fun j hj hj3 hz => ?_⟩
  have := (gdtInit_attr b.gdt j (by rw [gdtTableSize]; omega)).mp hz
  omega

lemma withIdle_gdt (b : BootMem) :
    b.withIdle.gdt = Function.update (gdtInit b.gdt) 3 (tssDesc (b.tssAddr .idleTask)) := by
  rw [withIdle, Core.initialised_gdt]
  rfl

lemma finds_main (b : BootMem) : b.withIdle.Finds (some 4) := by
  rw [Core.Finds, withIdle_gdt]
  refine ⟨by omega, by rw [gdtTableSize]; omega, ?_, fun j hj hj4 => ?_⟩
  · rw [Function.update_of_ne (by omega)]
    exact (gdtInit_attr b.gdt 4 (by decide)).mpr (by simp)
  · by_cases h3 : j = 3
    · subst h3
      rw [Function.update_self, tssDesc_attr]
      decide
    · rw [Function.update_of_ne h3]
      intro hz
      have := (gdtInit_attr b.gdt j (by rw [gdtTableSize]; omega)).mp hz
      omega

/-- The state in which `task_main_init` loads `TR`. -/
def withMain (b : BootMem) : Core := b.withIdle.initialised mainReq (some 4)

lemma withMain_gdt (b : BootMem) :
    b.withMain.gdt = Function.update b.withIdle.gdt 4 (tssDesc (b.tssAddr .mainTask)) := by
  have haddr : b.withIdle.tssAddr = b.tssAddr := Core.initialised_frame.2.2.2.1
  rw [withMain, Core.initialised_gdt, ← haddr]
  rfl

/-- The state in which the main task begins. -/
def atMain (b : BootMem) (tr : List Event) : Core :=
  b.withMain.entered (tssDesc (b.tssAddr .mainTask)).setBusy tr

lemma core_runs (b : BootMem) : b.core.Runs none := ⟨rfl, rfl, rfl⟩

lemma selIndex_zero {p : Cpu} (htr : p.tr = 0) {found : Option Nat} {K : Core}
    (hfind : K.Finds found) : ∀ n, found = some n → selIndex p.tr ≠ n := by
  rintro n rfl
  have hpos := hfind.1
  have hzero : selIndex p.tr = 0 := by rw [htr]; rfl
  omega

lemma withIdle_tr (b : BootMem) : b.withIdle.tr = 0 := Core.initialised_frame.2.2.1

lemma withIdle_runs (b : BootMem) : b.withIdle.Runs none :=
  b.core_runs.initialised (selIndex_zero rfl b.finds_idle)

lemma withMain_runs (b : BootMem) : b.withMain.Runs none :=
  b.withIdle_runs.initialised (selIndex_zero b.withIdle_tr b.finds_main)

lemma atMain_idleFlags (b : BootMem) (tr : List Event) :
    getDword ((b.atMain tr).tss (b.tssAddr .idleTask)) Tss.eflags = 0x202#32 := by
  have haddr : b.withIdle.tssAddr = b.tssAddr := Core.initialised_frame.2.2.2.1
  have htss : b.withMain.tss = (b.withIdle.described mainReq (some 4)).tss := Core.initialised_tss
  have htss' : b.withIdle.tss = (b.core.described b.idleReq (some 3)).tss := Core.initialised_tss
  rw [atMain, (Core.entered_frame _ _ tr).1, htss]
  simp only [Core.described, haddr]
  by_cases heq : b.tssAddr .idleTask = b.tssAddr mainReq.task
  · rw [heq, Function.update_self, Tss.fill_eflags]
  · rw [Function.update_of_ne heq, htss']
    simp only [Core.described]
    have hidle : b.core.tssAddr b.idleReq.task = b.tssAddr .idleTask := rfl
    rw [hidle, Function.update_self, Tss.fill_eflags]

lemma atMain_gdt (b : BootMem) (tr : List Event) :
    (b.atMain tr).gdt = Function.update (Function.update (gdtInit b.gdt) 3
      (tssDesc (b.tssAddr .idleTask))) 4 (tssDesc (b.tssAddr .mainTask)).setBusy := by
  simp only [atMain, Core.entered, withMain_gdt, withIdle_gdt, Function.update_idem]

lemma atMain_tssSel (b : BootMem) (tr : List Event) {t : TaskPtr} (ht : t ≠ .mainTask) :
    ((b.atMain tr).task t).tssSel = ((b.core.described b.idleReq (some 3)).task t).tssSel := by
  rw [atMain, (Core.entered_frame _ _ tr).2.2.1, withMain, Core.initialised_tssSel, withIdle]
  have hmain : t ≠ mainReq.task := ht
  simp only [Core.described, Function.update_of_ne hmain]
  exact Core.initialised_tssSel t

lemma atMain_tssAddr (b : BootMem) (tr : List Event) : (b.atMain tr).tssAddr = b.tssAddr := by
  rw [atMain, (Core.entered_frame _ _ tr).2.1, withMain, Core.initialised_frame.2.2.2.1, withIdle,
    Core.initialised_frame.2.2.2.1]
  rfl

lemma atMain_mutex (b : BootMem) (tr : List Event) :
    (b.atMain tr).mutex = fun _ => ⟨none, 0#32⟩ := by
  rw [atMain, (Core.entered_frame _ _ tr).2.2.2.1, withMain, Core.initialised_frame.2.1, withIdle,
    Core.initialised_frame.2.1]
  rfl

lemma atMain_sem (b : BootMem) (tr : List Event) : (b.atMain tr).sem = b.core.sem := by
  have hmain : (b.atMain tr).sem = b.withMain.sem := rfl
  rw [hmain, withMain, Core.initialised_sem, withIdle, Core.initialised_sem]

lemma atMain_queue (b : BootMem) (tr : List Event) (q : Queue) :
    (b.atMain tr).queue q = if q = .ready then [.mainTask] else [] := by
  have hok : mainReq.nameOk = true := by decide
  have hnot : b.idleReq.task = .idleTask := rfl
  have hmain : mainReq.task = .mainTask := rfl
  have hq : b.core.queue q = [] := rfl
  rw [atMain, (Core.entered_frame _ _ tr).2.2.2.2.1, withMain, Core.initialised_queue, withIdle,
    Core.initialised_queue]
  simp [hok, hnot, hq, hmain]

lemma atMain_booted (b : BootMem) (tr : List Event) : (b.atMain tr).Booted b := by
  have hgdt := b.atMain_gdt tr
  have hhalt : (b.atMain tr).halt = none := by
    rw [atMain, (Core.entered_frame _ _ tr).2.2.2.2.2, b.withMain_runs.halt]
  refine ⟨⟨hhalt, rfl, ?_⟩, rfl, b.atMain_tssAddr tr, ?_, ?_, ?_, ?_, ?_,
    b.atMain_queue tr, ?_, b.atMain_idleFlags tr, ?_⟩
  · have htr : (b.atMain tr).tr = selOf 4 := rfl
    have hidx : selIndex (b.atMain tr).tr = 4 := by rw [htr, selIndex_selOf (by decide)]
    rw [Cpu.runs, hidx, hgdt, Function.update_self, base_setBusy, tssDesc_base, atMain_tssAddr]
    exact beq_self_eq_true _
  · rw [hgdt, Function.update_of_ne (by omega), Function.update_self]
  · rw [hgdt, Function.update_self]
  · intro j hj hj5
    rw [hgdt]
    by_cases h4 : j = 4
    · subst h4
      rw [Function.update_self, attr_setBusy (tssDesc_attr _)]
      decide
    · rw [Function.update_of_ne h4]
      have hused := b.finds_main.2.2.2 j hj (by omega)
      rwa [withIdle_gdt] at hused
  · intro j hj hlt
    rw [hgdt, Function.update_of_ne (by omega), Function.update_of_ne (by omega)]
    exact (gdtInit_attr b.gdt j hlt).mpr (by omega)
  · intro m
    rw [atMain_mutex]
  · rw [b.atMain_tssSel tr (by simp)]
    simp [Core.described, idleReq]
  · intro a
    rw [b.atMain_tssSel tr (by simp)]
    simp only [Core.described, idleReq]
    rfl

lemma writeTr_selOf {p : Cpu} {i : Nat} (hpos : 0 < i) (hlt : i < gdtTableSize)
    (hav : (p.gdt i).isAvailableTss = true) :
    writeTr (selOf i) p = { p.setDesc i (p.gdt i).setBusy with tr := selOf i } := by
  simp [writeTr, selInGdt_selOf hpos hlt, selIndex_selOf hlt, hav]

/-- Before `task_main_init` is called. -/
def idleMachine (b : BootMem) (tr : List Event) : Machine Core :=
  place { b.withIdle with trace := tr } (fun _ => .own) [.idleTask] none .own

/-- Before `write_tr`. -/
def trMachine (b : BootMem) (tr : List Event) : Machine Core :=
  place { b.withMain with trace := tr } (fun _ => .own) [.mainTask, .idleTask] none ⟨[], .mainTr⟩

/-- The main task begins. -/
def mainMachine (b : BootMem) (tr : List Event) : Machine Core :=
  place (b.atMain tr) (fun _ => .own) [.mainTask, .idleTask] (some .mainTask) .own

lemma boots_idle (b : BootMem) : ∃ tr, b.Plays [] (b.idleMachine tr) := by
  have hpc : Pc.user = if b.idleReq.task = .mainTask then .mainTr else .user := by
    rw [if_neg (by simp [idleReq])]
  obtain ⟨tr, hidle⟩ := goes_taskInit (w := true) (f := fun _ => .own) (s := [.idleTask])
    .user b.core_runs ⟨rfl, rfl⟩ (by simp) b.finds_idle
    (selIndex_zero rfl b.finds_idle) hpc
  exact ⟨_, (Plays.boot b).goes hidle⟩

lemma boots_main {b : BootMem} {tr : List Event} (h : b.Plays [] (b.idleMachine tr)) :
    ∃ tr', b.Plays [(none, .taskMainInit)] (b.trMachine (tr' ++ [.initReturn .mainTask 0])) := by
  obtain ⟨K, hK⟩ : ∃ K : Core, K = { b.withIdle with trace := tr } := ⟨_, rfl⟩
  have hruns : K.Runs none := by
    subst hK
    exact ⟨b.withIdle_runs.halt, b.withIdle_runs.curr, b.withIdle_runs.runs⟩
  have hopen : K.Open .gdtMutex := by
    subst hK
    have hmutex : b.withIdle.mutex = b.core.mutex := Core.initialised_frame.2.1
    have hqueue : b.withIdle.queue (.mutexWait .gdtMutex) = [] := by
      rw [withIdle, Core.initialised_queue, if_neg (by simp)]
      rfl
    exact ⟨congrFun hmutex .gdtMutex, hqueue⟩
  have hfind : K.Finds (some 4) := by
    subst hK
    exact b.finds_main
  have htr : K.tr = 0 := by
    subst hK
    exact b.withIdle_tr
  have hcall := h.call .taskMainInit b.withIdle_runs.halt b.withIdle_runs.curr rfl rfl
    (by simp [Op.creates, idleMachine, place]) (Or.inl ⟨rfl, rfl⟩)
  obtain ⟨tr', hmain⟩ := goes_taskInit (w := true) (f := fun _ => .own)
    (s := [.mainTask, .idleTask]) (r := mainReq) .mainTr hruns hopen (by simp)
    hfind (selIndex_zero htr hfind) rfl
  subst hK
  have hret : mainReq.ret = 0 := by decide
  rw [Core.initialised_trace, hret] at hmain
  refine ⟨tr', hcall.goes (c := none) ?_⟩
  rw [idleMachine, place_again]
  exact hmain

lemma boots_enter {b : BootMem} {tr : List Event}
    (h : b.Plays [(none, .taskMainInit)] (b.trMachine tr)) :
    b.Plays [(none, .taskMainInit)] (b.mainMachine tr) := by
  have hruns : Core.Runs { b.withMain with trace := tr } none :=
    ⟨b.withMain_runs.halt, b.withMain_runs.curr, rfl⟩
  have hwrite := goes_code (w := true) (f := fun _ => .own) (s := [.mainTask, .idleTask])
    (a := .writeTr) .mainTr .mainCurr hruns hruns.curr (by simp) rfl (by simp)
  have hwritten : Core.exec { b.withMain with trace := tr } .writeTr =
      { b.atMain tr with curr := none } := by
    have hsel : (b.withMain.task .mainTask).tssSel = (4 * 8 : Nat) := by
      rw [withMain, Core.initialised_tssSel]
      simp [Core.described, mainReq]
    have h4 : b.withMain.gdt 4 = tssDesc (b.tssAddr .mainTask) := by
      rw [withMain_gdt, Function.update_self]
    have hload := writeTr_selOf (p := b.withMain.toCpu) (i := 4) (by omega) (by decide)
      (by rw [h4]; exact isAvailableTss_of_attr (tssDesc_attr _))
    rw [h4] at hload
    have hcurr : b.withMain.curr = none := b.withMain_runs.curr
    have hname : BitVec.ofInt 16 (b.withMain.task .mainTask).tssSel = selOf 4 := by
      rw [hsel]
      rfl
    simp only [Core.exec, Core.cpu, hname, hload, atMain, Core.entered, hcurr, Cpu.setDesc]
  rw [hwritten] at hwrite
  obtain ⟨ls, hr, hops⟩ := h.goes hwrite
  refine ⟨ls ++ [(none, .run)],
    hr.snoc ⟨rfl, rfl, fun r hk _ => (by cases hk), Machine.step_iff.mpr ?_⟩,
    by rw [madeBy_append, hops]; rfl⟩
  refine ⟨⟨b.withMain_runs.halt, rfl⟩, .becomeMain, [], .user, [], .code rfl rfl, ?_⟩
  have hrun : Kernel.currTask ({ b.atMain tr with curr := none } : Core) = none := rfl
  have hleaves : (Kernel.exec .becomeMain ({ b.atMain tr with curr := none } : Core)).2 = [] := rfl
  have hown : Function.update (fun _ : Ctx => Ctl.own) none Ctl.own = fun _ => .own :=
    Function.update_eq_self none (fun _ => Ctl.own)
  simp only [after, commit, mainMachine, Machine.running, place, if_pos, hrun, hleaves,
    Function.update_idem, hown]
  rfl

/-- The boot leads to the main task. -/
theorem boots (b : BootMem) :
    ∃ tr, b.Plays [(none, .taskMainInit)] (b.mainMachine (tr ++ [.initReturn .mainTask 0])) := by
  obtain ⟨tr, hidle⟩ := b.boots_idle
  obtain ⟨tr', hmain⟩ := boots_main hidle
  exact ⟨tr', boots_enter hmain⟩

/-- So it does over memory. -/
theorem reaches_main (b : BootMem) : ∃ ls m tr, b.ReachesWithRoom ls m ∧
    m.Sim (b.mainMachine (tr ++ [.initReturn .mainTask 0])) ∧
    (b.mainMachine (tr ++ [.initReturn .mainTask 0])).Sound := by
  obtain ⟨tr, hmain⟩ := b.boots
  obtain ⟨ls, m, hm, hsim, -⟩ := hmain.real
  exact ⟨ls, m, tr, hm, hsim, hmain.sound⟩

/-- Where the linker may have put the `tss` fields. -/
def someTssAddr : TaskPtr → BitVec 32
  | .mainTask => 0x20000#32
  | .idleTask => 0x20100#32
  | .obj a => BitVec.ofNat 32 (0x30000 + 0x100 * a)

/-- Memory that is all zero. -/
def zeroed : BootMem where
  node := fun _ => ⟨none, none⟩
  task := fun _ => ⟨[], .created, 0, 0, 0, 0⟩
  gdt := fun _ => ⟨0, 0, 0, 0, 0⟩
  tss := fun _ _ => 0
  tssAddr := someTssAddr
  eflags := 2
  idleEntry := 0x10000
  idleEsp := 0x18000
  semCount := fun _ => 1

end BootMem

end OsToyI386
