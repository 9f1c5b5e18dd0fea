import OsToyI386.Properties.Mutex
import OsToyI386.Scheduler.Entries

/-!
# Creations that fail

`task_init` claims a descriptor before it looks at the name, and gives none back. So a call
that fails on the name leaves the kernel as it was only where no descriptor was free.
-/

namespace OsToyI386

open Lib

namespace Machine

/-- The code of the running context goes on, and the context keeps the processor. -/
def Alone (m : Machine Sys) (l : Label) (m' : Machine Sys) : Prop :=
  m.Step l m' ∧ l = .run ∧ m'.running = m.running

/-- The running task calls `task_init`, and the call has just returned `ret`; nothing else
has happened in between. -/
structure InitCall (m : Machine Sys) (r : InitReq) (ret : Int) (m' : Machine Sys) : Prop where
  runs : ∃ m₁ ls, m.Step (.call (.taskInit r)) m₁ ∧ Run Alone m₁ ls m'
  own : m'.ctl m.running = .own
  ret : m'.sys.trace.getLast? = some (.initReturn r.task ret)

end Machine

/-- The free entries of the GDT, the null descriptor aside. -/
def Sys.freeDescs (s : Sys) : Nat :=
  (List.range gdtTableSize).countP fun i => decide (1 ≤ i ∧ (s.gdt i).attr = 0)

/-- What a failed creation has no business to change. -/
structure Sys.Untouched (s s' : Sys) : Prop where
  gdt : s'.gdt = s.gdt
  lists : ∀ l ∈ [ListPtr.readyList, .sleepList, .taskList], s'.heap.toList l = s.heap.toList l
  curr : s'.currTask = s.currTask
  room : s'.freeDescs = s.freeDescs

namespace Machine.Sim

variable {roomy : Bool} {m m' : Machine Sys} {M M' : Machine Core} {c : Ctx} {ls : List Label}

lemma alone (h : m.Sim M) (hM : M.Sound) (hc : m.running = c) (hr : Run Machine.Alone m ls m') :
    ∃ M', Run (Machine.Solo false c) M ls M' ∧ m'.Sim M' ∧ m'.running = c := by
  induction hr generalizing M with
  | nil => exact ⟨M, .nil M, h, hc⟩
  | cons hs _ ih =>
    obtain ⟨hstep, hl, hrun⟩ := hs
    obtain ⟨M₁, hs₁, h₁, hM₁⟩ := h.step hM hstep
    obtain ⟨M', hr', h', hc'⟩ := ih h₁ hM₁ (hrun.trans hc)
    refine ⟨M', .cons ⟨hs₁, hl, ?_, ?_, by simp⟩ hr', h', hc'⟩
    · exact h.running.symm.trans hc
    · exact h₁.running.symm.trans (hrun.trans hc)

lemma alone_back (h : m.Sim M) (hM : M.Sound) (hr : Run (Machine.Solo roomy c) M ls M') :
    ∃ m', Run Machine.Alone m ls m' ∧ m'.Sim M' := by
  induction hr generalizing m with
  | nil => exact ⟨m, .nil m, h⟩
  | cons hs _ ih =>
    obtain ⟨hstep, hl, hc, hc', -⟩ := hs
    obtain ⟨m₁, hs₁, h₁⟩ := h.step_back hM hstep
    obtain ⟨m', hr', h'⟩ := ih h₁ (hM.step hstep)
    refine ⟨m', .cons ⟨hs₁, hl, ?_⟩ hr', h'⟩
    exact h₁.running.trans (hc'.trans (hc.symm.trans h.running.symm))

end Machine.Sim

namespace Machine

variable {M M' : Machine Core} {c : Ctx} {l : Label}

lemma solo_unique : ∀ (M : Machine Core) (l : Label) (M₁ : Machine Core) (l' : Label)
    (M₂ : Machine Core), Solo false c M l M₁ → Solo false c M l' M₂ → M₁ = M₂ := by
  rintro M l M₁ l' M₂ ⟨h, rfl, -⟩ ⟨h', rfl, -⟩
  exact Option.some.inj (h.symm.trans h')

lemma solo_own (hctl : M.ctl c = .own) (l : Label) (M' : Machine Core) :
    ¬ Solo false c M l M' := by
  rintro ⟨h, rfl, hc, -⟩
  obtain ⟨-, a, rest, pc, new, hd, -⟩ := Machine.step_iff.mp h
  have hrun : M.ctl M.running = .own := by rw [← hctl, ← hc]; rfl
  cases hd with
  | ret hp =>
    rw [hrun] at hp
    cases hp
  | code _ hnext =>
    rw [hrun] at hnext
    cases hnext

lemma solo_code {pc : Pc} (h : Solo false c M l M') (hctl : M.ctl c = ⟨[], pc⟩) :
    ∃ a pc', pc.next c M.sys.toCpu = some (a, pc') ∧ M'.sys = M.sys.exec a := by
  obtain ⟨hs, rfl, hc, -⟩ := h
  obtain ⟨-, a, rest, pc', new, hd, rfl⟩ := Machine.step_iff.mp hs
  have hrun : M.ctl M.running = ⟨[], pc⟩ := by rw [← hctl, ← hc]; rfl
  cases hd with
  | ret hp =>
    rw [hrun] at hp
    cases hp
  | code _ hnext =>
    rw [hrun] at hnext
    have hrunning : M.running = c := hc
    rw [hrunning] at hnext
    exact ⟨a, pc', hnext, rfl⟩

end Machine

lemma Core.open_of_lock {K : Core} (hK : K.Inv)
    (hfree : (K.mutex .gdtMutex).locker = 0#32 →
      (K.mutex .gdtMutex).owner = none ∧ K.queue (.mutexWait .gdtMutex) = [])
    (hheld : (K.mutex .gdtMutex).heldBy K.curr = 0)
    (hidle : K.curr ≠ some .idleTask) (hcurr : (K.exec (.lock .gdtMutex)).curr = K.curr) :
    K.Open .gdtMutex := by
  rcases lock_cases (m := .gdtMutex) hK hidle with ⟨hgets, -⟩ | ⟨t, hc, hready, -, -, hexec, -⟩
  · have hz := ReinMutex.free_of_heldBy hheld hgets
    obtain ⟨howner, hnobody⟩ := hfree hz
    refine ⟨?_, hnobody⟩
    rw [← hz, ← howner]
  · rw [hexec, hc] at hcurr
    have hhead := Option.some.inj ((Core.dispatch_curr _).symm.trans hcurr)
    have hqueue : (((K.off.block t (.mutexWait .gdtMutex)).emit (.lockBlock t .gdtMutex)).queue
        .ready) = (K.queue .ready).erase t := by
      simp [Core.block, Core.emit, Core.join, Core.pop, Core.leave, Core.off, Core.cpu]
    rw [Core.head, hqueue] at hhead
    cases hrest : (K.queue .ready).erase t with
    | nil =>
      rw [hrest] at hhead
      have ht : t = .idleTask := hhead.symm
      exact absurd (ht ▸ hc) hidle
    | cons x xs =>
      rw [hrest] at hhead
      have hx : x = t := hhead
      have hmem : t ∈ (K.queue .ready).erase t := by simp [hrest, hx]
      exact absurd hmem (hK.placed.apart.nodup .ready).not_mem_erase

/-- No descriptor is free. -/
def Sys.Full (s : Sys) : Prop := ∀ j, 1 ≤ j → j < gdtTableSize → (s.gdt j).attr ≠ 0

namespace Machine.Sim

variable {m m' : Machine Sys} {M : Machine Core} {r : InitReq} {ret : Int}

lemma initCall (h : m.Sim M) (hM : M.Sound) (hmark : M.Marked) (hG : M.Guarded)
    (hcall : m.InitCall r ret m') :
    ret = r.ret ∧ ∃ found tr st k, M.sys.Finds found ∧
      m'.Sim (place { M.sys.initialised r found with trace := tr } M.ctl st k .own) := by
  obtain ⟨m₁, ls, hstep, hrun⟩ := hcall.runs
  obtain ⟨M₁, hs₁, h₁, hM₁⟩ := h.step hM hstep
  -- the call
  obtain ⟨hlive, a, rest, pc, new, hd, rfl⟩ := Machine.step_iff.mp hs₁
  cases hd with
  | call hown hop =>
    obtain ⟨c, hc⟩ : ∃ c, M.sys.curr = c := ⟨_, rfl⟩
    have hrunning : M.running = c := hc
    rw [hrunning] at hown
    obtain ⟨t, rfl⟩ : ∃ t, c = some t := by
      cases c with
      | none => cases allows_boot hop hrunning
      | some t => exact ⟨t, rfl⟩
    obtain ⟨hidle, -⟩ := allows_task hop hrunning
    have hnew : r.task ∉ M.started := allows_new hop (by simp [Op.creates])
    have hmain : r.task ≠ .mainTask := by
      rintro he
      exact hnew (he ▸ hM.main (by simp [hc]))
    have hruns : M.sys.Runs (some t) := by
      have hlive' := hlive.2
      rw [hrunning] at hlive'
      exact ⟨hlive.1, hc, hlive'⟩
    have hbegun : (place M.sys M.ctl M.started (some t) .own).after (Op.taskInit r).first.1 []
        (Op.taskInit r).first.2 (Op.taskInit r).creates = _ :=
      after_place hc (by simp [Op.first])
    rw [place_eq hown] at hbegun
    rw [hbegun] at h₁ hM₁
    have hm₁ : m₁.running = some t := h₁.running.trans hc
    have hm : m.running = some t := h.running.trans hc
    obtain ⟨M', hr, h', -⟩ := h₁.alone hM₁ hm₁ hrun
    have hown' : M'.ctl (some t) = .own := by
      rw [← h'.ctl, ← hm]
      exact hcall.own
    -- the call got the mutex
    have hopen : M.sys.Open .gdtMutex := by
      cases hr with
      | nil => simp [place, Ctl.own, Op.first] at hown'
      | cons hfirst _ =>
        obtain ⟨a, pc', hnext, hsys⟩ := solo_code hfirst (Function.update_self ..)
        obtain ⟨rfl, -⟩ := Prod.mk.inj (Option.some.inj hnext)
        have hheld : (M.sys.mutex .gdtMutex).heldBy M.sys.curr = 0 := by
          refine hG.outside ?_
          rw [hc, hown]
          rfl
        refine Core.open_of_lock hM.core hG.free hheld (by simp [hc, hidle]) ?_
        have hcurr := hfirst.2.2.2.1
        rw [hsys] at hcurr
        exact hcurr.trans hc.symm
    obtain ⟨found, hfind⟩ := M.sys.finds
    have htr := selIndex_ne hfind fun hz => SegmentDesc.attr_ne_zero (hmark.cpu.tr hz)
    obtain ⟨tr, hgoes⟩ := goes_taskInit (w := false) (f := M.ctl) (s := r.task :: M.started)
      .user hruns hopen (by simp) hfind htr (by rw [if_neg hmain])
    obtain ⟨ls', hr'⟩ := hgoes
    have hend := hr.end_unique solo_unique hr' (solo_own hown')
      (solo_own (Function.update_self ..))
    subst hend
    refine ⟨?_, found, _, _, some t, hfind, h'⟩
    have hlast := hcall.ret
    rw [h'.sys.trace] at hlast
    simp only [place, List.getLast?_concat, Option.some.injEq, Event.initReturn.injEq] at hlast
    exact hlast.2.symm

end Machine.Sim

lemma Sys.Untouched.of_desc {s s' : Sys} (hgdt : s'.gdt = s.gdt)
    (hlists : ∀ l ∈ [ListPtr.readyList, .sleepList, .taskList],
      s'.heap.toList l = s.heap.toList l) (hcurr : s'.currTask = s.currTask) :
    s.Untouched s' :=
  ⟨hgdt, hlists, hcurr, by rw [freeDescs, freeDescs, hgdt]⟩

variable {b : BootMem} {ls : List Label} {m m' : Machine Sys} {r : InitReq} {ret : Int}

lemma Machine.InitCall.sim (h : b.Reaches ls m) (hcall : m.InitCall r ret m') :
    ret = r.ret ∧ ∃ M found tr st k, m.Sim M ∧ M.sys.Finds found ∧
      m'.Sim (place { M.sys.initialised r found with trace := tr } M.ctl st k .own) := by
  obtain ⟨M, hsim, hM, hmark, hG⟩ := h.invariant (I := fun M => M.Marked ∧ M.Guarded)
    ⟨Machine.Marked.boot b, Machine.Guarded.boot b⟩
    (fun M l a rest pc new hM hI _ hd => ⟨hI.1.after hd, hI.2.after hM hd⟩)
  obtain ⟨hret, found, tr, st, k, hfind, hsim'⟩ := hsim.initCall hM hmark hG hcall
  exact ⟨hret, M, found, tr, st, k, hsim, hfind, hsim'⟩

lemma Machine.InitCall.gdt_ne (h : b.Reaches ls m) (hcall : m.InitCall r ret m')
    (hroom : ¬ m.sys.Full) : m'.sys.gdt ≠ m.sys.gdt := by
  obtain ⟨-, M, found, tr, st, k, hsim, hfind, hsim'⟩ := hcall.sim h
  have hgdt : m.sys.gdt = M.sys.gdt := by rw [hsim.sys.cpu]
  have hgdt' : m'.sys.gdt = (M.sys.described r found).gdt := by
    rw [hsim'.sys.cpu]
    exact Core.initialised_gdt
  intro hsame
  cases found with
  | none => exact hroom fun j hj hlt => hgdt ▸ hfind j hj hlt
  | some n =>
    rw [hgdt, hgdt'] at hsame
    have hattr := congrArg SegmentDesc.attr (congrFun hsame n)
    rw [hfind.2.2.1] at hattr
    simp [Core.described, tssDesc_attr] at hattr

lemma Machine.InitCall.untouched (h : b.Reaches ls m) (hcall : m.InitCall r ret m')
    (hname : ¬ r.nameOk = true) (hfull : m.sys.Full) : m.sys.Untouched m'.sys := by
  obtain ⟨-, M, found, tr, st, k, hsim, hfind, hsim'⟩ := hcall.sim h
  have hgdt : m.sys.gdt = M.sys.gdt := by rw [hsim.sys.cpu]
  cases found with
  | some n => exact absurd hfind.2.2.1 (hgdt ▸ hfull n hfind.1 hfind.2.1)
  | none =>
    have hinit : M.sys.initialised r none = M.sys := by
      rw [Core.initialised, if_neg hname]
      rfl
    rw [hinit] at hsim'
    refine .of_desc ?_ (fun l _ => ?_) ?_
    · rw [hgdt, hsim'.sys.cpu]
      rfl
    · rw [hsim.sys.heap.toList_eq (Set.mem_univ l), hsim'.sys.heap.toList_eq (Set.mem_univ l)]
      rfl
    · rw [hsim.sys.curr, hsim'.sys.curr]
      rfl

/-- A call of `task_init` that fails leaves the kernel as it was if and only if it does not
fail on the name with a descriptor still free. -/
theorem failed_creation_harmless_iff (h : b.Reaches ls m) (hcall : m.InitCall r ret m') :
    (ret = -1 → m.sys.Untouched m'.sys) ↔ (r.nameOk = true ∨ m.sys.Full) := by
  have hret := (hcall.sim h).1
  by_cases hname : r.nameOk = true
  · simp [hret, InitReq.ret, hname]
  · have hfail : ret = -1 := by rw [hret, InitReq.ret, if_neg hname]
    constructor
    · intro hharmless
      refine Or.inr (not_not.mp fun hroom => ?_)
      exact hcall.gdt_ne h hroom (hharmless hfail).gdt
    · rintro (hok | hfull) -
      · exact absurd hok hname
      · exact hcall.untouched h hname hfull

lemma main_creates (b : BootMem) (r : InitReq) (a : Nat) (hr : r.task = .obj a) :
    ∃ ls m m', b.Reaches ls m ∧ m.InitCall r r.ret m' ∧ ¬ m.sys.Full := by
  obtain ⟨ls, m, tr, hm, hsim, hM⟩ := b.reaches_main
  have hbooted := b.atMain_booted (tr ++ [.initReturn .mainTask 0])
  have hfind : (b.atMain (tr ++ [.initReturn .mainTask 0])).Finds (some 5) :=
    ⟨by decide, by decide, hbooted.free 5 le_rfl (by decide), hbooted.used⟩
  have htr : ∀ n : Nat, some 5 = some n →
      selIndex (b.atMain (tr ++ [.initReturn .mainTask 0])).tr ≠ n := by
    rintro n ⟨⟩
    have h4 : selIndex (selOf 4) = 4 := selIndex_selOf (by decide)
    rw [hbooted.tr, h4]
    decide
  obtain ⟨M₁, tr', -, hs, hgoes⟩ := calls_taskInit (w := false) (r := r) (f := fun _ => .own)
    (s := [.mainTask, .idleTask]) hbooted.runs ⟨hbooted.mutex _, hbooted.queue _⟩
    (by simp) hfind htr (by simp) (by simp [hr]) (by simp [hr])
  obtain ⟨ls', hr'⟩ := hgoes
  obtain ⟨m₁, hs₁, h₁⟩ := hsim.step_back hM hs
  obtain ⟨m', hrun, h'⟩ := h₁.alone_back (hM.step hs) hr'
  have hcurr : m.running = some .mainTask := hsim.running.trans hbooted.runs.curr
  refine ⟨ls, m, m', hm.reaches, ⟨⟨m₁, ls', hs₁, hrun⟩, ?_, ?_⟩, fun hfull => ?_⟩
  · rw [h'.ctl, hcurr]
    simp [Machine.place]
  · rw [h'.sys.trace]
    simp [Machine.place]
  · refine hfull 5 (by decide) (by decide) ?_
    rw [hsim.sys.cpu]
    exact hbooted.free 5 le_rfl (by decide)

/-- A name of one byte is no failure. -/
theorem failed_creation_harmless_iff_main : ∃ ls m m', BootMem.zeroed.Reaches ls m ∧
    m.InitCall ⟨.obj 0, [0x74#8], 0, 0⟩ 0 m' ∧ ((0 : Int) = -1 → m.sys.Untouched m'.sys) := by
  obtain ⟨ls, m, m', hm, hcall, -⟩ := main_creates BootMem.zeroed ⟨.obj 0, [0x74#8], 0, 0⟩ 0 rfl
  exact ⟨ls, m, m', hm, hcall, (failed_creation_harmless_iff hm hcall).mpr (Or.inl (by decide))⟩

/-- A creation with an empty name fails and keeps the descriptor that it has claimed. -/
theorem failed_creation_keeps_descriptor : ¬ ∀ (b : BootMem) (ls : List Label)
    (m : Machine Sys) (r : InitReq) (m' : Machine Sys),
    b.Reaches ls m → m.InitCall r (-1) m' → m.sys.Untouched m'.sys := by
  intro hall
  obtain ⟨ls, m, m', hm, hcall, hroom⟩ := main_creates BootMem.zeroed ⟨.obj 0, [], 0, 0⟩ 0 rfl
  have hret : InitReq.ret ⟨.obj 0, [], 0, 0⟩ = -1 := by decide
  rw [hret] at hcall
  exact hcall.gdt_ne hm hroom (hall _ _ _ _ _ hm hcall).gdt

end OsToyI386
