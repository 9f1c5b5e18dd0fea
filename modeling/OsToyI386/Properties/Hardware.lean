import OsToyI386.Properties.Placement
import OsToyI386.Scheduler.Filling

/-!
# The tasks and the processor

Every task that can be scheduled has a TSS descriptor of its own, and the processor uses
the TSS of the task that `curr_task` names.
-/

namespace OsToyI386

open Lib

/-- The task can be dispatched: it stands in a list, or it is the idle task and
`task_manager_init` is over. -/
def Machine.Schedulable (m : Machine Sys) (t : TaskPtr) : Prop :=
  (∃ q : Queue, q.node t ∈ m.sys.heap.toList q.list) ∨
    (t = .idleTask ∧ ∀ r, (m.ctl none).pc.creation = some r → r.task ≠ .idleTask)

/-- The GDT entry that the selector of a task names. -/
def Sys.tssEntry (s : Sys) (t : TaskPtr) : SegmentDesc := s.gdt ((s.task t).tssSel / 8).toNat

/-- The selector of the task names a TSS descriptor that is the task's own. -/
structure Machine.HasTss (m : Machine Sys) (t : TaskPtr) : Prop where
  pos : 0 < (m.sys.task t).tssSel
  lt : (m.sys.task t).tssSel < 256 * 8
  aligned : (m.sys.task t).tssSel % 8 = 0
  notCode : (m.sys.task t).tssSel ≠ kernelSelectorCode
  notData : (m.sys.task t).tssSel ≠ kernelSelectorData
  distinct : ∀ t', m.Schedulable t' → t' ≠ t → (m.sys.task t').tssSel ≠ (m.sys.task t).tssSel
  tss : (m.sys.tssEntry t).isAvailableTss = true ∨ (m.sys.tssEntry t).isBusyTss = true
  base : (m.sys.tssEntry t).base = m.sys.tssAddr t

namespace Machine.Sim

variable {m : Machine Sys} {M : Machine Core} {own : Nat → Option Owner} {t c : TaskPtr} {i : Nat}

lemma owns (h : m.Sim M) (hM : M.Sound) (hW : M.Wired own) (ht : m.Schedulable t) :
    ∃ i, own i = some (.task t) := by
  rcases ht with ⟨q, hq⟩ | ⟨rfl, hidle⟩
  · exact hW.queued t ((hM.core.placed.placed t).mpr ⟨q, (h.sys.mem_toList q t).mp hq⟩)
  · exact hW.idle (h.ctl ▸ hidle)

lemma tssSel_eq (h : m.Sim M) (hW : M.Wired own) (hi : own i = some (.task t)) :
    (m.sys.task t).tssSel = (i * 8 : Nat) := by
  rw [h.sys.task]
  exact hW.table.sel i t hi

lemma tssEntry_eq (h : m.Sim M) (hW : M.Wired own) (hi : own i = some (.task t)) :
    m.sys.tssEntry t = M.sys.gdt i := by
  have hidx : ((i * 8 : Nat) / 8 : Int).toNat = i := by omega
  rw [Sys.tssEntry, h.tssSel_eq hW hi, hidx, h.sys.cpu]

lemma hasTss (h : m.Sim M) (hM : M.Sound) (hW : M.Wired own) (ht : m.Schedulable t) :
    m.HasTss t := by
  obtain ⟨i, hi⟩ := h.owns hM hW ht
  have hsel := h.tssSel_eq hW hi
  have hentry := h.tssEntry_eq hW hi
  obtain ⟨hpos, hlt⟩ := hW.table.range i _ hi
  rw [gdtTableSize] at hlt
  have hne : ∀ j o, own j = some o → o ≠ .task t → i ≠ j := by
    rintro j o ho hot rfl
    exact hot (Option.some.inj (ho.symm.trans hi))
  have h1 := hne 1 _ hW.table.kernel.1 (by simp)
  have h2 := hne 2 _ hW.table.kernel.2 (by simp)
  refine ⟨by omega, by omega, by omega, ?_, ?_, fun t' ht' htt => ?_, ?_, ?_⟩
  · rw [hsel, kernelSelectorCode]
    omega
  · rw [hsel, kernelSelectorData]
    omega
  · obtain ⟨j, hj⟩ := h.owns hM hW ht'
    have hij := hne j _ hj (fun he => htt (Owner.task.inj he))
    rw [hsel, h.tssSel_eq hW hj]
    omega
  · rw [hentry]
    have hattr := hW.table.attr i t hi
    split at hattr
    · exact Or.inr (isBusyTss_of_attr hattr)
    · exact Or.inl (isAvailableTss_of_attr hattr)
  · rw [hentry, hW.table.base i t hi, h.sys.cpu]

end Machine.Sim

variable {b : BootMem} {ls : List Label} {m : Machine Sys}

/-- As long as creations find a free entry, every task that can be scheduled has a TSS
descriptor of its own. -/
theorem every_task_has_tss (h : b.ReachesWithRoom ls m) (t : TaskPtr) (ht : m.Schedulable t) :
    m.HasTss t := by
  obtain ⟨M, own, hsim, hM, hW⟩ := h.wired
  exact hsim.hasTss hM hW ht

/-- The main task has a TSS of its own when it begins. -/
theorem every_task_has_tss_main : ∃ ls m, BootMem.zeroed.ReachesWithRoom ls m ∧
    m.HasTss .mainTask := by
  obtain ⟨ls, m, tr, hm, hsim, -⟩ := BootMem.zeroed.reaches_main
  refine ⟨ls, m, hm, every_task_has_tss hm .mainTask (Or.inl ⟨.ready, ?_⟩)⟩
  rw [hsim.sys.mem_toList]
  have hready := (BootMem.zeroed.atMain_booted (tr ++ [.initReturn .mainTask 0])).queue .ready
  exact hready ▸ List.mem_singleton_self _

/-- The task that finds the GDT full is ready all the same, with the selector that its
`task_t` held before. -/
theorem full_gdt_leaves_stale_selector : ¬ ∀ (b : BootMem) (ls : List Label) (m : Machine Sys)
    (t : TaskPtr), b.Reaches ls m → m.Schedulable t → m.HasTss t := by
  intro hall
  obtain ⟨K, st, hplays, hfilled, hst⟩ := BootMem.zeroed.fills 251 le_rfl
  obtain ⟨ls, hr, -⟩ := hplays.run
  have hfull : K.Finds none := fun j hj hlt =>
    hfilled.used j hj (by rw [gdtTableSize] at hlt; omega)
  obtain ⟨M₁, tr, -, hs, hgoes⟩ := calls_taskInit (w := false) (r := objReq 251)
    (f := fun _ => .own) (s := st) hfilled.runs (hfilled.opened _) (by simp) hfull (by simp)
    (by simp) (by simp [objReq]) (hst 251 le_rfl)
  obtain ⟨ls', hr'⟩ := hgoes.run
  obtain ⟨m, hm, hsim⟩ := BootMem.zeroed.boot_represents.run_back BootMem.zeroed.boot_sound
    ((hr.mono fun _ _ _ h => h.2).append (.cons hs hr'))
  have hsched : m.Schedulable (.obj 251) := by
    refine Or.inl ⟨.ready, (hsim.sys.mem_toList .ready _).mpr ?_⟩
    have hqueue : (K.initialised (objReq 251) none).queue .ready =
        K.queue .ready ++ [.obj 251] := by
      rw [Core.initialised_queue]
      rfl
    exact hqueue ▸ List.mem_append_right _ (List.mem_singleton_self _)
  have hsel : (m.sys.task (.obj 251)).tssSel = 0 := by
    have hinit : ((K.initialised (objReq 251) none).task (.obj 251)).tssSel = _ :=
      Core.initialised_tssSel _
    rw [hsim.sys.task]
    exact hinit.trans (hfilled.stale 251 le_rfl)
  have hpos := (hall _ _ _ _ hm hsched).pos
  omega

/-- The processor runs the task that `curr_task` names, whose TSS alone is busy, and no
jump ever faults. -/
theorem processor_agrees (h : b.ReachesWithRoom ls m) :
    m.sys.halt ≠ some .cpuFault ∧
    ∀ c, m.sys.currTask = some c →
      m.sys.tr = BitVec.ofInt 16 (m.sys.task c).tssSel ∧
      (m.sys.gdt (selIndex m.sys.tr)).base = m.sys.tssAddr c ∧
      m.Schedulable c ∧
      ∀ t, m.Schedulable t → ((m.sys.tssEntry t).isBusyTss = true ↔ t = c) := by
  obtain ⟨M, own, hsim, hM, hW⟩ := h.wired
  refine ⟨?_, fun c hc => ?_⟩
  · rw [hsim.sys.cpu]
    exact hW.table.fault
  · have hcM : M.sys.curr = some c := hsim.sys.curr ▸ hc
    have hloaded : M.loaded = some c := by rw [Machine.loaded, hcM]
    obtain ⟨i, hi, htr⟩ := hW.table.loaded c hloaded
    have htr' : m.sys.tr = selOf i := by rw [hsim.sys.cpu, htr]
    refine ⟨?_, ?_, ?_, fun t ht => ?_⟩
    · rw [htr', hsim.tssSel_eq hW hi]
      rfl
    · rw [htr', selIndex_selOf (hW.table.range i _ hi).2, hsim.sys.cpu]
      exact hW.table.base i c hi
    · by_cases hidle : c = .idleTask
      · refine Or.inr ⟨hidle, ?_⟩
        rw [hsim.ctl, hW.bootDone (by simp [hcM])]
        simp [Ctl.own, Pc.creation, Pc.unborn]
      · exact Or.inl ⟨.ready, (hsim.sys.mem_toList .ready c).mpr (hM.core.mem_ready hcM hidle)⟩
    · obtain ⟨j, hj⟩ := hsim.owns hM hW ht
      rw [hsim.tssEntry_eq hW hj]
      have hattr := hW.table.attr j t hj
      rw [hloaded] at hattr
      by_cases htc : t = c
      · subst htc
        rw [if_pos rfl] at hattr
        simp [isBusyTss_of_attr hattr]
      · rw [if_neg (fun he => htc (Option.some.inj he).symm)] at hattr
        simp [SegmentDesc.isBusyTss, hattr, htc]

/-- The processor uses the TSS of the main task when that begins. -/
theorem processor_agrees_main : ∃ ls m, BootMem.zeroed.ReachesWithRoom ls m ∧
    m.sys.tr = BitVec.ofInt 16 (m.sys.task .mainTask).tssSel := by
  obtain ⟨ls, m, tr, hm, hsim, -⟩ := BootMem.zeroed.reaches_main
  exact ⟨ls, m, hm, ((processor_agrees hm).2 .mainTask hsim.sys.curr).1⟩

end OsToyI386
