import OsToyI386.Scheduler.Boot
import OsToyI386.Tools.ListRuns

/-!
# Where the tasks are

In every reachable state each created task stands in exactly one queue, and the running
task is the head of the ready list.
-/

namespace OsToyI386

open Lib

namespace Repr

variable {s : Sys} {K : Core}

lemma mem_toList (h : Repr s K) (q : Queue) (t : TaskPtr) :
    q.node t ∈ s.heap.toList q.list ↔ t ∈ K.queue q := by
  rw [h.toList_eq, List.mem_map_of_injective q.node_injective]

lemma showsSeq (h : Repr s K) (l : ListPtr) : ShowsSeq s.heap l (s.heap.toList l) := by
  rw [h.heap.toList_eq (Set.mem_univ l)]
  exact h.heap.showsSeq (Set.mem_univ l)

end Repr

variable {b : BootMem} {ls : List Label} {m : Machine Sys}

/-- No task is lost or duplicated. -/
theorem every_task_in_one_place (h : b.Reaches ls m) :
    (∀ t, t ≠ .idleTask → .initReturn t 0 ∈ m.sys.trace →
      (∃! q : Queue, q.node t ∈ m.sys.heap.toList q.list) ∧
        (∀ q : Queue, (m.sys.heap.toList q.list).count (q.node t) ≤ 1) ∧
        (m.sys.heap.toList .taskList).count ⟨t, .allNode⟩ = 1) ∧
      (∀ l, ∀ n ∈ m.sys.heap.toList l, containerOf n ≠ .idleTask) ∧
      (∀ l, ShowsSeq m.sys.heap l (m.sys.heap.toList l)) ∧
      ∀ l n found, .listPop l n found ∈ m.sys.trace → found = true := by
  obtain ⟨M, -, hsim, hM⟩ := h.sim
  have hrep := hsim.sys
  have hplaced := hM.core.placed
  refine ⟨fun t hidle hret => ?_, fun l n hn => ?_, hrep.showsSeq, fun l n found he => ?_⟩
  · rw [hrep.trace] at hret
    have ht : t ∈ M.sys.tasks := hM.core.returned t hret hidle
    obtain ⟨q, hq⟩ := (hplaced.placed t).mp ht
    refine ⟨⟨q, (hrep.mem_toList q t).mpr hq, fun q' hq' => ?_⟩, fun q' => ?_, ?_⟩
    · exact hplaced.apart.unique q' q t ((hrep.mem_toList q' t).mp hq') hq
    · exact List.nodup_iff_count_le_one.mp (hrep.showsSeq q'.list).distinct _
    · rw [hrep.heap.toList_eq (Set.mem_univ _), Core.lists_taskList]
      refine List.count_eq_one_of_mem ?_ (List.mem_map_of_mem ht)
      exact hplaced.nodup.map (fun t t' htt => congrArg NodePtr.task htt)
  · rcases Queue.list_cases l with rfl | ⟨q, rfl⟩
    · rw [hrep.heap.toList_eq (Set.mem_univ _), Core.lists_taskList] at hn
      obtain ⟨t, ht, rfl⟩ := List.mem_map.mp hn
      exact fun hidle => hplaced.idle (hidle ▸ ht)
    · rw [hrep.toList_eq] at hn
      obtain ⟨t, ht, rfl⟩ := List.mem_map.mp hn
      rw [Queue.containerOf_node]
      exact fun hidle => hM.core.idle_not_mem q (hidle ▸ ht)
  · exact hM.core.pops l n found (hrep.trace ▸ he)

/-- The main task stands in one queue when it begins. -/
theorem every_task_in_one_place_main : ∃ ls m, BootMem.zeroed.Reaches ls m ∧
    m.sys.currTask = some .mainTask ∧
      ∃! q : Queue, q.node .mainTask ∈ m.sys.heap.toList q.list := by
  obtain ⟨ls, m, tr, hm, hsim, -⟩ := BootMem.zeroed.reaches_main
  refine ⟨ls, m, hm.reaches, hsim.sys.curr, ?_⟩
  refine ((every_task_in_one_place hm.reaches).1 .mainTask (by simp) ?_).1
  rw [hsim.sys.trace]
  exact List.mem_append_right _ (List.mem_singleton_self _)

/-- After `task_main_init` the running task is the head of the ready list, or the idle
task while no task is ready; it sleeps and waits nowhere. -/
theorem running_is_head (h : b.Reaches ls m) {c : TaskPtr} (hc : m.sys.currTask = some c) :
    c = ((listFirst m.sys.heap .readyList).map containerOf).getD .idleTask ∧
      (m.sys.heap.toList .readyList = [] ↔ c = .idleTask) ∧
      ∀ q : Queue, q ≠ .ready → q.node c ∉ m.sys.heap.toList q.list := by
  obtain ⟨M, -, hsim, hM⟩ := h.sim
  have hrep := hsim.sys
  have helsewhere : ∀ q : Queue, q ≠ .ready → q.node c ∉ m.sys.heap.toList q.list := by
    intro q hq hmem
    have hmem' := (hrep.mem_toList q c).mp hmem
    by_cases hidle : c = .idleTask
    · exact hM.core.idle_not_mem q (hidle ▸ hmem')
    · have hready := hM.core.mem_ready (hrep.curr ▸ hc) hidle
      exact hq (hM.core.placed.apart.unique q .ready c hmem' hready)
  have hfirst : listFirst m.sys.heap .readyList = (M.sys.queue .ready).head?.map Queue.ready.node :=
    hrep.listFirst_eq .ready
  have hlist : m.sys.heap.toList .readyList = (M.sys.queue .ready).map Queue.ready.node :=
    hrep.toList_eq .ready
  have hhead := hM.core.running c (hrep.curr ▸ hc)
  rw [← and_assoc]
  refine ⟨?_, helsewhere⟩
  rw [hfirst, hlist]
  cases hr : M.sys.queue .ready with
  | nil => simpa [Core.head, hr] using hhead
  | cons x xs =>
    have hx : x ≠ .idleTask := fun hi => hM.core.idle_not_mem .ready (by simp [hr, ← hi])
    have hcx : c = x := by simpa [Core.head, hr] using hhead
    subst hcx
    simp [hx]

/-- The main task is the head of the ready list when it begins. -/
theorem running_is_head_main : ∃ ls m, BootMem.zeroed.Reaches ls m ∧
    .mainTask = ((listFirst m.sys.heap .readyList).map containerOf).getD .idleTask := by
  obtain ⟨ls, m, tr, hm, hsim, -⟩ := BootMem.zeroed.reaches_main
  exact ⟨ls, m, hm.reaches, (running_is_head hm.reaches hsim.sys.curr).1⟩

end OsToyI386
