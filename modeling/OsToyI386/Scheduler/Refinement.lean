import OsToyI386.Scheduler.Invariant
import OsToyI386.Tools.ListRefinement

/-!
# The kernel's memory represents queues of tasks

`Repr s K` says that the memory `s` holds the abstract state `K`: the intrusive lists hold
the queues, the other fields are equal. Each function of the kernel takes a memory that
holds `K` to one that holds what the abstract operation makes of `K`.
-/

namespace OsToyI386

open Lib

namespace Core

/-- The content of each list. -/
def lists (K : Core) : ListPtr → List NodePtr
  | .readyList => (K.queue .ready).map Queue.ready.node
  | .sleepList => (K.queue .sleep).map Queue.sleep.node
  | .mutexWait m => (K.queue (.mutexWait m)).map (Queue.mutexWait m).node
  | .semWait p => (K.queue (.semWait p)).map (Queue.semWait p).node
  | .taskList => K.tasks.map fun t => ⟨t, .allNode⟩

end Core

namespace Queue

lemma node_injective (q : Queue) : Function.Injective q.node := by
  intro t t' h
  cases q <;> simpa [node] using h

lemma list_injective : Function.Injective list := by
  intro q q' h
  cases q <;> cases q' <;> simp_all [list]

@[simp] lemma containerOf_node (q : Queue) (t : TaskPtr) : containerOf (q.node t) = t := by
  cases q <;> rfl

lemma node_ne_allNode (q : Queue) (t t' : TaskPtr) : q.node t ≠ ⟨t', .allNode⟩ := by
  cases q <;> simp [node]

lemma list_cases (l : ListPtr) : l = .taskList ∨ ∃ q : Queue, l = q.list := by
  cases l with
  | readyList => exact Or.inr ⟨.ready, rfl⟩
  | taskList => exact Or.inl rfl
  | sleepList => exact Or.inr ⟨.sleep, rfl⟩
  | mutexWait m => exact Or.inr ⟨.mutexWait m, rfl⟩
  | semWait p => exact Or.inr ⟨.semWait p, rfl⟩

lemma list_ne_taskList (q : Queue) : q.list ≠ .taskList := by
  cases q <;> simp [list]

end Queue

namespace Core

@[simp] lemma lists_list (K : Core) (q : Queue) :
    K.lists q.list = (K.queue q).map q.node := by
  cases q <;> rfl

@[simp] lemma lists_taskList (K : Core) :
    K.lists .taskList = K.tasks.map fun t => ⟨t, .allNode⟩ := rfl

lemma lists_update (K : Core) (q : Queue) (xs : List TaskPtr) :
    lists { K with queue := Function.update K.queue q xs } =
      Function.update K.lists q.list (xs.map q.node) := by
  funext l
  rcases Queue.list_cases l with rfl | ⟨q', rfl⟩
  · rw [Function.update_of_ne q.list_ne_taskList.symm]
    rfl
  · by_cases hq : q' = q
    · subst hq
      simp
    · rw [Function.update_of_ne (fun h => hq (Queue.list_injective h))]
      simp [hq]

lemma lists_tasks (K : Core) (ts : List TaskPtr) :
    lists { K with tasks := ts } =
      Function.update K.lists .taskList (ts.map fun t => ⟨t, .allNode⟩) := by
  funext l
  rcases Queue.list_cases l with rfl | ⟨q, rfl⟩
  · simp
  · rw [Function.update_of_ne q.list_ne_taskList]
    simp

end Core

/-- The memory holds the abstract state. -/
structure Repr (s : Sys) (K : Core) : Prop where
  heap : Represents s.heap Set.univ K.lists
  cpu : s.toCpu = K.toCpu
  curr : s.currTask = K.curr
  task : s.task = K.task
  mutex : s.mutex = K.mutex
  sem : s.sem = K.sem
  trace : s.trace = K.trace

namespace Repr

variable {s s' : Sys} {K : Core} {q : Queue} {t : TaskPtr} {ts : List TaskPtr}

lemma emit (h : Repr s K) (e : Event) : Repr (s.emit e) (K.emit e) :=
  ⟨h.heap, h.cpu, h.curr, h.task, h.mutex, h.sem, by simp [Sys.emit, Core.emit, h.trace]⟩

lemma setTask (h : Repr s K) (t : TaskPtr) (x : Task) : Repr (s.setTask t x) (K.setTask t x) :=
  ⟨h.heap, h.cpu, h.curr, by simp [Sys.setTask, Core.setTask, h.task], h.mutex, h.sem, h.trace⟩

lemma setMutex (h : Repr s K) (m : MutexPtr) (x : ReinMutex) :
    Repr (s.setMutex m x) (K.setMutex m x) :=
  ⟨h.heap, h.cpu, h.curr, h.task, by simp [Sys.setMutex, Core.setMutex, h.mutex], h.sem, h.trace⟩

lemma setSem (h : Repr s K) (p : SemPtr) (x : Int) : Repr (s.setSem p x) (K.setSem p x) :=
  ⟨h.heap, h.cpu, h.curr, h.task, h.mutex, by simp [Sys.setSem, Core.setSem, h.sem], h.trace⟩

lemma onCpu (h : Repr s K) (f : Cpu → Cpu) : Repr (s.cpu f) (K.cpu f) :=
  ⟨h.heap, congrArg f h.cpu, h.curr, h.task, h.mutex, h.sem, h.trace⟩

lemma off (h : Repr s K) : Repr (s.cpu Cpu.cli) K.off := h.onCpu Cpu.cli

lemma die (h : Repr s K) (x : Halt) : Repr (s.die x) (K.die x) := h.onCpu (·.die x)

lemma eflags (h : Repr s K) : s.eflags = K.eflags := congrArg Cpu.eflags h.cpu

lemma listFirst_eq (h : Repr s K) (q : Queue) :
    listFirst s.heap q.list = (K.queue q).head?.map q.node := by
  rw [listFirst, h.heap.frist_eq (Set.mem_univ _), Core.lists_list, List.head?_map]

lemma listCount_eq (h : Repr s K) (q : Queue) :
    listCount s.heap q.list = (K.queue q).length := by
  rw [listCount, h.heap.count_eq (Set.mem_univ _), Core.lists_list, List.length_map]

lemma toList_eq (h : Repr s K) (q : Queue) :
    s.heap.toList q.list = (K.queue q).map q.node := by
  rw [h.heap.toList_eq (Set.mem_univ _), Core.lists_list]

lemma leave (h : Repr s K) (ht : t ∈ K.queue q) :
    Repr { s with heap := (listPop s.heap q.list (q.node t)).1 } (K.leave q t) := by
  refine ⟨?_, h.cpu, h.curr, h.task, h.mutex, h.sem, h.trace⟩
  rw [Core.leave, Core.lists_update, List.map_erase q.node_injective, ← Core.lists_list]
  apply h.heap.pop (Set.mem_univ _)
  rw [Core.lists_list]
  exact List.mem_map_of_mem ht

lemma pop (h : Repr s K) (ht : t ∈ K.queue q) : Repr (s.pop q.list (q.node t)) (K.pop q t) := by
  have hfound : decide (q.node t ∈ s.heap.toList q.list) = decide (t ∈ K.queue q) := by
    rw [decide_eq_decide, h.toList_eq, List.mem_map_of_injective q.node_injective]
  rw [Sys.pop, Core.pop, hfound]
  exact (h.leave ht).emit _

lemma popFirst (h : Repr s K) (hq : K.queue q = t :: ts) :
    listPopFirst s.heap q.list = ((listPop s.heap q.list (q.node t)).1, some (q.node t)) := by
  have hσ : K.lists q.list = q.node t :: ts.map q.node := by simp [hq]
  rw [h.heap.popFirst_cons (Set.mem_univ _) hσ]
  rfl

lemma join (h : Repr s K) (ht : ∀ q', q'.node t = q.node t → t ∉ K.queue q') :
    Repr (s.insertLast q.list (q.node t)) (K.join q t) := by
  refine ⟨?_, h.cpu, h.curr, h.task, h.mutex, h.sem, h.trace⟩
  rw [Core.join, Core.lists_update, List.map_append, ← Core.lists_list]
  apply h.heap.insertLast (Set.mem_univ _)
  intro l
  rcases Queue.list_cases l with rfl | ⟨q', rfl⟩
  · simpa using fun t' _ => (q.node_ne_allNode t t').symm
  · rw [Core.lists_list]
    intro hmem
    obtain ⟨t', ht', heq⟩ := List.mem_map.mp hmem
    have htt : t' = t := by simpa using congrArg containerOf heq
    subst htt
    exact ht q' heq ht'

lemma join_of_free (h : Repr s K) (ht : ∀ q', t ∉ K.queue q') :
    Repr (s.insertLast q.list (q.node t)) (K.join q t) :=
  h.join fun q' _ => ht q'

lemma wake (h : Repr s K) (ht : ∀ q', t ∉ K.queue q') : Repr (taskSetReady t s) (K.wake t) := by
  have hj : Repr (s.insertLast .readyList ⟨t, .runNode⟩) (K.join .ready t) :=
    h.join_of_free (q := .ready) ht
  have hs := hj.setTask t { K.task t with state := .ready }
  simpa [taskSetReady, Core.wake, Sys.insertLast, h.task] using hs

lemma setBlock (h : Repr s K) (ht : t ∈ K.queue .ready) :
    Repr (taskSetBlock t s) (K.pop .ready t) := h.pop (q := .ready) ht

lemma rotate (h : Repr s K) (hap : Apart K.queue) (ht : t ∈ K.queue .ready) :
    Repr (taskSetReady t (taskSetBlock t s)) ((K.pop .ready t).wake t) :=
  (h.setBlock ht).wake (hap.not_mem_erase ht)

lemma block (h : Repr s K) (hap : Apart K.queue) (ht : t ∈ K.queue .ready) (q : Queue) :
    Repr ((taskSetBlock t s).insertLast q.list (q.node t)) (K.block t q) :=
  (h.setBlock ht).join_of_free (hap.not_mem_erase ht)

lemma rouse (h : Repr s K) (hap : Apart K.queue) (hq : K.queue q = t :: ts) :
    Repr (taskSetReady t { s with heap := (listPop s.heap q.list (q.node t)).1 })
      ((K.leave q t).wake t) := by
  have ht : t ∈ K.queue q := by simp [hq]
  exact (h.leave ht).wake (hap.not_mem_erase ht)

lemma setCurr (h : Repr s K) (c : Ctx) : Repr { s with currTask := c } { K with curr := c } :=
  ⟨h.heap, h.cpu, rfl, h.task, h.mutex, h.sem, h.trace⟩

lemma dispatch (h : Repr s K) :
    Repr (taskDispatch s).1 K.dispatch ∧ (taskDispatch s).2 = [⟨.taskDispatch, K.eflags⟩] := by
  have hc := h.off
  have hfirst : listFirst (s.cpu Cpu.cli).heap .readyList =
      (K.queue .ready).head?.map Queue.ready.node := hc.listFirst_eq .ready
  have hcurr : (s.cpu Cpu.cli).currTask = K.curr := hc.curr
  have htask : (s.cpu Cpu.cli).task = K.task := hc.task
  refine ⟨?_, by simp [taskDispatch, irqEnterProtection, h.eflags]⟩
  cases hr : K.queue .ready with
  | nil =>
    by_cases hi : K.curr = some .idleTask
    · simpa [taskDispatch, irqEnterProtection, hfirst, hcurr, Core.dispatch, Core.head, hr, hi]
        using hc
    · have hidle := (hc.setCurr (some .idleTask)).onCpu (switchToTss (K.task .idleTask).tssSel)
      simpa [taskDispatch, irqEnterProtection, hfirst, hcurr, Core.dispatch, Core.head, hr, hi,
        taskSwitchFromTo, htask, Core.cpu, Core.off] using hidle
  | cons x xs =>
    by_cases hx : K.curr = some x
    · simpa [taskDispatch, irqEnterProtection, hfirst, hcurr, Core.dispatch, Core.head, hr, hx]
        using hc
    · have hrun := ((hc.setCurr (some x)).setTask x { K.task x with state := .running }).onCpu
        (switchToTss (K.task x).tssSel)
      simpa [taskDispatch, irqEnterProtection, hfirst, hcurr, Core.dispatch, Core.head, hr, hx,
        taskSwitchFromTo, htask, Sys.setTask, Core.setTask, Core.cpu, Core.off] using hrun

lemma dispatch_in {L : Core} (h : Repr s K) (hf : K.eflags = L.off.eflags) (f : Fn) :
    Repr (taskDispatch s).1 K.dispatch ∧
      (taskDispatch s).2 ++ [⟨f, L.eflags⟩] = L.dispatched f := by
  obtain ⟨h1, h2⟩ := h.dispatch
  exact ⟨h1, by rw [h2, hf]; rfl⟩

lemma lock (h : Repr s K) (hK : K.Inv) (m : MutexPtr) (hidle : K.curr ≠ some .idleTask) :
    Repr (reinMutexLock m s).1 (K.off.lock m) ∧ (reinMutexLock m s).2 = K.leaves (.lock m) := by
  have hc := h.off
  have hmutex : (s.cpu Cpu.cli).mutex = K.mutex := hc.mutex
  have hcurr : (s.cpu Cpu.cli).currTask = K.curr := hc.curr
  have hm : K.off.mutex = K.mutex := rfl
  have hcc : K.off.curr = K.curr := rfl
  simp only [reinMutexLock, Core.lock, Core.leaves, irqEnterProtection, hmutex, hcurr, hm, hcc]
  by_cases hz : (K.mutex m).locker = 0#32
  · simpa [hz, h.eflags] using (hc.setMutex m _).emit _
  · by_cases ho : (K.mutex m).owner = K.curr
    · simpa [hz, ho, h.eflags] using (hc.setMutex m _).emit _
    · cases ht : K.curr with
      | none => exact absurd ((hK.boot ht).owner m) (ht ▸ ho)
      | some t =>
        have hr : t ∈ K.queue .ready := hK.mem_ready ht (fun he => hidle (he ▸ ht))
        have hb := (hc.block hK.placed.apart hr (.mutexWait m)).emit (.lockBlock t m)
        have hd := hb.dispatch_in (L := K) rfl (.reinMutexLock m)
        rw [ht] at ho
        simp only [hz, ho, or_self, if_false, h.eflags]
        exact hd

lemma handOver (h : Repr s K) (hap : Apart K.queue) (m : MutexPtr)
    (hfree : K.mutex m = ⟨none, 0#32⟩) : Repr (handOver m s) (K.handOver m) := by
  have hcount : listCount s.heap (.mutexWait m) = (K.queue (.mutexWait m)).length :=
    h.listCount_eq (.mutexWait m)
  unfold OsToyI386.handOver Core.handOver
  cases hq : K.queue (.mutexWait m) with
  | nil =>
    have hset : K.setMutex m ⟨none, 0#32⟩ = K := by
      rw [Core.setMutex, ← hfree, Function.update_eq_self]
    simpa [hcount, hq, hset] using h
  | cons t ts =>
    have hne : listCount s.heap (.mutexWait m) ≠ 0 := by
      rw [hcount, hq, List.length_cons]
      omega
    have hpop := h.popFirst hq
    have hrouse := h.rouse hap hq
    have hmutex := congrFun hrouse.mutex m
    have hlocker : ((K.leave (.mutexWait m) t).wake t).mutex m = ⟨none, 0#32⟩ := hfree
    have hwake := (hrouse.setMutex m ⟨some t, 1#32⟩).emit (.lockHand t m)
    simp only [Queue.list, Queue.node] at hpop hwake hmutex
    simpa [hne, hpop, hmutex, hlocker, containerOf] using hwake

lemma unlock (h : Repr s K) (hap : Apart K.queue) (m : MutexPtr) :
    Repr (reinMutexUnlock m s).1 (K.off.unlock m) ∧
      (reinMutexUnlock m s).2 = K.leaves (.unlock m) := by
  have hc := h.off
  have hmutex : (s.cpu Cpu.cli).mutex = K.mutex := hc.mutex
  have hcurr : (s.cpu Cpu.cli).currTask = K.curr := hc.curr
  have hm : K.off.mutex = K.mutex := rfl
  have hcc : K.off.curr = K.curr := rfl
  simp only [reinMutexUnlock, Core.unlock, Core.leaves, irqEnterProtection, hmutex, hcurr, hm,
    hcc]
  by_cases hz : (K.mutex m).locker = 0#32
  · simpa [hz] using hc.die .assertFailed
  · by_cases ho : (K.mutex m).owner = K.curr
    · by_cases h1 : (K.mutex m).locker = 1#32
      · have hset := ((hc.setMutex m ⟨K.curr, 0#32⟩).emit (.unlock K.curr m)).setMutex m
          ⟨none, 0#32⟩
        have hgo := hset.handOver hap m (by simp [Core.setMutex])
        rw [Core.handOver_setMutex, Core.emit_setMutex, Core.handOver_setMutex] at hgo
        simpa [hz, ho, h1, h.eflags] using hgo
      · have hne : (K.mutex m).locker - 1#32 ≠ 0#32 := by bv_omega
        have hset := (hc.setMutex m ⟨K.curr, (K.mutex m).locker - 1#32⟩).emit (.unlock K.curr m)
        simpa [hz, ho, h1, hne, h.eflags] using hset
    · simpa [hz, ho] using hc.die .assertFailed

lemma wait (h : Repr s K) (hK : K.Inv) (p : SemPtr) (hcurr : K.curr ≠ none)
    (hidle : K.curr ≠ some .idleTask) :
    Repr (semWait p s).1 (K.off.wait p) ∧ (semWait p s).2 = K.leaves (.wait p) := by
  have hc := h.off
  have hsem : (s.cpu Cpu.cli).sem = K.sem := hc.sem
  have hcc : (s.cpu Cpu.cli).currTask = K.curr := hc.curr
  have hs : K.off.sem = K.sem := rfl
  have hcK : K.off.curr = K.curr := rfl
  simp only [semWait, Core.wait, Core.leaves, irqEnterProtection, hsem, hcc, hs, hcK]
  by_cases hp : K.sem p > 0
  · have ht := (hc.setSem p (K.sem p - 1)).emit (.semTake K.curr p)
    simpa [hp, h.eflags] using ht
  · cases ht : K.curr with
    | none => exact absurd ht hcurr
    | some t =>
      have hr : t ∈ K.queue .ready := hK.mem_ready ht (fun he => hidle (he ▸ ht))
      have hb := (hc.block hK.placed.apart hr (.semWait p)).emit (.semBlock t p)
      have hd := hb.dispatch_in (L := K) rfl (.semWait p)
      simp only [hp, if_false, h.eflags]
      exact hd

lemma notify (h : Repr s K) (hap : Apart K.queue) (p : SemPtr) :
    Repr (semNotify p s).1 (K.off.notify p) ∧ (semNotify p s).2 = K.leaves (.notify p) := by
  have hc := h.off.emit (.semNotify p)
  have hcount : listCount ((s.cpu Cpu.cli).emit (.semNotify p)).heap (.semWait p) =
      ((K.off.emit (.semNotify p)).queue (.semWait p)).length := hc.listCount_eq (.semWait p)
  have hqueue : (K.off.emit (.semNotify p)).queue (.semWait p) = K.queue (.semWait p) := rfl
  unfold semNotify Core.notify
  cases hq : K.queue (.semWait p) with
  | nil =>
    have hzero : listCount ((s.cpu Cpu.cli).emit (.semNotify p)).heap (.semWait p) = 0 := by
      simp [hcount, hqueue, hq]
    simpa [irqEnterProtection, Core.leaves, hzero, hqueue, hq, hc.sem, h.eflags]
      using hc.setSem p _
  | cons t ts =>
    have hne : listCount ((s.cpu Cpu.cli).emit (.semNotify p)).heap (.semWait p) ≠ 0 := by
      rw [hcount, hqueue, hq, List.length_cons]
      omega
    have hpop := hc.popFirst (hqueue.trans hq)
    have hwake := (hc.rouse hap (hqueue.trans hq)).emit (.semPop t p)
    have hd := hwake.dispatch_in (L := K) rfl (.semNotify p)
    simp only [Queue.list, Queue.node] at hpop hd
    simpa [irqEnterProtection, Core.leaves, hne, hqueue, hq, hpop, containerOf, h.eflags] using hd

lemma yield (h : Repr s K) (hK : K.Inv) (hcurr : K.curr ≠ none)
    (hidle : K.curr ≠ some .idleTask) :
    Repr (sysSchedYield s).1 K.off.yield ∧ (sysSchedYield s).2 = K.leaves .yield := by
  have hc := h.off
  have hcount : listCount (s.cpu Cpu.cli).heap .readyList = (K.queue .ready).length :=
    hc.listCount_eq .ready
  have hcc : (s.cpu Cpu.cli).currTask = K.curr := hc.curr
  have hq : K.off.queue = K.queue := rfl
  have hcK : K.off.curr = K.curr := rfl
  simp only [sysSchedYield, Core.yield, Core.leaves, irqEnterProtection, hcount, hcc, hq, hcK]
  by_cases hlen : (K.queue .ready).length > 1
  · cases ht : K.curr with
    | none => exact absurd ht hcurr
    | some t =>
      have hr : t ∈ K.queue .ready := hK.mem_ready ht (fun he => hidle (he ▸ ht))
      have hd := (hc.rotate hK.placed.apart hr).dispatch_in (L := K) rfl .sysSchedYield
      rw [if_pos (by omega), if_pos hlen, if_pos hlen, h.eflags]
      exact hd
  · rw [if_neg (by omega), if_neg hlen, if_neg hlen, h.eflags]
    exact ⟨hc, rfl⟩

lemma sleep (h : Repr s K) (hK : K.Inv) (ms : BitVec 32) (hcurr : K.curr ≠ none)
    (hidle : K.curr ≠ some .idleTask) :
    Repr (sysSleep ms s).1 (K.off.sleep (sleepTicksOf ms).toInt) ∧
      (sysSleep ms s).2 = K.leaves (.sleep ms) := by
  have hc := h.off
  have hcc : (s.cpu Cpu.cli).currTask = K.curr := hc.curr
  have hcK : K.off.curr = K.curr := rfl
  simp only [sysSleep, Core.sleep, Core.leaves, irqEnterProtection, hcc, hcK]
  cases ht : K.curr with
  | none => exact absurd ht hcurr
  | some t =>
    have hr : t ∈ K.queue .ready := hK.mem_ready ht (fun he => hidle (he ▸ ht))
    have hblock := hc.setBlock hr
    have hset := hblock.setTask t
      { (K.off.pop .ready t).task t with sleepTicks := (sleepTicksOf ms).toInt, state := .sleep }
    have hjoin := hset.join_of_free (q := .sleep) (hK.placed.apart.not_mem_erase hr)
    have hd := hjoin.dispatch_in (L := K) rfl .sysSleep
    simp only [taskSetSleep, if_neg (sleepTicksOf_ne_zero ms), hblock.task, h.eflags]
    exact hd

/-! ### The tick -/

lemma sliceTick (h : Repr s K) (hap : Apart K.queue)
    (ht : t ≠ .idleTask → t ∈ K.queue .ready) : Repr (sliceTick t s) (K.sliceTick t) := by
  unfold OsToyI386.sliceTick Core.sliceTick
  by_cases hidle : t = .idleTask
  · simpa [hidle] using h
  · have hset := h.setTask t { K.task t with sliceTicks := (K.task t).sliceTicks - 1 }
    by_cases h1 : (K.task t).sliceTicks = 1
    · have hreset := hset.setTask t { K.task t with sliceTicks := (K.task t).timeTicks }
      have hrot := hreset.rotate hap (t := t) (ht hidle)
      simp only [Sys.setTask, Core.setTask, Function.update_idem] at hrot
      simpa [hidle, h1, h.task, Sys.setTask, Core.setTask] using hrot
    · have hne : (K.task t).sliceTicks - 1 ≠ 0 := by omega
      simpa [hidle, h1, hne, h.task, Sys.setTask] using hset

lemma sleeperTick (h : Repr s K) (hap : Apart K.queue) (ht : t ∈ K.queue .sleep) :
    Repr (sleeperTick t s) (K.sleeperTick t) := by
  have hset := h.setTask t { K.task t with sleepTicks := (K.task t).sleepTicks - 1 }
  unfold OsToyI386.sleeperTick Core.sleeperTick
  simp only [h.task, hset.task]
  split
  · exact (hset.pop (q := .sleep) ht).wake (hap.not_mem_erase ht)
  · exact hset

/-- The loop over the sleepers. The induction is on the sleepers still to visit: they are
the end of the sleep list, whose `next` links are read before they change. -/
lemma sleepersTick {fuel : Nat} {k : List TaskPtr} (h : Repr s K) (hap : Apart K.queue)
    (hq : K.queue .sleep = k ++ ts) (hfuel : ts.length ≤ fuel) :
    Repr (sleepersTick fuel (ts.head?.map Queue.sleep.node) s) (ts.foldl Core.sleeperTick K) := by
  induction ts generalizing fuel s K k with
  | nil => simpa [OsToyI386.sleepersTick] using h
  | cons t ts ih =>
    cases fuel with
    | zero => simp at hfuel
    | succ fuel =>
      have ht : t ∈ K.queue .sleep := by simp [hq]
      have hnd : (k ++ t :: ts).Nodup := hq ▸ hap.nodup .sleep
      have hnext : (s.heap.node (Queue.sleep.node t)).next = ts.head?.map Queue.sleep.node := by
        have hcut : K.lists .sleepList =
            k.map Queue.sleep.node ++ Queue.sleep.node t :: ts.map Queue.sleep.node := by
          simp [Core.lists, hq]
        rw [h.heap.node_eq (Set.mem_univ _) hcut, List.head?_map]
      have hap' : Apart (K.sleeperTick t).queue :=
        hap.moves (Core.pass_moves [t] (List.nodup_singleton t) (hap.nodup .sleep)
          (by simpa using ht))
      have hq' : ∃ k', (K.sleeperTick t).queue .sleep = k' ++ ts := by
        have hkt : t ∉ k := fun hk => (List.nodup_append.mp hnd).2.2 t hk t (by simp) rfl
        by_cases hdue : K.due t
        · refine ⟨k, ?_⟩
          rw [Core.sleeperTick_due hdue]
          simp [Core.wake, Core.pop, Core.leave, Core.join, Core.setTask, Core.emit, hq,
            List.erase_append_right _ hkt]
        · refine ⟨k ++ [t], ?_⟩
          rw [Core.sleeperTick_not_due hdue]
          simp [Core.setTask, hq]
      obtain ⟨k', hkept⟩ := hq'
      simp only [List.head?_cons, Option.map_some, OsToyI386.sleepersTick, hnext,
        Queue.containerOf_node, List.foldl_cons]
      exact ih (h.sleeperTick hap ht) hap' hkept (by simpa using hfuel)

lemma taskTimeTick (h : Repr s K) (hK : K.Inv) (hcurr : K.curr ≠ none) :
    Repr (taskTimeTick s).1 K.tick ∧ (taskTimeTick s).2 = [⟨.taskDispatch, K.eflags⟩] := by
  obtain ⟨c, hc⟩ := Option.ne_none_iff_exists'.mp hcurr
  have hslice := h.sliceTick hK.placed.apart (hK.mem_ready hc)
  have hap := (hK.toSound.sliceTick (hK.mem_ready hc)).placed.apart
  have hfirst := hslice.listFirst_eq .sleep
  have hcount := hslice.listCount_eq .sleep
  have hpass := hslice.sleepersTick hap (k := []) rfl (Nat.le_refl _)
  have hflags : (K.sliceTick c).sleepersTick.eflags = K.eflags := by
    rw [Core.sleepersTick_cpu, Core.sliceTick_cpu]
  simp only [Queue.list] at hfirst hcount
  simp only [OsToyI386.taskTimeTick, h.curr, hc, hfirst, hcount, Int.toNat_natCast,
    Core.tick_eq hc, ← hflags]
  exact hpass.dispatch

lemma tick (h : Repr s K) (hK : K.Inv) (hcurr : K.curr ≠ none) :
    Repr (timerInterrupt s).1 K.off.tick ∧ (timerInterrupt s).2 = K.leaves .timer := by
  obtain ⟨htick, hleft⟩ := h.off.taskTimeTick hK.off hcurr
  refine ⟨htick, ?_⟩
  simp only [timerInterrupt, hleft, h.eflags]
  rfl

lemma not_mem_taskList (ht : t ∉ K.tasks) (f : NodeField) :
    (⟨t, f⟩ : NodePtr) ∉ K.lists .taskList := by
  intro hmem
  obtain ⟨u, hu, heq⟩ := List.mem_map.mp hmem
  have hut : u = t := congrArg NodePtr.task heq
  exact ht (hut ▸ hu)

lemma nodeInit (h : Repr s K) (hplaced : K.Placed) (ht : t ∉ K.tasks) (f : NodeField) :
    Repr (s.nodeInit ⟨t, f⟩) K := by
  refine ⟨?_, h.cpu, h.curr, h.task, h.mutex, h.sem, h.trace⟩
  have hfree : ∀ l, (⟨t, f⟩ : NodePtr) ∉ K.lists l := by
    intro l hmem
    rcases Queue.list_cases l with rfl | ⟨q, rfl⟩
    · exact not_mem_taskList ht f hmem
    · rw [Core.lists_list] at hmem
      obtain ⟨u, hu, heq⟩ := List.mem_map.mp hmem
      have hut : u = t := (q.containerOf_node u).symm.trans (congrArg containerOf heq)
      exact ht (hut ▸ (hplaced.placed u).mpr ⟨q, hu⟩)
  have hset := h.heap.setNode hfree ⟨none, none⟩
  have heq : (listNodeInit s.heap ⟨t, f⟩) = s.heap.setNode ⟨t, f⟩ ⟨none, none⟩ := by
    simp [listNodeInit, Heap.setPre, Heap.setNext, Heap.setNode]
  rw [Sys.nodeInit, heq]
  exact hset

lemma fields (h : Repr s K) (hK : K.Inv) (r : InitReq) (ht : r.task ∉ K.tasks) :
    Repr (taskInitFields r s) (K.exec (.fields r)) := by
  have hset := h.setTask r.task
    { K.task r.task with
      taskName := r.taskName
      state := .created
      sleepTicks := 0
      timeTicks := taskTimeSliceDefault
      sliceTicks := taskTimeSliceDefault }
  have hplaced := (hK.setTask ht
    { K.task r.task with
      taskName := r.taskName
      state := .created
      sleepTicks := 0
      timeTicks := taskTimeSliceDefault
      sliceTicks := taskTimeSliceDefault }).placed
  unfold taskInitFields Core.exec
  rw [h.task]
  exact ((hset.nodeInit hplaced ht .allNode).nodeInit hplaced ht .runNode).nodeInit hplaced ht
    .waitNode

lemma fill (h : Repr s K) (sel : Int) (r : InitReq) :
    Repr (tssInitFill sel r s) (K.exec (.fill sel r)) := by
  have hset := (h.onCpu fun p =>
    { p with
      tss := Function.update p.tss (p.tssAddr r.task)
        (Tss.fill (p.tss (p.tssAddr r.task)) r.entry r.esp) }).setTask r.task
    { K.task r.task with tssSel := sel }
  simpa only [tssInitFill, Core.exec, Sys.cpu, h.task] using hset

lemma create (h : Repr s K) (hK : K.Inv) (ht : t ∉ K.tasks) :
    Repr (taskInitReady t s).1 (K.off.create t) ∧
      (taskInitReady t s).2 = K.leaves (.ready t) := by
  have hfree : ∀ q, t ∉ K.queue q := fun q hq => ht ((hK.placed.placed t).mpr ⟨q, hq⟩)
  have hwake := h.off.wake hfree
  refine ⟨⟨?_, hwake.cpu, hwake.curr, hwake.task, hwake.mutex, hwake.sem, hwake.trace⟩, ?_⟩
  · have hnode : ∀ l, (⟨t, .allNode⟩ : NodePtr) ∉ (K.off.wake t).lists l := by
      intro l hmem
      rcases Queue.list_cases l with rfl | ⟨q, rfl⟩
      · exact not_mem_taskList ht .allNode hmem
      · rw [Core.lists_list] at hmem
        obtain ⟨u, -, heq⟩ := List.mem_map.mp hmem
        exact q.node_ne_allNode u t heq
    have hlast := hwake.heap.insertLast (l := .taskList) (Set.mem_univ _) hnode
    have hlists : (K.off.create t).lists = Function.update (K.off.wake t).lists .taskList
        ((K.off.wake t).lists .taskList ++ [⟨t, .allNode⟩]) := by
      rw [Core.create, Core.lists_tasks, List.map_append]
      rfl
    rw [hlists]
    exact hlast
  · simp [taskInitReady, irqEnterProtection, Core.leaves, h.eflags]

end Repr

/-- The kernel's code refines its abstraction: every action that is taken keeps the
memory a picture of the abstract state, and leaves the same epilogues. -/
theorem exec_refines {s : Sys} {K : Core} {a : Act} (h : Repr s K) (hK : K.Inv)
    (he : K.Enabled a) : Repr (a.exec s).1 (K.exec a) ∧ (a.exec s).2 = K.leaves a := by
  cases a with
  | nop => exact ⟨h, rfl⟩
  | note e => exact ⟨h.emit e, rfl⟩
  | ret e =>
    refine ⟨?_, rfl⟩
    have hc := h.onCpu fun p => { p with eflags := e.state }
    refine ⟨hc.heap, hc.cpu, hc.curr, hc.task, hc.mutex, hc.sem, ?_⟩
    have hcurr := hc.curr
    have htrace := hc.trace
    simp only [Act.exec, irqLeaveProtection, Core.exec, hcurr, htrace]
    rfl
  | timer => exact h.tick hK he
  | lock m => exact h.lock hK m he
  | unlock m => exact h.unlock hK.placed.apart m
  | wait p => exact h.wait hK p he.1 he.2
  | notify p => exact h.notify hK.placed.apart p
  | count p =>
    exact ⟨h.off, by simp [Act.exec, semCount, irqEnterProtection, Core.leaves, h.eflags]⟩
  | sleep ms => exact h.sleep hK ms he.1 he.2
  | yield => exact h.yield hK he.1 he.2
  | dispatch => exact h.dispatch
  | enable => exact ⟨h.onCpu _, rfl⟩
  | disable => exact ⟨h.off, rfl⟩
  | claim i => exact ⟨h.onCpu _, rfl⟩
  | segSet sel base limit attr => exact ⟨h.onCpu _, rfl⟩
  | fill sel r => exact ⟨h.fill sel r, rfl⟩
  | fields r => exact ⟨h.fields hK r he, rfl⟩
  | ready t => exact h.create hK he.1
  | writeTr =>
    refine ⟨?_, rfl⟩
    have htask := congrFun h.task .mainTask
    simpa [Act.exec, Core.exec, htask] using h.onCpu _
  | becomeMain => exact ⟨h.setCurr _, rfl⟩
  | outb b => exact ⟨h.emit _, rfl⟩

end OsToyI386
