import OsToyI386.Kernel.Watched

/-!
# The record of the protected functions

Watching changes nothing: without the record, the watched code is the code. The rules below
follow the statements of a protected function from the entry to the epilogues: everything
shared is touched with interrupts off, and each epilogue is that of a recorded call.
-/

namespace OsToyI386

namespace Watching

variable {α β : Type}

section Statements

variable (w : Watched)

@[simp] lemma pure_apply (a : α) : (pure a : Watching α) w = (a, w) := rfl

@[simp] lemma bind_apply (p : Watching α) (k : α → Watching β) :
    (p >>= k) w = k (p w).1 (p w).2 := rfl

@[simp] lemma act_sys (f : Sys → Sys) : (act f w).2.sys = f w.sys := rfl

@[simp] lemma look_apply (f : Sys → α) : look f w = (f w.sys, w) := rfl

@[simp] lemma read_fst (x : Shared) (f : Sys → α) : (read x f w).1 = f w.sys := rfl

@[simp] lemma read_sys (x : Shared) (f : Sys → α) : (read x f w).2.sys = w.sys := rfl

@[simp] lemma write_sys (x : Shared) (f : Sys → Sys) : (write x f w).2.sys = f w.sys := rfl

@[simp] lemma enter_sys (fn : Fn) : (enter fn w).2.sys = w.sys := rfl

end Statements

/-- The code does to memory what `f` does, and returns the same. -/
def Erases (p : Watching α) (f : Sys → Sys × α) : Prop :=
  ∀ w, (p w).2.sys = (f w.sys).1 ∧ (p w).1 = (f w.sys).2

variable (w : Watched)

@[simp] lemma taskSetReady_sys (t : TaskPtr) :
    (taskSetReady t w).2.sys = OsToyI386.taskSetReady t w.sys := rfl

@[simp] lemma taskSetBlock_sys (t : TaskPtr) :
    (taskSetBlock t w).2.sys = OsToyI386.taskSetBlock t w.sys := rfl

@[simp] lemma taskSetWakeup_sys (t : TaskPtr) :
    (taskSetWakeup t w).2.sys = OsToyI386.taskSetWakeup t w.sys := rfl

@[simp] lemma taskSetSleep_sys (t : TaskPtr) (ticks : BitVec 32) :
    (taskSetSleep t ticks w).2.sys = OsToyI386.taskSetSleep t ticks w.sys := by
  by_cases h : ticks = 0#32 <;> simp [taskSetSleep, OsToyI386.taskSetSleep, h]

@[simp] lemma taskSwitchFromTo_sys (t : TaskPtr) :
    (taskSwitchFromTo t w).2.sys = OsToyI386.taskSwitchFromTo t w.sys := rfl

lemma erases_taskDispatch : Erases taskDispatch OsToyI386.taskDispatch := by
  intro w
  cases hnode : OsToyI386.listFirst w.sys.heap .readyList with
  | none =>
    by_cases hfrom : w.sys.currTask = some .idleTask <;>
      simp -implicitDefEqProofs [taskDispatch, OsToyI386.taskDispatch,
        OsToyI386.irqEnterProtection, Sys.cpu, hnode, hfrom]
  | some node =>
    by_cases hfrom : w.sys.currTask = some (containerOf node) <;>
      simp -implicitDefEqProofs [taskDispatch, OsToyI386.taskDispatch,
        OsToyI386.irqEnterProtection, Sys.cpu, hnode, hfrom]

@[simp] lemma taskDispatch_sys :
    (taskDispatch w).2.sys = (OsToyI386.taskDispatch w.sys).1 := (erases_taskDispatch w).1

@[simp] lemma taskDispatch_fst :
    (taskDispatch w).1 = (OsToyI386.taskDispatch w.sys).2 := (erases_taskDispatch w).2

lemma erases_lock (m : MutexPtr) : Erases (reinMutexLock m) (OsToyI386.reinMutexLock m) := by
  intro w
  by_cases h0 : (w.sys.mutex m).locker = 0#32
  · simp -implicitDefEqProofs [reinMutexLock, OsToyI386.reinMutexLock,
      OsToyI386.irqEnterProtection, Sys.cpu, h0, Sys.setMutex]
  by_cases h1 : (w.sys.mutex m).owner = w.sys.currTask
  · simp -implicitDefEqProofs [reinMutexLock, OsToyI386.reinMutexLock,
      OsToyI386.irqEnterProtection, Sys.cpu, h0, h1]
  cases hc : w.sys.currTask <;> rw [hc] at h1 <;>
    simp -implicitDefEqProofs [reinMutexLock, OsToyI386.reinMutexLock,
      OsToyI386.irqEnterProtection, Sys.cpu, h0, h1, hc]

lemma listPopFirst_none {h : Heap NodePtr ListPtr} {l : ListPtr}
    (hn : (OsToyI386.listPopFirst h l).2 = none) : (OsToyI386.listPopFirst h l).1 = h := by
  revert hn
  fun_cases OsToyI386.listPopFirst h l <;> simp_all

lemma handOver_sys (m : MutexPtr) :
    (handOver m w).2.sys = OsToyI386.handOver m w.sys := by
  by_cases hc : OsToyI386.listCount w.sys.heap (.mutexWait m) = 0
  · simp -implicitDefEqProofs [handOver, OsToyI386.handOver, hc]
  cases hn : (OsToyI386.listPopFirst w.sys.heap (.mutexWait m)).2 with
  | none =>
    simp -implicitDefEqProofs [handOver, OsToyI386.handOver, hc, hn, listPopFirst_none hn]
  | some n =>
    simp -implicitDefEqProofs [handOver, OsToyI386.handOver, hc, hn, Sys.setMutex]

lemma erases_unlock (m : MutexPtr) : Erases (reinMutexUnlock m) (OsToyI386.reinMutexUnlock m) := by
  intro w
  by_cases h0 : (w.sys.mutex m).locker = 0#32
  · simp -implicitDefEqProofs [reinMutexUnlock, OsToyI386.reinMutexUnlock,
      OsToyI386.irqEnterProtection, Sys.cpu, h0]
  by_cases h1 : (w.sys.mutex m).owner = w.sys.currTask
  · by_cases h2 : (w.sys.mutex m).locker - 1#32 = 0#32 <;>
      simp -implicitDefEqProofs [reinMutexUnlock, OsToyI386.reinMutexUnlock,
        OsToyI386.irqEnterProtection, Sys.cpu, handOver_sys, h0, h1, h2, Sys.setMutex, Sys.emit]
  · simp -implicitDefEqProofs [reinMutexUnlock, OsToyI386.reinMutexUnlock,
      OsToyI386.irqEnterProtection, Sys.cpu, h0, h1]

lemma erases_wait (p : SemPtr) : Erases (semWait p) (OsToyI386.semWait p) := by
  intro w
  by_cases h0 : w.sys.sem p > 0
  · simp -implicitDefEqProofs [semWait, OsToyI386.semWait, OsToyI386.irqEnterProtection, Sys.cpu,
      h0, Sys.setSem]
  cases hc : w.sys.currTask <;>
    simp -implicitDefEqProofs [semWait, OsToyI386.semWait, OsToyI386.irqEnterProtection, Sys.cpu,
      h0, hc]

lemma erases_notify (p : SemPtr) : Erases (semNotify p) (OsToyI386.semNotify p) := by
  intro w
  by_cases hc : OsToyI386.listCount w.sys.heap (.semWait p) = 0
  · simp -implicitDefEqProofs [semNotify, OsToyI386.semNotify, OsToyI386.irqEnterProtection,
      Sys.cpu, hc, Sys.emit]
  cases hn : (OsToyI386.listPopFirst w.sys.heap (.semWait p)).2 with
  | none =>
    simp -implicitDefEqProofs [semNotify, OsToyI386.semNotify, OsToyI386.irqEnterProtection,
      Sys.cpu, hc, hn, Sys.emit, listPopFirst_none hn]
  | some n =>
    simp -implicitDefEqProofs [semNotify, OsToyI386.semNotify, OsToyI386.irqEnterProtection,
      Sys.cpu, hc, hn, Sys.emit]

lemma erases_count (p : SemPtr) : Erases (semCount p) (OsToyI386.semCount p) :=
  fun _ => ⟨rfl, rfl⟩

lemma erases_yield : Erases sysSchedYield OsToyI386.sysSchedYield := by
  intro w
  by_cases h0 : OsToyI386.listCount w.sys.heap .readyList > 1
  · cases hc : w.sys.currTask <;>
      simp -implicitDefEqProofs [sysSchedYield, OsToyI386.sysSchedYield,
        OsToyI386.irqEnterProtection, Sys.cpu, h0, hc]
  · simp -implicitDefEqProofs [sysSchedYield, OsToyI386.sysSchedYield,
      OsToyI386.irqEnterProtection, Sys.cpu, h0]

lemma erases_sleep (ms : BitVec 32) : Erases (sysSleep ms) (OsToyI386.sysSleep ms) := by
  intro w
  cases hc : w.sys.currTask <;>
    simp -implicitDefEqProofs [sysSleep, OsToyI386.sysSleep, OsToyI386.irqEnterProtection,
      Sys.cpu, hc]

lemma erases_ready (t : TaskPtr) : Erases (taskInitReady t) (OsToyI386.taskInitReady t) :=
  fun _ => ⟨rfl, rfl⟩

lemma sliceTick_sys (t : TaskPtr) : (sliceTick t w).2.sys = OsToyI386.sliceTick t w.sys := by
  by_cases ht : t = .idleTask
  · simp [sliceTick, OsToyI386.sliceTick, ht]
  by_cases h1 : (w.sys.task t).sliceTicks - 1 = 0 <;>
    simp -implicitDefEqProofs [sliceTick, OsToyI386.sliceTick, ht, h1, Sys.setTask]

lemma sleeperTick_sys (t : TaskPtr) : (sleeperTick t w).2.sys = OsToyI386.sleeperTick t w.sys := by
  by_cases h1 : (w.sys.task t).sleepTicks - 1 = 0 <;>
    simp -implicitDefEqProofs [sleeperTick, OsToyI386.sleeperTick, h1, Sys.setTask]

lemma sleepersTick_sys (fuel : Nat) (node : Option NodePtr) :
    (sleepersTick fuel node w).2.sys = OsToyI386.sleepersTick fuel node w.sys := by
  induction fuel generalizing node w with
  | zero => cases node <;> rfl
  | succ fuel ih =>
    cases node with
    | none => rfl
    | some n =>
      simp -implicitDefEqProofs [sleepersTick, OsToyI386.sleepersTick, ih, sleeperTick_sys]

lemma erases_tick : Erases taskTimeTick OsToyI386.taskTimeTick := by
  intro w
  cases hc : w.sys.currTask <;>
    simp -implicitDefEqProofs [taskTimeTick, OsToyI386.taskTimeTick, hc, sliceTick_sys,
      sleepersTick_sys]

lemma erases_timer : Erases timerInterrupt OsToyI386.timerInterrupt := by
  intro w
  simp -implicitDefEqProofs [timerInterrupt, OsToyI386.timerInterrupt, (erases_tick _).1,
    (erases_tick _).2]

theorem erases_exec (a : Act) : Erases (exec a) a.exec := by
  cases a with
  | ret e => exact fun w => ⟨rfl, rfl⟩
  | timer => exact erases_timer
  | lock m => exact erases_lock m
  | unlock m => exact erases_unlock m
  | wait p => exact erases_wait p
  | notify p => exact erases_notify p
  | count p => exact erases_count p
  | sleep ms => exact erases_sleep ms
  | yield => exact erases_yield
  | dispatch => exact erases_taskDispatch
  | ready t => exact erases_ready t
  | nop | note | enable | disable | claim | segSet | fill | fields | writeTr | becomeMain | outb =>
    exact fun w => ⟨rfl, rfl⟩

end Watching

/-- The note that the call with this epilogue left on entry. -/
def Epilogue.entered (c : Ctx) (e : Epilogue) : Mark := .enter c e.fn (e.state.getLsbD 9)

namespace Watched

/-- Interrupts were off at each access. -/
def AllOff (w : Watched) : Prop := ∀ x ∈ w.accesses, x.interruptible = false

/-- Interrupts are off now and were off at each access. -/
structure Masked (w : Watched) : Prop where
  off : w.sys.interruptible = false
  allOff : w.AllOff

end Watched

namespace Watching

variable {α β : Type} {w : Watched} {p q : Watching (List Epilogue)} {tail : List Epilogue}

/-- A stretch of code inside a protection: it keeps interrupts off and the task, and enters
no further protection. -/
def Masks (p : Watching α) : Prop :=
  ∀ w, w.Masked →
    (p w).2.Masked ∧ (p w).2.marks = w.marks ∧ (p w).2.sys.currTask = w.sys.currTask

/-- Code inside a protection that goes on to its return or to a halt: it owes the epilogues
of the calls that it enters, and `tail`. -/
def Owes (tail : List Epilogue) (p : Watching (List Epilogue)) : Prop :=
  ∀ w, w.Masked → (p w).2.AllOff ∧
    ∃ es, (p w).2.marks = w.marks ++ es.reverse.map (Epilogue.entered w.sys.currTask) ∧
      ((p w).2.sys.halt = none → (p w).1 = es ++ tail)

/-- A protected function, called with interrupts on or off. -/
def Protects (p : Watching (List Epilogue)) : Prop :=
  ∀ w, w.AllOff → (p w).2.AllOff ∧
    ∃ es, (p w).2.marks = w.marks ++ es.reverse.map (Epilogue.entered w.sys.currTask) ∧
      ((p w).2.sys.halt = none → (p w).1 = es)

namespace Masks

lemma pure (a : α) : Masks (pure a) := fun _ hw => ⟨hw, rfl, rfl⟩

lemma bind {p : Watching α} {k : α → Watching β} (hp : Masks p) (hk : ∀ a, Masks (k a)) :
    Masks (p >>= k) := by
  intro w hw
  obtain ⟨h1, hm1, hc1⟩ := hp w hw
  obtain ⟨h2, hm2, hc2⟩ := hk (p w).1 (p w).2 h1
  exact ⟨h2, hm2.trans hm1, hc2.trans hc1⟩

lemma ite {c : Prop} {_ : Decidable c} {p q : Watching α} (hp : Masks p) (hq : Masks q) :
    Masks (if c then p else q) := by
  split
  · exact hp
  · exact hq

lemma look (f : Sys → α) : Masks (look f) := fun _ hw => ⟨hw, rfl, rfl⟩

lemma act {f : Sys → Sys} (hf : ∀ s, (f s).eflags = s.eflags)
    (hc : ∀ s, (f s).currTask = s.currTask) : Masks (act f) := by
  intro w hw
  refine ⟨⟨?_, hw.allOff⟩, rfl, hc w.sys⟩
  have hoff := hw.off
  rw [Cpu.interruptible] at hoff ⊢
  rw [act_sys, hf, hoff]

lemma touch (x : Shared) : Masks (touch x) := by
  refine fun w hw => ⟨⟨hw.off, fun y hy => ?_⟩, rfl, rfl⟩
  rcases List.mem_append.mp hy with hy | hy
  · exact hw.allOff y hy
  · rw [List.mem_singleton.mp hy]
    exact hw.off

lemma read (x : Shared) (f : Sys → α) : Masks (read x f) := (touch x).bind fun _ => look f

lemma write (x : Shared) {f : Sys → Sys} (hf : ∀ s, (f s).eflags = s.eflags)
    (hc : ∀ s, (f s).currTask = s.currTask) : Masks (write x f) :=
  (touch x).bind fun _ => act hf hc

lemma setTask (t : TaskPtr) (f : Task → Task) : Masks (setTask t f) :=
  act (fun _ => rfl) (fun _ => rfl)

lemma emit (e : Event) : Masks (emit e) := act (fun _ => rfl) (fun _ => rfl)

lemma halt (h : Halt) : Masks (Watching.act (·.die h)) := act (fun _ => rfl) (fun _ => rfl)

lemma listInsertLast (l : ListPtr) (n : NodePtr) : Masks (listInsertLast l n) :=
  write _ (fun _ => rfl) (fun _ => rfl)

lemma listPop (l : ListPtr) (n : NodePtr) : Masks (listPop l n) :=
  write _ (fun _ => rfl) (fun _ => rfl)

lemma listPopFirst (l : ListPtr) : Masks (listPopFirst l) := by
  refine (read _ _).bind fun node => bind ?_ fun _ => pure node
  exact write _ (fun _ => rfl) (fun _ => rfl)

lemma setLocker (m : MutexPtr) (n : BitVec 32) : Masks (setLocker m n) :=
  write _ (fun _ => rfl) (fun _ => rfl)

lemma setOwner (m : MutexPtr) (c : Ctx) : Masks (setOwner m c) :=
  write _ (fun _ => rfl) (fun _ => rfl)

lemma setCount (s : SemPtr) (n : Int) : Masks (setCount s n) :=
  write _ (fun _ => rfl) (fun _ => rfl)

lemma taskSetReady (t : TaskPtr) : Masks (taskSetReady t) :=
  (listInsertLast _ _).bind fun _ => setTask _ _

lemma taskSetBlock (t : TaskPtr) : Masks (taskSetBlock t) := listPop _ _

lemma taskSetWakeup (t : TaskPtr) : Masks (taskSetWakeup t) := listPop _ _

lemma taskSetSleep (t : TaskPtr) (ticks : BitVec 32) : Masks (taskSetSleep t ticks) :=
  ite (pure _) ((setTask _ _).bind fun _ => listInsertLast _ _)

lemma sliceTick (t : TaskPtr) : Masks (sliceTick t) := by
  refine ite ((setTask _ _).bind fun _ => (look _).bind fun _ => ite ?_ (pure _)) (pure _)
  exact (setTask _ _).bind fun _ => (taskSetBlock t).bind fun _ => taskSetReady t

lemma sleeperTick (t : TaskPtr) : Masks (sleeperTick t) := by
  refine (setTask _ _).bind fun _ => (look _).bind fun _ => ite ?_ (pure _)
  exact (taskSetWakeup t).bind fun _ => taskSetReady t

lemma sleepersTick (fuel : Nat) (node : Option NodePtr) : Masks (sleepersTick fuel node) := by
  induction fuel generalizing node with
  | zero =>
    cases node with
    | none => exact pure _
    | some n => exact halt _
  | succ fuel ih =>
    cases node with
    | none => exact pure _
    | some n => exact (read _ _).bind fun _ => (sleeperTick _).bind fun _ => ih _

lemma handOver (m : MutexPtr) : Masks (handOver m) := by
  refine (read _ _).bind fun n => ite ((listPopFirst _).bind fun node => ?_) (pure _)
  cases node with
  | none => exact halt _
  | some node =>
    refine (taskSetReady _).bind fun _ => (setOwner _ _).bind fun _ => (read _ _).bind fun _ => ?_
    exact (setLocker _ _).bind fun _ => emit _

end Masks

lemma Masks.owes {p : Watching α} {k : α → Watching (List Epilogue)} (hp : Masks p)
    (hk : ∀ a, Owes tail (k a)) : Owes tail (p >>= k) := by
  intro w hw
  obtain ⟨h1, hm1, hc1⟩ := hp w hw
  obtain ⟨h2, es, hm2, hes⟩ := hk (p w).1 (p w).2 h1
  exact ⟨h2, es, by rw [bind_apply, hm2, hm1, hc1], hes⟩

namespace Owes

lemma done : Owes tail (pure tail) := fun w hw =>
  ⟨hw.allOff, [], (List.append_nil w.marks).symm, fun _ => rfl⟩

lemma die (h : Halt) : Owes tail (die h) :=
  fun w hw => ⟨hw.allOff, [], (List.append_nil w.marks).symm, fun hn => by cases hn⟩

lemma ite {c : Prop} {_ : Decidable c} (hp : Owes tail p) (hq : Owes tail q) :
    Owes tail (if c then p else q) := by
  split
  · exact hp
  · exact hq

lemma add (hp : Owes [] p) : Owes tail (p >>= fun es => pure (es ++ tail)) := by
  intro w hw
  obtain ⟨h, es, hm, hes⟩ := hp w hw
  refine ⟨h, es, hm, fun hn => ?_⟩
  rw [bind_apply, pure_apply, hes hn, List.append_nil]

end Owes

namespace Protects

lemma owes (h : Protects p) : Owes [] p := by
  intro w hw
  obtain ⟨hoff, es, hm, hes⟩ := h w hw.allOff
  exact ⟨hoff, es, hm, fun hn => by rw [hes hn, List.append_nil]⟩

/-- The rule of a protected function: the entry, then code that owes its epilogue. -/
lemma intro {fn : Fn} {k : BitVec 32 → Watching (List Epilogue)}
    (hk : ∀ state, Owes [⟨fn, state⟩] (k state)) : Protects (irqEnterProtection fn >>= k) := by
  intro w hw
  have hmask : (irqEnterProtection fn w).2.Masked := by
    refine ⟨?_, hw⟩
    simp [Cpu.interruptible, Cpu.cli, Sys.cpu]
  obtain ⟨hoff, es, hm, hes⟩ := hk w.sys.eflags _ hmask
  have hmarks : (irqEnterProtection fn w).2.marks =
      w.marks ++ [Epilogue.entered w.sys.currTask ⟨fn, w.sys.eflags⟩] := rfl
  have hcurr : (irqEnterProtection fn w).2.sys.currTask = w.sys.currTask := rfl
  refine ⟨hoff, es ++ [(⟨fn, w.sys.eflags⟩ : Epilogue)], hm.trans ?_, hes⟩
  rw [hmarks, hcurr, List.reverse_append, List.map_append, List.append_assoc]
  rfl

/-- After the switch nothing shared is touched any more. -/
lemma taskDispatch : Protects taskDispatch := by
  refine intro fun state => (Masks.read _ _).owes fun node => (Masks.read _ _).owes fun c => ?_
  have hoff := fun w (hw : Watched.Masked w) => (Masks.touch .currTask w hw).1.allOff
  cases node with
  | none =>
    refine .ite (fun w hw => ?_) .done
    exact ⟨hoff w hw, [], (List.append_nil w.marks).symm, fun _ => rfl⟩
  | some node =>
    refine .ite (fun w hw => ?_) .done
    exact ⟨hoff w hw, [], (List.append_nil w.marks).symm, fun _ => rfl⟩

lemma sysSchedYield : Protects sysSchedYield := by
  refine intro fun state => (Masks.read _ _).owes fun n => .ite ?_ .done
  refine (Masks.read _ _).owes fun c => ?_
  cases c with
  | none => exact .die _
  | some t =>
    refine (Masks.taskSetBlock t).owes fun _ => (Masks.taskSetReady t).owes fun _ => ?_
    exact .add taskDispatch.owes

lemma sysSleep (ms : BitVec 32) : Protects (sysSleep ms) := by
  refine intro fun state => (Masks.read _ _).owes fun c => ?_
  cases c with
  | none => exact .die _
  | some t =>
    refine (Masks.taskSetBlock t).owes fun _ => (Masks.taskSetSleep t _).owes fun _ => ?_
    exact .add taskDispatch.owes

lemma taskInitReady (t : TaskPtr) : Protects (taskInitReady t) :=
  intro fun _ => (Masks.taskSetReady t).owes fun _ => (Masks.listInsertLast _ _).owes fun _ => .done

lemma reinMutexLock (m : MutexPtr) : Protects (reinMutexLock m) := by
  refine intro fun state => (Masks.read _ _).owes fun c => (Masks.read _ _).owes fun n => ?_
  refine .ite ?_ ((Masks.read _ _).owes fun o => .ite ?_ ?_)
  · refine (Masks.read _ _).owes fun n => (Masks.setLocker _ _).owes fun _ => ?_
    exact (Masks.setOwner _ _).owes fun _ => (Masks.emit _).owes fun _ => .done
  · refine (Masks.read _ _).owes fun n => (Masks.setLocker _ _).owes fun _ => ?_
    exact (Masks.emit _).owes fun _ => .done
  · cases c with
    | none => exact .die _
    | some t =>
      refine (Masks.taskSetBlock t).owes fun _ => (Masks.listInsertLast _ _).owes fun _ => ?_
      exact (Masks.emit _).owes fun _ => .add taskDispatch.owes

lemma reinMutexUnlock (m : MutexPtr) : Protects (reinMutexUnlock m) := by
  refine intro fun state => (Masks.read _ _).owes fun c => (Masks.read _ _).owes fun n => ?_
  refine .ite (.die _) ((Masks.read _ _).owes fun o => .ite (.die _) ?_)
  refine (Masks.read _ _).owes fun n => (Masks.setLocker _ _).owes fun _ => ?_
  refine (Masks.emit _).owes fun _ => (Masks.read _ _).owes fun n => .ite ?_ .done
  exact (Masks.setOwner _ _).owes fun _ => (Masks.handOver m).owes fun _ => .done

lemma semWait (s : SemPtr) : Protects (semWait s) := by
  refine intro fun state => (Masks.read _ _).owes fun n => .ite ?_ ?_
  · refine (Masks.read _ _).owes fun n => (Masks.setCount _ _).owes fun _ => ?_
    exact (Masks.look _).owes fun _ => (Masks.emit _).owes fun _ => .done
  · refine (Masks.read _ _).owes fun c => ?_
    cases c with
    | none => exact .die _
    | some t =>
      refine (Masks.taskSetBlock t).owes fun _ => (Masks.listInsertLast _ _).owes fun _ => ?_
      exact (Masks.emit _).owes fun _ => .add taskDispatch.owes

lemma semNotify (s : SemPtr) : Protects (semNotify s) := by
  refine intro fun state => (Masks.emit _).owes fun _ => (Masks.read _ _).owes fun n => .ite ?_ ?_
  · refine (Masks.listPopFirst _).owes fun node => ?_
    cases node with
    | none => exact .die _
    | some node =>
      refine (Masks.taskSetReady _).owes fun _ => (Masks.emit _).owes fun _ => ?_
      exact .add taskDispatch.owes
  · exact (Masks.read _ _).owes fun n => (Masks.setCount _ _).owes fun _ => .done

lemma semCount (s : SemPtr) : Protects (semCount s) :=
  intro fun _ => (Masks.read _ _).owes fun _ => .done

lemma timerInterrupt : Protects timerInterrupt := by
  refine intro fun state => .add ((Masks.read _ _).owes fun c => ?_)
  cases c with
  | none => exact .die _
  | some t =>
    refine (Masks.sliceTick t).owes fun _ => (Masks.look _).owes fun fuel => ?_
    refine (Masks.read _ _).owes fun node => (Masks.sleepersTick fuel node).owes fun _ => ?_
    exact taskDispatch.owes

/-- Every action but a return. -/
theorem exec {a : Act} (ha : ∀ e, a ≠ .ret e) : Protects (exec a) := by
  have hidle : ∀ f : Sys → Sys, Protects (do act f; return []) := fun f w hw =>
    ⟨hw, [], (List.append_nil w.marks).symm, fun _ => rfl⟩
  cases a with
  | ret e => exact absurd rfl (ha e)
  | timer => exact timerInterrupt
  | lock m => exact reinMutexLock m
  | unlock m => exact reinMutexUnlock m
  | wait p => exact semWait p
  | notify p => exact semNotify p
  | count p => exact semCount p
  | sleep ms => exact sysSleep ms
  | yield => exact sysSchedYield
  | dispatch => exact taskDispatch
  | ready t => exact taskInitReady t
  | nop | note | enable | disable | claim | segSet | fill | fields | writeTr | becomeMain | outb =>
    exact hidle _

end Protects

end Watching

end OsToyI386
