import OsToyI386.Kernel.Machine

/-!
# The kernel under watch

The protected functions once more, statement by statement, with a ghost record of each
access to the lists, to `curr_task`, to a mutex and to a semaphore, and of each protection
entered and left. Every entry says whether interrupts were on at that moment.
-/

namespace OsToyI386

/-- What the tasks share. -/
inductive Shared
  | list (l : ListPtr)
  | currTask
  | mutex (m : MutexPtr)
  | sem (s : SemPtr)
  deriving DecidableEq

/-- A read or a write, and whether interrupts were on. -/
structure Touch where
  object : Shared
  interruptible : Bool
  deriving DecidableEq

/-- A context calls a protected function, or the function returns: the last `iret` or
`irq_leave_protection` is done. -/
inductive Mark
  | enter (c : Ctx) (fn : Fn) (interruptible : Bool)
  | leave (c : Ctx) (fn : Fn) (interruptible : Bool)
  deriving DecidableEq

/-- Memory and processor with the record. -/
structure Watched where
  sys : Sys
  accesses : List Touch
  marks : List Mark

/-- Code that is watched. -/
def Watching (α : Type) : Type := Watched → α × Watched

instance : Monad Watching where
  pure a w := (a, w)
  bind p k w := k (p w).1 (p w).2

namespace Watching

/-- A statement that touches nothing shared. -/
def act (f : Sys → Sys) : Watching Unit := fun w => ((), { w with sys := f w.sys })

/-- A value that is not shared. -/
def look {α : Type} (f : Sys → α) : Watching α := fun w => (f w.sys, w)

def touch (x : Shared) : Watching Unit := fun w =>
  ((), { w with accesses := w.accesses ++ [⟨x, w.sys.interruptible⟩] })

def read {α : Type} (x : Shared) (f : Sys → α) : Watching α := do
  touch x
  look f

def write (x : Shared) (f : Sys → Sys) : Watching Unit := do
  touch x
  act f

def enter (fn : Fn) : Watching Unit := fun w =>
  ((), { w with marks := w.marks ++ [.enter w.sys.currTask fn w.sys.interruptible] })

def leave (fn : Fn) : Watching Unit := fun w =>
  ((), { w with marks := w.marks ++ [.leave w.sys.currTask fn w.sys.interruptible] })

@[simp] def die (h : Halt) : Watching (List Epilogue) := do
  act (·.die h)
  return []

@[simp] def setTask (t : TaskPtr) (f : Task → Task) : Watching Unit :=
  act fun s => s.setTask t (f (s.task t))

@[simp] def emit (e : Event) : Watching Unit := act (·.emit e)

@[simp] def listCount (l : ListPtr) : Watching Int :=
  read (.list l) fun s => OsToyI386.listCount s.heap l

@[simp] def listFirst (l : ListPtr) : Watching (Option NodePtr) :=
  read (.list l) fun s => OsToyI386.listFirst s.heap l

/-- `node->next` of a node of the list. -/
@[simp] def nodeNext (l : ListPtr) (n : NodePtr) : Watching (Option NodePtr) :=
  read (.list l) fun s => (s.heap.node n).next

@[simp] def listInsertLast (l : ListPtr) (n : NodePtr) : Watching Unit :=
  write (.list l) (·.insertLast l n)

@[simp] def listPop (l : ListPtr) (n : NodePtr) : Watching Unit := write (.list l) (·.pop l n)

@[simp] def listPopFirst (l : ListPtr) : Watching (Option NodePtr) := do
  let node ← read (.list l) fun s => (OsToyI386.listPopFirst s.heap l).2
  write (.list l) fun s => { s with heap := (OsToyI386.listPopFirst s.heap l).1 }
  return node

@[simp] def taskCurrent : Watching Ctx := read .currTask Sys.currTask

@[simp] def setCurrTask (t : TaskPtr) : Watching Unit :=
  write .currTask ({ · with currTask := some t })

@[simp] def locker (m : MutexPtr) : Watching (BitVec 32) :=
  read (.mutex m) fun s => (s.mutex m).locker

@[simp] def owner (m : MutexPtr) : Watching Ctx := read (.mutex m) fun s => (s.mutex m).owner

@[simp] def setLocker (m : MutexPtr) (n : BitVec 32) : Watching Unit :=
  write (.mutex m) fun s => s.setMutex m { s.mutex m with locker := n }

@[simp] def setOwner (m : MutexPtr) (c : Ctx) : Watching Unit :=
  write (.mutex m) fun s => s.setMutex m { s.mutex m with owner := c }

@[simp] def count (p : SemPtr) : Watching Int := read (.sem p) fun s => s.sem p

@[simp] def setCount (p : SemPtr) (n : Int) : Watching Unit := write (.sem p) (·.setSem p n)

/-- The first statement of each protected function. -/
@[simp] def irqEnterProtection (fn : Fn) : Watching (BitVec 32) := do
  enter fn
  let state ← look (·.eflags)
  act (·.cpu Cpu.cli)
  return state

/-! ### `core/task.c` -/

def taskSetReady (task : TaskPtr) : Watching Unit := do
  listInsertLast .readyList ⟨task, .runNode⟩
  setTask task ({ · with state := .ready })

def taskSetBlock (task : TaskPtr) : Watching Unit := listPop .readyList ⟨task, .runNode⟩

def taskSetWakeup (task : TaskPtr) : Watching Unit := listPop .sleepList ⟨task, .runNode⟩

def taskSetSleep (task : TaskPtr) (ticks : BitVec 32) : Watching Unit := do
  if ticks = 0 then return
  else
    setTask task ({ · with sleepTicks := ticks.toInt, state := .sleep })
    listInsertLast .sleepList ⟨task, .runNode⟩

def taskSwitchFromTo (toTask : TaskPtr) : Watching Unit := act (OsToyI386.taskSwitchFromTo toTask)

def taskDispatch : Watching (List Epilogue) := do
  let state ← irqEnterProtection .taskDispatch
  let node ← listFirst .readyList
  let fromTask ← taskCurrent
  match node with
  | none =>
    if fromTask ≠ some .idleTask then
      setCurrTask .idleTask
      taskSwitchFromTo .idleTask
      return [⟨.taskDispatch, state⟩]
    else return [⟨.taskDispatch, state⟩]
  | some node =>
    let toTask := containerOf node
    if fromTask ≠ some toTask then
      setCurrTask toTask
      setTask toTask ({ · with state := .running })
      taskSwitchFromTo toTask
      return [⟨.taskDispatch, state⟩]
    else return [⟨.taskDispatch, state⟩]

def sysSchedYield : Watching (List Epilogue) := do
  let state ← irqEnterProtection .sysSchedYield
  if (← listCount .readyList) > 1 then
    match ← taskCurrent with
    | none => die .nullPointer
    | some currTask =>
      taskSetBlock currTask
      taskSetReady currTask
      let es ← taskDispatch
      return es ++ [⟨.sysSchedYield, state⟩]
  else return [⟨.sysSchedYield, state⟩]

def sliceTick (curr : TaskPtr) : Watching Unit := do
  if curr ≠ .idleTask then
    setTask curr fun x => { x with sliceTicks := x.sliceTicks - 1 }
    if (← look (·.task curr)).sliceTicks = 0 then
      setTask curr fun x => { x with sliceTicks := x.timeTicks }
      taskSetBlock curr
      taskSetReady curr
    else return
  else return

def sleeperTick (task : TaskPtr) : Watching Unit := do
  setTask task fun x => { x with sleepTicks := x.sleepTicks - 1 }
  if (← look (·.task task)).sleepTicks = 0 then
    taskSetWakeup task
    taskSetReady task
  else return

def sleepersTick : Nat → Option NodePtr → Watching Unit
  | _, none => return
  | 0, some _ => act (·.die .endlessLoop)
  | fuel + 1, some currNode => do
    let nextNode ← nodeNext .sleepList currNode
    sleeperTick (containerOf currNode)
    sleepersTick fuel nextNode

def taskTimeTick : Watching (List Epilogue) := do
  match ← taskCurrent with
  | none => die .nullPointer
  | some curr =>
    sliceTick curr
    let fuel ← look fun s => (OsToyI386.listCount s.heap .sleepList).toNat
    let currNode ← listFirst .sleepList
    sleepersTick fuel currNode
    taskDispatch

/-- The gate saves `EFLAGS` and clears `IF`. -/
def timerInterrupt : Watching (List Epilogue) := do
  enter .timer
  let state ← look (·.eflags)
  act (·.cpu Cpu.cli)
  let es ← taskTimeTick
  return es ++ [⟨.timer, state⟩]

def sysSleep (ms : BitVec 32) : Watching (List Epilogue) := do
  let state ← irqEnterProtection .sysSleep
  match ← taskCurrent with
  | none => die .nullPointer
  | some curr =>
    taskSetBlock curr
    taskSetSleep curr (sleepTicksOf ms)
    let es ← taskDispatch
    return es ++ [⟨.sysSleep, state⟩]

/-- The protected end of `task_init`. -/
def taskInitReady (task : TaskPtr) : Watching (List Epilogue) := do
  let state ← irqEnterProtection .taskInit
  taskSetReady task
  listInsertLast .taskList ⟨task, .allNode⟩
  return [⟨.taskInit, state⟩]

/-! ### `ipc/mutex.c` and `ipc/sem.c` -/

def reinMutexLock (lock : MutexPtr) : Watching (List Epilogue) := do
  let state ← irqEnterProtection (.reinMutexLock lock)
  let currTask ← taskCurrent
  if (← locker lock) = 0#32 then
    setLocker lock ((← locker lock) + 1#32)
    setOwner lock currTask
    emit (.lockTake currTask lock)
    return [⟨.reinMutexLock lock, state⟩]
  else if (← owner lock) = currTask then
    setLocker lock ((← locker lock) + 1#32)
    emit (.lockTake currTask lock)
    return [⟨.reinMutexLock lock, state⟩]
  else
    match currTask with
    | none => die .nullPointer
    | some t =>
      taskSetBlock t
      listInsertLast (.mutexWait lock) ⟨t, .waitNode⟩
      emit (.lockBlock t lock)
      let es ← taskDispatch
      return es ++ [⟨.reinMutexLock lock, state⟩]

def handOver (lock : MutexPtr) : Watching Unit := do
  if (← listCount (.mutexWait lock)) ≠ 0 then
    match ← listPopFirst (.mutexWait lock) with
    | none => act (·.die .nullPointer)
    | some nodeNewOwner =>
      let newOwner := containerOf nodeNewOwner
      taskSetReady newOwner
      setOwner lock (some newOwner)
      setLocker lock ((← locker lock) + 1#32)
      emit (.lockHand newOwner lock)
  else return

def reinMutexUnlock (lock : MutexPtr) : Watching (List Epilogue) := do
  let state ← irqEnterProtection (.reinMutexUnlock lock)
  let currTask ← taskCurrent
  if (← locker lock) = 0#32 then die .assertFailed
  else if (← owner lock) ≠ currTask then die .assertFailed
  else
    setLocker lock ((← locker lock) - 1#32)
    emit (.unlock currTask lock)
    if (← locker lock) = 0#32 then
      setOwner lock none
      handOver lock
      return [⟨.reinMutexUnlock lock, state⟩]
    else return [⟨.reinMutexUnlock lock, state⟩]

def semWait (sem : SemPtr) : Watching (List Epilogue) := do
  let state ← irqEnterProtection (.semWait sem)
  if (← count sem) > 0 then
    setCount sem ((← count sem) - 1)
    emit (.semTake (← look Sys.currTask) sem)
    return [⟨.semWait sem, state⟩]
  else
    match ← taskCurrent with
    | none => die .nullPointer
    | some curr =>
      taskSetBlock curr
      listInsertLast (.semWait sem) ⟨curr, .waitNode⟩
      emit (.semBlock curr sem)
      let es ← taskDispatch
      return es ++ [⟨.semWait sem, state⟩]

def semNotify (sem : SemPtr) : Watching (List Epilogue) := do
  let state ← irqEnterProtection (.semNotify sem)
  emit (.semNotify sem)
  if (← listCount (.semWait sem)) ≠ 0 then
    match ← listPopFirst (.semWait sem) with
    | none => die .nullPointer
    | some node =>
      let task := containerOf node
      taskSetReady task
      emit (.semPop task sem)
      let es ← taskDispatch
      return es ++ [⟨.semNotify sem, state⟩]
  else
    setCount sem ((← count sem) + 1)
    return [⟨.semNotify sem, state⟩]

def semCount (sem : SemPtr) : Watching (List Epilogue) := do
  let state ← irqEnterProtection (.semCount sem)
  let _ ← count sem
  return [⟨.semCount sem, state⟩]

/-- The end of a protected function. -/
def irqLeaveProtection (e : Epilogue) : Watching (List Epilogue) := do
  act (OsToyI386.irqLeaveProtection e.state)
  leave e.fn
  act fun s => { s with trace := s.trace ++ e.fn.returned s.currTask }
  return []

/-- An action under watch. The other actions touch nothing shared, but for the start of
`curr_task` by `task_main_init`. -/
def exec : Act → Watching (List Epilogue)
  | .ret e => irqLeaveProtection e
  | .timer => timerInterrupt
  | .lock m => reinMutexLock m
  | .unlock m => reinMutexUnlock m
  | .wait p => semWait p
  | .notify p => semNotify p
  | .count p => semCount p
  | .sleep ms => sysSleep ms
  | .yield => sysSchedYield
  | .dispatch => taskDispatch
  | .ready t => taskInitReady t
  | a => do
    act fun s => (a.exec s).1
    return []

end Watching

instance : Kernel Watched where
  exec a w := ((Watching.exec a w).2, (Watching.exec a w).1)
  cpu w := w.sys.toCpu
  currTask w := w.sys.currTask

/-- The machine at boot, with nothing recorded. -/
def BootMem.watched (b : BootMem) : Machine Watched :=
  ⟨⟨b.sys, [], []⟩, b.machine.ctl, b.machine.started⟩

/-- The machine without the record. -/
def Machine.erase (m : Machine Watched) : Machine Sys := ⟨m.sys.sys, m.ctl, m.started⟩

end OsToyI386
