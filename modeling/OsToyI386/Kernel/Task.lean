import OsToyI386.Kernel.Cpu

/-!
# Tasks and the scheduler

The functions of `core/task.c` that run from end to end with interrupts off. A function
that may dispatch returns, beside the new state, the epilogues left to the context that
called it: they run when that context runs again.
-/

namespace OsToyI386

def taskNameMaxInSize : Int := 32
def taskTimeSliceDefault : Int := 10
def osTicksMs : BitVec 32 := 10#32

/-- The operands of `task_init`. -/
structure InitReq where
  task : TaskPtr
  taskName : List (BitVec 8)
  entry : BitVec 32
  esp : BitVec 32
  deriving DecidableEq

/-- `(int)kernel_strlen(s)` of a string without its NUL. -/
def kernelStrlen (s : List (BitVec 8)) : Int := (BitVec.ofNat 32 s.length).toInt

/-- The check of the name in `task_init`. -/
def InitReq.nameOk (r : InitReq) : Bool :=
  let taskNameLength := kernelStrlen r.taskName
  !(taskNameLength == 0 || decide (taskNameLength > taskNameMaxInSize))

def taskSetReady (task : TaskPtr) (s : Sys) : Sys :=
  let s := s.insertLast .readyList ⟨task, .runNode⟩
  s.setTask task { s.task task with state := .ready }

def taskSetBlock (task : TaskPtr) (s : Sys) : Sys :=
  s.pop .readyList ⟨task, .runNode⟩

def taskSetWakeup (task : TaskPtr) (s : Sys) : Sys :=
  s.pop .sleepList ⟨task, .runNode⟩

def taskSetSleep (task : TaskPtr) (ticks : BitVec 32) (s : Sys) : Sys :=
  if ticks = 0 then s
  else
    let s := s.setTask task { s.task task with sleepTicks := ticks.toInt, state := .sleep }
    s.insertLast .sleepList ⟨task, .runNode⟩

def taskSwitchFromTo (toTask : TaskPtr) (s : Sys) : Sys :=
  s.cpu (switchToTss (s.task toTask).tssSel)

def taskDispatch (s : Sys) : Sys × List Epilogue :=
  let (state, s) := irqEnterProtection s
  let node := listFirst s.heap .readyList
  let fromTask := s.currTask
  let s :=
    match node with
    | none =>
      if fromTask ≠ some .idleTask then
        taskSwitchFromTo .idleTask { s with currTask := some .idleTask }
      else s
    | some node =>
      let toTask := containerOf node
      if fromTask ≠ some toTask then
        let s := { s with currTask := some toTask }
        let s := s.setTask toTask { s.task toTask with state := .running }
        taskSwitchFromTo toTask s
      else s
  (s, [⟨.taskDispatch, state⟩])

def sysSchedYield (s : Sys) : Sys × List Epilogue :=
  let (state, s) := irqEnterProtection s
  if listCount s.heap .readyList > 1 then
    match s.currTask with
    | none => (s.die .nullPointer, [])
    | some currTask =>
      let s := taskSetBlock currTask s
      let s := taskSetReady currTask s
      let (s, es) := taskDispatch s
      (s, es ++ [⟨.sysSchedYield, state⟩])
  else (s, [⟨.sysSchedYield, state⟩])

/-- `curr != idle && --curr->slice_ticks == 0`, and what follows from it. -/
def sliceTick (curr : TaskPtr) (s : Sys) : Sys :=
  if curr ≠ .idleTask then
    let s := s.setTask curr { s.task curr with sliceTicks := (s.task curr).sliceTicks - 1 }
    if (s.task curr).sliceTicks = 0 then
      let s := s.setTask curr { s.task curr with sliceTicks := (s.task curr).timeTicks }
      taskSetReady curr (taskSetBlock curr s)
    else s
  else s

/-- The body of the loop over the sleepers. -/
def sleeperTick (task : TaskPtr) (s : Sys) : Sys :=
  let s := s.setTask task { s.task task with sleepTicks := (s.task task).sleepTicks - 1 }
  if (s.task task).sleepTicks = 0 then taskSetReady task (taskSetWakeup task s) else s

/-- The loop over the sleepers. `next` is read before the body moves the node. -/
def sleepersTick : Nat → Option NodePtr → Sys → Sys
  | _, none, s => s
  | 0, some _, s => s.die .endlessLoop
  | fuel + 1, some currNode, s =>
    let nextNode := (s.heap.node currNode).next
    sleepersTick fuel nextNode (sleeperTick (containerOf currNode) s)

def taskTimeTick (s : Sys) : Sys × List Epilogue :=
  match s.currTask with
  | none => (s.die .nullPointer, [])
  | some curr =>
    let s := sliceTick curr s
    let s := sleepersTick (listCount s.heap .sleepList).toNat (listFirst s.heap .sleepList) s
    taskDispatch s

/-- The timer interrupt: an interrupt gate saves `EFLAGS` and clears `IF`, `iret` restores
it. -/
def timerInterrupt (s : Sys) : Sys × List Epilogue :=
  let state := s.eflags
  let (s, es) := taskTimeTick (s.cpu Cpu.cli)
  (s, es ++ [⟨.timer, state⟩])

/-- Milliseconds to ticks as `sys_sleep` computes them, in 32-bit unsigned arithmetic. -/
def sleepTicksOf (ms : BitVec 32) : BitVec 32 := (ms + osTicksMs - 1#32) / osTicksMs + 1#32

def sysSleep (ms : BitVec 32) (s : Sys) : Sys × List Epilogue :=
  let (state, s) := irqEnterProtection s
  match s.currTask with
  | none => (s.die .nullPointer, [])
  | some curr =>
    let s := taskSetBlock curr s
    let s := taskSetSleep curr (sleepTicksOf ms) s
    let (s, es) := taskDispatch s
    (s, es ++ [⟨.sysSleep, state⟩])

/-- What `tss_init` does to the task after the descriptor is set. -/
def tssInitFill (tssSel : Int) (r : InitReq) (s : Sys) : Sys :=
  let addr := s.tssAddr r.task
  let s := s.cpu fun p =>
    { p with tss := Function.update p.tss addr (Tss.fill (p.tss addr) r.entry r.esp) }
  s.setTask r.task { s.task r.task with tssSel := tssSel }

/-- The fields and nodes that `task_init` sets once the name is accepted. -/
def taskInitFields (r : InitReq) (s : Sys) : Sys :=
  let s := s.setTask r.task
    { s.task r.task with
      taskName := r.taskName
      state := .created
      sleepTicks := 0
      timeTicks := taskTimeSliceDefault
      sliceTicks := taskTimeSliceDefault }
  let s := s.nodeInit ⟨r.task, .allNode⟩
  let s := s.nodeInit ⟨r.task, .runNode⟩
  s.nodeInit ⟨r.task, .waitNode⟩

/-- The protected end of `task_init`. -/
def taskInitReady (task : TaskPtr) (s : Sys) : Sys × List Epilogue :=
  let (state, s) := irqEnterProtection s
  let s := taskSetReady task s
  let s := s.insertLast .taskList ⟨task, .allNode⟩
  (s, [⟨.taskInit, state⟩])

end OsToyI386
