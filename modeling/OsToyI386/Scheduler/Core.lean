import OsToyI386.Lib.Apart
import OsToyI386.Kernel.Machine

/-!
# The kernel as queues of tasks

What the kernel is for, without pointers: each task waits in one of many queues, the first
of the ready queue runs, and every operation moves tasks between queues. `Core.exec` gives
each action its effect on this abstract state, `Core.leaves` the epilogues it leaves.
-/

namespace OsToyI386

open Lib

/-- The places where a task can stand. -/
inductive Queue
  | ready
  | sleep
  | mutexWait (m : MutexPtr)
  | semWait (s : SemPtr)
  deriving DecidableEq, Repr

namespace Queue

/-- The list that holds the queue. -/
def list : Queue → ListPtr
  | ready => .readyList
  | sleep => .sleepList
  | mutexWait m => .mutexWait m
  | semWait s => .semWait s

/-- The node by which a task stands in the queue. -/
def node (q : Queue) (t : TaskPtr) : NodePtr :=
  match q with
  | ready => ⟨t, .runNode⟩
  | sleep => ⟨t, .runNode⟩
  | mutexWait _ => ⟨t, .waitNode⟩
  | semWait _ => ⟨t, .waitNode⟩

end Queue

/-- The abstract state. `tasks` is the list of all tasks created. -/
structure Core extends Cpu where
  queue : Queue → List TaskPtr
  tasks : List TaskPtr
  curr : Ctx
  task : TaskPtr → Task
  mutex : MutexPtr → ReinMutex
  sem : SemPtr → Int
  trace : List Event

namespace Core

def emit (K : Core) (e : Event) : Core := { K with trace := K.trace ++ [e] }

def cpu (K : Core) (f : Cpu → Cpu) : Core := { K with toCpu := f K.toCpu }

/-- Interrupts off. -/
def off (K : Core) : Core := K.cpu Cpu.cli

def die (K : Core) (h : Halt) : Core := K.cpu (·.die h)

def setTask (K : Core) (t : TaskPtr) (x : Task) : Core :=
  { K with task := Function.update K.task t x }

def setMutex (K : Core) (m : MutexPtr) (x : ReinMutex) : Core :=
  { K with mutex := Function.update K.mutex m x }

def setSem (K : Core) (p : SemPtr) (x : Int) : Core :=
  { K with sem := Function.update K.sem p x }

def leave (K : Core) (q : Queue) (t : TaskPtr) : Core :=
  { K with queue := Function.update K.queue q ((K.queue q).erase t) }

def join (K : Core) (q : Queue) (t : TaskPtr) : Core :=
  { K with queue := Function.update K.queue q (K.queue q ++ [t]) }

/-- Leaving a queue by `list_pop`, which is noted. -/
def pop (K : Core) (q : Queue) (t : TaskPtr) : Core :=
  (K.leave q t).emit (.listPop q.list (q.node t) (decide (t ∈ K.queue q)))

def wake (K : Core) (t : TaskPtr) : Core :=
  (K.join .ready t).setTask t { K.task t with state := .ready }

/-- The task that ought to run. -/
def head (K : Core) : TaskPtr := (K.queue .ready).head?.getD .idleTask

/-- The head takes the processor, by a jump to its TSS unless it has it. -/
def dispatch (K : Core) : Core :=
  if K.curr = some K.head then K.off
  else
    { K with
      toCpu := switchToTss (K.task K.head).tssSel K.toCpu.cli
      curr := some K.head
      task :=
        if K.queue .ready = [] then K.task
        else Function.update K.task K.head { K.task K.head with state := .running } }

/-- The running task gives the processor up and joins a queue. -/
def block (K : Core) (t : TaskPtr) (q : Queue) : Core := (K.pop .ready t).join q t

def lock (K : Core) (m : MutexPtr) : Core :=
  if (K.mutex m).locker = 0#32 then
    (K.setMutex m ⟨K.curr, (K.mutex m).locker + 1#32⟩).emit (.lockTake K.curr m)
  else if (K.mutex m).owner = K.curr then
    (K.setMutex m { K.mutex m with locker := (K.mutex m).locker + 1#32 }).emit (.lockTake K.curr m)
  else
    match K.curr with
    | none => K.die .nullPointer
    | some t => ((K.block t (.mutexWait m)).emit (.lockBlock t m)).dispatch

/-- The first waiter, if there is one, becomes ready as the owner of the mutex. -/
def handOver (K : Core) (m : MutexPtr) : Core :=
  match K.queue (.mutexWait m) with
  | [] => K.setMutex m ⟨none, 0#32⟩
  | t :: _ =>
    (((K.leave (.mutexWait m) t).wake t).setMutex m ⟨some t, 1#32⟩).emit (.lockHand t m)

def unlock (K : Core) (m : MutexPtr) : Core :=
  if (K.mutex m).locker = 0#32 ∨ (K.mutex m).owner ≠ K.curr then
    K.die .assertFailed
  else if (K.mutex m).locker = 1#32 then (K.emit (.unlock K.curr m)).handOver m
  else
    (K.setMutex m { K.mutex m with locker := (K.mutex m).locker - 1#32 }).emit (.unlock K.curr m)

def wait (K : Core) (p : SemPtr) : Core :=
  if K.sem p > 0 then (K.setSem p (K.sem p - 1)).emit (.semTake K.curr p)
  else
    match K.curr with
    | none => K.die .nullPointer
    | some t => ((K.block t (.semWait p)).emit (.semBlock t p)).dispatch

def notify (K : Core) (p : SemPtr) : Core :=
  let K := K.emit (.semNotify p)
  match K.queue (.semWait p) with
  | [] => K.setSem p (K.sem p + 1)
  | t :: _ => (((K.leave (.semWait p) t).wake t).emit (.semPop t p)).dispatch

def yield (K : Core) : Core :=
  if (K.queue .ready).length > 1 then
    match K.curr with
    | none => K.die .nullPointer
    | some t => ((K.pop .ready t).wake t).dispatch
  else K

def sleep (K : Core) (ticks : Int) : Core :=
  match K.curr with
  | none => K.die .nullPointer
  | some t =>
    let K := K.pop .ready t
    ((K.setTask t { K.task t with sleepTicks := ticks, state := .sleep }).join .sleep t).dispatch

/-- The running task uses up a tick of its slice; after the last one it goes to the end
of the ready queue with a new slice. -/
def sliceTick (K : Core) (c : TaskPtr) : Core :=
  if c = .idleTask then K
  else if (K.task c).sliceTicks = 1 then
    ((K.setTask c { K.task c with sliceTicks := (K.task c).timeTicks }).pop .ready c).wake c
  else K.setTask c { K.task c with sliceTicks := (K.task c).sliceTicks - 1 }

def sleeperTick (K : Core) (t : TaskPtr) : Core :=
  let K := K.setTask t { K.task t with sleepTicks := (K.task t).sleepTicks - 1 }
  if (K.task t).sleepTicks = 0 then (K.pop .sleep t).wake t else K

def sleepersTick (K : Core) : Core := (K.queue .sleep).foldl sleeperTick K

def tick (K : Core) : Core :=
  match K.curr with
  | none => K.die .nullPointer
  | some c => (K.sliceTick c).sleepersTick.dispatch

/-- A new task joins the ready queue and the list of all tasks. -/
def create (K : Core) (t : TaskPtr) : Core :=
  { K.wake t with tasks := K.tasks ++ [t] }

/-- The effect of an action on the abstract state. -/
def exec (K : Core) : Act → Core
  | .nop => K
  | .note e => K.emit e
  | .ret e =>
    { K.cpu (fun p => { p with eflags := e.state }) with
      trace := K.trace ++ e.fn.returned K.curr }
  | .timer => K.off.tick
  | .lock m => K.off.lock m
  | .unlock m => K.off.unlock m
  | .wait p => K.off.wait p
  | .notify p => K.off.notify p
  | .count _ => K.off
  | .sleep ms => K.off.sleep (sleepTicksOf ms).toInt
  | .yield => K.off.yield
  | .dispatch => K.dispatch
  | .enable => K.cpu Cpu.sti
  | .disable => K.off
  | .claim i => K.cpu (claimDesc i)
  | .segSet sel base limit attr => K.cpu (setSegment sel base limit attr)
  | .fill sel r =>
    (K.cpu fun p =>
      { p with
        tss := Function.update p.tss (p.tssAddr r.task)
          (Tss.fill (p.tss (p.tssAddr r.task)) r.entry r.esp) }).setTask r.task
      { K.task r.task with tssSel := sel }
  | .fields r =>
    K.setTask r.task
      { K.task r.task with
        taskName := r.taskName
        state := .created
        sleepTicks := 0
        timeTicks := taskTimeSliceDefault
        sliceTicks := taskTimeSliceDefault }
  | .ready t => K.off.create t
  | .writeTr => K.cpu (writeTr (BitVec.ofInt 16 (K.task .mainTask).tssSel))
  | .becomeMain => { K with curr := some .mainTask }
  | .outb b => K.emit (.com1 b)

/-- What a dispatch inside the call `f` leaves: both saved the flags they found. -/
def dispatched (K : Core) (f : Fn) : List Epilogue :=
  [⟨.taskDispatch, K.off.eflags⟩, ⟨f, K.eflags⟩]

/-- The epilogues that an action leaves to its context. -/
def leaves (K : Core) : Act → List Epilogue
  | .timer => K.dispatched .timer
  | .lock m =>
    if (K.mutex m).locker = 0#32 ∨ (K.mutex m).owner = K.curr then [⟨.reinMutexLock m, K.eflags⟩]
    else K.dispatched (.reinMutexLock m)
  | .unlock m =>
    if (K.mutex m).locker = 0#32 ∨ (K.mutex m).owner ≠ K.curr then []
    else [⟨.reinMutexUnlock m, K.eflags⟩]
  | .wait p => if K.sem p > 0 then [⟨.semWait p, K.eflags⟩] else K.dispatched (.semWait p)
  | .notify p =>
    if K.queue (.semWait p) = [] then [⟨.semNotify p, K.eflags⟩]
    else K.dispatched (.semNotify p)
  | .count p => [⟨.semCount p, K.eflags⟩]
  | .sleep _ => K.dispatched .sysSleep
  | .yield =>
    if (K.queue .ready).length > 1 then K.dispatched .sysSchedYield
    else [⟨.sysSchedYield, K.eflags⟩]
  | .dispatch => [⟨.taskDispatch, K.eflags⟩]
  | .ready _ => [⟨.taskInit, K.eflags⟩]
  | .nop | .note _ | .ret _ | .enable | .disable | .claim _ | .segSet _ _ _ _ | .fill _ _
  | .fields _ | .writeTr | .becomeMain | .outb _ => []

end Core

instance : Kernel Core := ⟨fun a K => (K.exec a, K.leaves a), Core.toCpu, Core.curr⟩

end OsToyI386
