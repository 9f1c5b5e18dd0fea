import OsToyI386.Tools.List

/-!
# The memory and the processor

The objects of the kernel and the two processor registers it depends on, in one record.
Objects are named by pointers: `task_t` objects are the two inside `task_manager` and any
number of others, mutexes are the two static ones and any number of others. A list node
is named by the task it is embedded in and by the field that holds it.

`trace` is ghost state: it records what happened and nothing ever reads it.
-/

namespace OsToyI386

open Lib

/-- `task_t *`, the null pointer aside. -/
inductive TaskPtr
  | mainTask
  | idleTask
  | obj (addr : Nat)
  deriving DecidableEq, Repr

/-- The three `list_node_t` fields of `task_t`. -/
inductive NodeField
  | runNode
  | allNode
  | waitNode
  deriving DecidableEq, Repr

/-- `&task->field`. -/
structure NodePtr where
  task : TaskPtr
  field : NodeField
  deriving DecidableEq, Repr

/-- `CONTAINER_OF(node, task_t, field)`: the task the node is embedded in. -/
def containerOf (node : NodePtr) : TaskPtr := node.task

/-- `rein_mutex_t *`: the mutex of `cpu.c`, the mutex of `log.c`, any others. -/
inductive MutexPtr
  | gdtMutex
  | logMutex
  | obj (addr : Nat)
  deriving DecidableEq, Repr

/-- `sem_t *`. -/
structure SemPtr where
  addr : Nat
  deriving DecidableEq, Repr

/-- `list_t *`: the lists of `task_manager` and the wait lists. -/
inductive ListPtr
  | readyList
  | taskList
  | sleepList
  | mutexWait (m : MutexPtr)
  | semWait (s : SemPtr)
  deriving DecidableEq, Repr

/-- `task_state`. -/
inductive TaskState
  | created
  | running
  | sleep
  | ready
  | waitting
  deriving DecidableEq, Repr

/-- `task_t` without its nodes and its `tss`. -/
structure Task where
  taskName : List (BitVec 8)
  state : TaskState
  sliceTicks : Int
  timeTicks : Int
  sleepTicks : Int
  tssSel : Int
  deriving DecidableEq

/-- `rein_mutex_t` without its `wait_list`. `locker` is an `int`, and `++` and `--` wrap
around. -/
structure ReinMutex where
  owner : Option TaskPtr
  locker : BitVec 32
  deriving DecidableEq

/-- `segment_desc_t`. -/
structure SegmentDesc where
  limit15to0 : BitVec 16
  base15to0 : BitVec 16
  base23to16 : BitVec 8
  attr : BitVec 16
  base31to24 : BitVec 8
  deriving DecidableEq

/-- The bytes of a `tss_t`, by offset. -/
abbrev Tss := Nat → BitVec 8

/-- Why the machine stopped for good. -/
inductive Halt
  | assertFailed
  | nullPointer
  | endlessLoop
  | cpuFault
  deriving DecidableEq, Repr

/-- Who calls: `task_current()`, which is null until `task_main_init` is done. -/
abbrev Ctx := Option TaskPtr

/-- Ghost record of what happened. -/
inductive Event
  /-- A context finds the mutex free or its own and takes it. -/
  | lockTake (c : Ctx) (m : MutexPtr)
  /-- A task joins the wait list of the mutex. -/
  | lockBlock (t : TaskPtr) (m : MutexPtr)
  /-- The mutex is handed over to a task of its wait list. -/
  | lockHand (t : TaskPtr) (m : MutexPtr)
  | lockReturn (c : Ctx) (m : MutexPtr)
  | unlock (c : Ctx) (m : MutexPtr)
  /-- A context takes a credit at once. -/
  | semTake (c : Ctx) (s : SemPtr)
  | semBlock (t : TaskPtr) (s : SemPtr)
  /-- `sem_notify` pops a task off the wait list. -/
  | semPop (t : TaskPtr) (s : SemPtr)
  | semReturn (c : Ctx) (s : SemPtr)
  | semNotify (s : SemPtr)
  /-- `list_pop` was called, on a node of the list or not. -/
  | listPop (l : ListPtr) (n : NodePtr) (found : Bool)
  | allocReturn (c : Ctx) (sel : Int)
  | initReturn (t : TaskPtr) (ret : Int)
  | logBegin (c : Ctx) (text : List (BitVec 8))
  | logEnd (c : Ctx) (text : List (BitVec 8))
  /-- A byte written to the serial port. -/
  | com1 (b : BitVec 8)
  deriving DecidableEq

/-- What the processor works on: the GDT, each `tss_t` under its address, `TR`, `EFLAGS`.
`tssAddr` is where the linker and the callers have put the `tss` fields. -/
structure Cpu where
  gdt : Nat → SegmentDesc
  tssAddr : TaskPtr → BitVec 32
  tss : BitVec 32 → Tss
  tr : BitVec 16
  eflags : BitVec 32
  halt : Option Halt

namespace Cpu

def die (p : Cpu) (h : Halt) : Cpu := { p with halt := some h }

def setDesc (p : Cpu) (i : Nat) (x : SegmentDesc) : Cpu :=
  { p with gdt := Function.update p.gdt i x }

/-- `cli`: `IF` is bit 9 of `EFLAGS`. -/
def cli (p : Cpu) : Cpu := { p with eflags := p.eflags &&& ~~~(0x200#32) }

/-- `sti`. -/
def sti (p : Cpu) : Cpu := { p with eflags := p.eflags ||| 0x200#32 }

/-- Whether the processor takes interrupts. -/
def interruptible (p : Cpu) : Bool := p.eflags.getLsbD 9

end Cpu

/-- Memory and processor. -/
structure Sys extends Cpu where
  heap : Heap NodePtr ListPtr
  task : TaskPtr → Task
  currTask : Option TaskPtr
  mutex : MutexPtr → ReinMutex
  sem : SemPtr → Int
  trace : List Event

namespace Sys

def emit (s : Sys) (e : Event) : Sys := { s with trace := s.trace ++ [e] }

/-- Something that concerns the processor only. -/
def cpu (s : Sys) (f : Cpu → Cpu) : Sys := { s with toCpu := f s.toCpu }

def die (s : Sys) (h : Halt) : Sys := s.cpu (·.die h)

def setTask (s : Sys) (t : TaskPtr) (x : Task) : Sys :=
  { s with task := Function.update s.task t x }

def setMutex (s : Sys) (m : MutexPtr) (x : ReinMutex) : Sys :=
  { s with mutex := Function.update s.mutex m x }

def setSem (s : Sys) (p : SemPtr) (x : Int) : Sys :=
  { s with sem := Function.update s.sem p x }

def insertLast (s : Sys) (l : ListPtr) (n : NodePtr) : Sys :=
  { s with heap := listInsertLast s.heap l n }

def nodeInit (s : Sys) (n : NodePtr) : Sys :=
  { s with heap := listNodeInit s.heap n }

/-- `list_pop`, with a note whether the node was in the list. -/
def pop (s : Sys) (l : ListPtr) (n : NodePtr) : Sys :=
  { s with heap := (listPop s.heap l n).1 }.emit (.listPop l n (decide (n ∈ s.heap.toList l)))

end Sys

/-- A call that has nothing left to do but `irq_leave_protection(state)` and to return. -/
inductive Fn
  | taskDispatch
  | reinMutexLock (m : MutexPtr)
  | reinMutexUnlock (m : MutexPtr)
  | semWait (s : SemPtr)
  | semNotify (s : SemPtr)
  | semCount (s : SemPtr)
  | sysSleep
  | sysSchedYield
  | taskInit
  /-- The timer interrupt, which ends with `iret`. -/
  | timer
  deriving DecidableEq, Repr

/-- What is left of a call: the flags word it saved on entry. -/
structure Epilogue where
  fn : Fn
  state : BitVec 32
  deriving DecidableEq, Repr

end OsToyI386
