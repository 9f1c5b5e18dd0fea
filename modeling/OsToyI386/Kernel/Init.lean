import OsToyI386.Kernel.Machine
import OsToyI386.Tools.Rendering

/-!
# The first tasks

`init/init.c`: what `init_main` and `new_task_entry` call, one call after the other. A task's
own code is a program, and a context that follows its program calls nothing else.
-/

namespace OsToyI386

open Lib

/-- The text that `log_printfln` makes of a format. -/
def logText (fmt : String) (args : List Arg) : List (BitVec 8) := render (tokens (lit fmt)) args

/-- The calls of a context's own code, numbered from 0. -/
abbrev Program := Nat → Option Op

/-- The first `n` calls. -/
def Program.calls (p : Program) (n : Nat) : List Op := (List.range n).filterMap p

/-- The static objects of `init.c`. -/
structure InitObjects where
  notifyTaskPrint : SemPtr
  newTask : Nat
  newTaskEntry : BitVec 32
  newTaskStack : BitVec 32

namespace InitObjects

variable (o : InitObjects)

/-- `"my new task"`. -/
def newTaskReq : InitReq :=
  ⟨.obj o.newTask, lit "my new task", o.newTaskEntry, o.newTaskStack + 4096#32⟩

/-- `log_printfln("sending notify: %d", count++)`. -/
def sendingNotify (count : Nat) : List (BitVec 8) :=
  logText "sending notify: %d" [.int (BitVec.ofNat 32 count)]

/-- `log_printfln("recv notify: %d", count++)`. -/
def recvNotify (count : Nat) : List (BitVec 8) :=
  logText "recv notify: %d" [.int (BitVec.ofNat 32 count)]

/-- `init_main` from `irq_enable_global()` on. -/
def initMain : Program
  | 0 => some .irqEnableGlobal
  | 1 => some (.taskInit o.newTaskReq)
  | i + 2 =>
    match i % 3 with
    | 0 => some (.log (sendingNotify (i / 3)))
    | 1 => some (.semNotify o.notifyTaskPrint)
    | _ => some (.sysSleep 1000#32)

/-- `new_task_entry`. -/
def newTaskEntryCalls : Program
  | i =>
    match i % 2 with
    | 0 => some (.semWait o.notifyTaskPrint)
    | _ => some (.log (recvNotify (i / 2)))

/-- `init_main` begins in the boot context, with `task_main_init()`. -/
def programs : Ctx → Program
  | none => fun i => if i = 0 then some .taskMainInit else none
  | some .mainTask => o.initMain
  | some .idleTask => fun _ => none
  | some (.obj a) => if a = o.newTask then o.newTaskEntryCalls else fun _ => none

end InitObjects

/-- A machine and the calls that each context's own code has made so far. -/
structure Recorded where
  machine : Machine Sys
  made : Ctx → List Op

/-- The calls that a step of the context `c` adds to those of the context `d`. -/
def Label.calls (c d : Ctx) : Label → List Op
  | call op => if d = c then [op] else []
  | run | tick => []

/-- A step in which own code calls what its program says. -/
def Recorded.Step (programs : Ctx → Program) (x : Recorded) (l : Label) (x' : Recorded) : Prop :=
  x.machine.Step l x'.machine ∧
    (∀ op, l = .call op →
      programs x.machine.running (x.made x.machine.running).length = some op) ∧
    x'.made = fun d => x.made d ++ l.calls x.machine.running d

/-- The boot, before any call. -/
def BootMem.recorded (b : BootMem) : Recorded := ⟨b.machine, fun _ => []⟩

end OsToyI386
