import OsToyI386.Kernel.Ipc
import OsToyI386.Lib.Runs

/-!
# Contexts and interleaving

The code that runs with interrupts on is cut into actions between which the timer may
interrupt: `task_init` with `tss_init` and `get_alloc_desc`, `task_main_init`, the log
functions. A context stands at a `Pc` of that code with a stack of epilogues still to
run; the one processor runs the context of `task_current()`. A task's own code may make
any call at any time.
-/

namespace OsToyI386

open Lib

/-- Who called `get_alloc_desc`: `tss_init`, or a context's own code, which may hand the
selector on to `segment_desc_set`. -/
inductive AllocFor
  | tssInit (r : InitReq)
  | direct (seg : Option (BitVec 32 × BitVec 32 × BitVec 16))
  deriving DecidableEq

/-- Where a context stands in the code that runs with interrupts on. -/
inductive Pc
  /-- In its own code. -/
  | user
  /-- `rein_mutex_lock(&mutex)` of `get_alloc_desc`. -/
  | allocLock (k : AllocFor)
  /-- The loop test of `get_alloc_desc`, then `desc->attr == 0`. -/
  | allocTest (i : Nat) (k : AllocFor)
  /-- `desc->attr = SEG_P_PRESENT`. -/
  | allocClaim (i : Nat) (k : AllocFor)
  /-- `rein_mutex_unlock(&mutex)`, the same on both return paths. -/
  | allocUnlock (ret : Int) (k : AllocFor)
  | allocReturn (ret : Int) (k : AllocFor)
  /-- `segment_desc_set` of the caller's own descriptor. -/
  | directSet (sel : Int) (seg : Option (BitVec 32 × BitVec 32 × BitVec 16))
  /-- `if (tss_sel < 0) return -1`, then `segment_desc_set`. -/
  | tssInitSet (tssSel : Int) (r : InitReq)
  | tssInitFill (tssSel : Int) (r : InitReq)
  /-- The name check of `task_init`; what `tss_init` returned is not looked at. -/
  | taskInitName (r : InitReq)
  /-- `if(task != &task_manager.idle_task)` and the protected end. -/
  | taskInitReady (r : InitReq)
  | taskInitReturn (r : InitReq) (ret : Int)
  /-- `write_tr` of `task_main_init`. -/
  | mainTr
  /-- `task_manager.curr_task = &task_manager.main_task`. -/
  | mainCurr
  | logLock (text : List (BitVec 8))
  | logBegin (text : List (BitVec 8))
  /-- `while(*p != '\0')` and the poll of the line status. -/
  | logPoll (text rest : List (BitVec 8))
  | logOut (text : List (BitVec 8)) (b : BitVec 8) (rest : List (BitVec 8))
  /-- The line feed behind the carriage return. -/
  | logLf (text : List (BitVec 8))
  | logUnlock (text : List (BitVec 8))
  | logReturn (text : List (BitVec 8))
  deriving DecidableEq

/-- What a context does without a timer interrupt in between. -/
inductive Act
  | nop
  /-- A ghost note. -/
  | note (e : Event)
  | ret (e : Epilogue)
  | timer
  | lock (m : MutexPtr)
  | unlock (m : MutexPtr)
  | wait (s : SemPtr)
  | notify (s : SemPtr)
  | count (s : SemPtr)
  | sleep (ms : BitVec 32)
  | yield
  | dispatch
  | enable
  | disable
  | claim (i : Nat)
  | segSet (sel : Int) (base limit : BitVec 32) (attr : BitVec 16)
  | fill (sel : Int) (r : InitReq)
  | fields (r : InitReq)
  | ready (t : TaskPtr)
  | writeTr
  | becomeMain
  | outb (b : BitVec 8)
  deriving DecidableEq

/-- The note a call leaves when it returns. -/
def Fn.returned (c : Ctx) : Fn → List Event
  | .reinMutexLock m => [.lockReturn c m]
  | .semWait s => [.semReturn c s]
  | _ => []

/-- `desc->attr = SEG_P_PRESENT`. -/
def claimDesc (i : Nat) (p : Cpu) : Cpu := p.setDesc i { p.gdt i with attr := segPPresent }

def setSegment (sel : Int) (base limit : BitVec 32) (attr : BitVec 16) (p : Cpu) : Cpu :=
  { p with gdt := segmentDescSet p.gdt sel base limit attr }

/-- An action on memory and processor, with the epilogues it leaves to its context. -/
def Act.exec (a : Act) (s : Sys) : Sys × List Epilogue :=
  match a with
  | nop => (s, [])
  | note e => (s.emit e, [])
  | ret e =>
    let s := irqLeaveProtection e.state s
    ({ s with trace := s.trace ++ e.fn.returned s.currTask }, [])
  | timer => timerInterrupt s
  | lock m => reinMutexLock m s
  | unlock m => reinMutexUnlock m s
  | wait p => semWait p s
  | notify p => semNotify p s
  | count p => semCount p s
  | sleep ms => sysSleep ms s
  | yield => sysSchedYield s
  | dispatch => taskDispatch s
  | enable => (s.cpu Cpu.sti, [])
  | disable => (s.cpu Cpu.cli, [])
  | claim i => (s.cpu (claimDesc i), [])
  | segSet sel base limit attr => (s.cpu (setSegment sel base limit attr), [])
  | fill sel r => (tssInitFill sel r s, [])
  | fields r => (taskInitFields r s, [])
  | ready t => taskInitReady t s
  | writeTr => (s.cpu (OsToyI386.writeTr (BitVec.ofInt 16 (s.task .mainTask).tssSel)), [])
  | becomeMain => ({ s with currTask := some .mainTask }, [])
  | outb b => (s.emit (.com1 b), [])

/-- The next action at a place in the code, and the place after it. -/
def Pc.next (c : Ctx) (p : Cpu) : Pc → Option (Act × Pc)
  | user => none
  | allocLock k => some (.lock .gdtMutex, allocTest 1 k)
  | allocTest i k =>
    if i < gdtTableSize then
      if (p.gdt i).attr = 0 then some (.nop, allocClaim i k) else some (.nop, allocTest (i + 1) k)
    else some (.nop, allocUnlock (-1) k)
  | allocClaim i k => some (.claim i, allocUnlock (i * 8 : Nat) k)
  | allocUnlock ret k => some (.unlock .gdtMutex, allocReturn ret k)
  | allocReturn ret (.tssInit r) => some (.note (.allocReturn c ret), tssInitSet ret r)
  | allocReturn ret (.direct seg) => some (.note (.allocReturn c ret), directSet ret seg)
  | directSet sel seg =>
    match seg with
    | none => some (.nop, user)
    | some (base, limit, attr) =>
      if sel < 0 then some (.nop, user) else some (.segSet sel base limit attr, user)
  | tssInitSet tssSel r =>
    if tssSel < 0 then some (.nop, taskInitName r)
    else
      some (.segSet tssSel (p.tssAddr r.task) (BitVec.ofNat 32 Tss.size)
        (segPPresent ||| segDpl0 ||| segTypeTss), tssInitFill tssSel r)
  | tssInitFill tssSel r => some (.fill tssSel r, taskInitName r)
  | taskInitName r =>
    if r.nameOk then some (.fields r, taskInitReady r) else some (.nop, taskInitReturn r (-1))
  | taskInitReady r =>
    if r.task ≠ .idleTask then some (.ready r.task, taskInitReturn r 0)
    else some (.nop, taskInitReturn r 0)
  | taskInitReturn r ret =>
    if r.task = .mainTask then some (.note (.initReturn r.task ret), mainTr)
    else some (.note (.initReturn r.task ret), user)
  | mainTr => some (.writeTr, mainCurr)
  | mainCurr => some (.becomeMain, user)
  | logLock text => some (.lock .logMutex, logBegin text)
  | logBegin text => some (.note (.logBegin c text), logPoll text text)
  | logPoll text [] => some (.outb 0x0D#8, logLf text)
  | logPoll text (b :: rest) => some (.nop, logOut text b rest)
  | logOut text b rest => some (.outb b, logPoll text rest)
  | logLf text => some (.outb 0x0A#8, logUnlock text)
  | logUnlock text => some (.unlock .logMutex, logReturn text)
  | logReturn text => some (.note (.logEnd c text), user)

/-- The calls a context's own code can make. -/
inductive Op
  | reinMutexLock (m : MutexPtr)
  | reinMutexUnlock (m : MutexPtr)
  | semWait (s : SemPtr)
  | semNotify (s : SemPtr)
  | semCount (s : SemPtr)
  | sysSleep (ms : BitVec 32)
  | sysSchedYield
  | taskDispatch
  | taskInit (r : InitReq)
  | getAllocDesc (seg : Option (BitVec 32 × BitVec 32 × BitVec 16))
  | log (text : List (BitVec 8))
  | irqEnableGlobal
  | irqDisableGlobal
  | taskMainInit
  deriving DecidableEq

/-- `task_main_init` creates the main task without entry and stack. -/
def mainReq : InitReq := ⟨.mainTask, [0x6D#8, 0x61#8, 0x69#8, 0x6E#8], 0, 0⟩

/-- `IDLE_TASK_NAME`. -/
def idleTaskName : List (BitVec 8) :=
  [0x69#8, 0x64#8, 0x6C#8, 0x65#8, 0x5F#8, 0x74#8, 0x61#8, 0x73#8, 0x6B#8]

namespace Op

/-- The first action of a call and the place after it. -/
def first : Op → Act × Pc
  | reinMutexLock m => (.lock m, .user)
  | reinMutexUnlock m => (.unlock m, .user)
  | semWait s => (.wait s, .user)
  | semNotify s => (.notify s, .user)
  | semCount s => (.count s, .user)
  | sysSleep ms => (.sleep ms, .user)
  | sysSchedYield => (.yield, .user)
  | taskDispatch => (.dispatch, .user)
  | taskInit r => (.nop, .allocLock (.tssInit r))
  | getAllocDesc seg => (.nop, .allocLock (.direct seg))
  | log text => (.nop, .logLock text)
  | irqEnableGlobal => (.enable, .user)
  | irqDisableGlobal => (.disable, .user)
  | taskMainInit => (.nop, .allocLock (.tssInit mainReq))

/-- The `task_t` object that a call starts to use. -/
def creates : Op → List TaskPtr
  | taskInit r => [r.task]
  | taskMainInit => [.mainTask]
  | _ => []

/-- What the boot code may call before `curr_task` is set; it runs with interrupts off. -/
def atBoot : Op → Bool
  | reinMutexLock _ => true
  | reinMutexUnlock _ => true
  | getAllocDesc _ => true
  | log _ => true
  | irqDisableGlobal => true
  | taskMainInit => true
  | _ => false

/-- The mutexes of `cpu.c` and `log.c` are in no header, so that only their own functions lock
and unlock them. -/
def nameable : Op → Bool
  | reinMutexLock (.obj _) | reinMutexUnlock (.obj _) => true
  | reinMutexLock _ | reinMutexUnlock _ => false
  | _ => true

/-- A descriptor set by a context's own code is marked present. -/
def present : Op → Bool
  | getAllocDesc (some (_, _, attr)) => attr.getLsbD 7
  | _ => true

end Op

/-- A context that is not running, or the running one between two actions. -/
structure Ctl where
  pending : List Epilogue
  pc : Pc
  deriving DecidableEq

/-- In its own code, with nothing left to leave. -/
def Ctl.own : Ctl := ⟨[], .user⟩

/-- A state on which the actions act: memory itself, or an abstraction of it. -/
class Kernel (σ : Type) where
  exec : Act → σ → σ × List Epilogue
  cpu : σ → Cpu
  currTask : σ → Option TaskPtr

instance : Kernel Sys := ⟨Act.exec, Sys.toCpu, Sys.currTask⟩

/-- The whole machine. `started` are the `task_t` objects passed to `task_init` so far. -/
structure Machine (σ : Type) where
  sys : σ
  ctl : Ctx → Ctl
  started : List TaskPtr

inductive Label
  /-- The running context goes on. -/
  | run
  /-- The running context's own code makes a call. -/
  | call (op : Op)
  /-- The timer interrupts. -/
  | tick
  deriving DecidableEq

def Label.isTick : Label → Bool
  | tick => true
  | _ => false

namespace Machine

variable {σ : Type} [Kernel σ]

/-- The context that `task_current()` names. -/
def running (m : Machine σ) : Ctx := Kernel.currTask m.sys

/-- Which calls are made: a task calls anything but `task_main_init`, the idle task
nothing, the boot code a few; each `task_t` object is initialised once. -/
def allows (m : Machine σ) (op : Op) : Bool :=
  op.present && op.nameable && op.creates.all (fun t => decide (t ∉ m.started)) &&
    match m.running with
    | none => op.atBoot
    | some t => decide (t ≠ .idleTask) && decide (op ≠ .taskMainInit)

/-- The running context carries out an action, keeps `rest` and goes on at `pc`. The boot
context turns into the main task's when `curr_task` is set. -/
def commit (m : Machine σ) (a : Act) (rest : List Epilogue) (pc : Pc) : Machine σ :=
  let c := m.running
  let r := Kernel.exec a m.sys
  let c' := if a = .becomeMain then some .mainTask else c
  { m with
    sys := r.1
    ctl := Function.update (Function.update m.ctl c .own) c' ⟨r.2 ++ rest, pc⟩ }

/-- One step. Nothing runs after a halt, nor a context that is not the one in the
processor. -/
def step (m : Machine σ) (l : Label) : Option (Machine σ) :=
  let p := Kernel.cpu m.sys
  if p.halt = none ∧ p.runs m.running then
    let k := m.ctl m.running
    match l with
    | .tick => if p.interruptible then some (m.commit .timer k.pending k.pc) else none
    | .run =>
      match k.pending with
      | e :: rest => some (m.commit (.ret e) rest k.pc)
      | [] => (k.pc.next m.running p).map fun (a, pc) => m.commit a [] pc
    | .call op =>
      if k = .own ∧ m.allows op then
        some ({ m with started := op.creates ++ m.started }.commit op.first.1 [] op.first.2)
      else none
  else none

/-- The step relation. -/
def Step (m : Machine σ) (l : Label) (m' : Machine σ) : Prop := m.step l = some m'

end Machine

/-- Memory as the kernel finds it, the addresses of the `tss` fields, the arguments of
`task_init` for the idle task and the counts that the semaphores are initialised with. -/
structure BootMem where
  node : NodePtr → ListNode NodePtr
  task : TaskPtr → Task
  gdt : Nat → SegmentDesc
  tss : BitVec 32 → Tss
  tssAddr : TaskPtr → BitVec 32
  eflags : BitVec 32
  idleEntry : BitVec 32
  idleEsp : BitVec 32
  semCount : SemPtr → Nat

namespace BootMem

/-- After `cpu_init`, the three `list_init` of `task_manager_init` and the initialisation
of every mutex and semaphore. The loader has cleared `IF`. -/
def sys (b : BootMem) : Sys where
  heap := ⟨b.node, fun _ => ⟨none, none, 0⟩⟩
  task := b.task
  currTask := none
  mutex := fun _ => reinMutexInit
  sem := fun s => b.semCount s
  gdt := gdtInit b.gdt
  tssAddr := b.tssAddr
  tss := b.tss
  tr := 0
  eflags := b.eflags &&& ~~~(0x200#32)
  halt := none
  trace := []

/-- `task_manager_init` goes on to create the idle task. -/
def machine (b : BootMem) : Machine Sys where
  sys := b.sys
  ctl := Function.update (fun _ => .own) none
    ⟨[], .allocLock (.tssInit ⟨.idleTask, idleTaskName, b.idleEntry, b.idleEsp⟩)⟩
  started := [.idleTask]

/-- The machine `m` is reached from the boot memory by a run with labels `ls`. -/
def Reaches (b : BootMem) (ls : List Label) (m : Machine Sys) : Prop :=
  Run Machine.Step b.machine ls m

end BootMem

end OsToyI386
