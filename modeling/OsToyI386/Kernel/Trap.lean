import OsToyI386.Kernel.Cpu
import OsToyI386.Kernel.Irq
import OsToyI386.Lib.Stack
import OsToyI386.Loader.Loader32

/-!
# Trap entry and exit

The stubs of `init/start.S` instruction by instruction, the gates of `cpu/irq.c` that lead to
them, and what the processor does on an interrupt. All code of the kernel runs on one
privilege level and on one flat stack segment, so the stack does not change and `SS` is left
out.
-/

namespace OsToyI386

open Lib

/-- The registers. -/
structure Regs where
  eax : BitVec 32
  ecx : BitVec 32
  edx : BitVec 32
  ebx : BitVec 32
  esp : BitVec 32
  ebp : BitVec 32
  esi : BitVec 32
  edi : BitVec 32
  ds : BitVec 16
  es : BitVec 16
  fs : BitVec 16
  gs : BitVec 16
  cs : BitVec 16
  eip : BitVec 32
  eflags : BitVec 32
  deriving DecidableEq

structure X86 extends Regs where
  mem : Mem
  /-- What ends up above a selector that is pushed to an address: zeros, what was there, or
  anything else, as the processor likes. -/
  pad : BitVec 32 → BitVec 16

/-- The data selectors, `SS` aside. -/
inductive Seg
  | ds
  | es
  | fs
  | gs
  deriving DecidableEq

namespace X86

def push (s : X86) (v : BitVec 32) : X86 :=
  { s with esp := s.esp - 4#32, mem := setWord s.mem (s.esp - 4#32) v }

@[simp] lemma push_ecx (s : X86) (v : BitVec 32) : (s.push v).ecx = s.ecx := rfl
@[simp] lemma push_edx (s : X86) (v : BitVec 32) : (s.push v).edx = s.edx := rfl
@[simp] lemma push_ebx (s : X86) (v : BitVec 32) : (s.push v).ebx = s.ebx := rfl
@[simp] lemma push_ebp (s : X86) (v : BitVec 32) : (s.push v).ebp = s.ebp := rfl
@[simp] lemma push_esi (s : X86) (v : BitVec 32) : (s.push v).esi = s.esi := rfl
@[simp] lemma push_edi (s : X86) (v : BitVec 32) : (s.push v).edi = s.edi := rfl

/-- A selector takes a word of the stack. -/
def pushSel (s : X86) (sel : BitVec 16) : X86 := s.push (s.pad (s.esp - 4#32) ++ sel)

def pop (s : X86) : BitVec 32 × X86 := (getWord s.mem s.esp, { s with esp := s.esp + 4#32 })

/-- `pusha`: the stack pointer that is pushed is the one before the first push. -/
def pusha (s : X86) : X86 :=
  let temp := s.esp
  let s := s.push s.eax
  let s := s.push s.ecx
  let s := s.push s.edx
  let s := s.push s.ebx
  let s := s.push temp
  let s := s.push s.ebp
  let s := s.push s.esi
  s.push s.edi

/-- `popa`: the stack pointer on the stack is passed over. -/
def popa (s : X86) : X86 :=
  let (edi, s) := s.pop
  let (esi, s) := s.pop
  let (ebp, s) := s.pop
  let (_, s) := s.pop
  let (ebx, s) := s.pop
  let (edx, s) := s.pop
  let (ecx, s) := s.pop
  let (eax, s) := s.pop
  { s with edi, esi, ebp, ebx, edx, ecx, eax }

def pushSeg (s : X86) : Seg → X86
  | .ds => s.pushSel s.ds
  | .es => s.pushSel s.es
  | .fs => s.pushSel s.fs
  | .gs => s.pushSel s.gs

def popSeg (s : X86) (r : Seg) : X86 :=
  let (v, s) := s.pop
  match r with
  | .ds => { s with ds := v.setWidth 16 }
  | .es => { s with es := v.setWidth 16 }
  | .fs => { s with fs := v.setWidth 16 }
  | .gs => { s with gs := v.setWidth 16 }

/-- `iret` without a change of privilege. -/
def iret (s : X86) : X86 :=
  let (eip, s) := s.pop
  let (cs, s) := s.pop
  let (eflags, s) := s.pop
  { s with eip, cs := cs.setWidth 16, eflags }

end X86

/-! ### The stubs -/

/-- The instructions of a stub. -/
inductive Instr
  | pushImm (v : BitVec 32)
  | pusha
  | pushSeg (r : Seg)
  | pushEsp
  /-- The call of the handler; `ret` is the address behind it. -/
  | call (handler ret : BitVec 32)
  | addEsp (n : BitVec 32)
  | popSeg (r : Seg)
  | popa
  | iret

/-- What an instruction does, a `call` up to the first instruction of the handler. `EIP` is
otherwise not followed inside a stub, and the flags that `add` changes are those `iret` takes
back. -/
def Instr.exec (s : X86) : Instr → X86
  | pushImm v => s.push v
  | pusha => s.pusha
  | pushSeg r => s.pushSeg r
  | pushEsp => s.push s.esp
  | call handler ret => { s.push ret with eip := handler }
  | addEsp n => { s with esp := s.esp + n }
  | popSeg r => s.popSeg r
  | popa => s.popa
  | iret => s.iret

/-- One instruction after the other. -/
def execAll (is : List Instr) (s : X86) : X86 := is.foldl Instr.exec s

/-- The macro `exception_handler` up to the call and with it. -/
def stubEntry (num : Int) (withErrCode : Bool) (handler ret : BitVec 32) : List Instr :=
  (if withErrCode then [] else [.pushImm 0#32]) ++
    [.pushImm (BitVec.ofInt 32 num), .pusha, .pushSeg .ds, .pushSeg .es, .pushSeg .fs,
      .pushSeg .gs, .pushEsp, .call handler ret]

/-- The macro behind the call. -/
def stubExit : List Instr :=
  [.addEsp 4#32, .popSeg .gs, .popSeg .fs, .popSeg .es, .popSeg .ds, .popa, .addEsp 8#32, .iret]

/-- What the macro is used for: each exception, and the timer. -/
inductive Stub
  | exn (e : Exn)
  | timer
  deriving DecidableEq

/-- The arguments of the macro, the name aside. -/
def Stub.args : Stub → Int × Bool
  | exn .unknown => (-1, false)
  | exn .divider => (0, false)
  | exn .debug => (1, false)
  | exn .nmi => (2, false)
  | exn .breakpoint => (3, false)
  | exn .overflow => (4, false)
  | exn .boundRange => (5, false)
  | exn .invalidOpcode => (6, false)
  | exn .deviceUnavailable => (7, false)
  | exn .coprocessorSegmentOverrun => (9, false)
  | exn .doubleFault => (8, true)
  | exn .invalidTss => (10, true)
  | exn .segmentNotPresent => (11, true)
  | exn .stackSegmentFault => (12, true)
  | exn .generalProtection => (13, true)
  | exn .pageFault => (14, true)
  | exn .fpuError => (16, false)
  | exn .alignmentCheck => (17, true)
  | exn .machineCheck => (18, false)
  | exn .smdException => (19, false)
  | exn .virtualException => (20, false)
  | exn .controlProtectionException => (21, true)
  | timer => (0x20, false)

/-- `exception_handler_name` up to the handler. -/
def Stub.enter (stub : Stub) (handler ret : BitVec 32) (s : X86) : X86 :=
  execAll (stubEntry stub.args.1 stub.args.2 handler ret) s

/-- `exception_handler_name` from the return of the handler on. -/
def leaveStub (s : X86) : X86 := execAll stubExit s

/-- The frame as the handler finds it: the words from a pointer on, in the order of the
fields of `exception_frame_t`. -/
def frameAt (m : Mem) (frame : BitVec 32) : ExceptionFrame :=
  let field (i : Nat) := getWord m (frame + BitVec.ofNat 32 (4 * i))
  { gs := field 0, fs := field 1, es := field 2, ds := field 3
    edi := field 4, esi := field 5, ebp := field 6, esp := field 7
    ebx := field 8, edx := field 9, ecx := field 10, eax := field 11
    num := field 12, errorCode := field 13
    eip := field 14, cs := field 15, eflags := field 16 }

/-- The argument of a C function at its first instruction. -/
def X86.arg (s : X86) : BitVec 32 := getWord s.mem (s.esp + 4#32)

/-- `gate_desc_t`. -/
structure GateDesc where
  offset15to0 : BitVec 16
  selector : BitVec 16
  attr : BitVec 16
  offset31to16 : BitVec 16
  deriving DecidableEq

def gateTypeInt : BitVec 16 := 0xE#16 <<< 8
def gatePPresent : BitVec 16 := 1#16 <<< 15
def gateDpl0 : BitVec 16 := 0#16 <<< 13

/-- `gate_desc_set`. -/
def gateDesc (selector : BitVec 16) (offset : BitVec 32) (attr : BitVec 16) : GateDesc :=
  { offset15to0 := (offset &&& 0xFFFF#32).setWidth 16
    selector
    attr
    offset31to16 := ((offset >>> 16) &&& 0xFFFF#32).setWidth 16 }

/-- `irq_install`. -/
def irqInstall (idt : Nat → GateDesc) (irqNum : Nat) (handler : BitVec 32) : Nat → GateDesc :=
  Function.update idt irqNum
    (gateDesc (BitVec.ofInt 16 kernelSelectorCode) handler
      (gatePPresent ||| gateDpl0 ||| gateTypeInt))

def idtTableNr : Nat := 128

/-- The loop of `irq_init` that gives entries `0 .. n - 1` the default. -/
def irqDefault (addr : Stub → BitVec 32) (idt : Nat → GateDesc) : Nat → Nat → GateDesc
  | 0 => idt
  | n + 1 => irqInstall (irqDefault addr idt n) n (addr (.exn .unknown))

/-- The vectors that `irq_init` installs stubs for, in its order. -/
def irqStubs : List (Nat × Exn) :=
  [(0, .divider), (1, .debug), (2, .nmi), (3, .breakpoint), (4, .overflow), (5, .boundRange),
    (6, .invalidOpcode), (7, .deviceUnavailable), (8, .doubleFault),
    (9, .coprocessorSegmentOverrun), (10, .invalidTss), (11, .segmentNotPresent),
    (12, .stackSegmentFault), (13, .generalProtection), (14, .pageFault), (16, .fpuError),
    (17, .alignmentCheck), (18, .machineCheck), (19, .smdException), (20, .virtualException),
    (21, .controlProtectionException)]

/-- `irq_init`; `addr` is where the linker has put the stubs. -/
def irqInit (addr : Stub → BitVec 32) (idt : Nat → GateDesc) : Nat → GateDesc :=
  irqStubs.foldl (fun idt x => irqInstall idt x.1 (addr (.exn x.2)))
    (irqDefault addr idt idtTableNr)

def irq0Timer : Nat := 0x20

/-- The gate that `init_pit` of `dev/timer.c` installs. -/
def initPit (addr : Stub → BitVec 32) (idt : Nat → GateDesc) : Nat → GateDesc :=
  irqInstall idt irq0Timer (addr .timer)

namespace GateDesc

def offset (g : GateDesc) : BitVec 32 := g.offset31to16 ++ g.offset15to0

/-- Type 14: the processor clears `IF` on the way through. -/
def isInterrupt (g : GateDesc) : Bool := g.attr &&& 0xF00#16 == 0xE00#16

end GateDesc

/-- The vectors for which the processor pushes an error code. -/
def pushesErrorCode (vector : Nat) : Bool :=
  vector == 8 || (10 ≤ vector && vector ≤ 14) || vector == 17 || vector == 21

/-- An interrupt through a gate: `EFLAGS`, `CS` and `EIP` are pushed, then the error code if
there is one. `TF` and `NT` are cleared, and `IF` at an interrupt gate. -/
def deliver (g : GateDesc) (vector : Nat) (errorCode : BitVec 32) (s : X86) : X86 :=
  let pushed := ((s.push s.eflags).pushSel s.cs).push s.eip
  let pushed := if pushesErrorCode vector then pushed.push errorCode else pushed
  let mask := if g.isInterrupt then 0x4300#32 else 0x4100#32
  { pushed with cs := g.selector, eip := g.offset, eflags := s.eflags &&& ~~~mask }

end OsToyI386
