import OsToyI386.Lib.Cells
import OsToyI386.Lib.Numerals
import Mathlib.Data.BitVec

/-!
# Formatted output to the serial port

`tools/log.c` and the formatting part of `tools/klib.c`, which call each other. Strings are
lists of characters; the buffer that `kernel_vsprintf` fills is a row of cells, and a pointer
into it a cell number. One call runs alone here: the mutex of `log.c` and the tasks that
contend for it are in `Kernel/Machine`.
-/

namespace OsToyI386

open Lib

/-- A character literal. -/
def ch (c : Char) : BitVec 8 := BitVec.ofNat 8 c.toNat

/-- The characters of a string literal. -/
def lit (s : String) : List (BitVec 8) := s.toList.map ch

/-- A NUL-terminated string in the 32-bit address space, without its NUL. -/
structure CString where
  bytes : List (BitVec 8)
  nonzero : 0#8 ∉ bytes
  fits : bytes.length < 2 ^ 32

/-- `kernel_strlen`. -/
def CString.strlen (s : CString) : BitVec 32 := BitVec.ofNat 32 s.bytes.length

/-- The object that a `char *` points into; `writes` is ghost state, the cells written. -/
structure CharBuf where
  bytes : Nat → BitVec 8
  writes : List Nat

def CharBuf.put (b : CharBuf) (p : Nat) (x : BitVec 8) : CharBuf :=
  ⟨Function.update b.bytes p x, b.writes ++ [p]⟩

/-- An access to a port of COM1. -/
inductive PortOp
  /-- `inb(COM1_PORT + 5)` and what it returned. -/
  | lineStatus (v : BitVec 8)
  /-- `outb(COM1_PORT, b)`. -/
  | data (b : BitVec 8)
  deriving DecidableEq

/-- The UART, and what a `char str_buf[128]` holds before it is used. `lineStatus` is what
the reads of the line status return one after the other. Ghost state: the accesses, and
`str_buf` as each call of `kernel_vsprintf` has left it. -/
structure Console where
  lineStatus : Nat → BitVec 8
  polls : Nat
  stack : Nat → BitVec 8
  trace : List PortOp
  strBufs : List CharBuf

/-- How code ends that does not return. -/
inductive Fault
  /-- `for(;;){}`. -/
  | spin
  /-- `for(;;) { hlt(); }`. -/
  | halt
  /-- `va_arg` without a fitting argument. -/
  | undefined
  deriving DecidableEq

abbrev Code := ExceptT Fault (StateM Console)

/-- Runs code to its end. -/
def Code.exec {α : Type} (x : Code α) (s : Console) : Except Fault α × Console :=
  (ExceptT.run x).run s

/-- `inb(COM1_PORT + 5)`. -/
def inLineStatus : Code (BitVec 8) :=
  modifyGet fun s => (s.lineStatus s.polls,
    { s with polls := s.polls + 1, trace := s.trace ++ [.lineStatus (s.lineStatus s.polls)] })

/-- `outb(COM1_PORT, b)`. -/
def outCom1 (b : BitVec 8) : Code Unit := modify fun s => { s with trace := s.trace ++ [.data b] }

/-- `while (inb(COM1_PORT + 5) & (1<<6) == 0) {}`: the comparison binds tighter than `&`. -/
def waitLoop : Nat → Code Unit
  | 0 => throw .spin
  | fuel + 1 => do
    let v ← inLineStatus
    let mask : BitVec 32 := if 1#32 <<< 6 = 0#32 then 1#32 else 0#32
    if v.setWidth 32 &&& mask ≠ 0#32 then waitLoop fuel

/-- `while(*p != '\0')` over a string. -/
def printString : List (BitVec 8) → Code Unit
  | [] => pure ()
  | c :: msg => do
    waitLoop (2 ^ 32)
    outCom1 c
    printString msg

/-- `log_println`. -/
def logPrintln (msg : List (BitVec 8)) : Code Unit := do
  printString msg
  outCom1 (ch '\r')
  outCom1 (ch '\n')

/-! ### `kernel_itoa` -/

/-- `num2ch[i]`. -/
def num2ch (i : Int) : BitVec 8 := (lit "0123456789ABCDEF").getD i.toNat 0

/-- `do { *p++ = num2ch[..]; num /= base; } while (num)`; a 32-bit number has at most 32
digits, and no operation on it overflows. -/
def digitLoop : Nat → (num base : Int) → (p : Nat) → CharBuf → Nat × CharBuf
  | 0, _, _, p, b => (p, b)
  | fuel + 1, num, base, p, b =>
    let b := b.put p (num2ch (if num > 0 then num.tmod base else -(num.tmod base)))
    let num := num.tdiv base
    if num ≠ 0 then digitLoop fuel num base (p + 1) b else (p + 1, b)

/-- `while (start < end)`: the two ends change places and move inwards. -/
def reverseLoop : Nat → (start stop : Nat) → CharBuf → CharBuf
  | 0, _, _, b => b
  | fuel + 1, start, stop, b =>
    if start < stop then
      let c := b.bytes start
      let b := b.put start (b.bytes stop)
      let b := b.put stop c
      reverseLoop fuel (start + 1) (stop - 1) b
    else b

/-- `kernel_itoa`: the pointer it returns, and the buffer. -/
def kernelItoa (buf : Nat) (num base : Int) (b : CharBuf) : Code (Nat × CharBuf) :=
  if base ≠ 2 ∧ base ≠ 10 ∧ base ≠ 16 then do
    logPrintln (lit "kernel_itoa: base is a invalid value")
    throw .spin
  else if num < 0 ∧ base = 16 then do
    logPrintln (lit "kernel_itoa: base16 when num < 0")
    throw .spin
  else
    let flag := if num < 0 ∧ base = 10 then 1 else 0
    let b := if num < 0 ∧ base = 10 then b.put buf (ch '-') else b
    let (p, b) := digitLoop 32 num base (buf + flag) b
    pure (p, reverseLoop 32 (buf + flag) (p - 1) b)

/-! ### `kernel_vsprintf` -/

/-- What stands in the variable part of an argument list: a `const char *` or an `int`. -/
inductive Arg
  | str (s : CString)
  | int (v : BitVec 32)

/-- `va_arg(args, const char *)`. -/
def vaStr : List Arg → Code (CString × List Arg)
  | .str s :: args => pure (s, args)
  | _ => throw .undefined

/-- `va_arg(args, int)`. -/
def vaInt : List Arg → Code (BitVec 32 × List Arg)
  | .int v :: args => pure (v, args)
  | _ => throw .undefined

/-- `while (len --) { *current++ = *str++; }`. -/
def copyString : Nat → List (BitVec 8) → (current : Nat) → CharBuf → Nat × CharBuf
  | 0, _, current, b => (current, b)
  | len + 1, str, current, b =>
    copyString len str.tail (current + 1) (b.put current (str.headD 0))

/-- The states of the machine that reads the format. -/
inductive FmtState
  | normal
  | readFmt

/-- `while ((ch = *fmt++))`. -/
def vsprintfLoop : (fmt : List (BitVec 8)) → FmtState → List Arg → (current : Nat) → CharBuf →
    Code (Nat × CharBuf)
  | [], _, _, current, b => pure (current, b)
  | c :: fmt, .normal, args, current, b =>
    if c = ch '%' then vsprintfLoop fmt .readFmt args current b
    else vsprintfLoop fmt .normal args (current + 1) (b.put current c)
  | c :: fmt, .readFmt, args, current, b => do
    if c = ch 's' then
      let (str, args) ← vaStr args
      let (current, b) := copyString str.strlen.toNat str.bytes current b
      vsprintfLoop fmt .normal args current b
    else if c = ch 'd' then
      let (num, args) ← vaInt args
      let (current, b) ← kernelItoa current num.toInt 10 b
      vsprintfLoop fmt .normal args current b
    else if c = ch 'x' then
      let (num, args) ← vaInt args
      let (current, b) ← kernelItoa current num.toInt 16 b
      vsprintfLoop fmt .normal args current b
    else if c = ch 'c' then
      let (num, args) ← vaInt args
      vsprintfLoop fmt .normal args (current + 1) (b.put current (num.setWidth 8))
    else if c = ch '%' then
      vsprintfLoop fmt .normal args (current + 1) (b.put current (ch '%'))
    else
      vsprintfLoop fmt .normal args (current + 1) (b.put current (ch '?'))

/-- `kernel_vsprintf`: the buffer, and where the NUL stands that is written last. -/
def kernelVsprintf (buf : Nat) (fmt : CString) (args : List Arg) (b : CharBuf) :
    Code (Nat × CharBuf) := do
  let (current, b) ← vsprintfLoop fmt.bytes .normal args buf b
  return (current, b.put current 0)

/-- `while(*p != '\0')` over `str_buf`, whose last character is `n` characters away. -/
def printBuf : Nat → (p : Nat) → CharBuf → Code Unit
  | 0, _, _ => pure ()
  | n + 1, p, b =>
    if b.bytes p ≠ 0 then do
      waitLoop (2 ^ 32)
      outCom1 (b.bytes p)
      printBuf n (p + 1) b
    else pure ()

/-- `log_printfln`. -/
def logPrintfln (fmt : CString) (args : List Arg) : Code Unit := do
  let s ← get
  let (n, b) ← kernelVsprintf 0 fmt args ⟨s.stack, []⟩
  modify fun s => { s with strBufs := s.strBufs ++ [b] }
  printBuf n 0 b
  outCom1 (ch '\r')
  outCom1 (ch '\n')

end OsToyI386
