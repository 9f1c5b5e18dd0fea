import OsToyI386.Kernel.Irq
import OsToyI386.Lib.Uart

/-!
# The serial port

`log_init` of `tools/log.c`, which sets up the UART behind the ports of COM1, and `panic` of
`tools/klib.c`, the last to write to it.
-/

namespace OsToyI386

open Lib

def com1Port : BitVec 16 := 0x3F8

/-- A byte to a port of COM1. -/
def outbCom1 (port : BitVec 16) (b : BitVec 8) (u : Uart) : Uart := u.write (port - com1Port) b

/-- The port side of `log_init`. -/
def logInit (u : Uart) : Uart :=
  let u := outbCom1 (com1Port + 1) 0x00 u
  let u := outbCom1 (com1Port + 3) 0x80 u
  let u := outbCom1 (com1Port + 0) 0x3 u
  let u := outbCom1 (com1Port + 1) 0x00 u
  let u := outbCom1 (com1Port + 3) 0x03 u
  let u := outbCom1 (com1Port + 2) 0xc7 u
  outbCom1 (com1Port + 4) 0x0F u

/-- An access of the log to the UART. -/
def PortOp.access (u : Uart) : PortOp → Uart
  | data b => outbCom1 com1Port b u
  | lineStatus _ => u

def assertFormat : CString := ⟨lit "assert failed: %s", by decide, by decide⟩

def fileFormat : CString := ⟨lit "file:%s", by decide, by decide⟩

def lineFormat : CString := ⟨lit "line:%d", by decide, by decide⟩

def funcFormat : CString := ⟨lit "func:%s", by decide, by decide⟩

/-- `panic`. -/
def panic (file : CString) (line : BitVec 32) (func cond : CString) : Code Unit := do
  logPrintfln assertFormat [.str cond]
  logPrintfln fileFormat [.str file]
  logPrintfln lineFormat [.int line]
  logPrintfln funcFormat [.str func]
  throw .halt

end OsToyI386
