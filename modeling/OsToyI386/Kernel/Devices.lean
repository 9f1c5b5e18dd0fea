import OsToyI386.Kernel.Task
import OsToyI386.Kernel.Trap
import OsToyI386.Lib.Pic

/-!
# The interrupt controllers and the timer chip

The port side of `cpu/irq.c` and `dev/timer.c`, over a board with two 8259A controllers and
counter 0 of an 8254.
-/

namespace OsToyI386

open Lib

/-- Counter 0: its control word, the low byte of a value written in two halves, and the value
that it counts down from. -/
structure Pit where
  control : BitVec 8
  low : Option (BitVec 8)
  reload : BitVec 16
  deriving DecidableEq

namespace Pit

/-- The control port. A word with clear access bits latches the count. -/
def writeControl (v : BitVec 8) (p : Pit) : Pit :=
  if v.extractLsb' 6 2 = 0#2 ∧ v.extractLsb' 4 2 ≠ 0#2 then { p with control := v, low := none }
  else p

/-- The data port: the low half, the high half, or one after the other. -/
def writeCounter (v : BitVec 8) (p : Pit) : Pit :=
  if p.control.extractLsb' 4 2 = 1#2 then { p with reload := v.setWidth 16 }
  else if p.control.extractLsb' 4 2 = 2#2 then { p with reload := v ++ 0#8 }
  else
    match p.low with
    | none => { p with low := some v }
    | some low => { p with low := none, reload := v ++ low }

end Pit

/-- What the ports of the two files lead to. -/
structure Board where
  pics : PicPair
  pit : Pit
  deriving DecidableEq

/-- The line of the first controller that the second one hangs on. -/
def cascadeLine : Fin 8 := 2

def pic0Icw1 : BitVec 16 := 0x20
def pic0Icw2 : BitVec 16 := 0x21
def pic0Icw3 : BitVec 16 := 0x21
def pic0Icw4 : BitVec 16 := 0x21
def pic0Ocw2 : BitVec 16 := 0x20
def pic0Imr : BitVec 16 := 0x21

def pic1Icw1 : BitVec 16 := 0xA0
def pic1Icw2 : BitVec 16 := 0xA1
def pic1Icw3 : BitVec 16 := 0xA1
def pic1Icw4 : BitVec 16 := 0xA1
def pic1Ocw2 : BitVec 16 := 0xA0
def pic1Imr : BitVec 16 := 0xA1

def picOcw2Eoi : BitVec 8 := 1 <<< 5
def irqPicStart : Int := 0x20

def pitOscFreq : BitVec 32 := 1193182
def pitChannel0DataPort : BitVec 16 := 0x40
def pitCommandModePort : BitVec 16 := 0x43
def pitChannle0 : BitVec 8 := 0 <<< 6
def pitLoadLohi : BitVec 8 := 3 <<< 4
def pitMode3 : BitVec 8 := 3 <<< 1

namespace Board

/-- A byte to a port; ports that are not on the board are left out. -/
def outb (port : BitVec 16) (v : BitVec 8) (b : Board) : Board :=
  if port = 0x20 then { b with pics.master := b.pics.master.writeCommand v }
  else if port = 0x21 then { b with pics.master := b.pics.master.writeData v }
  else if port = 0xA0 then { b with pics.slave := b.pics.slave.writeCommand v }
  else if port = 0xA1 then { b with pics.slave := b.pics.slave.writeData v }
  else if port = 0x40 then { b with pit := b.pit.writeCounter v }
  else if port = 0x43 then { b with pit := b.pit.writeControl v }
  else b

/-- A byte from one of the two mask ports. -/
def inb (port : BitVec 16) (b : Board) : BitVec 8 :=
  if port = 0x21 then b.pics.master.readData
  else if port = 0xA1 then b.pics.slave.readData
  else 0xFF#8

/-- `pic_send_eoi`. -/
def picSendEoi (irqNum : Int) (b : Board) : Board :=
  let irqNum := irqNum - irqPicStart
  let b := if irqNum ≥ 8 then b.outb pic1Ocw2 picOcw2Eoi else b
  b.outb pic0Ocw2 picOcw2Eoi

/-- The body that `irq_enable` and `irq_disable` share: `f` changes the mask at a bit. -/
def irqMask (f : BitVec 8 → BitVec 8 → BitVec 8) (irqNum : Int) (b : Board) : Board :=
  if irqNum < irqPicStart ∨ irqNum > irqPicStart + 15 then b
  else
    let irqNum := irqNum - irqPicStart
    if irqNum < 8 then
      let mask := f (b.inb pic0Imr) (1#8 <<< irqNum.toNat)
      b.outb pic0Imr mask
    else
      let irqNum := irqNum - 8
      let mask := f (b.inb pic1Imr) (1#8 <<< irqNum.toNat)
      b.outb pic1Imr mask

/-- `irq_enable`. -/
def irqEnable (irqNum : Int) (b : Board) : Board :=
  b.irqMask (fun mask bit => mask &&& ~~~bit) irqNum

/-- `irq_disable`. -/
def irqDisable (irqNum : Int) (b : Board) : Board :=
  b.irqMask (fun mask bit => mask ||| bit) irqNum

/-- `pic_init`. -/
def picInit (b : Board) : Board :=
  let b := b.outb pic0Icw1 0x11#8
  let b := b.outb pic1Icw1 0x11#8
  let b := b.outb pic0Icw2 (BitVec.ofInt 8 irqPicStart)
  let b := b.outb pic1Icw2 (BitVec.ofInt 8 (irqPicStart + 8))
  let b := b.outb pic0Icw3 (1#8 <<< 2)
  let b := b.outb pic1Icw3 2#8
  let b := b.outb pic0Icw4 0x01#8
  let b := b.outb pic1Icw4 0x01#8
  let b := b.outb pic0Imr (0xFF#8 &&& ~~~(1#8 <<< 2))
  b.outb pic1Imr 0xFF#8

/-- `init_pit` without the gate. -/
def initPit (b : Board) : Board :=
  let reloadCount := pitOscFreq * osTicksMs / 1000#32
  let b := b.outb pitCommandModePort (pitChannle0 ||| pitLoadLohi ||| pitMode3)
  let b := b.outb pitChannel0DataPort ((reloadCount &&& 0xFF#32).setWidth 8)
  let b := b.outb pitChannel0DataPort (((reloadCount >>> 8) &&& 0xFF#32).setWidth 8)
  b.irqEnable irq0Timer

end Board

/-- The sixteen lines. -/
inductive IrqLine
  | pic0 (i : Fin 8)
  | pic1 (i : Fin 8)
  deriving DecidableEq

namespace IrqLine

/-- A line's number, as `irq_enable` and `pic_send_eoi` count from `IRQ_PIC_START` on. -/
def num : IrqLine → ℕ
  | pic0 i => i
  | pic1 i => 8 + i

/-- The number that goes with a line. -/
def irqNum (l : IrqLine) : Int := irqPicStart + l.num

/-- The line of the timer chip. -/
def timer : IrqLine := pic0 0

/-- No device is on this line. -/
def cascade : IrqLine := pic0 cascadeLine

/-- The order in which pending lines are served: the lines of the second controller come
between the ones around the line it hangs on. -/
def urgency : IrqLine → ℕ
  | pic0 i => 8 * i
  | pic1 i => 8 * cascadeLine + i

end IrqLine

namespace Board

/-- A device raises its line. -/
def raise (l : IrqLine) (b : Board) : Board :=
  match l with
  | .pic0 i => { b with pics.master := b.pics.master.raise i }
  | .pic1 i => { b with pics.slave := b.pics.slave.raise i }

/-- The processor acknowledges an interrupt. -/
def acknowledge (b : Board) : Option (BitVec 8 × Board) :=
  (b.pics.acknowledge cascadeLine).map fun r => (r.1, { b with pics := r.2 })

end Board

end OsToyI386
