import Mathlib.Data.BitVec

/-!
# The 16550 UART

What the processor can write of it. While the latch bit of the line control is set the first
two ports lead to the divisor, otherwise to the transmitter and the interrupt enables. What
becomes of a byte once the transmitter has it is left out.
-/

namespace OsToyI386.Lib

/-- A byte for the transmitter, with the divisor and the line control that it finds. -/
structure Handed where
  byte : BitVec 8
  divisor : BitVec 16
  format : BitVec 8
  deriving DecidableEq

structure Uart where
  ier : BitVec 8
  fcr : BitVec 8
  lcr : BitVec 8
  mcr : BitVec 8
  divisorLow : BitVec 8
  divisorHigh : BitVec 8
  handed : List Handed
  deriving DecidableEq

namespace Uart

/-- The divisor latch access bit. -/
def latch (u : Uart) : Bool := u.lcr.getLsbD 7

def divisor (u : Uart) : BitVec 16 := u.divisorHigh ++ u.divisorLow

def transmit (b : BitVec 8) (u : Uart) : Uart :=
  { u with handed := u.handed ++ [⟨b, u.divisor, u.lcr⟩] }

/-- A byte to the register at an offset. Status registers and the scratch register, which
does nothing, are left out. -/
def write (offset : BitVec 16) (b : BitVec 8) (u : Uart) : Uart :=
  if offset = 0 then if u.latch then { u with divisorLow := b } else u.transmit b
  else if offset = 1 then
    if u.latch then { u with divisorHigh := b } else { u with ier := b &&& 0x0F }
  else if offset = 2 then { u with fcr := b }
  else if offset = 3 then { u with lcr := b }
  else if offset = 4 then { u with mcr := b &&& 0x1F }
  else u

@[simp] lemma write_zero (b : BitVec 8) (u : Uart) :
    u.write 0#16 b = if u.latch then { u with divisorLow := b } else u.transmit b := by
  unfold write
  rw [if_pos (by decide)]

@[simp] lemma write_one (b : BitVec 8) (u : Uart) :
    u.write 1#16 b =
      if u.latch then { u with divisorHigh := b } else { u with ier := b &&& 0x0F } := by
  unfold write
  rw [if_neg (by decide), if_pos (by decide)]

@[simp] lemma write_two (b : BitVec 8) (u : Uart) : u.write 2#16 b = { u with fcr := b } := rfl

@[simp] lemma write_three (b : BitVec 8) (u : Uart) : u.write 3#16 b = { u with lcr := b } := rfl

@[simp] lemma write_four (b : BitVec 8) (u : Uart) :
    u.write 4#16 b = { u with mcr := b &&& 0x1F } := rfl

lemma foldl_transmit (bs : List (BitVec 8)) (u : Uart) (h : u.latch = false) :
    bs.foldl (fun u b => u.write 0#16 b) u =
      { u with handed := u.handed ++ bs.map fun b => ⟨b, u.divisor, u.lcr⟩ } := by
  induction bs generalizing u with
  | nil => simp
  | cons b bs ih =>
    have hwrite : u.write 0#16 b = u.transmit b := by
      rw [write_zero, h]
      rfl
    rw [List.foldl_cons, hwrite, ih (u.transmit b) h]
    simp [transmit, divisor]

end Uart

end OsToyI386.Lib
