import OsToyI386.Kernel.State

/-!
# Segments and task switching

`cpu/cpu.c`, the fill of a `tss_t` with `tools/klib.c`'s `kernel_memset`, and what the
processor does on `ltr` and on a far jump to a TSS selector.
-/

namespace OsToyI386

def gdtTableSize : Nat := 256
def kernelSelectorCode : Int := 1 * 8
def kernelSelectorData : Int := 2 * 8

def segGGranularity4K : BitVec 16 := 1#16 <<< 15
def segDbDoubleByte : BitVec 16 := 1#16 <<< 14
def segPPresent : BitVec 16 := 1#16 <<< 7
def segDpl0 : BitVec 16 := 0#16 <<< 5
def segSNormal : BitVec 16 := 1#16 <<< 4
def segTypeCode : BitVec 16 := 1#16 <<< 3
def segTypeData : BitVec 16 := 0#16 <<< 3
def segTypeTss : BitVec 16 := 9#16 <<< 0
def segTypeRw : BitVec 16 := 1#16 <<< 1

def eflagsDefault : BitVec 32 := 1#32 <<< 1
def eflagsIf : BitVec 32 := 1#32 <<< 9

/-! ### The GDT -/

/-- The descriptor that `segment_desc_set` writes. A limit of more than 20 bits is kept
in units of 4 KiB; its upper four bits stand inside `attr`. -/
def segmentDesc (base limit : BitVec 32) (attr : BitVec 16) : SegmentDesc :=
  let attr' := if limit > 0xFFFFF#32 then attr ||| segGGranularity4K else attr
  let limit' := if limit > 0xFFFFF#32 then limit / 0x1000#32 else limit
  { limit15to0 := (limit' &&& 0xFFFF#32).setWidth 16
    base15to0 := (base &&& 0xFFFF#32).setWidth 16
    base23to16 := ((base >>> 16) &&& 0xFF#32).setWidth 8
    attr := attr' ||| ((((limit' >>> 16) &&& 0xF#32) <<< 8).setWidth 16)
    base31to24 := ((base >>> 24) &&& 0xFF#32).setWidth 8 }

/-- `segment_desc_set`: the selector counts bytes, eight a descriptor. -/
def segmentDescSet (gdt : Nat → SegmentDesc) (selector : Int) (base limit : BitVec 32)
    (attr : BitVec 16) : Nat → SegmentDesc :=
  Function.update gdt (selector / 8).toNat (segmentDesc base limit attr)

/-- The loop of `gdt_init` that clears entries `0 .. n - 1`. -/
def gdtClear (gdt : Nat → SegmentDesc) : Nat → Nat → SegmentDesc
  | 0 => gdt
  | n + 1 => segmentDescSet (gdtClear gdt n) (n * 8 : Nat) 0 0 0

def gdtInit (gdt : Nat → SegmentDesc) : Nat → SegmentDesc :=
  let gdt := gdtClear gdt gdtTableSize
  let gdt := segmentDescSet gdt kernelSelectorCode 0 0xFFFFFFFF#32
    (segPPresent ||| segDpl0 ||| segSNormal ||| segTypeCode ||| segDbDoubleByte)
  segmentDescSet gdt kernelSelectorData 0 0xFFFFFFFF#32
    (segPPresent ||| segDpl0 ||| segSNormal ||| segTypeData ||| segTypeRw ||| segDbDoubleByte)

namespace SegmentDesc

/-- The base address that the processor reads from the three fields. -/
def base (d : SegmentDesc) : BitVec 32 := d.base31to24 ++ (d.base23to16 ++ d.base15to0)

/-- Present, a system segment, type 9: a TSS that is not busy. -/
def isAvailableTss (d : SegmentDesc) : Bool := d.attr &&& 0x9F#16 == 0x89#16

/-- Present, a system segment, type 11: a busy TSS. -/
def isBusyTss (d : SegmentDesc) : Bool := d.attr &&& 0x9F#16 == 0x8B#16

def setBusy (d : SegmentDesc) : SegmentDesc := { d with attr := d.attr ||| 2#16 }

def clearBusy (d : SegmentDesc) : SegmentDesc := { d with attr := d.attr &&& ~~~(2#16) }

end SegmentDesc

/-! ### The bytes of a TSS -/

/-- `kernel_memset`: the loop writes the byte `size` times, and the pointer never moves. -/
def kernelMemset (mem : Nat → BitVec 8) (dest : Nat) (c : BitVec 8) : Nat → Nat → BitVec 8
  | 0 => mem
  | size + 1 => kernelMemset (Function.update mem dest c) dest c size

/-- Writes a 32-bit field, little-endian. -/
def putDword (mem : Nat → BitVec 8) (off : Nat) (v : BitVec 32) : Nat → BitVec 8 :=
  fun i =>
    if i = off then v.setWidth 8
    else if i = off + 1 then (v >>> 8).setWidth 8
    else if i = off + 2 then (v >>> 16).setWidth 8
    else if i = off + 3 then (v >>> 24).setWidth 8
    else mem i

/-- Reads a 32-bit field. -/
def getDword (mem : Nat → BitVec 8) (off : Nat) : BitVec 32 :=
  mem (off + 3) ++ (mem (off + 2) ++ (mem (off + 1) ++ mem off))

namespace Tss

/-! The offsets of the fields of the packed `tss_t`, and its size. -/

def esp0 : Nat := 4
def ss0 : Nat := 8
def eip : Nat := 32
def eflags : Nat := 36
def esp : Nat := 56
def es : Nat := 72
def cs : Nat := 76
def ss : Nat := 80
def ds : Nat := 84
def fs : Nat := 88
def gs : Nat := 92
def size : Nat := 104

/-- The assignments of `tss_init`, in its order. -/
def fill (tss : Tss) (entry sp : BitVec 32) : Tss :=
  let tss := kernelMemset tss 0 0 size
  let tss := putDword tss eip entry
  let tss := putDword tss esp0 sp
  let tss := putDword tss esp sp
  let tss := putDword tss ss0 (BitVec.ofInt 32 kernelSelectorData)
  let tss := putDword tss ss (BitVec.ofInt 32 kernelSelectorData)
  let tss := putDword tss gs (BitVec.ofInt 32 kernelSelectorData)
  let tss := putDword tss fs (BitVec.ofInt 32 kernelSelectorData)
  let tss := putDword tss ds (BitVec.ofInt 32 kernelSelectorData)
  let tss := putDword tss es (BitVec.ofInt 32 kernelSelectorData)
  let tss := putDword tss cs (BitVec.ofInt 32 kernelSelectorCode)
  putDword tss eflags (eflagsIf ||| eflagsDefault)

end Tss

/-! ### The processor -/

/-- The GDT entry a selector names. -/
def selIndex (sel : BitVec 16) : Nat := sel.toNat / 8

/-- A selector of a GDT entry inside the table, not the null one, with clear `TI` and `RPL`. -/
def selInGdt (sel : BitVec 16) : Bool :=
  sel &&& 7#16 == 0#16 && decide (0 < selIndex sel) && decide (selIndex sel < gdtTableSize)

/-- A far jump to a selector. It faults unless the selector names an available TSS.
Otherwise the context is saved in the TSS named by `TR`, whose descriptor is no longer
busy, and the target's context is loaded; of a context only `EFLAGS` is kept here, where
the code goes on is kept by the machine. -/
def farJump (sel : BitVec 16) (p : Cpu) : Cpu :=
  if selInGdt sel && (p.gdt (selIndex sel)).isAvailableTss then
    let old := selIndex p.tr
    let saved := putDword (p.tss (p.gdt old).base) Tss.eflags p.eflags
    let p := { p with tss := Function.update p.tss (p.gdt old).base saved }
    let p := p.setDesc old (p.gdt old).clearBusy
    let p := p.setDesc (selIndex sel) (p.gdt (selIndex sel)).setBusy
    { p with tr := sel, eflags := getDword (p.tss (p.gdt (selIndex sel)).base) Tss.eflags }
  else p.die .cpuFault

/-- `ltr`. -/
def writeTr (sel : BitVec 16) (p : Cpu) : Cpu :=
  if selInGdt sel && (p.gdt (selIndex sel)).isAvailableTss then
    { p.setDesc (selIndex sel) (p.gdt (selIndex sel)).setBusy with tr := sel }
  else p.die .cpuFault

/-- The processor reads the low 16 bits of the selector. -/
def switchToTss (tssSel : Int) (p : Cpu) : Cpu := farJump (BitVec.ofInt 16 tssSel) p

/-- The context in the processor is the one of `curr_task`: `TR` names its TSS. -/
def Cpu.runs (p : Cpu) (currTask : Option TaskPtr) : Bool :=
  match currTask with
  | none => true
  | some t => (p.gdt (selIndex p.tr)).base == p.tssAddr t

def irqEnterProtection (s : Sys) : BitVec 32 × Sys := (s.eflags, s.cpu Cpu.cli)

def irqLeaveProtection (state : BitVec 32) (s : Sys) : Sys :=
  s.cpu fun p => { p with eflags := state }

end OsToyI386
