import OsToyI386.Kernel.Trap
import OsToyI386.Loader.Drive

/-!
# From real mode to the kernel

`enter_protect_mode` of `loader16.c`, `protect_entry` of the loader's `start.S`, `load_kernel`
with the commands to the drive and the call of the kernel, and `_start` of the kernel.
-/

namespace OsToyI386

open Lib

/-- Besides the registers of the kernel's code: `SS`, what the processor keeps of the
descriptors of the code segment and of the data segments, `CR0`, the GDTR, and the port that
opens the A20 line. -/
structure LoaderCpu extends X86 where
  ss : BitVec 16
  csCache : SegmentDesc
  dataCache : SegmentDesc
  cr0 : BitVec 32
  gdtBase : BitVec 32
  gdtLimit : BitVec 16
  port92 : BitVec 8

/-- A descriptor in memory. -/
def descAt (m : Mem) (a : BitVec 32) : SegmentDesc :=
  { limit15to0 := readHalf m a
    base15to0 := readHalf m (a + 2)
    base23to16 := m (a + 4)
    attr := readHalf m (a + 5)
    base31to24 := m (a + 7) }

namespace SegmentDesc

/-- Present, and a code segment. -/
def isCode (d : SegmentDesc) : Bool := d.attr &&& 0x98#16 == 0x98#16

/-- Present, and a data segment that may be written to. -/
def isData (d : SegmentDesc) : Bool := d.attr &&& 0x9A#16 == 0x92#16

end SegmentDesc

namespace LoaderCpu

/-- `lgdt`. Sixteen-bit code takes 24 bits of the address. -/
def lgdt (startAddr size : BitVec 32) (s : LoaderCpu) : LoaderCpu :=
  let start32to16 : BitVec 16 := (startAddr >>> 16).setWidth 16
  let start15to0 : BitVec 16 := (startAddr &&& 0xFFFF#32).setWidth 16
  { s with
    gdtLimit := (size - 1#32).setWidth 16
    gdtBase := (start32to16 ++ start15to0) &&& 0xFFFFFF#32 }

/-- `read_cr0` returns a byte. -/
def readCr0 (s : LoaderCpu) : BitVec 8 := s.cr0.setWidth 8

/-- The descriptor that a selector names. The first entry is none, and the table ends. -/
def descriptor (s : LoaderCpu) (sel : BitVec 16) : Option SegmentDesc :=
  if 8 ≤ sel.toNat ∧ sel.toNat + 7 ≤ s.gdtLimit.toNat then
    some (descAt s.mem (s.gdtBase + sel.setWidth 32))
  else none

/-- A far jump to a code segment; nothing else is jumped to. -/
def farJump (sel : BitVec 16) (offset : BitVec 32) (s : LoaderCpu) : Option LoaderCpu := do
  let d ← s.descriptor sel
  if d.isCode then some { s with cs := sel, eip := offset, csCache := d } else none

/-- The moves of `%ax` to `DS`, `SS`, `ES`, `FS` and `GS`. -/
def loadData (s : LoaderCpu) : Option LoaderCpu := do
  let sel := s.eax.setWidth 16
  let d ← s.descriptor sel
  if d.isData then
    some { s with ds := sel, ss := sel, es := sel, fs := sel, gs := sel, dataCache := d }
  else none

end LoaderCpu

/-- `gdt_table` of `loader16.c`. -/
def loaderGdt : List (BitVec 16) :=
  [0, 0, 0, 0, 0xFFFF, 0x0000, 0x9A00, 0x00CF, 0xFFFF, 0x0000, 0x9200, 0x00CF]

/-- Where the linker has put things: the loader's code and data stand in `size` bytes from
`start` on, and `loaderRet` and `kernelRet` are the addresses behind the two calls. -/
structure LoaderSymbols where
  start : BitVec 32
  size : Nat
  gdtTable : BitVec 32
  protectEntry : BitVec 32
  loadKernel : BitVec 32
  bootInfo : BitVec 32
  loaderRet : BitVec 32
  kernelInit : BitVec 32
  kernelRet : BitVec 32
  low : gdtTable.toNat < 2 ^ 24
  table : ∀ k < 24, Within (gdtTable + BitVec.ofNat 32 k) start size

/-- What the compiler adds to the statements of a function between the stack pointers `top` and
`bottom`: other values in the general registers and the arithmetic flags, and writes to the
frames on the stack. No pointer of the loader leads to its stack, so that it does not matter
where between its other accesses a function makes these writes. -/
structure Scratch (stack : Set (BitVec 32)) (top bottom : BitVec 32) where
  run : LoaderCpu → LoaderCpu
  rest : ∀ s, run s = { s with
    eax := (run s).eax, ecx := (run s).ecx, edx := (run s).edx, ebx := (run s).ebx
    esp := (run s).esp, ebp := (run s).ebp, esi := (run s).esi, edi := (run s).edi
    eflags := (run s).eflags, mem := (run s).mem }
  interrupts : ∀ s, (run s).eflags.getLsbD 9 = s.eflags.getLsbD 9
  pointer : ∀ s, s.esp = top → (run s).esp = bottom
  mem : ∀ s, s.esp = top → ∀ a ∉ stack, (run s).mem a = s.mem a

/-- The frames of the loader's C functions from `top` on, with the stack pointer behind each,
and with room below for the four words of the call of the kernel. -/
structure Frames where
  stack : Set (BitVec 32)
  top : BitVec 32
  entered : BitVec 32
  loading : BitVec 32
  read : BitVec 32
  reloaded : BitVec 32
  enterProtectMode : Scratch stack top entered
  loadKernel : Scratch stack entered loading
  readDisk : Scratch stack loading read
  reloadElfFile : Scratch stack read reloaded
  room : ∀ a, Within a (reloaded - 16#32) 16 → a ∈ stack

namespace LoaderCpu

variable (y : LoaderSymbols) (f : Frames)

/-- `enter_protect_mode`. -/
def enterProtectMode (s : LoaderCpu) : Option LoaderCpu :=
  let s := f.enterProtectMode.run s
  let s := { s with eflags := s.eflags &&& ~~~(0x200#32) }
  let v := s.port92
  let s := { s with port92 := v ||| 0b10#8 }
  let s := s.lgdt y.gdtTable 24#32
  let cr0 : BitVec 32 := s.readCr0.setWidth 32
  let s := { s with cr0 := cr0 ||| 1#32 <<< 0 }
  s.farJump 8#16 y.protectEntry

/-- `protect_entry`. -/
def protectEntry (s : LoaderCpu) : Option LoaderCpu := do
  let s := { s with eax := s.eax.extractLsb' 16 16 ++ 16#16 }
  let s ← s.loadData
  s.farJump 8#16 y.loadKernel

/-- `load_kernel` with the drive behind its ports. The kernel's entry is called with a pointer
to `boot_info`. -/
def loadKernel (d : Drive) (fuel : Nat) (s : LoaderCpu) : Option (Boot × LoaderCpu) := do
  let s := f.loadKernel.run s
  let (_, m) ← d.readDisk fuel (BitVec.ofNat 32 kernelBeginSector)
    (BitVec.ofNat 32 kernelMaxSectorsInSize) sysKernelLoadAddr s.mem
  let s := f.readDisk.run { s with mem := m }
  let (kernelEntry, l) := OsToyI386.reloadElfFile sysKernelLoadAddr s.mem
  let s := f.reloadElfFile.run { s with mem := l.mem }
  if kernelEntry = 0 then some (.hang, s)
  else
    let x := (s.toX86.push y.bootInfo).push y.loaderRet
    some (.kernel kernelEntry, { s with toX86 := { x with eip := kernelEntry } })

/-- The loader from `enter_protect_mode` on. -/
def boot (d : Drive) (fuel : Nat) (s : LoaderCpu) : Option (Boot × LoaderCpu) := do
  let s ← s.enterProtectMode y f
  let s ← s.protectEntry y
  s.loadKernel y f d fuel

end LoaderCpu

/-- `_start` of the kernel up to the first instruction of `kernel_init`. -/
def kernelStart (y : LoaderSymbols) (s : X86) : X86 :=
  let s := { s with eax := getWord s.mem (s.esp + 4#32) }
  let s := s.push s.eax
  { s.push y.kernelRet with eip := y.kernelInit }

end OsToyI386
