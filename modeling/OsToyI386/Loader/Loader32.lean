import OsToyI386.Lib.Blocks

/-!
# Loading the kernel

`reload_elf_file` and `load_kernel` of `loader32.c` with the layouts of `elf.h`. Addresses,
counters and sizes are 32-bit words that wrap around; a header stays in memory while its
segment is copied, and its fields are read again each time the code names them.
-/

namespace OsToyI386

open Lib

abbrev Mem := BitVec 32 → BitVec 8

/-- A little-endian half word. -/
def readHalf (m : Mem) (a : BitVec 32) : BitVec 16 := m (a + 1) ++ m a

/-- A little-endian word. -/
def readWord (m : Mem) (a : BitVec 32) : BitVec 32 :=
  m (a + 3) ++ (m (a + 2) ++ (m (a + 1) ++ m a))

namespace Ehdr

def eEntry : BitVec 32 := 24
def ePhoff : BitVec 32 := 28
def ePhnum : BitVec 32 := 44
def size : Nat := 52

end Ehdr

namespace Phdr

def pType : BitVec 32 := 0
def pOffset : BitVec 32 := 4
def pPaddr : BitVec 32 := 12
def pFilesz : BitVec 32 := 16
def pMemsz : BitVec 32 := 20
def size : Nat := 32

end Phdr

def ptLoad : BitVec 32 := 1

/-- `e_ident` begins with `ELF_MAGIC0` to `ELF_MAGIC3`. -/
def elfMagic (m : Mem) (fileBuffer : BitVec 32) : Bool :=
  m fileBuffer == 0x7F#8 && m (fileBuffer + 1) == 0x45#8 && m (fileBuffer + 2) == 0x4C#8 &&
    m (fileBuffer + 3) == 0x46#8

/-- An access to a byte. -/
inductive Access
  /-- Read as part of a program header. -/
  | header (a : BitVec 32)
  /-- Read as part of a segment. -/
  | source (a : BitVec 32)
  | write (a : BitVec 32)
  deriving DecidableEq

/-- The memory; `log` is ghost state, the accesses so far. -/
structure Load where
  mem : Mem
  log : List Access

namespace Load

/-- `phdr->field`. -/
def field (s : Load) (phdr off : BitVec 32) : BitVec 32 × Load :=
  let a := phdr + off
  (readWord s.mem a, { s with log := s.log ++ [.header a, .header (a + 1), .header (a + 2),
    .header (a + 3)] })

def writeByte (s : Load) (dest : BitVec 32) (x : BitVec 8) : Load :=
  ⟨Function.update s.mem dest x, s.log ++ [.write dest]⟩

/-- `*(dest++) = *(src++)`. -/
def copyByte (s : Load) (src dest : BitVec 32) : Load :=
  ({ s with log := s.log ++ [Access.source src] }).writeByte dest (s.mem src)

end Load

/-- `for (int j = 0; j < phdr->p_filesz; j++)`: the counter is converted to unsigned for the
comparison, so it never makes `2 ^ 32` turns. -/
def copyLoop : Nat → (phdr j src dest : BitVec 32) → Load → BitVec 32 × Load
  | 0, _, _, _, dest, s => (dest, s)
  | fuel + 1, phdr, j, src, dest, s =>
    let (filesz, s) := s.field phdr Phdr.pFilesz
    if j < filesz then copyLoop fuel phdr (j + 1) (src + 1) (dest + 1) (s.copyByte src dest)
    else (dest, s)

/-- `for (int j = 0; j < fill_bytes; j++)`. -/
def fillLoop : Nat → (j fillBytes dest : BitVec 32) → Load → Load
  | 0, _, _, _, s => s
  | fuel + 1, j, fillBytes, dest, s =>
    if j < fillBytes then fillLoop fuel (j + 1) fillBytes (dest + 1) (s.writeByte dest 0) else s

/-- The body of the loop over the program headers. -/
def loadSegment (fileBuffer phdr : BitVec 32) (s : Load) : Load :=
  let (type, s) := s.field phdr Phdr.pType
  if type ≠ ptLoad then s
  else
    let (offset, s) := s.field phdr Phdr.pOffset
    let (paddr, s) := s.field phdr Phdr.pPaddr
    let (dest, s) := copyLoop (2 ^ 32) phdr 0 (fileBuffer + offset) paddr s
    let (memsz, s) := s.field phdr Phdr.pMemsz
    let (filesz, s) := s.field phdr Phdr.pFilesz
    fillLoop (2 ^ 32) 0 (memsz - filesz) dest s

/-- `for (int i = 0; i < elf_hdr->e_phnum; i++)`: `e_phnum` is a half word. -/
def phdrLoop : Nat → (fileBuffer phdrStart : BitVec 32) → Nat → Load → Load
  | 0, _, _, _, s => s
  | fuel + 1, fileBuffer, phdrStart, i, s =>
    if i < (readHalf s.mem (fileBuffer + Ehdr.ePhnum)).toNat then
      phdrLoop fuel fileBuffer phdrStart (i + 1)
        (loadSegment fileBuffer (phdrStart + BitVec.ofNat 32 (i * Phdr.size)) s)
    else s

/-- `reload_elf_file`: what it returns, and the memory. -/
def reloadElfFile (fileBuffer : BitVec 32) (m : Mem) : BitVec 32 × Load :=
  if elfMagic m fileBuffer then
    let phdrStart := fileBuffer + readWord m (fileBuffer + Ehdr.ePhoff)
    let s := phdrLoop (2 ^ 16) fileBuffer phdrStart 0 ⟨m, []⟩
    (readWord s.mem (fileBuffer + Ehdr.eEntry), s)
  else (0, ⟨m, []⟩)

def sectorSize : Nat := 512
def kernelBeginSector : Nat := 65
def kernelMaxSectorsInSize : Nat := 500

/-- `SYS_KERNEL_LOAD_ADDR`. -/
def sysKernelLoadAddr : BitVec 32 := 1024 * 1024

/-- The disk, sector by sector. -/
abbrev Disk := Nat → Nat → BitVec 8

/-- `read_disk` without the commands to the device: sector after sector to `buf`, the words of
a sector in one piece. -/
def readDisk (disk : Disk) (sector : Nat) : Nat → BitVec 32 → Mem → Mem
  | 0, _, m => m
  | sectorCount + 1, buf, m =>
    readDisk disk (sector + 1) sectorCount (buf + BitVec.ofNat 32 sectorSize)
      (blit m buf (disk sector) sectorSize)

/-- What `load_kernel` ends in. -/
inductive Boot
  /-- `while (1);`. -/
  | hang
  /-- The call of the kernel's entry. -/
  | kernel (entry : BitVec 32)
  deriving DecidableEq

def loadKernel (disk : Disk) (m : Mem) : Boot × Load :=
  let m := readDisk disk kernelBeginSector kernelMaxSectorsInSize sysKernelLoadAddr m
  let (kernelEntry, s) := reloadElfFile sysKernelLoadAddr m
  (if kernelEntry = 0 then .hang else .kernel kernelEntry, s)

end OsToyI386
