import OsToyI386.Loader.Loader32

/-!
# The disk behind its ports

An LBA48 drive as the ports `0x1F0` to `0x1F7` show it, and `read_disk` of `loader32.c` with
its commands. A register keeps the last two bytes that were written to it; the drive serves
sector after sector and is busy before each one for as long as it likes.
-/

namespace OsToyI386

/-- A register two bytes deep. -/
structure Register where
  previous : BitVec 8
  last : BitVec 8

/-- The earlier byte is the upper one. -/
def Register.value (r : Register) : BitVec 16 := r.previous ++ r.last

def Register.push (r : Register) (v : BitVec 8) : Register := ⟨r.last, v⟩

/-- What the drive is doing. -/
inductive DrivePhase
  | idle
  /-- Before sector `lba`, with `left` sectors behind it, until that many more reads of the
  status have been answered with "not ready". -/
  | waiting (lba left wait : Nat)
  /-- The status has said that the sector is there, and `word` of its words have been read. -/
  | ready (lba left word : Nat)
  deriving DecidableEq

/-- The drive. `waits` says for how many status values it is not ready before a sector; the
values themselves may be anything that says so. `misreads` is ghost state: the reads of the
data port when there was nothing to read. -/
structure Drive where
  disk : Disk
  waits : Nat → Nat
  notReady : Nat → BitVec 8
  nowReady : Nat → BitVec 8
  notReady_bits : ∀ n, notReady n &&& 0x88#8 ≠ 0x08#8
  nowReady_bits : ∀ n, nowReady n &&& 0x88#8 = 0x08#8
  device : BitVec 8
  count : Register
  lbaLow : Register
  lbaMid : Register
  lbaHigh : Register
  polls : Nat
  phase : DrivePhase
  misreads : Nat

namespace Drive

/-- The 48-bit address in the three registers. -/
def lba (d : Drive) : BitVec 48 :=
  d.lbaHigh.previous ++ d.lbaMid.previous ++ d.lbaLow.previous ++ d.lbaHigh.last ++
    d.lbaMid.last ++ d.lbaLow.last

/-- The number of sectors; zero stands for all that fit. -/
def sectors (d : Drive) : Nat :=
  if d.count.value = 0 then 2 ^ 16 else d.count.value.toNat

/-- The first of `n + 1` sectors is fetched. -/
def fetch (d : Drive) (lba : Nat) (n : Nat) : DrivePhase := .waiting lba n (d.waits lba)

/-- A command: `READ SECTORS EXT` to the first drive in LBA mode, when it is idle. -/
def command (d : Drive) (v : BitVec 8) : Drive :=
  if v = 0x24#8 ∧ d.device &&& 0x50#8 = 0x40#8 ∧ d.phase = .idle then
    { d with phase := d.fetch d.lba.toNat (d.sectors - 1) }
  else d

/-- `outb`. -/
def outb (d : Drive) (port : BitVec 16) (v : BitVec 8) : Drive :=
  if port = 0x1F6#16 then { d with device := v }
  else if port = 0x1F2#16 then { d with count := d.count.push v }
  else if port = 0x1F3#16 then { d with lbaLow := d.lbaLow.push v }
  else if port = 0x1F4#16 then { d with lbaMid := d.lbaMid.push v }
  else if port = 0x1F5#16 then { d with lbaHigh := d.lbaHigh.push v }
  else if port = 0x1F7#16 then d.command v
  else d

/-- A read of the status, `inb(0x1F7)`. -/
def status (d : Drive) : BitVec 8 × Drive :=
  match d.phase with
  | .idle => (d.notReady d.polls, { d with polls := d.polls + 1 })
  | .waiting lba left 0 =>
    (d.nowReady d.polls, { d with polls := d.polls + 1, phase := .ready lba left 0 })
  | .waiting lba left (wait + 1) =>
    (d.notReady d.polls, { d with polls := d.polls + 1, phase := .waiting lba left wait })
  | .ready _ _ _ => (d.nowReady d.polls, { d with polls := d.polls + 1 })

/-- The phase after a word of a sector has been read. -/
def afterWord (d : Drive) (lba left word : Nat) : DrivePhase :=
  if word + 1 < sectorSize / 2 then .ready lba left (word + 1)
  else
    match left with
    | 0 => .idle
    | left + 1 => d.fetch (lba + 1) left

/-- A read of the data port, `inw(0x1F0)`: the next word of the sector. -/
def data (d : Drive) : BitVec 16 × Drive :=
  match d.phase with
  | .ready lba left word =>
    (d.disk lba (2 * word + 1) ++ d.disk lba (2 * word),
      { d with phase := d.afterWord lba left word })
  | _ => (0xFFFF#16, { d with misreads := d.misreads + 1 })

/-- `while((inb(0x1F7) & 0x88) != 0x8) {}`. -/
def waitLoop : Nat → Drive → Option Drive
  | 0, _ => none
  | fuel + 1, d =>
    let (v, d) := d.status
    if v &&& 0x88#8 ≠ 0x08#8 then waitLoop fuel d else some d

/-- `*databuf = w`, the lower byte first. -/
def writeHalf (m : Mem) (databuf : BitVec 32) (w : BitVec 16) : Mem :=
  Function.update (Function.update m databuf (w.setWidth 8)) (databuf + 1) ((w >>> 8).setWidth 8)

/-- `for (int i = 0; i < SECTOR_SIZE / 2; i++)`: `n` words are left to be read. -/
def wordLoop : (n : Nat) → (databuf : BitVec 32) → Drive → Mem → BitVec 32 × Drive × Mem
  | 0, databuf, d, m => (databuf, d, m)
  | n + 1, databuf, d, m =>
    let (w, d) := d.data
    wordLoop n (databuf + 2) d (writeHalf m databuf w)

/-- `while (sector_count --)`. -/
def sectorLoop (fuel : Nat) :
    (sectorCount : Nat) → (databuf : BitVec 32) → Drive → Mem → Option (Drive × Mem)
  | 0, _, d, m => some (d, m)
  | sectorCount + 1, databuf, d, m => do
    let d ← waitLoop fuel d
    let (databuf, d, m) := wordLoop (sectorSize / 2) databuf d m
    sectorLoop fuel sectorCount databuf d m

/-- `read_disk`. It returns nothing while the drive is not ready for longer than `fuel`. -/
def readDisk (d : Drive) (fuel : Nat) (sector sectorCount buf : BitVec 32) (m : Mem) :
    Option (Drive × Mem) :=
  let d := d.outb 0x1F6#16 0xE0#8
  let d := d.outb 0x1F2#16 ((sectorCount >>> 8).setWidth 8)
  let d := d.outb 0x1F3#16 ((sector >>> 24).setWidth 8)
  let d := d.outb 0x1F4#16 0#8
  let d := d.outb 0x1F5#16 0#8
  let d := d.outb 0x1F2#16 (sectorCount.setWidth 8)
  let d := d.outb 0x1F3#16 (sector.setWidth 8)
  let d := d.outb 0x1F4#16 ((sector >>> 8).setWidth 8)
  let d := d.outb 0x1F5#16 ((sector >>> 16).setWidth 8)
  let d := d.outb 0x1F7#16 0x24#8
  sectorLoop fuel sectorCount.toNat buf d m

end Drive

end OsToyI386
