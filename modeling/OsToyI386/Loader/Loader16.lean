import Mathlib.Data.BitVec
import Mathlib.Data.List.Basic
import Mathlib.Logic.Function.Basic

/-!
# Memory detection

`detect_memory` of `loader16.c`: the real-mode loop that asks the BIOS for the memory map,
one entry a call, and keeps the usable entries in `boot_info`.
-/

namespace OsToyI386

/-- `SMAP_entry_t`. -/
structure SMAPEntry where
  baseL : BitVec 32
  baseH : BitVec 32
  lengthL : BitVec 32
  lengthH : BitVec 32
  type : BitVec 32
  acpi : BitVec 32
  deriving DecidableEq, Repr

/-- `struct _ram_region_info`. -/
structure RamRegionInfo where
  start : BitVec 32
  size : BitVec 32
  deriving DecidableEq, Repr

/-- `BOOT_RAM_REGION_MAX`. -/
def bootRamRegionMax : Nat := 10

/-- `boot_info_t`. What lies at `bootRamRegionMax` and above is outside the array. -/
structure BootInfo where
  ramRegionInfo : Nat → RamRegionInfo
  count : Nat

/-- The magic number `"SMAP"`. -/
def smapSignature : BitVec 32 := 0x534D4150#32

/-- What a call of the BIOS leaves in `EAX`, `CL` and `EBX` and in `entry`. -/
structure Reply where
  signature : BitVec 32
  bytesRead : BitVec 8
  contID : BitVec 32
  entry : SMAPEntry
  deriving DecidableEq, Repr

/-- `int $0x15` with `EAX = 0xE820`: its reply to the call with a number and an `EBX`. -/
abbrev Bios := Nat → BitVec 32 → Reply

/-- How the loop is left. -/
inductive DetectExit
  /-- `failed to detect memory`. -/
  | failed
  /-- `Detecting memory OK`. -/
  | ok
  deriving DecidableEq, Repr

/-- The variables of `detect_memory`. `log` and `stored` are ghost state: the calls so far,
each with the `EBX` it was made with, and the array indices written. -/
structure Detect where
  bootInfo : BootInfo
  contID : BitVec 32
  exit : Option DetectExit
  log : List (BitVec 32 × Reply)
  stored : List Nat

namespace Reply

/-- `bytes_read > 20 && (entry.ACPI & 1) == 0`. -/
def ignored (r : Reply) : Bool := decide (r.bytesRead > 20#8) && r.entry.acpi &&& 1#32 == 0#32

/-- The region that the loop records. -/
def region (r : Reply) : RamRegionInfo := ⟨r.entry.baseL, r.entry.lengthL⟩

end Reply

/-- `boot_info.ram_region_info[boot_info.count] = …; boot_info.count ++`. -/
def BootInfo.record (b : BootInfo) (x : RamRegionInfo) : BootInfo :=
  ⟨Function.update b.ramRegionInfo b.count x, b.count + 1⟩

namespace Detect

/-- The body of `while (1)` after the call has returned `r`. -/
def turn (s : Detect) (r : Reply) : Detect :=
  let s := { s with log := s.log ++ [(s.contID, r)], contID := r.contID }
  if r.signature ≠ smapSignature then { s with exit := some .failed }
  else if r.ignored then s
  else
    let s :=
      if r.entry.type = 1 then
        { s with
          bootInfo := s.bootInfo.record r.region
          stored := s.stored ++ [s.bootInfo.count] }
      else s
    if s.contID = 0 ∨ s.bootInfo.count = bootRamRegionMax - 1 then { s with exit := some .ok }
    else s

end Detect

/-- `detect_memory` when at most `n` turns of the loop are made. -/
def detectMemory (bios : Bios) (b : BootInfo) : Nat → Detect
  | 0 => ⟨{ b with count := 0 }, 0, none, [], []⟩
  | n + 1 =>
    let s := detectMemory bios b n
    if s.exit = none then s.turn (bios n s.contID) else s

/-- The regions that `boot_info` holds. -/
def BootInfo.regions (b : BootInfo) : List RamRegionInfo :=
  (List.range b.count).map b.ramRegionInfo

end OsToyI386
