import OsToyI386.Loader.Drive
import OsToyI386.Properties.KernelImage
import Mathlib.Data.Finset.Lattice.Fold

/-!
# Reading the disk

`read_disk` and the drive in step: the registers hold the address and the count when the
command arrives, each sector is taken when the drive has it, and the drive has nothing left
when the last sector is in memory.
-/

namespace OsToyI386

open Lib

namespace Drive

variable {d : Drive} {lba left wait word : Nat}

lemma waitLoop_spec {fuel : Nat} (h : d.phase = .waiting lba left wait) (hfuel : wait < fuel) :
    waitLoop fuel d =
      some { d with polls := d.polls + wait + 1, phase := .ready lba left 0 } := by
  induction wait generalizing d fuel with
  | zero =>
    obtain ⟨fuel, rfl⟩ := Nat.exists_eq_succ_of_ne_zero (by omega : fuel ≠ 0)
    have hready : ¬ d.nowReady d.polls &&& 0x88#8 ≠ 0x08#8 :=
      not_not_intro (d.nowReady_bits d.polls)
    simp only [waitLoop, status, h]
    rw [if_neg hready]
  | succ wait ih =>
    obtain ⟨fuel, rfl⟩ := Nat.exists_eq_succ_of_ne_zero (by omega : fuel ≠ 0)
    simp only [waitLoop, status, h]
    rw [if_pos (d.notReady_bits d.polls), ih rfl (by omega)]
    simp only [Option.some.injEq, Drive.mk.injEq, true_and, and_true]
    omega

lemma writeHalf_eq (m : Mem) (databuf : BitVec 32) (f : Nat → BitVec 8) (k : Nat) :
    writeHalf m databuf (f (k + 1) ++ f k) = blit m databuf (fun i => f (k + i)) 2 := by
  have hlow : (f (k + 1) ++ f k).setWidth 8 = f k := by
    apply BitVec.eq_of_getLsbD_eq
    intro i hi
    rw [BitVec.getLsbD_setWidth, BitVec.getLsbD_append]
    simp [hi]
  have hhigh : ((f (k + 1) ++ f k) >>> 8).setWidth 8 = f (k + 1) := by
    apply BitVec.eq_of_getLsbD_eq
    intro i hi
    rw [BitVec.getLsbD_setWidth, BitVec.getLsbD_ushiftRight, BitVec.getLsbD_append]
    simp [hi]
  have hone : Function.update m databuf (f k) = blit m databuf (fun i => f (k + i)) 1 := by
    have hsucc : Function.update (blit m databuf (fun i => f (k + i)) 0)
        (databuf + BitVec.ofNat 32 0) (f (k + 0)) = blit m databuf (fun i => f (k + i)) 1 :=
      blit_succ (by decide)
    rwa [blit_zero, BitVec.add_zero] at hsucc
  rw [writeHalf, hlow, hhigh, hone]
  exact blit_succ (f := fun i => f (k + i)) (n := 1) (by decide)

lemma wordLoop_spec (databuf : BitVec 32) (m : Mem) {n : Nat}
    (h : d.phase = .ready lba left word) (hn : 0 < n) (hend : word + n = sectorSize / 2) :
    wordLoop n databuf d m = (databuf + BitVec.ofNat 32 (2 * n),
      { d with phase := d.afterWord lba left (sectorSize / 2 - 1) },
      blit m databuf (fun i => d.disk lba (2 * word + i)) (2 * n)) := by
  induction n generalizing d m databuf word with
  | zero => omega
  | succ n ih =>
    have hstep : wordLoop (n + 1) databuf d m =
        wordLoop n (databuf + 2) { d with phase := d.afterWord lba left word }
          (blit m databuf (fun i => d.disk lba (2 * word + i)) 2) := by
      simp only [wordLoop, data, h, writeHalf_eq]
    have hsize : sectorSize / 2 = 256 := rfl
    rw [hstep]
    by_cases hlast : n = 0
    · have hword : word = sectorSize / 2 - 1 := by omega
      rw [hlast, hword]
      rfl
    · have hphase : d.afterWord lba left word = .ready lba left (word + 1) := by
        have hmore : word + 1 < sectorSize / 2 := by omega
        simp only [afterWord, if_pos hmore]
      rw [hphase, ih _ _ rfl (by omega) (by omega)]
      have hsum : 2 + 2 * n = 2 * (n + 1) := by omega
      have hbytes : (fun i => d.disk lba (2 * (word + 1) + i)) =
          fun i => d.disk lba (2 * word + (2 + i)) := by
        funext i
        congr 1
        omega
      have htwo : (2 : BitVec 32) = BitVec.ofNat 32 2 := rfl
      simp only [hbytes]
      rw [htwo, add_ofNat_add, blit_append (f := fun i => d.disk lba (2 * word + i)) (by omega),
        hsum]
      rfl

lemma sectorLoop_step {fuel : Nat} (databuf : BitVec 32) (m : Mem)
    (h : d.phase = .waiting lba left wait) (hfuel : wait < fuel) (sectorCount : Nat) :
    sectorLoop fuel (sectorCount + 1) databuf d m =
      sectorLoop fuel sectorCount (databuf + BitVec.ofNat 32 sectorSize)
        { d with
          polls := d.polls + wait + 1
          phase := d.afterWord lba left (sectorSize / 2 - 1) }
        (blit m databuf (d.disk lba) sectorSize) := by
  have hready : ({ d with polls := d.polls + wait + 1, phase := .ready lba left 0 } : Drive).phase =
      .ready lba left 0 := rfl
  have hwords := wordLoop_spec databuf m hready (by decide : 0 < sectorSize / 2) (Nat.zero_add _)
  have hbytes : (fun i => d.disk lba (2 * 0 + i)) = d.disk lba := by
    funext i
    rw [Nat.mul_zero, Nat.zero_add]
  rw [sectorLoop, waitLoop_spec h hfuel, Option.bind_eq_bind, Option.bind_some, hwords]
  simp only [hbytes]
  rfl

lemma sectorLoop_spec {fuel : Nat} (databuf : BitVec 32) (m : Mem)
    (h : d.phase = .waiting lba left (d.waits lba))
    (hfuel : ∀ i ≤ left, d.waits (lba + i) < fuel) :
    ∃ polls, sectorLoop fuel (left + 1) databuf d m =
      some ({ d with polls := polls, phase := .idle },
        OsToyI386.readDisk d.disk lba (left + 1) databuf m) := by
  induction left generalizing d lba databuf m with
  | zero =>
    have hidle : d.afterWord lba 0 (sectorSize / 2 - 1) = .idle := by
      rw [afterWord, if_neg (by decide)]
    rw [sectorLoop_step databuf m h (hfuel 0 (by omega)), hidle]
    exact ⟨_, rfl⟩
  | succ left ih =>
    have hnext : d.afterWord lba (left + 1) (sectorSize / 2 - 1) =
        .waiting (lba + 1) left (d.waits (lba + 1)) := by
      rw [afterWord, if_neg (by decide)]
      rfl
    rw [sectorLoop_step databuf m h (hfuel 0 (by omega)), hnext]
    obtain ⟨polls, hrest⟩ := ih
      (d := { d with
        polls := d.polls + d.waits lba + 1
        phase := .waiting (lba + 1) left (d.waits (lba + 1)) })
      (databuf + BitVec.ofNat 32 sectorSize) (blit m databuf (d.disk lba) sectorSize) rfl
      (fun i hi => by
        have hnext := hfuel (i + 1) (by omega)
        rwa [← Nat.add_assoc, Nat.add_right_comm] at hnext)
    exact ⟨polls, hrest⟩

section Ports

variable (d : Drive) (v : BitVec 8)

lemma outb_device : d.outb 0x1F6#16 v = { d with device := v } := rfl

lemma outb_count : d.outb 0x1F2#16 v = { d with count := d.count.push v } := rfl

lemma outb_lbaLow : d.outb 0x1F3#16 v = { d with lbaLow := d.lbaLow.push v } := rfl

lemma outb_lbaMid : d.outb 0x1F4#16 v = { d with lbaMid := d.lbaMid.push v } := rfl

lemma outb_lbaHigh : d.outb 0x1F5#16 v = { d with lbaHigh := d.lbaHigh.push v } := rfl

lemma outb_command : d.outb 0x1F7#16 v = d.command v := rfl

end Ports

/-- After the writes to the registers. -/
def addressed (d : Drive) (sector sectorCount : BitVec 32) : Drive :=
  { d with
    device := 0xE0#8
    count := ⟨(sectorCount >>> 8).setWidth 8, sectorCount.setWidth 8⟩
    lbaLow := ⟨(sector >>> 24).setWidth 8, sector.setWidth 8⟩
    lbaMid := ⟨0#8, (sector >>> 8).setWidth 8⟩
    lbaHigh := ⟨0#8, (sector >>> 16).setWidth 8⟩ }

lemma lba_toNat (sector : BitVec 32) :
    (0#8 ++ 0#8 ++ (sector >>> 24).setWidth 8 ++ (sector >>> 16).setWidth 8 ++
      (sector >>> 8).setWidth 8 ++ sector.setWidth 8 : BitVec 48).toNat = sector.toNat := by
  have hwide : (0#8 ++ 0#8 ++ (sector >>> 24).setWidth 8 ++ (sector >>> 16).setWidth 8 ++
      (sector >>> 8).setWidth 8 ++ sector.setWidth 8 : BitVec 48) = sector.setWidth 48 := by
    apply BitVec.eq_of_getLsbD_eq
    intro i hi
    simp only [BitVec.getLsbD_append, BitVec.getLsbD_setWidth, BitVec.getLsbD_ushiftRight]
    grind
  rw [hwide, BitVec.toNat_setWidth, Nat.mod_eq_of_lt (sector.isLt.trans (by decide))]

lemma count_toNat (sectorCount : BitVec 32) (hmax : sectorCount.toNat ≤ 65535) :
    ((sectorCount >>> 8).setWidth 8 ++ sectorCount.setWidth 8 : BitVec 16).toNat =
      sectorCount.toNat := by
  have hnarrow : ((sectorCount >>> 8).setWidth 8 ++ sectorCount.setWidth 8 : BitVec 16) =
      sectorCount.setWidth 16 := by
    apply BitVec.eq_of_getLsbD_eq
    intro i hi
    simp only [BitVec.getLsbD_append, BitVec.getLsbD_setWidth, BitVec.getLsbD_ushiftRight]
    grind
  rw [hnarrow, BitVec.toNat_setWidth, Nat.mod_eq_of_lt (by omega)]

lemma readDisk_eq_command (d : Drive) (fuel : Nat) (sector sectorCount buf : BitVec 32)
    (m : Mem) : d.readDisk fuel sector sectorCount buf m =
      sectorLoop fuel sectorCount.toNat buf
        ((d.addressed sector sectorCount).command 0x24#8) m := by
  simp only [readDisk, outb_device, outb_count, outb_lbaLow, outb_lbaMid, outb_lbaHigh,
    outb_command, Register.push, addressed]

lemma command_addressed (hidle : d.phase = .idle) (sector : BitVec 32) {sectorCount : BitVec 32}
    (hpos : 0 < sectorCount.toNat) (hmax : sectorCount.toNat ≤ 65535) :
    (d.addressed sector sectorCount).command 0x24#8 =
      { d.addressed sector sectorCount with
        phase := .waiting sector.toNat (sectorCount.toNat - 1) (d.waits sector.toNat) } := by
  have hlba : (d.addressed sector sectorCount).lba.toNat = sector.toNat := lba_toNat sector
  have hcount : (d.addressed sector sectorCount).count.value.toNat = sectorCount.toNat :=
    count_toNat sectorCount hmax
  have hsectors : (d.addressed sector sectorCount).sectors = sectorCount.toNat := by
    have hne : (d.addressed sector sectorCount).count.value ≠ 0 := by
      intro hz
      rw [hz] at hcount
      simp at hcount
      omega
    rw [sectors, if_neg hne, hcount]
  have hdevice : 0xE0#8 &&& 0x50#8 = 0x40#8 := by decide
  have haccept : (0x24#8 = 0x24#8) ∧ (d.addressed sector sectorCount).device &&& 0x50#8 = 0x40#8 ∧
      (d.addressed sector sectorCount).phase = .idle := ⟨rfl, hdevice, hidle⟩
  rw [command, if_pos haccept, hlba, hsectors]
  rfl

end Drive

/-- With its commands `read_disk` does what the loader's model of it does without them, once
it is let poll long enough. -/
lemma Drive.readDisk_refines (d : Drive) (m : Mem) (sector buf : BitVec 32)
    {sectorCount : BitVec 32} (hidle : d.phase = .idle) (hpos : 1 ≤ sectorCount.toNat)
    (hmax : sectorCount.toNat ≤ 65535) :
    ∃ N, ∀ fuel ≥ N, ∃ d', d.readDisk fuel sector sectorCount buf m =
        some (d', OsToyI386.readDisk d.disk sector.toNat sectorCount.toNat buf m) ∧
      d'.misreads = d.misreads ∧ d'.phase = .idle := by
  obtain ⟨left, hleft⟩ : ∃ left, sectorCount.toNat = left + 1 :=
    Nat.exists_eq_succ_of_ne_zero (by omega)
  let N := (Finset.range (left + 1)).sup (fun i => d.waits (sector.toNat + i))
  have hN : ∀ i ≤ left, d.waits (sector.toNat + i) ≤ N := fun i hi =>
    Finset.le_sup (f := fun i => d.waits (sector.toNat + i))
      (Finset.mem_range.mpr (Nat.lt_succ_of_le hi))
  have hcommand := command_addressed hidle sector hpos hmax
  refine ⟨N + 1, fun fuel hfuel => ?_⟩
  have hphase : ((d.addressed sector sectorCount).command 0x24#8).phase =
      .waiting sector.toNat left (d.waits sector.toNat) := by
    rw [hcommand, hleft]
    rfl
  have hsame : ((d.addressed sector sectorCount).command 0x24#8).waits = d.waits := by
    rw [hcommand]
    rfl
  rw [← hsame] at hphase
  obtain ⟨polls, hloop⟩ := sectorLoop_spec buf m hphase (fun i hi => by
    rw [hsame]
    exact (hN i hi).trans_lt hfuel)
  have hexec := readDisk_eq_command d fuel sector sectorCount buf m
  rw [hcommand, hleft] at hexec
  rw [hcommand, hleft] at hloop
  rw [hleft]
  exact ⟨_, hexec.trans hloop, rfl, rfl⟩

/-- Any sector, any count that fits into the registers, any drive that is idle, however long
it waits before each sector: `read_disk` returns, and from then on however long it is let
poll. The sectors asked for stand in memory in their order, no other byte has changed, no read
of the data port came when the drive had nothing to read, and none of its words are left. -/
theorem read_disk_reads_sectors (d : Drive) (m : Mem) (sector sectorCount buf : BitVec 32)
    (hidle : d.phase = .idle) (hpos : 1 ≤ sectorCount.toNat)
    (hmax : sectorCount.toNat ≤ 65535) :
    ∃ N, ∀ fuel ≥ N, ∃ d' m', d.readDisk fuel sector sectorCount buf m = some (d', m') ∧
      (∀ a, m' a =
        if (a - buf).toNat < sectorCount.toNat * sectorSize then
          d.disk (sector.toNat + (a - buf).toNat / sectorSize) ((a - buf).toNat % sectorSize)
        else m a) ∧
      d'.misreads = d.misreads ∧ d'.phase = .idle := by
  obtain ⟨N, hN⟩ := d.readDisk_refines m sector buf hidle hpos hmax
  have hsize : sectorCount.toNat * sectorSize ≤ 2 ^ 32 := by
    rw [sectorSize]
    omega
  refine ⟨N, fun fuel hfuel => ?_⟩
  obtain ⟨d', hexec, hmisreads, hphase⟩ := hN fuel hfuel
  refine ⟨d', _, hexec, fun a => ?_, hmisreads, hphase⟩
  rw [readDisk_eq _ _ _ _ _ hsize]
  rfl

/-- A drive that is busy for three status values before each sector. -/
def slowDrive : Drive where
  disk sector i := BitVec.ofNat 8 (sector + i)
  waits _ := 3
  notReady _ := 0x80#8
  nowReady _ := 0x58#8
  notReady_bits _ := by decide
  nowReady_bits _ := by decide
  device := 0
  count := ⟨0, 0⟩
  lbaLow := ⟨0, 0⟩
  lbaMid := ⟨0, 0⟩
  lbaHigh := ⟨0, 0⟩
  polls := 0
  phase := .idle
  misreads := 0

theorem read_disk_reads_two : ∃ fuel d' m',
    slowDrive.readDisk fuel 65#32 2#32 0x100000#32 (fun _ => 0) = some (d', m') ∧
      m' 0x100201#32 = 67#8 ∧ m' 0x100400#32 = 0#8 ∧ d'.misreads = 0 ∧ d'.phase = .idle := by
  obtain ⟨N, hN⟩ := read_disk_reads_sectors slowDrive (fun _ => 0) 65#32 2#32 0x100000#32 rfl
    (by decide) (by decide)
  obtain ⟨d', m', hexec, hmem, hmisreads, hphase⟩ := hN N le_rfl
  refine ⟨N, d', m', hexec, ?_, ?_, hmisreads, hphase⟩
  · rw [hmem]
    decide
  · rw [hmem]
    decide

end OsToyI386
