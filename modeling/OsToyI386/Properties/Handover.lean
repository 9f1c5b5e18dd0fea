import OsToyI386.Loader.Handover
import OsToyI386.Properties.Decode
import OsToyI386.Properties.KernelImage
import OsToyI386.Properties.ReadDisk

/-!
# The loader hands over to the kernel

From any state of the processor and any drive that is idle, the loader ends in flat protected
mode with interrupts off. With a well-formed kernel on the disk it reaches `kernel_init` with
the image in place and a pointer to `boot_info`; without the magic bytes it hangs.
-/

namespace OsToyI386

open Lib

/-- `gdt_table` stands in memory. -/
def GdtAt (m : Mem) (a : BitVec 32) : Prop :=
  ∀ i : Fin loaderGdt.length, readHalf m (a + BitVec.ofNat 32 (2 * i)) = loaderGdt.get i

/-- The code segment, readable, and the data segment of the table. -/
def loaderCode : SegmentDesc := ⟨0xFFFF, 0, 0, 0xCF9A, 0⟩

def loaderData : SegmentDesc := ⟨0xFFFF, 0, 0, 0xCF92, 0⟩

section Gdt

variable {m : Mem} {a : BitVec 32}

lemma bytes_of_readHalf {v : BitVec 16} (h : readHalf m a = v) :
    m a = v.setWidth 8 ∧ m (a + 1) = v.extractLsb' 8 8 := by
  subst h
  rw [readHalf]
  constructor
  · apply BitVec.eq_of_getLsbD_eq
    intro i hi
    rw [BitVec.getLsbD_setWidth, BitVec.getLsbD_append]
    simp only [hi, decide_true, Bool.true_and, if_true]
  · apply BitVec.eq_of_getLsbD_eq
    intro i hi
    have hge : ¬ 8 + i < 8 := by omega
    rw [BitVec.getLsbD_extractLsb', BitVec.getLsbD_append]
    simp only [hi, hge, decide_true, Bool.true_and, if_false, Nat.add_sub_cancel_left]

lemma descAt_of_halves {h0 h1 h2 h3 : BitVec 16} (e0 : readHalf m a = h0)
    (e1 : readHalf m (a + 2) = h1) (e2 : readHalf m (a + 4) = h2) (e3 : readHalf m (a + 6) = h3) :
    descAt m a = ⟨h0, h1, h2.setWidth 8, h3.setWidth 8 ++ h2.extractLsb' 8 8,
      h3.extractLsb' 8 8⟩ := by
  obtain ⟨hlow2, hhigh2⟩ := bytes_of_readHalf e2
  obtain ⟨hlow3, hhigh3⟩ := bytes_of_readHalf e3
  have h5 : a + 4 + 1 = a + 5 := by rw [BitVec.add_assoc]; rfl
  have h6 : a + 5 + 1 = a + 6 := by rw [BitVec.add_assoc]; rfl
  have h7 : a + 6 + 1 = a + 7 := by rw [BitVec.add_assoc]; rfl
  rw [h5] at hhigh2
  rw [h7] at hhigh3
  rw [descAt, e0, e1, hlow2, hhigh3, readHalf, h6, hlow3, hhigh2]

lemma GdtAt.half (h : GdtAt m a) (i : Fin loaderGdt.length) {p : BitVec 32}
    (hp : p = a + BitVec.ofNat 32 (2 * i)) : readHalf m p = loaderGdt.get i := by
  rw [hp]
  exact h i

lemma descAt_code (h : GdtAt m a) : descAt m (a + 8) = loaderCode := by
  have h0 : readHalf m (a + 8) = 0xFFFF#16 := h.half ⟨4, by decide⟩ rfl
  have h2 : readHalf m (a + 8 + 2) = 0#16 :=
    h.half ⟨5, by decide⟩ (BitVec.add_assoc a 8 2)
  have h4 : readHalf m (a + 8 + 4) = 0x9A00#16 :=
    h.half ⟨6, by decide⟩ (BitVec.add_assoc a 8 4)
  have h6 : readHalf m (a + 8 + 6) = 0x00CF#16 :=
    h.half ⟨7, by decide⟩ (BitVec.add_assoc a 8 6)
  rw [descAt_of_halves h0 h2 h4 h6]
  decide

lemma descAt_data (h : GdtAt m a) : descAt m (a + 16) = loaderData := by
  have h0 : readHalf m (a + 16) = 0xFFFF#16 := h.half ⟨8, by decide⟩ rfl
  have h2 : readHalf m (a + 16 + 2) = 0#16 :=
    h.half ⟨9, by decide⟩ (BitVec.add_assoc a 16 2)
  have h4 : readHalf m (a + 16 + 4) = 0x9200#16 :=
    h.half ⟨10, by decide⟩ (BitVec.add_assoc a 16 4)
  have h6 : readHalf m (a + 16 + 6) = 0x00CF#16 :=
    h.half ⟨11, by decide⟩ (BitVec.add_assoc a 16 6)
  rw [descAt_of_halves h0 h2 h4 h6]
  decide

end Gdt

lemma GdtAt.congr {m m' : Mem} {y : LoaderSymbols} (h : GdtAt m y.gdtTable)
    (hsame : ∀ a, Within a y.start y.size → m' a = m a) : GdtAt m' y.gdtTable := by
  intro i
  rw [← h i]
  have hlen : 2 * (i : Nat) + 1 < 24 := by
    have hi := i.isLt
    have hlength : loaderGdt.length = 12 := rfl
    omega
  refine readHalf_congr fun k hk => ?_
  rw [BitVec.add_assoc, ← BitVec.ofNat_add]
  exact hsame _ (y.table _ (by omega))

namespace LoaderCpu

variable {y : LoaderSymbols} {f : Frames} {s : LoaderCpu}

/-- What the code before `load_kernel` leaves: flat segments of the temporary GDT, interrupts
off, the A20 line open, and of `CR0` the lowest byte with `PE` set. -/
def inProtectedMode (y : LoaderSymbols) (s : LoaderCpu) : LoaderCpu :=
  { s with
    eax := s.eax.extractLsb' 16 16 ++ 16#16
    eflags := s.eflags &&& ~~~(0x200#32)
    cs := 8#16, ds := 16#16, es := 16#16, fs := 16#16, gs := 16#16, ss := 16#16
    eip := y.loadKernel
    csCache := loaderCode, dataCache := loaderData
    cr0 := (s.cr0.setWidth 8).setWidth 32 ||| 1#32
    gdtBase := y.gdtTable, gdtLimit := 23#16
    port92 := s.port92 ||| 2#8 }

lemma lgdt_eq :
    s.lgdt y.gdtTable 24#32 = { s with gdtBase := y.gdtTable, gdtLimit := 23#16 } := by
  have hbase : ((y.gdtTable >>> 16).setWidth 16 ++
      (y.gdtTable &&& 0xFFFF#32).setWidth 16 : BitVec 32) &&& 0xFFFFFF#32 = y.gdtTable := by
    apply BitVec.eq_of_getLsbD_eq
    intro i hi
    have hmask : ∀ k < 32, (0xFFFFFF#32).getLsbD k = decide (k < 24) := by decide
    have hhalf : ∀ k < 32, (0xFFFF#32).getLsbD k = decide (k < 16) := by decide
    have htop : 24 ≤ i → y.gdtTable.getLsbD i = false := fun hge =>
      Nat.testBit_lt_two_pow (y.low.trans_le (Nat.pow_le_pow_right (by decide) hge))
    rw [BitVec.getLsbD_and, BitVec.getLsbD_append, BitVec.getLsbD_setWidth,
      BitVec.getLsbD_setWidth, BitVec.getLsbD_ushiftRight, BitVec.getLsbD_and, hmask i hi,
      hhalf i hi]
    grind
  rw [lgdt]
  simp only [hbase]
  rfl

lemma descriptor_code (hlimit : s.gdtLimit = 23#16) (h : GdtAt s.mem s.gdtBase) :
    s.descriptor 8#16 = some loaderCode := by
  rw [descriptor, if_pos (by rw [hlimit]; decide)]
  exact congrArg some (descAt_code h)

lemma descriptor_data (hlimit : s.gdtLimit = 23#16) (h : GdtAt s.mem s.gdtBase) :
    s.descriptor 16#16 = some loaderData := by
  rw [descriptor, if_pos (by rw [hlimit]; decide)]
  exact congrArg some (descAt_data h)

lemma farJump_code (hlimit : s.gdtLimit = 23#16) (h : GdtAt s.mem s.gdtBase)
    (offset : BitVec 32) :
    s.farJump 8#16 offset = some { s with cs := 8#16, eip := offset, csCache := loaderCode } := by
  rw [farJump, descriptor_code hlimit h]
  rfl

lemma loadData_data (hlimit : s.gdtLimit = 23#16) (h : GdtAt s.mem s.gdtBase)
    (hax : s.eax.setWidth 16 = 16#16) :
    s.loadData = some { s with
      ds := 16#16, ss := 16#16, es := 16#16, fs := 16#16, gs := 16#16
      dataCache := loaderData } := by
  rw [loadData]
  simp only [hax, descriptor_data hlimit h]
  rfl

lemma enterProtectMode_eq (hgdt : GdtAt (f.enterProtectMode.run s).mem y.gdtTable) :
    s.enterProtectMode y f =
      let s := f.enterProtectMode.run s
      some { s with
        eflags := s.eflags &&& ~~~(0x200#32)
        cs := 8#16, eip := y.protectEntry, csCache := loaderCode
        cr0 := (s.cr0.setWidth 8).setWidth 32 ||| 1#32
        gdtBase := y.gdtTable, gdtLimit := 23#16
        port92 := s.port92 ||| 2#8 } := by
  rw [enterProtectMode]
  simp only [lgdt_eq]
  exact farJump_code (by rfl) (by exact hgdt) _

lemma protectEntry_eq (hlimit : s.gdtLimit = 23#16) (h : GdtAt s.mem s.gdtBase) :
    s.protectEntry y = some { s with
      eax := s.eax.extractLsb' 16 16 ++ 16#16
      cs := 8#16, ds := 16#16, es := 16#16, fs := 16#16, gs := 16#16, ss := 16#16
      eip := y.loadKernel
      csCache := loaderCode, dataCache := loaderData } := by
  have hax : (s.eax.extractLsb' 16 16 ++ 16#16 : BitVec 32).setWidth 16 = 16#16 := by
    apply BitVec.eq_of_getLsbD_eq
    intro i hi
    rw [BitVec.getLsbD_setWidth, BitVec.getLsbD_append]
    simp only [hi, decide_true, Bool.true_and, if_true]
  have hdata := loadData_data (s := { s with eax := s.eax.extractLsb' 16 16 ++ 16#16 })
    hlimit h hax
  rw [protectEntry]
  simp only [hdata, Option.bind_eq_bind, Option.bind_some]
  exact farJump_code (by exact hlimit) (by exact h) _

lemma boot_eq (hgdt : GdtAt (f.enterProtectMode.run s).mem y.gdtTable) (d : Drive) (fuel : Nat) :
    s.boot y f d fuel = ((f.enterProtectMode.run s).inProtectedMode y).loadKernel y f d fuel := by
  rw [boot, enterProtectMode_eq hgdt, Option.bind_eq_bind, Option.bind_some,
    protectEntry_eq (by rfl) (by exact hgdt), Option.bind_some]
  rfl

end LoaderCpu

lemma elfMagic_congr {m m' : Mem} {fileBuffer : BitVec 32} {n : Nat} (hlow : 4 ≤ n)
    (hfits : n ≤ 2 ^ 32) (hsame : ∀ a, Within a fileBuffer n → m' a = m a) :
    elfMagic m' fileBuffer = elfMagic m fileBuffer := by
  have hbyte : ∀ k < 4, m' (fileBuffer + BitVec.ofNat 32 k) = m (fileBuffer + BitVec.ofNat 32 k) :=
    fun k hk => hsame _ (within_add (hk.trans_le hlow) hfits)
  have h0 : m' fileBuffer = m fileBuffer := by
    have hzero : fileBuffer + BitVec.ofNat 32 0 = fileBuffer := BitVec.add_zero fileBuffer
    have h := hbyte 0 (by decide)
    rwa [hzero] at h
  have h1 : m' (fileBuffer + 1) = m (fileBuffer + 1) := hbyte 1 (by decide)
  have h2 : m' (fileBuffer + 2) = m (fileBuffer + 2) := hbyte 2 (by decide)
  have h3 : m' (fileBuffer + 3) = m (fileBuffer + 3) := hbyte 3 (by decide)
  rw [elfMagic, elfMagic, h0, h1, h2, h3]

namespace WellFormed

variable {m m' : Mem} {fileBuffer : BitVec 32} {len i : Nat} {a : BitVec 32}

section Congr

variable (h : WellFormed m fileBuffer len) (hsame : ∀ a, Within a fileBuffer len → m' a = m a)

include h hsame

lemma phnum_congr : phnum m' fileBuffer = phnum m fileBuffer :=
  congrArg BitVec.toNat (readHalf_congr fun _ hk =>
    hsame _ (h.within_ehdr Ehdr.ePhnum (by decide) hk))

lemma readWord_ehdr (off : BitVec 32) (hoff : off.toNat + 4 ≤ Ehdr.size) :
    readWord m' (fileBuffer + off) = readWord m (fileBuffer + off) :=
  readWord_congr fun _ hk => hsame _ (h.within_ehdr off hoff hk)

lemma segment_congr (hi : i < phnum m fileBuffer) :
    segment m' fileBuffer i = segment m fileBuffer i := by
  have haddr : phdrAddr m' fileBuffer i = phdrAddr m fileBuffer i := by
    rw [phdrAddr, phdrAddr, h.readWord_ehdr hsame Ehdr.ePhoff (by decide)]
  rw [segment, segment, haddr]
  exact programHeader_congr fun _ ha => hsame _ (h.within_table hi ha)

lemma isLoad_congr : IsLoad m' fileBuffer i ↔ IsLoad m fileBuffer i := by
  rw [IsLoad, IsLoad, h.phnum_congr hsame]
  exact and_congr_right fun hi => by rw [h.segment_congr hsame hi]

lemma inTarget_congr (hi : IsLoad m fileBuffer i) :
    InTarget m' fileBuffer i a ↔ InTarget m fileBuffer i a := by
  rw [InTarget, InTarget, h.segment_congr hsame hi.1]

lemma congr : WellFormed m' fileBuffer len where
  magic := by
    have hlow : 4 ≤ len := le_trans (by decide) h.header
    rw [elfMagic_congr hlow h.fits hsame]
    exact h.magic
  fits := h.fits
  header := h.header
  table := by
    rw [h.phnum_congr hsame, h.readWord_ehdr hsame Ehdr.ePhoff (by decide)]
    exact h.table
  source i hi := by
    have hload := (h.isLoad_congr hsame).mp hi
    rw [h.segment_congr hsame hload.1]
    exact h.source i hload
  sizes i hi := by
    have hload := (h.isLoad_congr hsame).mp hi
    rw [h.segment_congr hsame hload.1]
    exact h.sizes i hload
  target i hi a ha htarget := by
    have hload := (h.isLoad_congr hsame).mp hi
    exact h.target i hload a ha ((h.inTarget_congr hsame hload).mp htarget)

lemma apart_congr (hap : SegmentsApart m fileBuffer) : SegmentsApart m' fileBuffer := by
  intro i j hi hj hij a ha ha'
  have hi' := (h.isLoad_congr hsame).mp hi
  have hj' := (h.isLoad_congr hsame).mp hj
  exact hap i j hi' hj' hij a ((h.inTarget_congr hsame hi').mp ha)
    ((h.inTarget_congr hsame hj').mp ha')

end Congr

end WellFormed

/-- The image that is on the disk, whatever is elsewhere in memory. -/
def diskImage (disk : Disk) : Mem := kernelMem disk fun _ => 0

lemma kernelMem_eq (disk : Disk) (m : Mem) {a : BitVec 32}
    (ha : Within a sysKernelLoadAddr kernelSize) : kernelMem disk m a = diskImage disk a := by
  rw [kernelSize] at ha
  rw [diskImage, kernelMem, kernelMem, readDisk_eq _ _ _ _ _ (by decide),
    readDisk_eq _ _ _ _ _ (by decide), blit_of_within ha, blit_of_within ha]

lemma kernelMem_outside (disk : Disk) (m : Mem) {a : BitVec 32}
    (ha : ¬ Within a sysKernelLoadAddr kernelSize) : kernelMem disk m a = m a := by
  rw [kernelSize] at ha
  rw [kernelMem, readDisk_eq _ _ _ _ _ (by decide), blit_of_not_within ha]

namespace LoaderCpu

variable {y : LoaderSymbols} {f : Frames} {s : LoaderCpu} {d : Drive}

/-- `load_kernel` returns from the drive, and what it does then is up to the bytes read. -/
lemma loadKernel_eq (hidle : d.phase = .idle) : ∃ N, ∀ fuel ≥ N,
    s.loadKernel y f d fuel =
      let s := f.loadKernel.run s
      let s := f.readDisk.run { s with mem := kernelMem d.disk s.mem }
      let r := OsToyI386.reloadElfFile sysKernelLoadAddr s.mem
      let s := f.reloadElfFile.run { s with mem := r.2.mem }
      some (if r.1 = 0 then (.hang, s)
        else (.kernel r.1, { s with
          toX86 := { (s.toX86.push y.bootInfo).push y.loaderRet with eip := r.1 } })) := by
  have hpos : 1 ≤ (BitVec.ofNat 32 kernelMaxSectorsInSize).toNat := by decide
  obtain ⟨N, hN⟩ := d.readDisk_refines (f.loadKernel.run s).mem (BitVec.ofNat 32 kernelBeginSector)
    sysKernelLoadAddr hidle hpos (by decide)
  refine ⟨N, fun fuel hfuel => ?_⟩
  obtain ⟨d', hread, -, -⟩ := hN fuel hfuel
  have hmem : OsToyI386.readDisk d.disk (BitVec.ofNat 32 kernelBeginSector).toNat
      (BitVec.ofNat 32 kernelMaxSectorsInSize).toNat sysKernelLoadAddr (f.loadKernel.run s).mem =
        kernelMem d.disk (f.loadKernel.run s).mem := rfl
  rw [hmem] at hread
  simp only [loadKernel, hread, Option.bind_eq_bind, Option.bind_some]
  split <;> rfl

end LoaderCpu

lemma pushes_outside {m : Mem} {esp a : BitVec 32} (v₁ v₂ v₃ v₄ : BitVec 32)
    (ha : ¬ Within a (esp - 16#32) 16) :
    setWord (setWord (setWord (setWord m (esp - 4#32) v₁) (esp - 4#32 - 4#32) v₂)
      (esp - 4#32 - 4#32 - 4#32) v₃) (esp - 4#32 - 4#32 - 4#32 - 4#32) v₄ a = m a := by
  unfold Within at ha
  have h₁ : ¬ Within a (esp - 4#32) 4 := by
    unfold Within
    bv_omega
  have h₂ : ¬ Within a (esp - 4#32 - 4#32) 4 := by
    unfold Within
    bv_omega
  have h₃ : ¬ Within a (esp - 4#32 - 4#32 - 4#32) 4 := by
    unfold Within
    bv_omega
  have h₄ : ¬ Within a (esp - 4#32 - 4#32 - 4#32 - 4#32) 4 := by
    unfold Within
    bv_omega
  rw [setWord, blit_of_not_within h₄, setWord, blit_of_not_within h₃, setWord,
    blit_of_not_within h₂, setWord, blit_of_not_within h₁]

lemma kernelStart_called (y : LoaderSymbols) (x : X86) (entry : BitVec 32) :
    let x' := kernelStart y { (x.push y.bootInfo).push y.loaderRet with eip := entry }
    x'.eip = y.kernelInit ∧ x'.arg = y.bootInfo ∧
      ∀ a, ¬ Within a (x.esp - 16#32) 16 → x'.mem a = x.mem a := by
  intro x'
  have hnone : Stacked x.mem x.esp [] := trivial
  have hcalled := (hnone.push (by simp) y.bootInfo).push (by simp) y.loaderRet
  have heax : getWord ((x.push y.bootInfo).push y.loaderRet).mem
      (((x.push y.bootInfo).push y.loaderRet).esp + 4#32) = y.bootInfo := hcalled.tail.head
  have hstart := (hcalled.push (by simp) y.bootInfo).push (by simp) y.kernelRet
  refine ⟨rfl, ?_, fun a ha => ?_⟩
  · simp only [x', kernelStart, heax]
    exact hstart.tail.head
  · simp only [x', kernelStart, heax]
    exact pushes_outside _ _ _ _ ha

/-! ### The whole way -/

/-- Flat protected mode: interrupts off, no paging, the A20 line open, and code and data
segments that are all of the address space. The kernel's own GDT has the same segments, only
that its code segment cannot be read. -/
structure LoaderCpu.Flat (s : LoaderCpu) : Prop where
  interrupts : s.eflags.getLsbD 9 = false
  protection : s.cr0.getLsbD 0 = true
  paging : s.cr0.getLsbD 31 = false
  a20 : s.port92.getLsbD 1 = true
  selectors : s.cs = 8#16 ∧ ∀ sel ∈ [s.ds, s.es, s.fs, s.gs, s.ss], sel = 16#16
  code : s.csCache.base = 0#32 ∧ s.csCache.effectiveLimit = 2 ^ 32 - 1
  data : s.dataCache.base = 0#32 ∧ s.dataCache.effectiveLimit = 2 ^ 32 - 1
  kernel : ∀ gdt, gdtInit gdt 2 = s.dataCache ∧
    gdtInit gdt 1 = { s.csCache with attr := s.csCache.attr &&& ~~~segTypeRw }

lemma gdtInit_code (gdt : Nat → SegmentDesc) : gdtInit gdt 1 =
    { loaderCode with attr := loaderCode.attr &&& ~~~segTypeRw } := by
  have hdata : (1 : Nat) ≠ (kernelSelectorData / 8).toNat := by decide
  have hcode : (kernelSelectorCode / 8).toNat = 1 := by decide
  rw [gdtInit, segmentDescSet, Function.update_of_ne hdata, segmentDescSet, hcode,
    Function.update_self]
  decide

lemma gdtInit_data (gdt : Nat → SegmentDesc) : gdtInit gdt 2 = loaderData := by
  have hdata : (kernelSelectorData / 8).toNat = 2 := by decide
  rw [gdtInit, segmentDescSet, hdata, Function.update_self]
  decide

lemma LoaderCpu.flat_inProtectedMode (y : LoaderSymbols) (s : LoaderCpu) :
    (s.inProtectedMode y).Flat where
  interrupts := by simp [inProtectedMode]
  protection := by simp [inProtectedMode]
  paging := by simp [inProtectedMode]
  a20 := by simp [inProtectedMode]
  selectors := by simp [inProtectedMode]
  code := (by decide : loaderCode.base = 0#32 ∧ loaderCode.effectiveLimit = 2 ^ 32 - 1)
  data := (by decide : loaderData.base = 0#32 ∧ loaderData.effectiveLimit = 2 ^ 32 - 1)
  kernel gdt := ⟨gdtInit_data gdt, gdtInit_code gdt⟩

lemma LoaderCpu.Flat.mem {s : LoaderCpu} (h : s.Flat) (m : Mem) : ({ s with mem := m }).Flat :=
  ⟨h.interrupts, h.protection, h.paging, h.a20, h.selectors, h.code, h.data, h.kernel⟩

lemma Scratch.flat {stack : Set (BitVec 32)} {top bottom : BitVec 32}
    (σ : Scratch stack top bottom) {s : LoaderCpu} (h : s.Flat) : (σ.run s).Flat := by
  have hrest := σ.rest s
  have hflags : (σ.run s).eflags.getLsbD 9 = false := (σ.interrupts s).trans h.interrupts
  generalize σ.run s = s' at hrest hflags ⊢
  rw [hrest]
  exact ⟨hflags, h.protection, h.paging, h.a20, h.selectors, h.code, h.data, h.kernel⟩

lemma ImageLoaded.congr {m m' m₁ m₁' : Mem} {fileBuffer entry : BitVec 32} {len : Nat}
    (h : ImageLoaded m fileBuffer len entry m') (hwell : WellFormed m fileBuffer len)
    (hbuffer : ∀ a, Within a fileBuffer len → m₁ a = m a)
    (htarget : ∀ i, IsLoad m fileBuffer i → ∀ a, InTarget m fileBuffer i a → m₁' a = m' a)
    (hrest : ∀ a, m₁ a = m a ∧ m₁' a = m' a ∨ m₁' a = m₁ a) :
    ImageLoaded m₁ fileBuffer len entry m₁' where
  entry := by
    rw [h.entry, hwell.readWord_ehdr hbuffer Ehdr.eEntry (by decide)]
  file i hi k hk := by
    have hload := (hwell.isLoad_congr hbuffer).mp hi
    rw [hwell.segment_congr hbuffer hload.1] at hk ⊢
    have hin : InTarget m fileBuffer i ((segment m fileBuffer i).paddr + BitVec.ofNat 32 k) :=
      within_add (hk.trans_le (hwell.sizes i hload)) (BitVec.isLt _).le
    have hsource : Within (fileBuffer + ((segment m fileBuffer i).offset + BitVec.ofNat 32 k))
        fileBuffer len := by
      rw [← BitVec.add_assoc]
      exact hwell.within_source hload (within_add hk (BitVec.isLt _).le)
    rw [htarget i hload _ hin, hbuffer _ hsource, h.file i hload k hk]
  zeros i hi k hlow hk := by
    have hload := (hwell.isLoad_congr hbuffer).mp hi
    rw [hwell.segment_congr hbuffer hload.1] at hlow hk ⊢
    rw [htarget i hload _ (within_add hk (BitVec.isLt _).le), h.zeros i hload k hlow hk]
  outside a ha := by
    have hold : m' a = m a := h.outside a fun i hi hin => by
      have hi' := (hwell.isLoad_congr hbuffer).mpr hi
      exact ha i hi' ((hwell.inTarget_congr hbuffer hi).mpr hin)
    rcases hrest a with ⟨h₁, h₂⟩ | hsame
    · rw [h₁, h₂, hold]
    · exact hsame
  buffer a ha := by
    rcases hrest a with ⟨h₁, h₂⟩ | hsame
    · rw [h₁, h₂, h.buffer a ha]
    · exact hsame

/-- Before the kernel is called, or the loader hangs, everything but the frames is what the
loop over the program headers made of the bytes read. -/
lemma LoaderCpu.boot_reloads {y : LoaderSymbols} {f : Frames} {s : LoaderCpu} {d : Drive}
    (hidle : d.phase = .idle) (htop : s.esp = f.top) (hgdt : GdtAt s.mem y.gdtTable)
    (hframes : ∀ a ∈ f.stack, ¬ Within a y.start y.size ∧ ¬ Within a sysKernelLoadAddr kernelSize) :
    ∃ N m s', (∀ fuel ≥ N, s.boot y f d fuel =
        let r := reloadElfFile sysKernelLoadAddr m
        some (if r.1 = 0 then (.hang, s')
          else (.kernel r.1, { s' with
            toX86 := { (s'.toX86.push y.bootInfo).push y.loaderRet with eip := r.1 } }))) ∧
      (∀ a, Within a sysKernelLoadAddr kernelSize → m a = diskImage d.disk a) ∧
      (∀ a ∉ f.stack, m a = kernelMem d.disk s.mem a) ∧
      s'.Flat ∧ s'.esp = f.reloaded ∧
      ∀ a ∉ f.stack, s'.mem a = (reloadElfFile sysKernelLoadAddr m).2.mem a := by
  have hgdt' : GdtAt (f.enterProtectMode.run s).mem y.gdtTable :=
    hgdt.congr fun a ha => f.enterProtectMode.mem s htop a fun hin => (hframes a hin).1 ha
  obtain ⟨N, hN⟩ := LoaderCpu.loadKernel_eq (f := f)
    (s := (f.enterProtectMode.run s).inProtectedMode y) (y := y) hidle
  have hesp₀ : ((f.enterProtectMode.run s).inProtectedMode y).esp = f.entered :=
    f.enterProtectMode.pointer s htop
  have hmem₀ : ∀ a ∉ f.stack, ((f.enterProtectMode.run s).inProtectedMode y).mem a = s.mem a :=
    f.enterProtectMode.mem s htop
  have hflat₀ := LoaderCpu.flat_inProtectedMode y (f.enterProtectMode.run s)
  have hboot := fun fuel hfuel => (LoaderCpu.boot_eq hgdt' d fuel).trans (hN fuel hfuel)
  simp only at hboot
  generalize (f.enterProtectMode.run s).inProtectedMode y = s₀ at hesp₀ hmem₀ hflat₀ hboot
  -- the frame of `load_kernel`, and the bytes read
  have hesp₁ := f.loadKernel.pointer s₀ hesp₀
  have hmem₁ : ∀ a ∉ f.stack, (f.loadKernel.run s₀).mem a = s.mem a := fun a ha =>
    (f.loadKernel.mem s₀ hesp₀ a ha).trans (hmem₀ a ha)
  have hflat₁ := f.loadKernel.flat hflat₀
  generalize f.loadKernel.run s₀ = s₁ at hesp₁ hmem₁ hflat₁ hboot
  have hread : ∀ a ∉ f.stack, kernelMem d.disk s₁.mem a = kernelMem d.disk s.mem a := by
    intro a ha
    by_cases hin : Within a sysKernelLoadAddr kernelSize
    · rw [kernelMem_eq _ _ hin, kernelMem_eq _ _ hin]
    · rw [kernelMem_outside _ _ hin, kernelMem_outside _ _ hin, hmem₁ a ha]
  have hbuffer : ∀ a, Within a sysKernelLoadAddr kernelSize →
      kernelMem d.disk s₁.mem a = diskImage d.disk a := fun _ => kernelMem_eq _ _
  generalize kernelMem d.disk s₁.mem = m₁ at hread hbuffer hboot
  have hesp₂ := f.readDisk.pointer { s₁ with mem := m₁ } hesp₁
  have hmem₂ := f.readDisk.mem { s₁ with mem := m₁ } hesp₁
  have hflat₂ := f.readDisk.flat (hflat₁.mem m₁)
  generalize f.readDisk.run { s₁ with mem := m₁ } = s₂ at hesp₂ hmem₂ hflat₂ hboot
  refine ⟨N, s₂.mem, f.reloadElfFile.run
    { s₂ with mem := (reloadElfFile sysKernelLoadAddr s₂.mem).2.mem }, hboot,
    fun a ha => ?_, fun a ha => (hmem₂ a ha).trans (hread a ha),
    f.reloadElfFile.flat (hflat₂.mem _), f.reloadElfFile.pointer _ hesp₂,
    f.reloadElfFile.mem _ hesp₂⟩
  exact (hmem₂ a fun hstack => (hframes a hstack).2 ha).trans (hbuffer a ha)

/-- The call of the kernel leaves the image as it was loaded, and so do the frames. -/
lemma ImageLoaded.called {y : LoaderSymbols} {f : Frames} {s : LoaderCpu} {m m' : Mem}
    {entry : BitVec 32} (h : ImageLoaded m sysKernelLoadAddr kernelSize entry m')
    (hwell : WellFormed m sysKernelLoadAddr kernelSize) (hesp : s.esp = f.reloaded)
    (hmem : ∀ a ∉ f.stack, s.mem a = m' a)
    (hframes : ∀ a ∈ f.stack, ¬ Within a y.start y.size ∧ ¬ Within a sysKernelLoadAddr kernelSize)
    (hclear : ∀ i, IsLoad m sysKernelLoadAddr i → ∀ a, InTarget m sysKernelLoadAddr i a →
      a ∉ f.stack ∧ ¬ Within a y.start y.size) :
    let x := kernelStart y { (s.toX86.push y.bootInfo).push y.loaderRet with eip := entry }
    x.eip = y.kernelInit ∧ x.arg = y.bootInfo ∧
      (∀ a, Within a y.start y.size → x.mem a = m a) ∧
      ∃ m₁, (∀ a ∉ f.stack, m₁ a = m a) ∧
        ImageLoaded m₁ sysKernelLoadAddr kernelSize entry x.mem := by
  classical
  obtain ⟨heip, harg, hcall⟩ := kernelStart_called y s.toX86 entry
  intro x
  have hend : ∀ a ∉ f.stack, x.mem a = m' a := fun a ha =>
    (hcall a fun hin => ha (f.room a (hesp ▸ hin))).trans (hmem a ha)
  refine ⟨heip, harg, fun a ha => ?_, fun a => if a ∈ f.stack then x.mem a else m a,
    fun a ha => if_neg ha, ?_⟩
  · rw [hend a fun hstack => (hframes a hstack).1 ha]
    exact h.outside a fun i hi hin => (hclear i hi a hin).2 ha
  · refine h.congr hwell (fun a ha => ?_) (fun i hi a ha => hend a (hclear i hi a ha).1) fun a => ?_
    · exact if_neg fun hstack => (hframes a hstack).2 ha
    · by_cases hstack : a ∈ f.stack
      · exact Or.inr (if_pos hstack).symm
      · exact Or.inl ⟨if_neg hstack, hend a hstack⟩

/-- A loader of 8 KiB with its table at `0x9000`, on a processor with all registers clear. -/
def someSymbols : LoaderSymbols where
  start := 0x8000
  size := 0x2000
  gdtTable := 0x9000
  protectEntry := 0x8100
  loadKernel := 0x8200
  bootInfo := 0x9100
  loaderRet := 0x8280
  kernelInit := 0x10040
  kernelRet := 0x1000A
  low := by decide
  table := by
    intro k hk
    unfold Within
    bv_omega

def someLoaderCpu : LoaderCpu :=
  { eax := 0, ecx := 0, edx := 0, ebx := 0, esp := 0x7C00, ebp := 0, esi := 0, edi := 0
    ds := 0, es := 0, fs := 0, gs := 0, cs := 0, eip := 0, eflags := 0x202
    mem := fun a =>
      let k := (a - 0x9000#32).toNat
      (loaderGdt.getD (k / 2) 0 >>> (8 * (k % 2))).setWidth 8
    pad := fun _ => 0
    ss := 0, csCache := ⟨0, 0, 0, 0, 0⟩, dataCache := ⟨0, 0, 0, 0, 0⟩
    cr0 := 0x60000010, gdtBase := 0, gdtLimit := 0, port92 := 0 }

/-- A function that saves `EBP` and counts in a variable. -/
def someScratch (top : BitVec 32) : Scratch {a | Within a 0x7B00#32 256} top 0x7BC0#32 where
  run s := { s with
    eax := 1, esp := 0x7BC0, ebp := 0x7BF8
    mem := setWord (setWord s.mem 0x7BF8 s.ebp) 0x7BF4 7 }
  rest _ := rfl
  interrupts _ := rfl
  pointer _ _ := rfl
  mem s _ a ha := by
    have ha' : ¬ Within a 0x7B00#32 256 := ha
    unfold Within at ha'
    have h₁ : ¬ Within a 0x7BF4#32 4 := by
      unfold Within
      bv_omega
    have h₂ : ¬ Within a 0x7BF8#32 4 := by
      unfold Within
      bv_omega
    change setWord (setWord s.mem 0x7BF8#32 s.ebp) 0x7BF4#32 7#32 a = s.mem a
    rw [setWord, blit_of_not_within h₁, setWord, blit_of_not_within h₂]

def someFrames : Frames where
  stack := {a | Within a 0x7B00#32 256}
  top := 0x7C00
  entered := 0x7BC0
  loading := 0x7BC0
  read := 0x7BC0
  reloaded := 0x7BC0
  enterProtectMode := someScratch _
  loadKernel := someScratch _
  readDisk := someScratch _
  reloadElfFile := someScratch _
  room a ha := by
    change Within a 0x7B00#32 256
    unfold Within at ha ⊢
    bv_omega

end OsToyI386
