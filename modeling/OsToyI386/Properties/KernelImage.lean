import OsToyI386.Loader.Segments

/-!
# The image of the kernel

A well-formed ELF file is loaded as its program headers say and nothing else changes. The
loader checks the magic bytes and nothing else, so that an image that is not well formed
leads it out of the file and out of the segments.
-/

namespace OsToyI386

open Lib

/-- `e_phnum`. -/
def phnum (m : Mem) (fileBuffer : BitVec 32) : Nat :=
  (readHalf m (fileBuffer + Ehdr.ePhnum)).toNat

/-- Where a program header stands. -/
def phdrAddr (m : Mem) (fileBuffer : BitVec 32) (i : Nat) : BitVec 32 :=
  fileBuffer + readWord m (fileBuffer + Ehdr.ePhoff) + BitVec.ofNat 32 (i * Phdr.size)

/-- A program header of the image. -/
def segment (m : Mem) (fileBuffer : BitVec 32) (i : Nat) : ProgramHeader :=
  programHeader m (phdrAddr m fileBuffer i)

/-- The program header is one of type `PT_LOAD`. -/
def IsLoad (m : Mem) (fileBuffer : BitVec 32) (i : Nat) : Prop :=
  i < phnum m fileBuffer ∧ (segment m fileBuffer i).type = ptLoad

/-- The address lies where the segment goes. -/
def InTarget (m : Mem) (fileBuffer : BitVec 32) (i : Nat) (a : BitVec 32) : Prop :=
  Within a (segment m fileBuffer i).paddr (segment m fileBuffer i).memsz.toNat

/-- The `len` bytes at `fileBuffer` are an image that loading leaves alone. -/
structure WellFormed (m : Mem) (fileBuffer : BitVec 32) (len : Nat) : Prop where
  magic : elfMagic m fileBuffer = true
  fits : len ≤ 2 ^ 32
  header : Ehdr.size ≤ len
  table : (readWord m (fileBuffer + Ehdr.ePhoff)).toNat + phnum m fileBuffer * Phdr.size ≤ len
  source : ∀ i, IsLoad m fileBuffer i →
    (segment m fileBuffer i).offset.toNat + (segment m fileBuffer i).filesz.toNat ≤ len
  sizes : ∀ i, IsLoad m fileBuffer i →
    (segment m fileBuffer i).filesz.toNat ≤ (segment m fileBuffer i).memsz.toNat
  target : ∀ i, IsLoad m fileBuffer i → ∀ a, Within a fileBuffer len → ¬ InTarget m fileBuffer i a

/-- No two segments go to the same place. -/
def SegmentsApart (m : Mem) (fileBuffer : BitVec 32) : Prop :=
  ∀ i j, IsLoad m fileBuffer i → IsLoad m fileBuffer j → i ≠ j →
    ∀ a, InTarget m fileBuffer i a → ¬ InTarget m fileBuffer j a

/-- Headers and segments are read inside the image, and written is where a segment goes. -/
def Allowed (m : Mem) (fileBuffer : BitVec 32) (len : Nat) : Access → Prop
  | .header a => Within a fileBuffer len
  | .source a => Within a fileBuffer len
  | .write a => ∃ i, IsLoad m fileBuffer i ∧ InTarget m fileBuffer i a

/-- After `i` headers: what is outside the segments is as it was. -/
structure LoadedTo (m : Mem) (fileBuffer : BitVec 32) (len i : Nat) (s : Load) : Prop where
  outside : ∀ a, (∀ k, k < i → IsLoad m fileBuffer k → ¬ InTarget m fileBuffer k a) →
    s.mem a = m a
  log : ∀ x ∈ s.log, Allowed m fileBuffer len x

namespace WellFormed

variable {m : Mem} {fileBuffer : BitVec 32} {len i : Nat} {s : Load}

lemma within_table (h : WellFormed m fileBuffer len) (hi : i < phnum m fileBuffer) {a : BitVec 32}
    (ha : Within a (phdrAddr m fileBuffer i) Phdr.size) : Within a fileBuffer len := by
  have htable := h.table
  have hrow : i * Phdr.size + Phdr.size ≤ phnum m fileBuffer * Phdr.size := by
    rw [← Nat.succ_mul]
    exact Nat.mul_le_mul_right _ hi
  have haddr : phdrAddr m fileBuffer i = fileBuffer + BitVec.ofNat 32
      ((readWord m (fileBuffer + Ehdr.ePhoff)).toNat + i * Phdr.size) := by
    rw [← add_ofNat_add, BitVec.ofNat_toNat, BitVec.setWidth_eq]
    rfl
  rw [haddr] at ha
  exact ha.sub (by omega) h.fits

lemma within_source (h : WellFormed m fileBuffer len) (hi : IsLoad m fileBuffer i)
    {a : BitVec 32} (ha : Within a (fileBuffer + (segment m fileBuffer i).offset)
      (segment m fileBuffer i).filesz.toNat) : Within a fileBuffer len := by
  have hword : (segment m fileBuffer i).offset =
      BitVec.ofNat 32 (segment m fileBuffer i).offset.toNat := by
    rw [BitVec.ofNat_toNat, BitVec.setWidth_eq]
  rw [hword] at ha
  exact ha.sub (h.source i hi) h.fits

lemma image (h : WellFormed m fileBuffer len) (hs : LoadedTo m fileBuffer len i s) {a : BitVec 32}
    (ha : Within a fileBuffer len) : s.mem a = m a :=
  hs.outside a fun k _ hk => h.target k hk a ha

lemma within_ehdr (h : WellFormed m fileBuffer len) (off : BitVec 32) {k n : Nat}
    (hoff : off.toNat + n ≤ Ehdr.size) (hk : k < n) :
    Within (fileBuffer + off + BitVec.ofNat 32 k) fileBuffer len := by
  have hheader := h.header
  have hword : off = BitVec.ofNat 32 off.toNat := by rw [BitVec.ofNat_toNat, BitVec.setWidth_eq]
  rw [hword, add_ofNat_add]
  exact within_add (by omega) h.fits

lemma phnum_eq (h : WellFormed m fileBuffer len) (hs : LoadedTo m fileBuffer len i s) :
    (readHalf s.mem (fileBuffer + Ehdr.ePhnum)).toNat = phnum m fileBuffer := by
  rw [phnum]
  apply congrArg BitVec.toNat
  apply readHalf_congr
  intro k hk
  exact h.image hs (h.within_ehdr Ehdr.ePhnum (by decide) hk)

lemma entry_eq (h : WellFormed m fileBuffer len) (hs : LoadedTo m fileBuffer len i s) :
    readWord s.mem (fileBuffer + Ehdr.eEntry) = readWord m (fileBuffer + Ehdr.eEntry) := by
  apply readWord_congr
  intro k hk
  exact h.image hs (h.within_ehdr Ehdr.eEntry (by decide) hk)

lemma segment_eq (h : WellFormed m fileBuffer len) (hs : LoadedTo m fileBuffer len i s)
    (hi : i < phnum m fileBuffer) :
    programHeader s.mem (phdrAddr m fileBuffer i) = segment m fileBuffer i :=
  programHeader_congr fun _ ha => h.image hs (h.within_table hi ha)

lemma bytes_eq (h : WellFormed m fileBuffer len) (hs : LoadedTo m fileBuffer len i s)
    (hi : IsLoad m fileBuffer i) :
    segmentBytes s.mem fileBuffer (segment m fileBuffer i) =
      segmentBytes m fileBuffer (segment m fileBuffer i) := by
  funext k
  unfold segmentBytes
  split
  · rename_i hk
    exact h.image hs (h.within_source hi (within_add hk (BitVec.isLt _).le))
  · rfl

lemma turn (h : WellFormed m fileBuffer len) (hs : LoadedTo m fileBuffer len i s)
    (hi : i < phnum m fileBuffer) :
    (loadSegment fileBuffer (phdrAddr m fileBuffer i) s).mem =
        (if (segment m fileBuffer i).type = ptLoad then
          blit s.mem (segment m fileBuffer i).paddr
            (segmentBytes m fileBuffer (segment m fileBuffer i))
            (segment m fileBuffer i).memsz.toNat
        else s.mem) ∧
      ∀ x ∈ (loadSegment fileBuffer (phdrAddr m fileBuffer i) s).log,
        Allowed m fileBuffer len x := by
  have hseg := h.segment_eq hs hi
  by_cases htype : (segment m fileBuffer i).type = ptLoad
  · have hload : IsLoad m fileBuffer i := ⟨hi, htype⟩
    have hone := loadSegment_load fileBuffer (P := Allowed m fileBuffer len) hseg
      htype (h.sizes i hload) (fun a ha => h.target i hload a (h.within_table hi ha))
      (fun a ha => h.target i hload a (h.within_source hload ha))
      (fun a ha => h.within_table hi ha) (fun a ha => h.within_source hload ha)
      (fun a ha => ⟨i, hload, ha⟩) hs.log
    rw [if_pos htype, ← h.bytes_eq hs hload]
    exact hone
  · rw [if_neg htype]
    exact loadSegment_skip hseg htype (fun a ha => h.within_table hi ha) hs.log

lemma turn_loadedTo (h : WellFormed m fileBuffer len) (hs : LoadedTo m fileBuffer len i s)
    (hi : i < phnum m fileBuffer) :
    LoadedTo m fileBuffer len (i + 1) (loadSegment fileBuffer (phdrAddr m fileBuffer i) s) := by
  obtain ⟨hmem, hlog⟩ := h.turn hs hi
  refine ⟨fun a ha => ?_, hlog⟩
  rw [hmem, ← hs.outside a fun k hk => ha k (hk.trans i.lt_succ_self)]
  split
  · rename_i htype
    exact blit_of_not_within (ha i i.lt_succ_self ⟨hi, htype⟩)
  · rfl

lemma start (m : Mem) (fileBuffer : BitVec 32) (len : Nat) :
    LoadedTo m fileBuffer len 0 ⟨m, []⟩ := ⟨fun _ _ => rfl, by simp⟩

lemma reload (h : WellFormed m fileBuffer len) {I : Nat → Load → Prop} (h0 : I 0 ⟨m, []⟩)
    (hstep : ∀ i s, i < phnum m fileBuffer → LoadedTo m fileBuffer len i s → I i s →
      I (i + 1) (loadSegment fileBuffer (phdrAddr m fileBuffer i) s)) :
    LoadedTo m fileBuffer len (phnum m fileBuffer) (reloadElfFile fileBuffer m).2 ∧
      I (phnum m fileBuffer) (reloadElfFile fileBuffer m).2 ∧
      (reloadElfFile fileBuffer m).1 = readWord m (fileBuffer + Ehdr.eEntry) := by
  have hnum : phnum m fileBuffer ≤ 2 ^ 16 := (BitVec.isLt _).le
  have hloop := phdrLoop_rule (2 ^ 16) (fileBuffer + readWord m (fileBuffer + Ehdr.ePhoff))
    (I := fun i s => LoadedTo m fileBuffer len i s ∧ I i s) (i := 0)
    (fun i s hs => h.phnum_eq hs.1)
    (fun i s hi hs => ⟨h.turn_loadedTo hs.1 hi, hstep i s hi hs.1 hs.2⟩)
    ⟨start m fileBuffer len, h0⟩ (Nat.zero_le _) (by simpa using hnum)
  rw [reloadElfFile, if_pos h.magic]
  exact ⟨hloop.1, hloop.2, h.entry_eq hloop.1⟩

end WellFormed

def wordBytes (x : BitVec 32) : List (BitVec 8) :=
  [x.setWidth 8, (x >>> 8).setWidth 8, (x >>> 16).setWidth 8, (x >>> 24).setWidth 8]

/-- An ELF header. -/
def ehdrBytes (entry phoff : BitVec 32) (phnum : BitVec 8) : List (BitVec 8) :=
  [0x7F#8, 0x45#8, 0x4C#8, 0x46#8] ++ List.replicate 20 0 ++ wordBytes entry ++ wordBytes phoff ++
    List.replicate 12 0 ++ [phnum, 0] ++ List.replicate 6 0

/-- A program header. -/
def phdrBytes (h : ProgramHeader) : List (BitVec 8) :=
  wordBytes h.type ++ wordBytes h.offset ++ List.replicate 4 0 ++ wordBytes h.paddr ++
    wordBytes h.filesz ++ wordBytes h.memsz ++ List.replicate 8 0

/-- A memory that holds a file and nothing else. -/
def fileMem (fileBuffer : BitVec 32) (file : List (BitVec 8)) : Mem :=
  fun a => file[(a - fileBuffer).toNat]?.getD 0

/-- One segment of two bytes, the first of them in the file. -/
def tinyKernel : List (BitVec 8) :=
  ehdrBytes 0x10000 52 1 ++ phdrBytes ⟨ptLoad, 84, 0x10000, 1, 2⟩ ++ [0xC3#8]

/-! ### A well-formed image -/

/-- The memory `m'` and the result `entry` are what the image in `m` describes. -/
structure ImageLoaded (m : Mem) (fileBuffer : BitVec 32) (len : Nat) (entry : BitVec 32)
    (m' : Mem) : Prop where
  entry : entry = readWord m (fileBuffer + Ehdr.eEntry)
  file : ∀ i, IsLoad m fileBuffer i → ∀ k, k < (segment m fileBuffer i).filesz.toNat →
    m' ((segment m fileBuffer i).paddr + BitVec.ofNat 32 k) =
      m (fileBuffer + ((segment m fileBuffer i).offset + BitVec.ofNat 32 k))
  zeros : ∀ i, IsLoad m fileBuffer i → ∀ k, (segment m fileBuffer i).filesz.toNat ≤ k →
    k < (segment m fileBuffer i).memsz.toNat →
    m' ((segment m fileBuffer i).paddr + BitVec.ofNat 32 k) = 0
  outside : ∀ a, (∀ i, IsLoad m fileBuffer i → ¬ InTarget m fileBuffer i a) → m' a = m a
  buffer : ∀ a, Within a fileBuffer len → m' a = m a

/-- The segments behind the first `i` headers are in place. -/
def InPlace (m : Mem) (fileBuffer : BitVec 32) (i : Nat) (s : Load) : Prop :=
  ∀ k, k < i → IsLoad m fileBuffer k → ∀ j, j < (segment m fileBuffer k).memsz.toNat →
    s.mem ((segment m fileBuffer k).paddr + BitVec.ofNat 32 j) =
      segmentBytes m fileBuffer (segment m fileBuffer k) j

lemma WellFormed.inPlace_step {m : Mem} {fileBuffer : BitVec 32} {len i : Nat} {s : Load}
    (h : WellFormed m fileBuffer len) (hap : SegmentsApart m fileBuffer)
    (hi : i < phnum m fileBuffer) (hs : LoadedTo m fileBuffer len i s)
    (hplace : InPlace m fileBuffer i s) :
    InPlace m fileBuffer (i + 1) (loadSegment fileBuffer (phdrAddr m fileBuffer i) s) := by
  intro k hk hload j hj
  have htarget : InTarget m fileBuffer k
      ((segment m fileBuffer k).paddr + BitVec.ofNat 32 j) := within_add hj (BitVec.isLt _).le
  rw [(h.turn hs hi).1]
  rcases Nat.lt_succ_iff_lt_or_eq.mp hk with hlt | rfl
  · rw [← hplace k hlt hload j hj]
    split
    · rename_i htype
      exact blit_of_not_within (hap k i hload ⟨hi, htype⟩ hlt.ne _ htarget)
    · rfl
  · rw [if_pos hload.2]
    exact blit_add hj (BitVec.isLt _).le

lemma WellFormed.imageLoaded {m : Mem} {fileBuffer : BitVec 32} {len : Nat}
    (h : WellFormed m fileBuffer len) (hap : SegmentsApart m fileBuffer) :
    ImageLoaded m fileBuffer len (reloadElfFile fileBuffer m).1
      (reloadElfFile fileBuffer m).2.mem := by
  obtain ⟨hloaded, hplace, hentry⟩ := h.reload (I := InPlace m fileBuffer)
    (fun k hk => absurd hk k.not_lt_zero) (fun i s hi hs => h.inPlace_step hap hi hs)
  refine ⟨hentry, fun i hi k hk => ?_, fun i hi k hlow hk => ?_, fun a ha => ?_, fun a ha => ?_⟩
  · rw [hplace i hi.1 hi k (hk.trans_le (h.sizes i hi)), segmentBytes, if_pos hk,
      BitVec.add_assoc]
  · rw [hplace i hi.1 hi k hk, segmentBytes, if_neg (not_lt.mpr hlow)]
  · exact hloaded.outside a fun k _ hk => ha k hk
  · exact h.image hloaded ha

lemma reloadElfFile_of_no_magic {m : Mem} {fileBuffer : BitVec 32}
    (h : elfMagic m fileBuffer = false) : reloadElfFile fileBuffer m = (0, ⟨m, []⟩) := by
  have hno : ¬ elfMagic m fileBuffer = true := by simp [h]
  rw [reloadElfFile, if_neg hno]

/-- `reload_elf_file` loads a well-formed image as it describes itself, and nothing that has
not the magic bytes. -/
theorem reload_builds_image (m : Mem) (fileBuffer : BitVec 32) (len : Nat) :
    (WellFormed m fileBuffer len → SegmentsApart m fileBuffer →
      ImageLoaded m fileBuffer len (reloadElfFile fileBuffer m).1
        (reloadElfFile fileBuffer m).2.mem) ∧
      (elfMagic m fileBuffer = false →
        (reloadElfFile fileBuffer m).1 = 0 ∧ (reloadElfFile fileBuffer m).2.mem = m) := by
  refine ⟨fun h hap => h.imageLoaded hap, fun hmagic => ?_⟩
  rw [reloadElfFile_of_no_magic hmagic]
  exact ⟨rfl, rfl⟩

lemma tinyKernel_phnum : phnum (fileMem sysKernelLoadAddr tinyKernel) sysKernelLoadAddr = 1 := by
  decide

lemma tinyKernel_segment : segment (fileMem sysKernelLoadAddr tinyKernel) sysKernelLoadAddr 0 =
    ⟨ptLoad, 84, 0x10000, 1, 2⟩ := by
  rfl

/-- The file may be followed by anything. -/
lemma tinyKernel_wellFormed {len : Nat} (hlow : 85 ≤ len)
    (hhigh : sysKernelLoadAddr.toNat + len ≤ 2 ^ 32) :
    WellFormed (fileMem sysKernelLoadAddr tinyKernel) sysKernelLoadAddr len := by
  have honly : ∀ i, IsLoad (fileMem sysKernelLoadAddr tinyKernel) sysKernelLoadAddr i → i = 0 := by
    intro i hi
    have hlt := hi.1
    rw [tinyKernel_phnum] at hlt
    omega
  have htable : (readWord (fileMem sysKernelLoadAddr tinyKernel)
      (sysKernelLoadAddr + Ehdr.ePhoff)).toNat +
        phnum (fileMem sysKernelLoadAddr tinyKernel) sysKernelLoadAddr * Phdr.size = 84 := by decide
  refine ⟨by decide, by omega, ?_, by omega, fun i hi => ?_, fun i hi => ?_,
    fun i hi a ha htarget => ?_⟩
  · have hsize : Ehdr.size = 52 := rfl
    omega
  · rw [honly i hi, tinyKernel_segment]
    exact hlow
  · rw [honly i hi, tinyKernel_segment]
    decide
  · rw [InTarget, honly i hi, tinyKernel_segment] at htarget
    have hap : RangesApart (0x10000 : BitVec 32) (2 : BitVec 32).toNat sysKernelLoadAddr len :=
      rangesApart_of_le (by decide) hhigh
    exact hap a htarget ha

/-- A file of 85 bytes is loaded. -/
theorem reload_builds_tiny_kernel :
    ImageLoaded (fileMem sysKernelLoadAddr tinyKernel) sysKernelLoadAddr 85
      (reloadElfFile sysKernelLoadAddr (fileMem sysKernelLoadAddr tinyKernel)).1
      (reloadElfFile sysKernelLoadAddr (fileMem sysKernelLoadAddr tinyKernel)).2.mem := by
  refine (reload_builds_image _ _ _).1 (tinyKernel_wellFormed le_rfl (by decide))
    fun i j hi hj hij => ?_
  have hlti := hi.1
  have hltj := hj.1
  rw [tinyKernel_phnum] at hlti hltj
  omega

/-- The bytes that `load_kernel` reads. -/
def kernelSize : Nat := kernelMaxSectorsInSize * sectorSize

/-- Memory when the disk has been read. -/
def kernelMem (disk : Disk) (m : Mem) : Mem :=
  readDisk disk kernelBeginSector kernelMaxSectorsInSize sysKernelLoadAddr m

/-- If there is an entry to jump to, the image was read within its bytes and written to where
its segments go, each of which has room for its part of the file. -/
def LoadedSafely (m : Mem) : Prop :=
  (reloadElfFile sysKernelLoadAddr m).1 ≠ 0 →
    (∀ x ∈ (reloadElfFile sysKernelLoadAddr m).2.log, Allowed m sysKernelLoadAddr kernelSize x) ∧
      ∀ i, IsLoad m sysKernelLoadAddr i →
        (segment m sysKernelLoadAddr i).filesz.toNat ≤ (segment m sysKernelLoadAddr i).memsz.toNat

/-- The loader stays inside a well-formed image and jumps to its entry. -/
theorem well_formed_kernel_loaded_safely (disk : Disk) (m : Mem)
    (h : WellFormed (kernelMem disk m) sysKernelLoadAddr kernelSize) :
    LoadedSafely (kernelMem disk m) ∧
      (loadKernel disk m).1 =
        if readWord (kernelMem disk m) (sysKernelLoadAddr + Ehdr.eEntry) = 0 then .hang
        else .kernel (readWord (kernelMem disk m) (sysKernelLoadAddr + Ehdr.eEntry)) := by
  obtain ⟨hloaded, -, hentry⟩ := h.reload (I := fun _ _ => True) trivial (fun _ _ _ _ _ => trivial)
  refine ⟨fun _ => ⟨hloaded.log, h.sizes⟩, ?_⟩
  rw [← hentry]
  simp only [loadKernel, kernelMem]
  congr

/-! ### Images on a disk -/

/-- The disk with a file where the kernel is. -/
def diskOf (file : List (BitVec 8)) : Disk :=
  fun sector i => file[(sector - kernelBeginSector) * sectorSize + i]?.getD 0

lemma readDisk_eq (disk : Disk) (sector n : Nat) (buf : BitVec 32) (m : Mem)
    (hn : n * sectorSize ≤ 2 ^ 32) :
    readDisk disk sector n buf m =
      blit m buf (fun k => disk (sector + k / sectorSize) (k % sectorSize)) (n * sectorSize) := by
  have hpos : 0 < sectorSize := by decide
  induction n generalizing sector buf m with
  | zero => simp [readDisk]
  | succ n ih =>
    have hsum : (n + 1) * sectorSize = sectorSize + n * sectorSize := by rw [Nat.succ_mul, add_comm]
    have hfirst : blit m buf (disk sector) sectorSize =
        blit m buf (fun k => disk (sector + k / sectorSize) (k % sectorSize)) sectorSize := by
      apply blit_congr
      intro k hk
      rw [Nat.div_eq_of_lt hk, Nat.mod_eq_of_lt hk, add_zero]
    have hrest : (fun k => disk (sector + 1 + k / sectorSize) (k % sectorSize)) =
        fun k => disk (sector + (sectorSize + k) / sectorSize) ((sectorSize + k) % sectorSize) := by
      funext k
      rw [Nat.add_div_left _ hpos, Nat.add_mod_left, add_assoc, add_comm 1]
    rw [readDisk, ih _ _ _ (by omega), hfirst, hrest, hsum]
    exact blit_append (f := fun k => disk (sector + k / sectorSize) (k % sectorSize)) (by omega)

lemma kernelMem_diskOf (file : List (BitVec 8)) (hfile : file.length ≤ kernelSize) :
    kernelMem (diskOf file) (fun _ => 0) = fileMem sysKernelLoadAddr file := by
  have hpos : 0 < sectorSize := by decide
  rw [kernelMem, readDisk_eq _ _ _ _ _ (by decide)]
  funext a
  by_cases ha : Within a sysKernelLoadAddr (kernelMaxSectorsInSize * sectorSize)
  · rw [blit_of_within ha]
    simp only [diskOf, fileMem, Nat.add_sub_cancel_left, Nat.div_add_mod']
  · rw [blit_of_not_within ha, fileMem, List.getElem?_eq_none]
    · rfl
    · exact hfile.trans (not_lt.mp ha)

/-- The file of 85 bytes is loaded from the disk, and the loader jumps to its entry. -/
theorem well_formed_kernel_loaded_safely_tiny :
    (loadKernel (diskOf tinyKernel) fun _ => 0).1 = .kernel 0x10000 := by
  have hmem := kernelMem_diskOf tinyKernel (by decide)
  have h := (well_formed_kernel_loaded_safely (diskOf tinyKernel) (fun _ => 0)
    (by rw [hmem]; exact tinyKernel_wellFormed (by decide) (by decide))).2
  rw [h, hmem]
  decide

/-- A program header far behind the image. -/
def wildTable : List (BitVec 8) := ehdrBytes 0x10000 0x10000000 1

/-- A segment far behind the image. -/
def wildSource : List (BitVec 8) :=
  ehdrBytes 0x10000 52 1 ++ phdrBytes ⟨ptLoad, 0x10000000, 0x10000, 1, 1⟩

/-- A segment over the header of the next one, which it makes a wild one. -/
def wildTarget : List (BitVec 8) :=
  ehdrBytes 0x10000 52 2 ++ phdrBytes ⟨ptLoad, 116, 0x100054, 32, 32⟩ ++
    phdrBytes ⟨0, 0, 0, 0, 0⟩ ++ phdrBytes ⟨ptLoad, 0x10000000, 0x10000, 1, 1⟩

/-- A segment with more bytes in the file than in memory, over the entry: the entry is all that
the filling loop leaves of the memory. -/
def wildSizes : List (BitVec 8) :=
  ehdrBytes 0x10000 52 1 ++ phdrBytes ⟨ptLoad, 84, 0x100018, 4, 0⟩ ++ wordBytes 0x10000

lemma wildSizes_segment : segment (fileMem sysKernelLoadAddr wildSizes) sysKernelLoadAddr 0 =
    ⟨ptLoad, 84, 0x100018, 4, 0⟩ := by
  rfl

lemma wildSizes_loaded {m : Mem} {s : Load} (hm : fileMem sysKernelLoadAddr wildSizes = m)
    (hs : loadSegment sysKernelLoadAddr (phdrAddr m sysKernelLoadAddr 0) ⟨m, []⟩ = s) :
    s.mem = blit (blit m 0x100018 (fun k => m (0x100054 + BitVec.ofNat 32 k)) 4) 0x10001C
      (fun _ => 0) 0xFFFFFFFC := by
  have hseg : programHeader m (phdrAddr m sysKernelLoadAddr 0) = ⟨ptLoad, 84, 0x100018, 4, 0⟩ := by
    rw [← hm]
    exact wildSizes_segment
  have haddr : phdrAddr m sysKernelLoadAddr 0 = 0x100034 := by
    rw [← hm]
    decide
  rw [haddr] at hseg hs
  rw [← hs]
  refine (loadSegment_blits _ (P := fun _ => True) (s := ⟨m, []⟩) hseg rfl ?_ ?_
    (fun _ _ => trivial) (fun _ _ => trivial) (fun _ _ => trivial) (fun _ _ => trivial)
    (fun _ _ => trivial)).1
  · intro a ha ha'
    exact rangesApart_of_le (n := 4) (k := Phdr.size) (by decide) (by decide) a ha' ha
  · intro a ha ha'
    exact rangesApart_of_le (n := 4) (k := 4) (by decide) (by decide) a ha' ha

lemma wildSizes_entry :
    (reloadElfFile sysKernelLoadAddr (fileMem sysKernelLoadAddr wildSizes)).1 = 0x10000 := by
  generalize hm : fileMem sysKernelLoadAddr wildSizes = m
  have hmagic : elfMagic m sysKernelLoadAddr = true := by
    rw [← hm]
    decide
  have hnum : (readHalf m (sysKernelLoadAddr + Ehdr.ePhnum)).toNat = 1 := by
    rw [← hm]
    decide
  generalize hs : loadSegment sysKernelLoadAddr (phdrAddr m sysKernelLoadAddr 0) ⟨m, []⟩ = s
  have hmem := wildSizes_loaded hm hs
  have hstop : (readHalf s.mem (sysKernelLoadAddr + Ehdr.ePhnum)).toNat = 0 := by
    rw [hmem, ← hm]
    decide
  rw [reloadElfFile, if_pos hmagic]
  dsimp only
  rw [phdrLoop_turn (by decide), hnum, if_pos (by decide)]
  have hs' : loadSegment sysKernelLoadAddr (sysKernelLoadAddr +
      readWord m (sysKernelLoadAddr + Ehdr.ePhoff) + BitVec.ofNat 32 (0 * Phdr.size)) ⟨m, []⟩ = s :=
    hs
  rw [hs', phdrLoop_turn (by decide), hstop, if_neg (by decide), hmem, ← hm]
  decide

/-- The file has the magic bytes and is not loaded safely from an otherwise empty disk. -/
def LoadedWild (file : List (BitVec 8)) : Prop :=
  elfMagic (kernelMem (diskOf file) fun _ => 0) sysKernelLoadAddr = true ∧
    ¬ LoadedSafely (kernelMem (diskOf file) fun _ => 0)

lemma loadedWild_of_access {file : List (BitVec 8)} (hfile : file.length ≤ kernelSize)
    (hmagic : elfMagic (fileMem sysKernelLoadAddr file) sysKernelLoadAddr = true)
    (hentry : (reloadElfFile sysKernelLoadAddr (fileMem sysKernelLoadAddr file)).1 ≠ 0)
    {a : BitVec 32} (hout : ¬ Within a sysKernelLoadAddr kernelSize)
    (ha : Access.header a ∈
        (reloadElfFile sysKernelLoadAddr (fileMem sysKernelLoadAddr file)).2.log ∨
      Access.source a ∈
        (reloadElfFile sysKernelLoadAddr (fileMem sysKernelLoadAddr file)).2.log) :
    LoadedWild file := by
  rw [LoadedWild, kernelMem_diskOf file hfile]
  refine ⟨hmagic, fun h => ?_⟩
  rcases ha with ha | ha
  · exact hout ((h hentry).1 _ ha)
  · exact hout ((h hentry).1 _ ha)

lemma loadedWild_sizes : LoadedWild wildSizes := by
  rw [LoadedWild, kernelMem_diskOf wildSizes (by decide)]
  refine ⟨by decide, fun h => ?_⟩
  have hsizes := (h (by rw [wildSizes_entry]; decide)).2 0 ⟨by decide, by decide⟩
  rw [wildSizes_segment] at hsizes
  exact absurd hsizes (by decide)

/-- The loader follows images with the magic bytes out of the bytes read or past the room for a
segment, each for another reason. -/
theorem wild_kernels_loaded :
    LoadedWild wildTable ∧ LoadedWild wildSource ∧ LoadedWild wildTarget ∧
      LoadedWild wildSizes := by
  refine ⟨?_, ?_, ?_, loadedWild_sizes⟩
  · exact loadedWild_of_access (a := 0x10100000) (by decide) (by decide) (by decide) (by decide)
      (Or.inl (by decide))
  · exact loadedWild_of_access (a := 0x10100000) (by decide) (by decide) (by decide) (by decide)
      (Or.inr (by decide))
  · exact loadedWild_of_access (a := 0x10100000) (by decide) (by decide) (by decide +kernel)
      (by decide) (Or.inr (by decide +kernel))

end OsToyI386
