import OsToyI386.Loader.Loader32

/-!
# Loading segment by segment

The two inner loops of `reload_elf_file` as one block of memory, the block that a program
header describes, and the rule for the loop over the headers. The header and the source of
a segment have to lie apart from where the segment goes, since both are read all along.
-/

namespace OsToyI386

open Lib

/-- The fields of a program header that the code reads. -/
structure ProgramHeader where
  type : BitVec 32
  offset : BitVec 32
  paddr : BitVec 32
  filesz : BitVec 32
  memsz : BitVec 32

def programHeader (m : Mem) (phdr : BitVec 32) : ProgramHeader where
  type := readWord m (phdr + Phdr.pType)
  offset := readWord m (phdr + Phdr.pOffset)
  paddr := readWord m (phdr + Phdr.pPaddr)
  filesz := readWord m (phdr + Phdr.pFilesz)
  memsz := readWord m (phdr + Phdr.pMemsz)

/-- The bytes that a segment is to have: its part of the file, then zeros. -/
def segmentBytes (m : Mem) (fileBuffer : BitVec 32) (h : ProgramHeader) (k : Nat) : BitVec 8 :=
  if k < h.filesz.toNat then m (fileBuffer + h.offset + BitVec.ofNat 32 k) else 0

section Reads

variable {m m' : Mem} {a phdr dest : BitVec 32} {f : Nat → BitVec 8} {n : Nat}

lemma readWord_congr (h : ∀ i, i < 4 → m' (a + BitVec.ofNat 32 i) = m (a + BitVec.ofNat 32 i)) :
    readWord m' a = readWord m a := by
  have h0 : m' a = m a := by simpa using h 0 (by decide)
  have h1 : m' (a + 1) = m (a + 1) := h 1 (by decide)
  have h2 : m' (a + 2) = m (a + 2) := h 2 (by decide)
  have h3 : m' (a + 3) = m (a + 3) := h 3 (by decide)
  rw [readWord, readWord, h0, h1, h2, h3]

lemma readHalf_congr (h : ∀ i, i < 2 → m' (a + BitVec.ofNat 32 i) = m (a + BitVec.ofNat 32 i)) :
    readHalf m' a = readHalf m a := by
  have h0 : m' a = m a := by simpa using h 0 (by decide)
  have h1 : m' (a + 1) = m (a + 1) := h 1 (by decide)
  rw [readHalf, readHalf, h0, h1]

lemma within_field {off : BitVec 32} (hoff : off.toNat + 4 ≤ Phdr.size) {i : Nat} (hi : i < 4) :
    Within (phdr + off + BitVec.ofNat 32 i) phdr Phdr.size := by
  have hsize : Phdr.size ≤ 2 ^ 32 := by decide
  have hword : off = BitVec.ofNat 32 off.toNat := by rw [BitVec.ofNat_toNat, BitVec.setWidth_eq]
  rw [hword, add_ofNat_add]
  exact within_add (by omega) hsize

lemma field_blit (off : BitVec 32) (hoff : off.toNat + 4 ≤ Phdr.size)
    (hap : RangesApart phdr Phdr.size dest n) :
    readWord (blit m dest f n) (phdr + off) = readWord m (phdr + off) := by
  apply readWord_congr
  intro i hi
  exact blit_of_not_within (hap _ (within_field hoff hi))

lemma programHeader_congr (h : ∀ a, Within a phdr Phdr.size → m' a = m a) :
    programHeader m' phdr = programHeader m phdr := by
  have hfield : ∀ off : BitVec 32, off.toNat + 4 ≤ Phdr.size →
      readWord m' (phdr + off) = readWord m (phdr + off) := by
    intro off hoff
    apply readWord_congr
    intro i hi
    exact h _ (within_field hoff hi)
  simp only [programHeader, hfield Phdr.pType (by decide), hfield Phdr.pOffset (by decide),
    hfield Phdr.pPaddr (by decide), hfield Phdr.pFilesz (by decide),
    hfield Phdr.pMemsz (by decide)]

end Reads

section Loops

variable {P : Access → Prop} {s : Load} {phdr src dest : BitVec 32}

lemma Load.field_log {off : BitVec 32} (hoff : off.toNat + 4 ≤ Phdr.size)
    (hheader : ∀ a, Within a phdr Phdr.size → P (.header a)) (hlog : ∀ x ∈ s.log, P x) :
    ∀ x ∈ (s.field phdr off).2.log, P x := by
  have hbyte : ∀ i, i < 4 → P (.header (phdr + off + BitVec.ofNat 32 i)) :=
    fun i hi => hheader _ (within_field hoff hi)
  have h0 : P (.header (phdr + off)) := by simpa using hbyte 0 (by decide)
  have h1 : P (.header (phdr + off + 1)) := hbyte 1 (by decide)
  have h2 : P (.header (phdr + off + 2)) := hbyte 2 (by decide)
  have h3 : P (.header (phdr + off + 3)) := hbyte 3 (by decide)
  intro x hx
  rcases List.mem_append.mp hx with hold | hnew
  · exact hlog x hold
  · simp only [List.mem_cons, List.not_mem_nil, or_false] at hnew
    rcases hnew with rfl | rfl | rfl | rfl
    · exact h0
    · exact h1
    · exact h2
    · exact h3

lemma ofNat_succ (j : Nat) (a : BitVec 32) :
    a + BitVec.ofNat 32 j + 1 = a + BitVec.ofNat 32 (j + 1) := add_ofNat_add a j 1

lemma ofNat_lt {j n : Nat} (hj : j < 2 ^ 32) (hn : n < 2 ^ 32) :
    BitVec.ofNat 32 j < BitVec.ofNat 32 n ↔ j < n := by
  rw [BitVec.lt_def, BitVec.toNat_ofNat, BitVec.toNat_ofNat, Nat.mod_eq_of_lt hj,
    Nat.mod_eq_of_lt hn]

/-- The copying loop, by induction on the turns left: `j` bytes are in place. -/
lemma copyLoop_spec (fuel : Nat) (phdr src dest : BitVec 32) {m : Mem} {j n : Nat}
    (hn : n < 2 ^ 32) (hj : j ≤ n) (hfuel : n - j < fuel)
    (hmem : s.mem = blit m dest (fun k => m (src + BitVec.ofNat 32 k)) j)
    (hsize : readWord m (phdr + Phdr.pFilesz) = BitVec.ofNat 32 n)
    (hphdr : RangesApart phdr Phdr.size dest n) (hsrc : RangesApart src n dest n)
    (hheader : ∀ a, Within a phdr Phdr.size → P (.header a))
    (hsource : ∀ a, Within a src n → P (.source a))
    (hwrite : ∀ a, Within a dest n → P (.write a)) (hlog : ∀ x ∈ s.log, P x) :
    let r := copyLoop fuel phdr (BitVec.ofNat 32 j) (src + BitVec.ofNat 32 j)
      (dest + BitVec.ofNat 32 j) s
    r.1 = dest + BitVec.ofNat 32 n ∧
      r.2.mem = blit m dest (fun k => m (src + BitVec.ofNat 32 k)) n ∧ ∀ x ∈ r.2.log, P x := by
  induction fuel generalizing j s with
  | zero => omega
  | succ fuel ih =>
    have hfield : (s.field phdr Phdr.pFilesz).1 = BitVec.ofNat 32 n := by
      have hap : RangesApart phdr Phdr.size dest j := fun a ha hin => hphdr a ha (hin.mono hj)
      simp only [Load.field, hmem, field_blit Phdr.pFilesz (by decide) hap, hsize]
    have hlog' : ∀ x ∈ (s.field phdr Phdr.pFilesz).2.log, P x :=
      Load.field_log (by decide) hheader hlog
    simp only [copyLoop, hfield, ofNat_lt (lt_of_le_of_lt hj hn) hn]
    by_cases hlt : j < n
    · rw [if_pos hlt, ofNat_succ, ofNat_succ]
      have hcount : BitVec.ofNat 32 j + 1 = BitVec.ofNat 32 (j + 1) := (BitVec.ofNat_add j 1).symm
      rw [hcount]
      have hfrom : Within (src + BitVec.ofNat 32 j) src n := within_add hlt hn.le
      have hto : Within (dest + BitVec.ofNat 32 j) dest n := within_add hlt hn.le
      apply ih hlt (by omega)
      · have hread : s.mem (src + BitVec.ofNat 32 j) = m (src + BitVec.ofNat 32 j) := by
          rw [hmem]
          exact blit_of_not_within fun hin => hsrc _ hfrom (hin.mono hj)
        simp only [Load.copyByte, Load.writeByte, Load.field, hread]
        rw [hmem]
        exact blit_succ (hlt.trans hn)
      · intro x hx
        simp only [Load.copyByte, Load.writeByte, List.mem_append, List.mem_singleton] at hx
        rcases hx with (hx | rfl) | rfl
        · exact hlog' x hx
        · exact hsource _ hfrom
        · exact hwrite _ hto
    · obtain rfl : j = n := by omega
      rw [if_neg hlt]
      exact ⟨rfl, hmem, hlog'⟩

lemma fillLoop_spec (fuel : Nat) (dest : BitVec 32) {m : Mem} {j n : Nat}
    (hn : n < 2 ^ 32) (hj : j ≤ n) (hfuel : n - j < fuel)
    (hmem : s.mem = blit m dest (fun _ => 0) j)
    (hwrite : ∀ a, Within a dest n → P (.write a)) (hlog : ∀ x ∈ s.log, P x) :
    let r := fillLoop fuel (BitVec.ofNat 32 j) (BitVec.ofNat 32 n) (dest + BitVec.ofNat 32 j) s
    r.mem = blit m dest (fun _ => 0) n ∧ ∀ x ∈ r.log, P x := by
  induction fuel generalizing j s with
  | zero => omega
  | succ fuel ih =>
    simp only [fillLoop, ofNat_lt (lt_of_le_of_lt hj hn) hn]
    by_cases hlt : j < n
    · rw [if_pos hlt, ofNat_succ]
      have hcount : BitVec.ofNat 32 j + 1 = BitVec.ofNat 32 (j + 1) := (BitVec.ofNat_add j 1).symm
      rw [hcount]
      apply ih hlt (by omega)
      · simp only [Load.writeByte]
        rw [hmem]
        exact blit_succ (f := fun _ => (0 : BitVec 8)) (hlt.trans hn)
      · intro x hx
        rcases List.mem_append.mp hx with hold | hnew
        · exact hlog x hold
        · rw [List.mem_singleton.mp hnew]
          exact hwrite _ (within_add hlt hn.le)
    · obtain rfl : j = n := by omega
      rw [if_neg hlt]
      exact ⟨hmem, hlog⟩

end Loops

section Segment

variable {P : Access → Prop} {s : Load} {fileBuffer phdr : BitVec 32} {h : ProgramHeader}

lemma loadSegment_skip (hhdr : programHeader s.mem phdr = h) (htype : h.type ≠ ptLoad)
    (hheader : ∀ a, Within a phdr Phdr.size → P (.header a)) (hlog : ∀ x ∈ s.log, P x) :
    (loadSegment fileBuffer phdr s).mem = s.mem ∧
      ∀ x ∈ (loadSegment fileBuffer phdr s).log, P x := by
  have hne : (s.field phdr Phdr.pType).1 ≠ ptLoad := by
    rw [← hhdr] at htype
    exact htype
  simp only [loadSegment, if_pos hne]
  exact ⟨rfl, Load.field_log (by decide) hheader hlog⟩

/-- The state in which the copying loop begins. -/
def Load.enter (s : Load) (phdr : BitVec 32) : Load :=
  (((s.field phdr Phdr.pType).2.field phdr Phdr.pOffset).2.field phdr Phdr.pPaddr).2

/-- The state in which the filling loop begins. -/
def Load.between (s : Load) (phdr : BitVec 32) : Load :=
  ((s.field phdr Phdr.pMemsz).2.field phdr Phdr.pFilesz).2

lemma loadSegment_eq (hhdr : programHeader s.mem phdr = h) (htype : h.type = ptLoad)
    {dest : BitVec 32} {s' : Load}
    (hcopy : copyLoop (2 ^ 32) phdr 0 (fileBuffer + h.offset) h.paddr (s.enter phdr) = (dest, s'))
    (hhdr' : programHeader s'.mem phdr = h) :
    loadSegment fileBuffer phdr s =
      fillLoop (2 ^ 32) 0 (h.memsz - h.filesz) dest (s'.between phdr) := by
  have htype' : ¬ (s.field phdr Phdr.pType).1 ≠ ptLoad := by
    rw [not_not, ← htype, ← hhdr]
    rfl
  have hoffset : ((s.field phdr Phdr.pType).2.field phdr Phdr.pOffset).1 = h.offset := by
    rw [← hhdr]
    rfl
  have hpaddr : (((s.field phdr Phdr.pType).2.field phdr Phdr.pOffset).2.field phdr
      Phdr.pPaddr).1 = h.paddr := by
    rw [← hhdr]
    rfl
  have hmemsz : (s'.field phdr Phdr.pMemsz).1 = h.memsz := by
    rw [← hhdr']
    rfl
  have hfilesz : ((s'.field phdr Phdr.pMemsz).2.field phdr Phdr.pFilesz).1 = h.filesz := by
    rw [← hhdr']
    rfl
  rw [Load.enter] at hcopy
  simp only [loadSegment, if_neg htype', hoffset, hpaddr, hcopy, hmemsz, hfilesz]
  rfl

/-- A segment as two blocks of memory. If it has fewer bytes than its part of the file, the
second one goes all the way around. -/
theorem loadSegment_blits (fileBuffer : BitVec 32) (hhdr : programHeader s.mem phdr = h)
    (htype : h.type = ptLoad)
    (hphdr : RangesApart phdr Phdr.size h.paddr h.filesz.toNat)
    (hsrc : RangesApart (fileBuffer + h.offset) h.filesz.toNat h.paddr h.filesz.toNat)
    (hheader : ∀ a, Within a phdr Phdr.size → P (.header a))
    (hsource : ∀ a, Within a (fileBuffer + h.offset) h.filesz.toNat → P (.source a))
    (hcopied : ∀ a, Within a h.paddr h.filesz.toNat → P (.write a))
    (hfilled : ∀ a, Within a (h.paddr + BitVec.ofNat 32 h.filesz.toNat)
      (h.memsz - h.filesz).toNat → P (.write a))
    (hlog : ∀ x ∈ s.log, P x) :
    (loadSegment fileBuffer phdr s).mem =
        blit (blit s.mem h.paddr (fun k => s.mem (fileBuffer + h.offset + BitVec.ofNat 32 k))
          h.filesz.toNat) (h.paddr + BitVec.ofNat 32 h.filesz.toNat) (fun _ => 0)
          (h.memsz - h.filesz).toNat ∧
      ∀ x ∈ (loadSegment fileBuffer phdr s).log, P x := by
  have hcopy := copyLoop_spec (2 ^ 32) phdr (fileBuffer + h.offset) h.paddr (P := P)
    (s := s.enter phdr) (m := s.mem) (j := 0) h.filesz.isLt (Nat.zero_le _) (by omega)
    (by rw [blit_zero]; rfl)
    (by rw [BitVec.ofNat_toNat, BitVec.setWidth_eq, ← hhdr]; rfl) hphdr hsrc hheader hsource
    hcopied (Load.field_log (by decide) hheader (Load.field_log (by decide) hheader
      (Load.field_log (by decide) hheader hlog)))
  simp only [BitVec.add_zero] at hcopy
  obtain ⟨⟨dest, s'⟩, hr⟩ : ∃ r, copyLoop (2 ^ 32) phdr 0#32 (fileBuffer + h.offset) h.paddr
      (s.enter phdr) = r := ⟨_, rfl⟩
  rw [hr] at hcopy
  dsimp only at hcopy
  obtain ⟨rfl, hmem, hlog'⟩ := hcopy
  have hhdr' : programHeader s'.mem phdr = h := by
    rw [← hhdr]
    apply programHeader_congr
    intro a ha
    rw [hmem]
    exact blit_of_not_within (hphdr a ha)
  have hfill := fillLoop_spec (2 ^ 32) (h.paddr + BitVec.ofNat 32 h.filesz.toNat) (P := P)
    (s := s'.between phdr) (m := s'.mem) (j := 0) (h.memsz - h.filesz).isLt (Nat.zero_le _)
    (by omega) (by rw [blit_zero]; rfl) hfilled
    (Load.field_log (by decide) hheader (Load.field_log (by decide) hheader hlog'))
  simp only [BitVec.add_zero, BitVec.ofNat_toNat, BitVec.setWidth_eq] at hfill
  rw [BitVec.ofNat_toNat, BitVec.setWidth_eq] at hr ⊢
  rw [loadSegment_eq hhdr htype hr hhdr', ← hmem]
  exact hfill

/-- A segment with room for its part of the file is one block of memory. -/
theorem loadSegment_load (fileBuffer : BitVec 32) (hhdr : programHeader s.mem phdr = h)
    (htype : h.type = ptLoad)
    (hle : h.filesz.toNat ≤ h.memsz.toNat)
    (hphdr : RangesApart phdr Phdr.size h.paddr h.memsz.toNat)
    (hsrc : RangesApart (fileBuffer + h.offset) h.filesz.toNat h.paddr h.memsz.toNat)
    (hheader : ∀ a, Within a phdr Phdr.size → P (.header a))
    (hsource : ∀ a, Within a (fileBuffer + h.offset) h.filesz.toNat → P (.source a))
    (hwrite : ∀ a, Within a h.paddr h.memsz.toNat → P (.write a)) (hlog : ∀ x ∈ s.log, P x) :
    (loadSegment fileBuffer phdr s).mem =
        blit s.mem h.paddr (segmentBytes s.mem fileBuffer h) h.memsz.toNat ∧
      ∀ x ∈ (loadSegment fileBuffer phdr s).log, P x := by
  have hmemsz := h.memsz.isLt
  have hrest : (h.memsz - h.filesz).toNat = h.memsz.toNat - h.filesz.toNat :=
    BitVec.toNat_sub_of_le hle
  have hend : h.filesz.toNat + (h.memsz - h.filesz).toNat = h.memsz.toNat := by omega
  obtain ⟨hmem, hlog'⟩ := loadSegment_blits fileBuffer (P := P) hhdr htype
    (fun a ha hin => hphdr a ha (hin.mono hle)) (fun a ha hin => hsrc a ha (hin.mono hle))
    hheader hsource (fun a ha => hwrite a (ha.mono hle))
    (fun a ha => hwrite a (ha.sub hend.le hmemsz.le)) hlog
  refine ⟨?_, hlog'⟩
  have hfile : blit s.mem h.paddr (fun k => s.mem (fileBuffer + h.offset + BitVec.ofNat 32 k))
      h.filesz.toNat = blit s.mem h.paddr (segmentBytes s.mem fileBuffer h) h.filesz.toNat := by
    apply blit_congr
    intro i hi
    exact (if_pos hi).symm
  have hzeros : (fun _ : Nat => (0 : BitVec 8)) =
      fun i => segmentBytes s.mem fileBuffer h (h.filesz.toNat + i) := by
    funext i
    exact (if_neg (by omega)).symm
  rw [hmem, hfile, hzeros, blit_append (by omega), hend]

end Segment

lemma phdrLoop_turn {fuel i : Nat} {fileBuffer phdrStart : BitVec 32} {s : Load} (h : 0 < fuel) :
    phdrLoop fuel fileBuffer phdrStart i s =
      if i < (readHalf s.mem (fileBuffer + Ehdr.ePhnum)).toNat then
        phdrLoop (fuel - 1) fileBuffer phdrStart (i + 1)
          (loadSegment fileBuffer (phdrStart + BitVec.ofNat 32 (i * Phdr.size)) s)
      else s := by
  cases fuel with
  | zero => omega
  | succ fuel => rfl

/-- The rule for the loop over the program headers: `e_phnum` reads the same all along, and a
turn takes the invariant from one header to the next. -/
lemma phdrLoop_rule (fuel : Nat) (phdrStart : BitVec 32) {I : Nat → Load → Prop}
    {fileBuffer : BitVec 32} {n i : Nat} {s : Load}
    (hnum : ∀ i s, I i s → (readHalf s.mem (fileBuffer + Ehdr.ePhnum)).toNat = n)
    (hstep : ∀ i s, i < n → I i s →
      I (i + 1) (loadSegment fileBuffer (phdrStart + BitVec.ofNat 32 (i * Phdr.size)) s))
    (h : I i s) (hi : i ≤ n) (hfuel : n - i ≤ fuel) :
    I n (phdrLoop fuel fileBuffer phdrStart i s) := by
  induction fuel generalizing i s with
  | zero =>
    obtain rfl : i = n := by omega
    exact h
  | succ fuel ih =>
    rw [phdrLoop, hnum i s h]
    by_cases hlt : i < n
    · rw [if_pos hlt]
      exact ih (hstep i s hlt h) hlt (by omega)
    · obtain rfl : i = n := by omega
      rw [if_neg hlt]
      exact h

end OsToyI386
