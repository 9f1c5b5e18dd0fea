import OsToyI386.Scheduler.Context
import OsToyI386.Tools.Format

/-!
# The task state segment of a new task

`kernel_memset` writes one byte again and again, so a new TSS keeps what was in its memory
wherever `tss_init` does not assign a field.
-/

namespace OsToyI386

/-! ### `tss_init` in one piece

The same code as between the timer interrupts of the machine, for a call that runs alone. -/

/-- `for (int i = 1; i < GDT_TABLE_SIZE; i++)` of `get_alloc_desc`. -/
def allocDescLoop : Nat → (i : Nat) → Cpu → Int × Cpu
  | 0, _, p => (-1, p)
  | fuel + 1, i, p =>
    if i < gdtTableSize then
      if (p.gdt i).attr = 0 then ((i * 8 : Nat), claimDesc i p)
      else allocDescLoop fuel (i + 1) p
    else (-1, p)

def getAllocDesc (p : Cpu) : Int × Cpu := allocDescLoop gdtTableSize 1 p

/-- `tss_init`, as far as the processor sees it. -/
def tssInit (r : InitReq) (p : Cpu) : Int × Cpu :=
  let (tssSel, p) := getAllocDesc p
  if tssSel < 0 then (-1, p)
  else
    let addr := p.tssAddr r.task
    let p := setSegment tssSel addr (BitVec.ofNat 32 Tss.size)
      (segPPresent ||| segDpl0 ||| segTypeTss) p
    (0, { p with tss := Function.update p.tss addr (Tss.fill (p.tss addr) r.entry r.esp) })

section Search

variable {p : Cpu} {fuel i n : Nat}

lemma allocDescLoop_some (hn : n < gdtTableSize) (hz : (p.gdt n).attr = 0) (hi : i ≤ n)
    (hused : ∀ j, i ≤ j → j < n → (p.gdt j).attr ≠ 0) (hfuel : n < i + fuel) :
    allocDescLoop fuel i p = (((n * 8 : Nat) : Int), claimDesc n p) := by
  induction fuel generalizing i with
  | zero => omega
  | succ fuel ih =>
    rw [allocDescLoop, if_pos (by omega)]
    by_cases hin : i = n
    · rw [hin, if_pos hz]
    · rw [if_neg (hused i (Nat.le_refl i) (by omega))]
      exact ih (by omega) (fun j hj hjn => hused j (by omega) hjn) (by omega)

lemma tssInit_some (r : InitReq) (hpos : 1 ≤ n) (hn : n < gdtTableSize) (hz : (p.gdt n).attr = 0)
    (hused : ∀ j, 1 ≤ j → j < n → (p.gdt j).attr ≠ 0) :
    tssInit r p = (0, { p with
      gdt := Function.update p.gdt n (tssDesc (p.tssAddr r.task))
      tss := Function.update p.tss (p.tssAddr r.task)
        (Tss.fill (p.tss (p.tssAddr r.task)) r.entry r.esp) }) := by
  have hsel : ¬ (((n * 8 : Nat) : Int) < 0) := by omega
  rw [tssInit, getAllocDesc, allocDescLoop_some hn hz hpos hused (Nat.lt_add_left 1 hn)]
  simp only [if_neg hsel]
  simp [claimDesc, Cpu.setDesc, setSegment, segmentDescSet, tssDesc]

end Search

lemma kernelMemset_eq (mem : Nat → BitVec 8) (dest : Nat) (c : BitVec 8) (size : Nat) :
    kernelMemset mem dest c size = if size = 0 then mem else Function.update mem dest c := by
  induction size generalizing mem with
  | zero => rfl
  | succ size ih =>
    rw [kernelMemset, ih, if_neg (Nat.succ_ne_zero size)]
    split
    · rfl
    · rw [Function.update_idem]

lemma kernelMemset_fills_iff (mem : Nat → BitVec 8) (dest : Nat) (c : BitVec 8) (size : Nat) :
    (∀ i, kernelMemset mem dest c size i = if dest ≤ i ∧ i < dest + size then c else mem i) ↔
      ∀ i, dest < i → i < dest + size → mem i = c := by
  rw [kernelMemset_eq]
  constructor
  · intro h i hlo hhi
    have hi := h i
    rwa [if_neg (by omega), Function.update_of_ne (by omega), if_pos ⟨hlo.le, hhi⟩] at hi
  · intro h i
    split
    · rw [if_neg (by omega)]
    · by_cases hi : i = dest
      · rw [hi, Function.update_self, if_pos ⟨le_refl _, by omega⟩]
      · rw [Function.update_of_ne hi]
        split
        · rename_i hin
          exact h i (by omega) hin.2
        · rfl

/-- The offsets of the fields of a new TSS that are not zero, with what they hold. -/
def newFields (entry sp : BitVec 32) : List (Nat × BitVec 32) :=
  [(Tss.eip, entry), (Tss.esp0, sp), (Tss.esp, sp),
    (Tss.ss0, BitVec.ofInt 32 kernelSelectorData), (Tss.ss, BitVec.ofInt 32 kernelSelectorData),
    (Tss.gs, BitVec.ofInt 32 kernelSelectorData), (Tss.fs, BitVec.ofInt 32 kernelSelectorData),
    (Tss.ds, BitVec.ofInt 32 kernelSelectorData), (Tss.es, BitVec.ofInt 32 kernelSelectorData),
    (Tss.cs, BitVec.ofInt 32 kernelSelectorCode), (Tss.eflags, eflagsIf ||| eflagsDefault)]

/-- An offset inside one of these fields. -/
def Assigned (off : Nat) : Prop :=
  (4 ≤ off ∧ off < 12) ∨ (32 ≤ off ∧ off < 40) ∨ (56 ≤ off ∧ off < 60) ∨ (72 ≤ off ∧ off < 96)

instance (off : Nat) : Decidable (Assigned off) := inferInstanceAs (Decidable (_ ∨ _))

section Fill

variable {t t' : Tss} {entry sp : BitVec 32} {off : Nat}

lemma fill_eq (t : Tss) (entry sp : BitVec 32) :
    Tss.fill t entry sp = putFields (kernelMemset t 0 0 Tss.size) (newFields entry sp) := rfl

lemma assigned_iff (entry sp : BitVec 32) (off : Nat) :
    Assigned off ↔ ∃ f ∈ newFields entry sp, f.1 ≤ off ∧ off < f.1 + 4 := by
  simp [Assigned, newFields, Tss.eip, Tss.esp0, Tss.esp, Tss.ss0, Tss.ss, Tss.gs, Tss.fs, Tss.ds,
    Tss.es, Tss.cs, Tss.eflags]
  omega

lemma newFields_apart (entry sp : BitVec 32) :
    (newFields entry sp).Pairwise fun f g => f.1 + 4 ≤ g.1 ∨ g.1 + 4 ≤ f.1 := by
  simp [newFields, Tss.eip, Tss.esp0, Tss.esp, Tss.ss0, Tss.ss, Tss.gs, Tss.fs, Tss.ds, Tss.es,
    Tss.cs, Tss.eflags]

lemma fill_of_assigned (h : Assigned off) :
    Tss.fill t entry sp off = Tss.fill t' entry sp off := by
  rw [fill_eq, fill_eq]
  exact putFields_of_inside ((assigned_iff entry sp off).mp h)

lemma fill_of_not_assigned (h : ¬ Assigned off) :
    Tss.fill t entry sp off = if off = 0 then 0 else t off := by
  rw [assigned_iff entry sp] at h
  rw [fill_eq, putFields_of_outside fun f hf => by by_contra hin; exact h ⟨f, hf, by omega⟩,
    kernelMemset_eq, if_neg (by decide), Function.update_apply]

end Fill

/-- The image that a new task should have. -/
structure NewImage (tss : Tss) (entry sp : BitVec 32) : Prop where
  field : ∀ f ∈ newFields entry sp, getDword tss f.1 = f.2
  zero : ∀ off < Tss.size, ¬ Assigned off → tss off = 0

/-- The image after `tss_init`, when `t` stood in the memory before. -/
def newTss (r : InitReq) (p : Cpu) (t : Tss) : Tss :=
  (tssInit r { p with tss := Function.update p.tss (p.tssAddr r.task) t }).2.tss
    (p.tssAddr r.task)

lemma newImage_fill_iff (t : Tss) (entry sp : BitVec 32) :
    NewImage (Tss.fill t entry sp) entry sp ↔
      ∀ off, 0 < off → off < Tss.size → ¬ Assigned off → t off = 0 := by
  constructor
  · intro h off hpos hoff hout
    have hzero := h.zero off hoff hout
    rwa [fill_of_not_assigned hout, if_neg (by omega)] at hzero
  · intro h
    refine ⟨fun f hf => getDword_putFields (newFields_apart entry sp) hf, fun off hoff hout => ?_⟩
    rw [fill_of_not_assigned hout]
    split
    · rfl
    · exact h off (by omega) hoff hout

/-- With a free GDT entry `tss_init` succeeds. Whatever stood in the memory of the TSS, twice:
both images are the specified one, byte for byte, exactly when the bytes that no field
assigns were zero before, the first byte aside. `kernel_memset` fills its range exactly when
all of it behind the first byte holds the value already. -/
theorem tss_image_iff (r : InitReq) (p : Cpu) (t₁ t₂ : Tss)
    (hfree : ∃ n, 1 ≤ n ∧ n < gdtTableSize ∧ (p.gdt n).attr = 0) :
    (∀ t, (tssInit r { p with tss := Function.update p.tss (p.tssAddr r.task) t }).1 = 0) ∧
    ((NewImage (newTss r p t₁) r.entry r.esp ∧ NewImage (newTss r p t₂) r.entry r.esp ∧
        ∀ off < Tss.size, newTss r p t₁ off = newTss r p t₂ off) ↔
      ∀ off, 0 < off → off < Tss.size → ¬ Assigned off → t₁ off = 0 ∧ t₂ off = 0) ∧
    ∀ mem dest c size,
      (∀ i, kernelMemset mem dest c size i = if dest ≤ i ∧ i < dest + size then c else mem i) ↔
        ∀ i, dest < i → i < dest + size → mem i = c := by
  classical
  obtain ⟨hpos, hn, hz⟩ := Nat.find_spec hfree
  have hused : ∀ j, 1 ≤ j → j < Nat.find hfree → (p.gdt j).attr ≠ 0 := fun j hj hjn hzj =>
    Nat.find_min hfree hjn ⟨hj, by omega, hzj⟩
  have hinit := fun t => tssInit_some
    (p := { p with tss := Function.update p.tss (p.tssAddr r.task) t }) r hpos hn hz hused
  have himage : ∀ t, newTss r p t = Tss.fill t r.entry r.esp := by
    intro t
    rw [newTss, hinit t]
    simp
  refine ⟨fun t => by rw [hinit t], ?_, kernelMemset_fills_iff⟩
  rw [himage, himage, newImage_fill_iff, newImage_fill_iff]
  constructor
  · rintro ⟨h₁, h₂, -⟩ off hpos hoff hout
    exact ⟨h₁ off hpos hoff hout, h₂ off hpos hoff hout⟩
  · intro h
    refine ⟨fun off hpos hoff hout => (h off hpos hoff hout).1,
      fun off hpos hoff hout => (h off hpos hoff hout).2, fun off hoff => ?_⟩
    by_cases hin : Assigned off
    · exact fill_of_assigned hin
    · rw [fill_of_not_assigned hin, fill_of_not_assigned hin]
      split
      · rfl
      · obtain ⟨h₁, h₂⟩ := h off (by omega) hoff hin
        rw [h₁, h₂]

/-- A processor with an empty GDT. -/
def emptyCpu : Cpu := ⟨fun _ => ⟨0, 0, 0, 0, 0⟩, fun _ => 0x200000#32, fun _ _ => 0, 0, 2, none⟩

def someTask : InitReq := ⟨.obj 0, lit "a", 0x10000#32, 0x90000#32⟩

theorem tss_image_of_zeros :
    NewImage (newTss someTask emptyCpu fun _ => 0) someTask.entry someTask.esp := by
  obtain ⟨-, hiff, -⟩ := tss_image_iff someTask emptyCpu (fun _ => 0) (fun _ => 0)
    ⟨1, by decide, by decide, rfl⟩
  exact (hiff.mpr fun _ _ _ _ => ⟨rfl, rfl⟩).1

/-- Memory that was used before: the new task starts with it in its registers. -/
theorem tss_image_keeps_old_bytes :
    newTss someTask emptyCpu (fun _ => 0) 40 ≠ newTss someTask emptyCpu (fun _ => 0xFF) 40 := by
  have hinit := fun t => tssInit_some
    (p := { emptyCpu with tss := Function.update emptyCpu.tss 0x200000#32 t }) (n := 1) someTask
    (by decide) (by decide) rfl (fun j hj hj1 => by omega)
  have himage : ∀ t, newTss someTask emptyCpu t = Tss.fill t 0x10000#32 0x90000#32 := by
    intro t
    have ht := congrArg (fun x => x.2.tss 0x200000#32) (hinit t)
    refine Eq.trans ht ?_
    simp [someTask, emptyCpu]
  rw [himage, himage, fill_of_not_assigned (by decide), fill_of_not_assigned (by decide)]
  decide

end OsToyI386
