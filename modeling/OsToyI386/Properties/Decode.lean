import OsToyI386.Scheduler.Descriptors
import Mathlib.Tactic.IntervalCases

/-!
# What the processor reads from the GDT

A descriptor has its base in three fields, its limit in two, and the upper four bits of the
limit stand between the attributes. Decoded as the processor does it, an entry is what the
last `segment_desc_set` on it asked for, with the limit rounded up to the next one that a
descriptor can express.
-/

namespace OsToyI386

namespace SegmentDesc

/-- The 20 bits of the limit. -/
def limit20 (d : SegmentDesc) : BitVec 20 := (d.attr >>> 8).setWidth 4 ++ d.limit15to0

/-- The G bit. -/
def granular (d : SegmentDesc) : Bool := d.attr.getLsbD 15

/-- The last offset in the segment. -/
def effectiveLimit (d : SegmentDesc) : Nat :=
  if d.granular then d.limit20.toNat * 4096 + 4095 else d.limit20.toNat

/-- The attributes without the part of the limit. -/
def attributes (d : SegmentDesc) : BitVec 16 := d.attr &&& 0xF0FF#16

/-- A limit that some descriptor has. -/
def Representable (l : Nat) : Prop := ∃ d : SegmentDesc, d.effectiveLimit = l

end SegmentDesc

/-- A call of `segment_desc_set`. Its selector names an entry of the table, and the bits of
its attributes are clear that the function itself sets. -/
structure SegCall where
  selector : Int
  base : BitVec 32
  limit : BitVec 32
  attr : BitVec 16
  inTable : 0 ≤ selector ∧ selector < gdtTableSize * 8
  clear : attr &&& 0x8F00#16 = 0#16

namespace SegCall

/-- The entry that is set. -/
def entry (c : SegCall) : Nat := (c.selector / 8).toNat

def desc (c : SegCall) : SegmentDesc := segmentDesc c.base c.limit c.attr

/-- The limit is counted in units of 4 KiB. -/
def large (c : SegCall) : Prop := 0xFFFFF < c.limit.toNat

instance (c : SegCall) : Decidable c.large := inferInstanceAs (Decidable (_ < _))

end SegCall

/-- One call after the other. -/
def segmentDescSets (gdt : Nat → SegmentDesc) (calls : List SegCall) : Nat → SegmentDesc :=
  calls.foldl (fun gdt c => segmentDescSet gdt c.selector c.base c.limit c.attr) gdt

/-- The last of the calls on an entry. -/
def lastCall (calls : List SegCall) (i : Nat) : Option SegCall :=
  calls.reverse.find? fun c => c.entry = i

/-- A descriptor says what a call asked for. -/
structure Decodes (d : SegmentDesc) (c : SegCall) : Prop where
  base : d.base = c.base
  atLeast : c.limit.toNat ≤ d.effectiveLimit
  smallest : ∀ l, SegmentDesc.Representable l → c.limit.toNat ≤ l → d.effectiveLimit ≤ l
  exact : ¬ c.large → d.effectiveLimit = c.limit.toNat
  close : c.large → d.effectiveLimit < c.limit.toNat + 4096
  attributes : d.attributes = if c.large then c.attr ||| segGGranularity4K else c.attr

section Fields

variable (c : SegCall)

lemma SegCall.large_iff : c.limit > 0xFFFFF#32 ↔ c.large := by
  rw [gt_iff_lt, BitVec.lt_def]
  rfl

lemma SegCall.attr_bit {i : Nat} (h : (0x8F00#16).getLsbD i = true) : c.attr.getLsbD i = false := by
  have hbit := congrArg (fun a => a.getLsbD i) c.clear
  simpa [h] using hbit

/-- The attributes asked for and the G bit that the limit calls for. -/
def SegCall.scaledAttr : BitVec 16 := if c.large then c.attr ||| segGGranularity4K else c.attr

/-- The limit in bytes or in units of 4 KiB. -/
def SegCall.scaledLimit : BitVec 32 := if c.large then c.limit / 0x1000#32 else c.limit

lemma SegCall.scaledAttr_low {i : Nat} (hi : i < 15) :
    c.scaledAttr.getLsbD i = c.attr.getLsbD i := by
  have hg : ∀ j < 15, segGGranularity4K.getLsbD j = false := by decide
  rw [SegCall.scaledAttr]
  split
  · rw [BitVec.getLsbD_or, hg i hi, Bool.or_false]
  · rfl

lemma SegCall.scaledAttr_g : c.scaledAttr.getLsbD 15 = decide c.large := by
  have hclear := c.attr_bit (by decide : (0x8F00#16).getLsbD 15 = true)
  have hg : segGGranularity4K.getLsbD 15 = true := by decide
  rw [SegCall.scaledAttr]
  split
  · rename_i h
    rw [BitVec.getLsbD_or, hg, Bool.or_true, decide_eq_true h]
  · rename_i h
    rw [hclear, decide_eq_false h]

/-- The upper four bits of the limit, where they stand between the attributes. -/
def limitNibble (limit : BitVec 32) : BitVec 16 :=
  (((limit >>> 16) &&& 0xF#32) <<< 8).setWidth 16

lemma limitNibble_bit (limit : BitVec 32) {i : Nat} (hi : i < 16) :
    (limitNibble limit).getLsbD i =
      (decide (8 ≤ i) && (limit.getLsbD (8 + i) && decide (i < 12))) := by
  have hmask : ∀ j < 8, (0xF#32).getLsbD j = decide (j < 4) := by decide
  rw [limitNibble, BitVec.getLsbD_setWidth, BitVec.getLsbD_shiftLeft, BitVec.getLsbD_and,
    BitVec.getLsbD_ushiftRight]
  by_cases h8 : 8 ≤ i
  · have hi8 : 16 + (i - 8) = 8 + i := by omega
    have h4 : (i - 8 < 4) ↔ i < 12 := by omega
    rw [hmask (i - 8) (by omega), hi8]
    simp only [h4]
    simp [hi, h8]
    omega
  · simp [h8]

lemma desc_attr : c.desc.attr = c.scaledAttr ||| limitNibble c.scaledLimit := by
  simp only [SegCall.desc, segmentDesc, c.large_iff]
  rfl

lemma desc_limit15to0 : c.desc.limit15to0 = c.scaledLimit.setWidth 16 := by
  simp only [SegCall.desc, segmentDesc, c.large_iff, low_word]
  rfl

lemma granular_desc : c.desc.granular = decide c.large := by
  rw [SegmentDesc.granular, desc_attr, BitVec.getLsbD_or, c.scaledAttr_g,
    limitNibble_bit _ (by decide)]
  simp

lemma limit20_desc : c.desc.limit20 = c.scaledLimit.setWidth 20 := by
  have hclear : ∀ i, 8 ≤ i → i < 12 → c.scaledAttr.getLsbD i = false := by
    intro i hlo hhi
    rw [c.scaledAttr_low (by omega)]
    apply c.attr_bit
    interval_cases i <;> decide
  rw [SegmentDesc.limit20, desc_attr, desc_limit15to0]
  apply BitVec.eq_of_getLsbD_eq
  intro i hi
  rw [BitVec.getLsbD_append]
  split
  · simp [*]
  · rename_i hhigh
    have hback : 8 + (8 + (i - 16)) = i := by omega
    rw [BitVec.getLsbD_setWidth, BitVec.getLsbD_ushiftRight, BitVec.getLsbD_or,
      hclear _ (by omega) (by omega), limitNibble_bit _ (by omega), hback]
    have hlow : i - 16 < 4 := by omega
    have hmid : 8 + (i - 16) < 12 := by omega
    have h20 : i < 20 := hi
    rw [BitVec.getLsbD_setWidth]
    simp [hlow, hmid, h20]

lemma attributes_desc : c.desc.attributes = c.scaledAttr := by
  have hmask : ∀ j < 16, (0xF0FF#16).getLsbD j = !(decide (8 ≤ j) && decide (j < 12)) := by
    decide
  rw [SegmentDesc.attributes, desc_attr]
  apply BitVec.eq_of_getLsbD_eq
  intro i hi
  rw [BitVec.getLsbD_and, BitVec.getLsbD_or, hmask i hi, limitNibble_bit _ hi]
  by_cases hin : 8 ≤ i ∧ i < 12
  · have hclear : c.scaledAttr.getLsbD i = false := by
      rw [c.scaledAttr_low (by omega)]
      apply c.attr_bit
      obtain ⟨hlo, hhi⟩ := hin
      interval_cases i <;> decide
    simp [hin, hclear]
  · have hout : (decide (8 ≤ i) && decide (i < 12)) = false := by simpa using hin
    rcases Bool.and_eq_false_iff.mp hout with h | h
    · simp [h]
    · simp [h]

lemma effectiveLimit_desc : c.desc.effectiveLimit =
    if c.large then c.limit.toNat / 4096 * 4096 + 4095 else c.limit.toNat := by
  have hlt := c.limit.isLt
  rw [SegmentDesc.effectiveLimit, granular_desc, limit20_desc, SegCall.scaledLimit]
  by_cases h : c.large
  · rw [decide_eq_true h, if_pos rfl, if_pos h, if_pos h, BitVec.toNat_setWidth,
      BitVec.toNat_udiv]
    have h4096 : (0x1000#32).toNat = 4096 := rfl
    rw [h4096, Nat.mod_eq_of_lt (by omega)]
  · have hsmall : c.limit.toNat < 2 ^ 20 := by
      rw [SegCall.large] at h
      omega
    rw [decide_eq_false h, if_neg Bool.false_ne_true, if_neg h, if_neg h, BitVec.toNat_setWidth,
      Nat.mod_eq_of_lt hsmall]

end Fields

lemma SegmentDesc.Representable.cases {l : Nat} (h : Representable l) :
    l ≤ 0xFFFFF ∨ ∃ k, l = k * 4096 + 4095 := by
  obtain ⟨d, rfl⟩ := h
  rw [effectiveLimit]
  split
  · exact Or.inr ⟨_, rfl⟩
  · have hlt := d.limit20.isLt
    exact Or.inl (by omega)

lemma decodes_desc (c : SegCall) : Decodes c.desc c := by
  have heff := effectiveLimit_desc c
  refine ⟨segmentDesc_base _ _ _, ?_, fun l hl hle => ?_, fun hsmall => ?_, fun hlarge => ?_,
    attributes_desc c⟩
  · rw [heff]
    split <;> omega
  · rw [heff]
    split
    · rename_i hlarge
      rw [SegCall.large] at hlarge
      rcases hl.cases with hbytes | ⟨k, rfl⟩ <;> omega
    · exact hle
  · rw [heff, if_neg hsmall]
  · rw [heff, if_pos hlarge]
    omega

lemma lastCall_append (calls : List SegCall) (c : SegCall) (i : Nat) :
    lastCall (calls ++ [c]) i = if c.entry = i then some c else lastCall calls i := by
  rw [lastCall, List.reverse_append, List.reverse_singleton, List.singleton_append,
    List.find?_cons]
  split
  · rename_i h
    rw [if_pos (of_decide_eq_true h)]
  · rename_i h
    rw [if_neg (of_decide_eq_false h)]
    rfl

/-- After any calls each entry, decoded, is what the last call on it asked for, and the other
entries are as they were. -/
theorem gdt_decodes (gdt : Nat → SegmentDesc) (calls : List SegCall) (i : Nat) :
    match lastCall calls i with
    | some c => c ∈ calls ∧ c.entry = i ∧ Decodes (segmentDescSets gdt calls i) c
    | none => (∀ c ∈ calls, c.entry ≠ i) ∧ segmentDescSets gdt calls i = gdt i := by
  induction calls using List.reverseRecOn with
  | nil => simp [lastCall, segmentDescSets]
  | append_singleton calls c ih =>
    have hset : segmentDescSets gdt (calls ++ [c]) =
        Function.update (segmentDescSets gdt calls) c.entry c.desc := by
      rw [segmentDescSets, List.foldl_append]
      rfl
    rw [lastCall_append, hset]
    by_cases hi : c.entry = i
    · rw [if_pos hi, hi, Function.update_self]
      exact ⟨by simp, hi, decodes_desc c⟩
    · rw [if_neg hi, Function.update_of_ne (Ne.symm hi)]
      cases hlast : lastCall calls i with
      | some c' =>
        rw [hlast] at ih
        obtain ⟨hmem, hentry, hdecodes⟩ := ih
        exact ⟨List.mem_append_left _ hmem, hentry, hdecodes⟩
      | none =>
        rw [hlast] at ih
        obtain ⟨hother, hsame⟩ := ih
        refine ⟨fun c' hc' => ?_, hsame⟩
        rcases List.mem_append.mp hc' with hold | hnew
        · exact hother c' hold
        · rw [List.mem_singleton.mp hnew]
          exact hi

section Kernel

/-- The call of `gdt_init` for the code segment. -/
def codeCall : SegCall where
  selector := kernelSelectorCode
  base := 0
  limit := 0xFFFFFFFF#32
  attr := segPPresent ||| segDpl0 ||| segSNormal ||| segTypeCode ||| segDbDoubleByte
  inTable := by decide
  clear := by decide

/-- The call of `gdt_init` for the data segment. -/
def dataCall : SegCall where
  selector := kernelSelectorData
  base := 0
  limit := 0xFFFFFFFF#32
  attr := segPPresent ||| segDpl0 ||| segSNormal ||| segTypeData ||| segTypeRw ||| segDbDoubleByte
  inTable := by decide
  clear := by decide

/-- The first call of `segment_desc_set` on the entry of the code segment. -/
def clearCall : SegCall where
  selector := kernelSelectorCode
  base := 0
  limit := 0
  attr := 0
  inTable := by decide
  clear := by decide

/-- The code segment is set after it was cleared, the data segment once, and entry 3 keeps what
it had. -/
theorem gdt_decodes_kernel :
    Decodes (segmentDescSets (fun _ => segmentDesc 7 7 0) [clearCall, codeCall, dataCall] 1)
        codeCall ∧
      Decodes (segmentDescSets (fun _ => segmentDesc 7 7 0) [clearCall, codeCall, dataCall] 2)
        dataCall ∧
      segmentDescSets (fun _ => segmentDesc 7 7 0) [clearCall, codeCall, dataCall] 3 =
        segmentDesc 7 7 0 := by
  have hcode := gdt_decodes (fun _ => segmentDesc 7 7 0) [clearCall, codeCall, dataCall] 1
  have hdata := gdt_decodes (fun _ => segmentDesc 7 7 0) [clearCall, codeCall, dataCall] 2
  have hnone := gdt_decodes (fun _ => segmentDesc 7 7 0) [clearCall, codeCall, dataCall] 3
  exact ⟨hcode.2.2, hdata.2.2, hnone.2⟩

end Kernel

end OsToyI386
