import OsToyI386.Scheduler.Wiring

/-!
# Entries in use

An entry of the GDT with nonzero attributes is marked present, and once it is marked it stays
so in every run, whether creations find room or not. `TR` never names a free entry.
-/

namespace OsToyI386

open Lib

namespace SegmentDesc

variable {d : SegmentDesc}

/-- The `P` bit of a descriptor. -/
def present (d : SegmentDesc) : Bool := d.attr.getLsbD 7

/-- Free or present. -/
def Marked (d : SegmentDesc) : Prop := d.attr ≠ 0 → d.present = true

lemma attr_ne_zero (h : d.present = true) : d.attr ≠ 0 := ne_zero_of_bit h

lemma present_setBusy : d.setBusy.present = d.present := by simp [present, setBusy]

lemma present_clearBusy : d.clearBusy.present = d.present := by simp [present, clearBusy]

lemma Marked.clearBusy (h : d.Marked) : d.clearBusy.Marked := by
  intro hz
  rw [present_clearBusy]
  refine h fun hd => hz ?_
  simp [SegmentDesc.clearBusy, hd]

lemma present_of_available (h : d.isAvailableTss = true) : d.present = true := by
  have hbits : d.attr &&& 0x9F#16 = 0x89#16 := by simpa [isAvailableTss] using h
  have hbit := congrArg (·.getLsbD 7) hbits
  simpa [present] using hbit

end SegmentDesc

/-- Used entries are marked, among them the one that `TR` names. -/
structure Cpu.Marked (p : Cpu) : Prop where
  entries : ∀ j, j < gdtTableSize → (p.gdt j).Marked
  tr : selIndex p.tr ≠ 0 → (p.gdt (selIndex p.tr)).present = true

/-- No mark is taken away. -/
def Cpu.Keeps (p p' : Cpu) : Prop := ∀ j, (p.gdt j).present = true → (p'.gdt j).present = true

namespace Cpu

variable {p p' p'' : Cpu} {i : Nat} {d : SegmentDesc} {sel : BitVec 16}

lemma Keeps.of_eq (h : p'.gdt = p.gdt) : p.Keeps p' := fun j hj => by rw [h]; exact hj

lemma Keeps.trans (h : p.Keeps p') (h' : p'.Keeps p'') : p.Keeps p'' := fun j hj => h' j (h j hj)

lemma Keeps.setDesc (hd : (p.gdt i).present = true → d.present = true) :
    p.Keeps (p.setDesc i d) :=
  (Function.forall_update_iff p.gdt fun j d => (p.gdt j).present = true → d.present = true).mpr
    ⟨hd, fun _ _ => id⟩

lemma Marked.of_eq (h : p.Marked) (hgdt : p'.gdt = p.gdt) (htr : p'.tr = p.tr) : p'.Marked :=
  ⟨by rw [hgdt]; exact h.entries, by rw [hgdt, htr]; exact h.tr⟩

lemma Marked.setDesc (h : p.Marked) (hd : d.Marked)
    (hkeep : (p.gdt i).present = true → d.present = true) : (p.setDesc i d).Marked := by
  refine ⟨?_, fun hz => Keeps.setDesc hkeep _ (h.tr hz)⟩
  exact (Function.forall_update_iff p.gdt fun j d => j < gdtTableSize → d.Marked).mpr
    ⟨fun _ => hd, fun j _ => h.entries j⟩

lemma Marked.load (h : p.Marked) (hgdt : p'.gdt = p.gdt) (htr : p'.tr = sel)
    (hsel : (p.gdt (selIndex sel)).present = true) : p'.Marked :=
  ⟨by rw [hgdt]; exact h.entries, fun _ => by rw [hgdt, htr]; exact hsel⟩

lemma farJump_ok (hok : (selInGdt sel && (p.gdt (selIndex sel)).isAvailableTss) = true) :
    (farJump sel p).gdt = ((p.setDesc (selIndex p.tr) (p.gdt (selIndex p.tr)).clearBusy).setDesc
        (selIndex sel) ((p.setDesc (selIndex p.tr) (p.gdt (selIndex p.tr)).clearBusy).gdt
          (selIndex sel)).setBusy).gdt ∧
      (farJump sel p).tr = sel := by
  rw [farJump, if_pos hok]
  exact ⟨rfl, rfl⟩

lemma Marked.farJump (h : p.Marked) (sel : BitVec 16) :
    (farJump sel p).Marked ∧ p.Keeps (farJump sel p) := by
  by_cases hok : (selInGdt sel && (p.gdt (selIndex sel)).isAvailableTss) = true
  · obtain ⟨hgdt, htr⟩ := farJump_ok hok
    have hclear : (p.gdt (selIndex p.tr)).clearBusy.Marked := by
      by_cases hz : selIndex p.tr = 0
      · rw [hz]
        exact (h.entries 0 (by decide)).clearBusy
      · exact fun _ => SegmentDesc.present_clearBusy.trans (h.tr hz)
    have hkeep : (p.gdt (selIndex p.tr)).present = true →
        (p.gdt (selIndex p.tr)).clearBusy.present = true :=
      fun hd => SegmentDesc.present_clearBusy.trans hd
    generalize hq : p.setDesc (selIndex p.tr) (p.gdt (selIndex p.tr)).clearBusy = q at hgdt
    have hM : q.Marked := hq ▸ h.setDesc hclear hkeep
    have hK : p.Keeps q := hq ▸ Keeps.setDesc hkeep
    have hsel : (q.gdt (selIndex sel)).present = true :=
      hK _ (SegmentDesc.present_of_available (Bool.and_eq_true_iff.mp hok).2)
    have hbusy : (q.gdt (selIndex sel)).setBusy.present = true :=
      SegmentDesc.present_setBusy.trans hsel
    have hM' := hM.setDesc (i := selIndex sel) (fun _ => hbusy) (fun _ => hbusy)
    exact ⟨hM'.load hgdt htr (by simpa [Cpu.setDesc] using hbusy),
      hK.trans ((Keeps.setDesc fun _ => hbusy).trans (.of_eq hgdt))⟩
  · have hdie : OsToyI386.farJump sel p = p.die .cpuFault := by rw [OsToyI386.farJump, if_neg hok]
    rw [hdie]
    exact ⟨h.of_eq rfl rfl, .of_eq rfl⟩

lemma Marked.writeTr (h : p.Marked) (sel : BitVec 16) :
    (writeTr sel p).Marked ∧ p.Keeps (writeTr sel p) := by
  unfold OsToyI386.writeTr
  split
  · rename_i hok
    have hbusy : (p.gdt (selIndex sel)).setBusy.present = true :=
      SegmentDesc.present_setBusy.trans
        (SegmentDesc.present_of_available (Bool.and_eq_true_iff.mp hok).2)
    have hM' := h.setDesc (i := selIndex sel) (fun _ => hbusy) (fun _ => hbusy)
    exact ⟨hM'.load rfl rfl (by simpa [Cpu.setDesc] using hbusy), Keeps.setDesc fun _ => hbusy⟩
  · exact ⟨h.of_eq rfl rfl, .of_eq rfl⟩

lemma Marked.setSegment (h : p.Marked) {n : Int} {base limit : BitVec 32} {attr : BitVec 16}
    (hattr : attr.getLsbD 7 = true) :
    (setSegment n base limit attr p).Marked ∧ p.Keeps (setSegment n base limit attr p) := by
  have hd : (segmentDesc base limit attr).present = true := segmentDesc_attr hattr
  exact ⟨h.setDesc (fun _ => hd) (fun _ => hd), Keeps.setDesc fun _ => hd⟩

lemma Marked.claimDesc (h : p.Marked) (i : Nat) :
    (claimDesc i p).Marked ∧ p.Keeps (claimDesc i p) := by
  have hd : ({ p.gdt i with attr := segPPresent } : SegmentDesc).present = true := by
    simp only [SegmentDesc.present]
    decide
  exact ⟨h.setDesc (fun _ => hd) (fun _ => hd), Keeps.setDesc fun _ => hd⟩

end Cpu

/-- What holds in every run: the marks, and that the descriptors still to be set by the
contexts themselves will be marked. -/
structure Machine.Marked (M : Machine Core) : Prop where
  cpu : M.sys.toCpu.Marked
  segment : ∀ c attr, (M.ctl c).pc.segment = some attr → attr.getLsbD 7 = true

namespace Pc

variable {c : Ctx} {p : Cpu} {a : Act} {pc pc' : Pc}

lemma next_segment (h : pc.next c p = some (a, pc')) :
    pc'.segment = none ∨ pc'.segment = pc.segment := by
  revert h
  fun_cases next c p pc <;> intro h <;> cases h <;>
    first
    | exact Or.inl rfl
    | exact Or.inr rfl

end Pc

namespace Machine.Marked

variable {M M' : Machine Core} {l : Label} {a : Act} {rest : List Epilogue} {pc : Pc}
  {new : List TaskPtr}

lemma segment_after (h : M.Marked) (hd : M.Does l a rest pc new) (c : Ctx) (attr : BitVec 16)
    (hs : ((M.after a rest pc new).ctl c).pc.segment = some attr) : attr.getLsbD 7 = true := by
  rcases Machine.Sound.after_pc hd c with hu | ⟨-, hpc⟩ | ⟨rfl, hpc, -⟩
  · rw [hu] at hs
    cases hs
  · rw [hpc] at hs
    exact h.segment c attr hs
  · rw [hpc] at hs
    cases hd with
    | tick => exact h.segment _ attr hs
    | ret => exact h.segment _ attr hs
    | code _ hnext =>
      rcases Pc.next_segment hnext with hnone | hsame
      · rw [hnone] at hs
        cases hs
      · exact h.segment _ attr (hsame.symm.trans hs)
    | @call op hown hop =>
      have hpresent : op.present = true := by
        simp only [allows, Bool.and_eq_true] at hop
        exact hop.1.1.1
      cases op <;> simp [Op.first, Pc.segment] at hs
      obtain ⟨base, limit, rfl⟩ := hs
      simpa [Op.present] using hpresent

lemma exec (h : M.Marked) (hd : M.Does l a rest pc new) :
    (M.sys.exec a).toCpu.Marked ∧ M.sys.toCpu.Keeps (M.sys.exec a).toCpu := by
  have hcpu := h.cpu
  by_cases ha : Core.setsUp a = false
  · rcases Core.exec_turns (K := M.sys) ha with hstill | ⟨t, hswitch⟩
    · exact ⟨hcpu.of_eq hstill.gdt hstill.tr, .of_eq hstill.gdt⟩
    · obtain ⟨p, hgdt, htr, -, -, hp⟩ := hswitch.jump
      have hjump := (hcpu.of_eq hgdt htr).farJump (BitVec.ofInt 16 (M.sys.task t).tssSel)
      rw [hp]
      exact ⟨hjump.1, (Cpu.Keeps.of_eq hgdt).trans hjump.2⟩
  · cases a with
    | claim i => exact hcpu.claimDesc i
    | segSet sel base limit attr =>
      refine hcpu.setSegment ?_
      rcases (Pc.next_segSet (does_setsUp hd rfl).1).2 with ⟨hpc, -⟩ | ⟨r, -, -, -, hattr⟩
      · exact h.segment M.sys.curr attr (by rw [hpc]; rfl)
      · exact hattr
    | fill sel r => exact ⟨hcpu.of_eq rfl rfl, .of_eq rfl⟩
    | writeTr => exact hcpu.writeTr _
    | becomeMain => exact ⟨hcpu, .of_eq rfl⟩
    | _ => exact absurd rfl ha

theorem after (h : M.Marked) (hd : M.Does l a rest pc new) : (M.after a rest pc new).Marked :=
  ⟨(h.exec hd).1, h.segment_after hd⟩

lemma boot (b : BootMem) : b.abstract.Marked := by
  have htr : selIndex b.abstract.sys.tr = 0 := by
    simp [BootMem.abstract, BootMem.core, BootMem.sys, selIndex]
  refine ⟨⟨fun j hj hz => ?_, fun hz => absurd htr hz⟩, fun c attr hs => ?_⟩
  · have hcode : (kernelSelectorCode / 8).toNat = 1 := by decide
    have hdata : (kernelSelectorData / 8).toNat = 2 := by decide
    have hne : (gdtInit b.gdt j).attr ≠ 0 := hz
    have hused : j = 1 ∨ j = 2 := by
      by_contra hno
      exact hne ((gdtInit_attr b.gdt j hj).mpr (not_or.mp hno))
    suffices hp : (gdtInit b.gdt j).present = true from hp
    simp only [gdtInit, segmentDescSet, hcode, hdata]
    rcases hused with rfl | rfl
    · rw [Function.update_of_ne (by decide), Function.update_self]
      exact segmentDesc_attr (by decide)
    · rw [Function.update_self]
      exact segmentDesc_attr (by decide)
  · by_cases hc : c = none
    · subst hc
      simp [BootMem.abstract, BootMem.machine, Pc.segment] at hs
    · simp [BootMem.abstract, BootMem.machine, hc, Ctl.own, Pc.segment] at hs

end Machine.Marked

end OsToyI386
