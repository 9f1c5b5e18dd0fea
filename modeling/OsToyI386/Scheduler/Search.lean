import OsToyI386.Scheduler.Entries
import OsToyI386.Scheduler.Traces

/-!
# The search for a free entry

An entry of the GDT that is free stays free until `get_alloc_desc` claims it. So a claimed
entry belongs to one call for good, the selectors that are handed out differ, and none is
a selector of the kernel's own segments.
-/

namespace OsToyI386

open Lib

/-- No free entry is taken into use. -/
def Cpu.SparesFree (p p' : Cpu) : Prop := ∀ j, (p.gdt j).attr = 0 → (p'.gdt j).attr = 0

/-- The selector names an entry in use, behind those of the kernel's segments. -/
def Cpu.Names (p : Cpu) (sel : Int) : Prop :=
  ∃ i, 3 ≤ i ∧ i < gdtTableSize ∧ sel = (i * 8 : Nat) ∧ (p.gdt i).present = true

namespace Cpu

variable {p p' p'' : Cpu} {i j : Nat} {d : SegmentDesc} {sel : BitVec 16} {n : Int}

lemma SparesFree.of_eq (h : p'.gdt = p.gdt) : p.SparesFree p' := fun j hj => by rw [h]; exact hj

lemma SparesFree.trans (h : p.SparesFree p') (h' : p'.SparesFree p'') : p.SparesFree p'' :=
  fun j hj => h' j (h j hj)

lemma SparesFree.setDesc (hd : (p.gdt i).attr = 0 → d.attr = 0) :
    p.SparesFree (p.setDesc i d) :=
  (Function.forall_update_iff p.gdt fun j d => (p.gdt j).attr = 0 → d.attr = 0).mpr
    ⟨hd, fun _ _ => id⟩

lemma SparesFree.setBusy (h : (p.gdt i).present = true) :
    p.SparesFree (p.setDesc i (p.gdt i).setBusy) :=
  .setDesc fun hz => absurd hz (SegmentDesc.attr_ne_zero h)

lemma SparesFree.farJump (p : Cpu) (sel : BitVec 16) : p.SparesFree (farJump sel p) := by
  by_cases hok : (selInGdt sel && (p.gdt (selIndex sel)).isAvailableTss) = true
  · obtain ⟨hgdt, -⟩ := farJump_ok hok
    have hclear : p.SparesFree (p.setDesc (selIndex p.tr) (p.gdt (selIndex p.tr)).clearBusy) := by
      apply SparesFree.setDesc
      intro hz
      simp [SegmentDesc.clearBusy, hz]
    have hkeep : p.Keeps (p.setDesc (selIndex p.tr) (p.gdt (selIndex p.tr)).clearBusy) :=
      Keeps.setDesc fun hd => SegmentDesc.present_clearBusy.trans hd
    have hpresent := SegmentDesc.present_of_available (Bool.and_eq_true_iff.mp hok).2
    exact (hclear.trans (.setBusy (hkeep _ hpresent))).trans (.of_eq hgdt)
  · have hdie : OsToyI386.farJump sel p = p.die .cpuFault := by rw [OsToyI386.farJump, if_neg hok]
    rw [hdie]
    exact .of_eq rfl

lemma SparesFree.writeTr (p : Cpu) (sel : BitVec 16) : p.SparesFree (writeTr sel p) := by
  unfold OsToyI386.writeTr
  split
  · rename_i hok
    have hpresent := SegmentDesc.present_of_available (Bool.and_eq_true_iff.mp hok).2
    exact (SparesFree.setBusy hpresent).trans (.of_eq rfl)
  · exact .of_eq rfl

lemma Names.kept (h : p.Names n) (hk : p.Keeps p') : p'.Names n := by
  obtain ⟨i, hlo, hhi, hn, hp⟩ := h
  exact ⟨i, hlo, hhi, hn, hk i hp⟩

lemma SparesFree.setSegment (h : p.Names n) (base limit : BitVec 32) (attr : BitVec 16) :
    p.SparesFree (setSegment n base limit attr p) := by
  obtain ⟨i, -, -, rfl, hp⟩ := h
  have hi : ((i * 8 : Nat) / 8 : Int).toNat = i := by omega
  intro j hj
  have hji : j ≠ i := by
    rintro rfl
    exact SegmentDesc.attr_ne_zero hp hj
  simpa [OsToyI386.setSegment, segmentDescSet, hi, hji] using hj

end Cpu

namespace Pc

/-- The selector that `get_alloc_desc` is about to return. -/
def handing : Pc → Option Int
  | allocUnlock ret _ | allocReturn ret _ => some ret
  | _ => none

/-- The selector whose descriptor may still be set. -/
def settable : Pc → Option Int
  | allocUnlock ret _ | allocReturn ret _ => some ret
  | directSet sel _ => some sel
  | tssInitSet tssSel _ => some tssSel
  | _ => none

variable {c : Ctx} {p : Cpu} {a : Act} {pc pc' : Pc} {sel : Int}

lemma settable_of_handing (h : pc.handing = some sel) : pc.settable = some sel := by
  cases pc <;> cases h <;> rfl

lemma next_settable (h : pc.next c p = some (a, pc')) (hs : pc'.settable = some sel) :
    pc.settable = some sel ∨ (sel = -1 ∧ ∃ i k, pc = .allocTest i k) ∨
      ∃ i k, pc = .allocClaim i k ∧ a = .claim i ∧ sel = (i * 8 : Nat) := by
  revert h
  fun_cases next c p pc <;> intro h <;> cases h <;> cases hs <;>
    first
    | exact Or.inl rfl
    | exact Or.inr (Or.inl ⟨rfl, _, _, rfl⟩)
    | exact Or.inr (Or.inr ⟨_, _, rfl, rfl, rfl⟩)

lemma next_handing (h : pc.next c p = some (a, pc')) (hs : pc'.handing = some sel) :
    (pc.handing = some sel ∧ a = .unlock .gdtMutex) ∨ (sel = -1 ∧ ∃ i k, pc = .allocTest i k) ∨
      ∃ i k, pc = .allocClaim i k ∧ a = .claim i ∧ sel = (i * 8 : Nat) := by
  revert h
  fun_cases next c p pc <;> intro h <;> cases h <;> cases hs <;>
    first
    | exact Or.inl ⟨rfl, rfl⟩
    | exact Or.inr (Or.inl ⟨rfl, _, _, rfl⟩)
    | exact Or.inr (Or.inr ⟨_, _, rfl, rfl, rfl⟩)

lemma next_test {i : Nat} {k : AllocFor} (h : pc.next c p = some (a, .allocTest i k)) :
    i = 1 ∧ pc = .allocLock k ∧ a = .lock .gdtMutex ∨
      ∃ i', pc = .allocTest i' k ∧ a = .nop ∧ i = i' + 1 ∧ i' < gdtTableSize ∧
        (p.gdt i').attr ≠ 0 := by
  revert h
  fun_cases next c p pc <;> intro h <;> cases h
  · exact Or.inl ⟨rfl, rfl, rfl⟩
  · rename_i hlt hne
    exact Or.inr ⟨_, rfl, rfl, rfl, hlt, hne⟩

lemma next_toClaim {i : Nat} {k : AllocFor} (h : pc.next c p = some (a, .allocClaim i k)) :
    pc = .allocTest i k ∧ a = .nop ∧ i < gdtTableSize ∧ (p.gdt i).attr = 0 := by
  revert h
  fun_cases next c p pc <;> intro h <;> cases h
  rename_i hlt hz
  exact ⟨rfl, rfl, hlt, hz⟩

lemma next_toUnlock {ret : Int} {k : AllocFor} (h : pc.next c p = some (a, .allocUnlock ret k)) :
    (ret = -1 ∧ a = .nop ∧ ∃ i, pc = .allocTest i k ∧ gdtTableSize ≤ i) ∨
      ∃ i, pc = .allocClaim i k ∧ a = .claim i ∧ ret = (i * 8 : Nat) := by
  revert h
  fun_cases next c p pc <;> intro h <;> cases h
  · rename_i i hlt
    exact Or.inl ⟨rfl, rfl, i, rfl, Nat.not_lt.mp hlt⟩
  · exact Or.inr ⟨_, rfl, rfl, rfl⟩

lemma next_toReturn {ret : Int} {k : AllocFor} (h : pc.next c p = some (a, .allocReturn ret k)) :
    pc = .allocUnlock ret k ∧ a = .unlock .gdtMutex := by
  revert h
  fun_cases next c p pc <;> intro h <;> cases h
  exact ⟨rfl, rfl⟩

end Pc

/-- The selector that a call of `get_alloc_desc` has returned. -/
def Event.allocated : Event → Option Int
  | allocReturn _ sel => if sel = -1 then none else some sel
  | _ => none

/-- The selectors returned so far. -/
def handedOut (tr : List Event) : List Int := tr.filterMap Event.allocated

lemma handedOut_append (tr tr' : List Event) :
    handedOut (tr ++ tr') = handedOut tr ++ handedOut tr' := List.filterMap_append ..

/-- What holds of the claims and the selectors in every run. -/
structure Machine.Issued (M : Machine Core) : Prop where
  kernel : (M.sys.gdt 1).present = true ∧ (M.sys.gdt 2).present = true
  test : ∀ c i k, (M.ctl c).pc = .allocTest i k → 1 ≤ i
  claim : ∀ c i k, (M.ctl c).pc = .allocClaim i k →
    1 ≤ i ∧ i < gdtTableSize ∧ (M.sys.gdt i).attr = 0
  settable : ∀ c sel, (M.ctl c).pc.settable = some sel → sel = -1 ∨ M.sys.toCpu.Names sel
  fresh : ∀ c sel, (M.ctl c).pc.handing = some sel → sel ∉ handedOut M.sys.trace
  apart : ∀ c d sel, (M.ctl c).pc.handing = some sel → (M.ctl d).pc.handing = some sel →
    sel = -1 ∨ c = d
  used : ∀ sel ∈ handedOut M.sys.trace, M.sys.toCpu.Names sel
  nodup : (handedOut M.sys.trace).Nodup

namespace Machine.Issued

variable {M M' : Machine Core} {l : Label} {a : Act} {rest : List Epilogue} {pc : Pc}
  {new : List TaskPtr} {c : Ctx} {sel : Int} {i : Nat}

lemma spares_free (h : M.Issued) (hd : M.Does l a rest pc new) (ha : ∀ i, a ≠ .claim i) :
    M.sys.toCpu.SparesFree (M.sys.exec a).toCpu := by
  by_cases hset : Core.setsUp a = false
  · rcases Core.exec_turns (K := M.sys) hset with hstill | ⟨t, hswitch⟩
    · exact .of_eq hstill.gdt
    · obtain ⟨p, hgdt, -, -, -, hp⟩ := hswitch.jump
      rw [hp]
      exact (Cpu.SparesFree.of_eq hgdt).trans (.farJump p _)
  · cases a with
    | claim i => exact absurd rfl (ha i)
    | segSet sel base limit attr =>
      obtain ⟨hpos, hpcs⟩ := Pc.next_segSet (does_setsUp hd rfl).1
      have hnames : sel = -1 ∨ M.sys.toCpu.Names sel := by
        apply h.settable M.sys.curr
        rcases hpcs with ⟨hpc, -⟩ | ⟨r, hpc, -⟩ <;> rw [hpc] <;> rfl
      exact .setSegment (hnames.resolve_left (by omega)) base limit attr
    | fill sel r => exact .of_eq rfl
    | writeTr => exact .writeTr _ _
    | becomeMain => exact .of_eq rfl
    | _ => exact absurd rfl hset

lemma free_iff (h : M.Issued) (hMk : M.Marked) (hd : M.Does l a rest pc new)
    (ha : ∀ i, a ≠ .claim i) (hi : i < gdtTableSize) :
    ((M.sys.exec a).gdt i).attr = 0 ↔ (M.sys.gdt i).attr = 0 := by
  refine ⟨fun hz => ?_, h.spares_free hd ha i⟩
  by_contra hne
  have hkept := (hMk.exec hd).2 i (hMk.cpu.entries i hi hne)
  exact SegmentDesc.attr_ne_zero hkept hz

lemma does_place (hd : M.Does l a rest pc new) :
    (pc = (M.ctl M.sys.curr).pc ∧ (a = .timer ∨ ∃ e, a = .ret e)) ∨
      (M.ctl M.sys.curr).pc.next M.sys.curr M.sys.toCpu = some (a, pc) ∨
      ∃ op : Op, a = op.first.1 ∧ pc = op.first.2 ∧ (M.ctl M.sys.curr) = .own := by
  cases hd with
  | tick => exact Or.inl ⟨rfl, Or.inl rfl⟩
  | @ret e => exact Or.inl ⟨rfl, Or.inr ⟨e, rfl⟩⟩
  | code _ hnext => exact Or.inr (Or.inl hnext)
  | @call op hown _ => exact Or.inr (Or.inr ⟨op, rfl, rfl, hown⟩)

lemma handedOut_exec (ha : ∀ c ret, a ≠ .note (.allocReturn c ret)) :
    handedOut (M.sys.exec a).trace = handedOut M.sys.trace := by
  obtain ⟨es, htr, hes⟩ := Core.exec_notes M.sys a
  have hnil : handedOut es = [] := by
    apply List.filterMap_eq_nil_iff.mpr
    intro e he
    rcases hes e he with hi | hn | ⟨b, -, rfl⟩
    · cases e <;> first | rfl | cases hi
    · cases e <;> first | rfl | exact absurd hn (ha _ _)
    · rfl
  rw [htr, handedOut_append, hnil, List.append_nil]

lemma does_note {ret : Int} (hd : M.Does l a rest pc new) (ha : a = .note (.allocReturn c ret)) :
    c = M.sys.curr ∧ ∃ k, (M.ctl M.sys.curr).pc = .allocReturn ret k := by
  subst ha
  rcases does_place hd with ⟨-, ha | ⟨e, ha⟩⟩ | hnext | ⟨op, ha, -, -⟩
  · cases ha
  · cases ha
  · revert hnext
    fun_cases Pc.next M.sys.curr M.sys.toCpu (M.ctl M.sys.curr).pc <;> intro hnext <;>
      cases hnext <;> exact ⟨rfl, _, rfl⟩
  · cases op <;> cases ha

lemma of_claim (h : M.Issued) (hd : M.Does l (.claim i) rest pc new) :
    (∃ k, (M.ctl M.sys.curr).pc = .allocClaim i k) ∧ 3 ≤ i ∧ i < gdtTableSize ∧
      (M.sys.gdt i).attr = 0 ∧ ((M.sys.exec (.claim i)).gdt i).present = true := by
  obtain ⟨k, hpc, -⟩ := Pc.next_claim (does_setsUp hd rfl).1
  obtain ⟨hpos, hlt, hz⟩ := h.claim _ i k hpc
  have h1 : i ≠ 1 := by
    rintro rfl
    exact SegmentDesc.attr_ne_zero h.kernel.1 hz
  have h2 : i ≠ 2 := by
    rintro rfl
    exact SegmentDesc.attr_ne_zero h.kernel.2 hz
  refine ⟨⟨k, hpc⟩, by omega, hlt, hz, ?_⟩
  simp only [Core.exec, Core.cpu, claimDesc, Cpu.setDesc, Function.update_self,
    SegmentDesc.present]
  decide

lemma ne_of_names {p : Cpu} (h : p.Names sel) (hz : (p.gdt i).attr = 0) : sel ≠ (i * 8 : Nat) := by
  obtain ⟨j, -, -, rfl, hp⟩ := h
  intro he
  obtain rfl : j = i := by omega
  exact SegmentDesc.attr_ne_zero hp hz

lemma minus_one_not_mem (h : M.Issued) : (-1 : Int) ∉ handedOut M.sys.trace := by
  intro hmem
  obtain ⟨i, -, -, hi, -⟩ := h.used _ hmem
  omega

lemma free_after (h : M.Issued) (hM : M.Sound) (hG : M.Guarded) (hd : M.Does l a rest pc new)
    {k : AllocFor} (hc : c ≠ M.sys.curr) (hpc : (M.ctl c).pc = .allocClaim i k) :
    ((M.sys.exec a).gdt i).attr = 0 := by
  apply h.spares_free hd ?_ i (h.claim c i k hpc).2.2
  rintro j rfl
  obtain ⟨⟨k', hpc'⟩, -⟩ := h.of_claim hd
  obtain ⟨k'', htest⟩ := hG.atStart hM (by rw [hpc']; rfl) hc (by rw [hpc]; rfl)
  rw [hpc] at htest
  cases htest

lemma handedOut_after (hd : M.Does l a rest pc new) :
    handedOut (M.sys.exec a).trace = handedOut M.sys.trace ∨
      ∃ ret, ret ≠ -1 ∧ (M.ctl M.sys.curr).pc.handing = some ret ∧ pc.handing = none ∧
        handedOut (M.sys.exec a).trace = handedOut M.sys.trace ++ [ret] := by
  by_cases ha : ∃ c ret, a = .note (.allocReturn c ret)
  · obtain ⟨c, ret, rfl⟩ := ha
    obtain ⟨rfl, k, hpc⟩ := does_note hd rfl
    have htr : handedOut (M.sys.exec (.note (.allocReturn M.sys.curr ret))).trace =
        handedOut M.sys.trace ++ handedOut [.allocReturn M.sys.curr ret] := handedOut_append ..
    by_cases hret : ret = -1
    · left
      rw [htr, hret]
      simp [handedOut, Event.allocated]
    · right
      refine ⟨ret, hret, by rw [hpc]; rfl, ?_, by rw [htr]; simp [handedOut, Event.allocated, hret]⟩
      rcases does_place hd with ⟨-, ha | ⟨e, ha⟩⟩ | hnext | ⟨op, ha, -, -⟩
      · cases ha
      · cases ha
      · rw [hpc] at hnext
        cases k <;> cases hnext <;> rfl
      · cases op <;> cases ha
  · left
    exact handedOut_exec fun c ret he => ha ⟨c, ret, he⟩

/-- The running context's next selector: it had it before, or it is new. -/
lemma handing_after (hd : M.Does l a rest pc new) (hs : pc.handing = some sel) :
    ((M.ctl M.sys.curr).pc.handing = some sel ∧
        handedOut (M.sys.exec a).trace = handedOut M.sys.trace) ∨ sel = -1 ∨
      ∃ i, a = .claim i ∧ sel = (i * 8 : Nat) := by
  have hsame : handedOut (M.sys.exec a).trace = handedOut M.sys.trace := by
    rcases handedOut_after hd with hsame | ⟨ret, -, -, hnone, -⟩
    · exact hsame
    · rw [hnone] at hs
      cases hs
  rcases does_place hd with ⟨hpc, -⟩ | hnext | ⟨op, -, hpc, -⟩
  · exact Or.inl ⟨hpc ▸ hs, hsame⟩
  · rcases Pc.next_handing hnext hs with ⟨hold, -⟩ | ⟨hm, -⟩ | ⟨i, k, -, ha, hsel⟩
    · exact Or.inl ⟨hold, hsame⟩
    · exact Or.inr (Or.inl hm)
    · exact Or.inr (Or.inr ⟨i, ha, hsel⟩)
  · rw [hpc] at hs
    cases op <;> cases hs

lemma handing_ne (h : M.Issued) (hd : M.Does l a rest pc new) {d : Ctx} (hdc : d ≠ M.sys.curr)
    (hc : pc.handing = some sel) (hdh : (M.ctl d).pc.handing = some sel) : sel = -1 := by
  rcases handing_after hd hc with ⟨hold, -⟩ | hm | ⟨i, rfl, hsel⟩
  · exact (h.apart _ _ _ hold hdh).resolve_right fun he => hdc he.symm
  · exact hm
  · obtain ⟨-, -, -, hz, -⟩ := h.of_claim hd
    refine (h.settable d sel (Pc.settable_of_handing hdh)).resolve_right fun hn => ?_
    exact ne_of_names hn hz hsel

lemma test_after (h : M.Issued) (hd : M.Does l a rest pc new) {k : AllocFor}
    (hpc : ((M.after a rest pc new).ctl c).pc = .allocTest i k) : 1 ≤ i := by
  rcases Machine.Sound.after_pc hd c with hu | ⟨-, hold⟩ | ⟨rfl, hnew, -⟩
  · rw [hu] at hpc
    cases hpc
  · exact h.test c i k (hold ▸ hpc)
  · rw [hnew] at hpc
    subst hpc
    rcases does_place hd with ⟨hold, -⟩ | hnext | ⟨op, -, hop, -⟩
    · exact h.test _ i k hold.symm
    · rcases Pc.next_test hnext with ⟨rfl, -⟩ | ⟨i', -, -, rfl, -⟩ <;> omega
    · cases op <;> cases hop

lemma claim_after (h : M.Issued) (hM : M.Sound) (hG : M.Guarded) (hd : M.Does l a rest pc new)
    {k : AllocFor} (hpc : ((M.after a rest pc new).ctl c).pc = .allocClaim i k) :
    1 ≤ i ∧ i < gdtTableSize ∧ ((M.sys.exec a).gdt i).attr = 0 := by
  rcases Machine.Sound.after_pc hd c with hu | ⟨hne, hold⟩ | ⟨rfl, hnew, -⟩
  · rw [hu] at hpc
    cases hpc
  · rw [hold] at hpc
    obtain ⟨hpos, hlt, -⟩ := h.claim c i k hpc
    exact ⟨hpos, hlt, h.free_after hM hG hd hne hpc⟩
  · rw [hnew] at hpc
    subst hpc
    rcases does_place hd with ⟨hold, ha⟩ | hnext | ⟨op, -, hop, -⟩
    · obtain ⟨hpos, hlt, hz⟩ := h.claim _ i k hold.symm
      refine ⟨hpos, hlt, h.spares_free hd ?_ i hz⟩
      rintro j rfl
      rcases ha with ha | ⟨e, ha⟩ <;> cases ha
    · obtain ⟨hold, rfl, hlt, hz⟩ := Pc.next_toClaim hnext
      exact ⟨h.test _ i k hold, hlt, hz⟩
    · cases op <;> cases hop

lemma settable_after (h : M.Issued) (hMk : M.Marked) (hd : M.Does l a rest pc new)
    (hs : ((M.after a rest pc new).ctl c).pc.settable = some sel) :
    sel = -1 ∨ (M.sys.exec a).toCpu.Names sel := by
  have hkeeps := (hMk.exec hd).2
  rcases Machine.Sound.after_pc hd c with hu | ⟨-, hold⟩ | ⟨rfl, hnew, -⟩
  · rw [hu] at hs
    cases hs
  · exact (h.settable c sel (hold ▸ hs)).imp_right fun hn => hn.kept hkeeps
  · rw [hnew] at hs
    rcases does_place hd with ⟨hold, -⟩ | hnext | ⟨op, -, hop, -⟩
    · exact (h.settable _ sel (hold ▸ hs)).imp_right fun hn => hn.kept hkeeps
    · rcases Pc.next_settable hnext hs with hold | ⟨hm, -⟩ | ⟨i, k, -, rfl, hsel⟩
      · exact (h.settable _ sel hold).imp_right fun hn => hn.kept hkeeps
      · exact Or.inl hm
      · obtain ⟨-, hlo, hhi, -, hp⟩ := h.of_claim hd
        exact Or.inr ⟨i, hlo, hhi, hsel, hp⟩
    · rw [hop] at hs
      cases op <;> cases hs

lemma fresh_after (h : M.Issued) (hd : M.Does l a rest pc new)
    (hs : ((M.after a rest pc new).ctl c).pc.handing = some sel) :
    sel ∉ handedOut (M.sys.exec a).trace := by
  rcases Machine.Sound.after_pc hd c with hu | ⟨hne, hold⟩ | ⟨rfl, hnew, -⟩
  · rw [hu] at hs
    cases hs
  · rw [hold] at hs
    rcases handedOut_after hd with hsame | ⟨ret, hret, hhand, -, hadd⟩
    · rw [hsame]
      exact h.fresh c sel hs
    · rw [hadd, List.mem_append, List.mem_singleton]
      rintro (hmem | rfl)
      · exact h.fresh c sel hs hmem
      · exact ((h.apart _ _ _ hs hhand).resolve_left hret ▸ hne) rfl
  · rw [hnew] at hs
    rcases handing_after hd hs with ⟨hold, hsame⟩ | rfl | ⟨i, rfl, hsel⟩
    · rw [hsame]
      exact h.fresh _ sel hold
    · rcases handedOut_after hd with hsame | ⟨ret, -, -, hnone, -⟩
      · rw [hsame]
        exact h.minus_one_not_mem
      · rw [hnone] at hs
        cases hs
    · obtain ⟨-, -, -, hz, -⟩ := h.of_claim hd
      intro hmem
      rw [handedOut_exec (by simp)] at hmem
      exact ne_of_names (h.used sel hmem) hz hsel

lemma apart_after (h : M.Issued) (hd : M.Does l a rest pc new) {d : Ctx}
    (hc : ((M.after a rest pc new).ctl c).pc.handing = some sel)
    (hdh : ((M.after a rest pc new).ctl d).pc.handing = some sel) : sel = -1 ∨ c = d := by
  rcases Machine.Sound.after_pc hd c with hu | ⟨hcne, hcold⟩ | ⟨rfl, hcnew, -⟩
  · rw [hu] at hc
    cases hc
  · rw [hcold] at hc
    rcases Machine.Sound.after_pc hd d with hu | ⟨-, hdold⟩ | ⟨rfl, hdnew, -⟩
    · rw [hu] at hdh
      cases hdh
    · exact h.apart c d sel hc (hdold ▸ hdh)
    · exact Or.inl (h.handing_ne hd hcne (hdnew ▸ hdh) hc)
  · rw [hcnew] at hc
    rcases Machine.Sound.after_pc hd d with hu | ⟨hdne, hdold⟩ | ⟨rfl, -, -⟩
    · rw [hu] at hdh
      cases hdh
    · exact Or.inl (h.handing_ne hd hdne hc (hdold ▸ hdh))
    · exact Or.inr rfl

lemma used_after (h : M.Issued) (hMk : M.Marked) (hd : M.Does l a rest pc new)
    (hsel : sel ∈ handedOut (M.sys.exec a).trace) : (M.sys.exec a).toCpu.Names sel := by
  have hkeeps := (hMk.exec hd).2
  rcases handedOut_after hd with hsame | ⟨ret, hret, hhand, -, hadd⟩
  · rw [hsame] at hsel
    exact (h.used sel hsel).kept hkeeps
  · rw [hadd, List.mem_append, List.mem_singleton] at hsel
    rcases hsel with hsel | rfl
    · exact (h.used sel hsel).kept hkeeps
    · have hnames := h.settable _ _ (Pc.settable_of_handing hhand)
      exact (hnames.resolve_left hret).kept hkeeps

lemma nodup_after (h : M.Issued) (hd : M.Does l a rest pc new) :
    (handedOut (M.sys.exec a).trace).Nodup := by
  rcases handedOut_after hd with hsame | ⟨ret, -, hhand, -, hadd⟩
  · rw [hsame]
    exact h.nodup
  · rw [hadd]
    exact h.nodup.concat (h.fresh _ ret hhand) |> (by simpa using ·)

theorem after (h : M.Issued) (hM : M.Sound) (hG : M.Guarded) (hMk : M.Marked)
    (hd : M.Does l a rest pc new) : (M.after a rest pc new).Issued where
  kernel := ⟨(hMk.exec hd).2 1 h.kernel.1, (hMk.exec hd).2 2 h.kernel.2⟩
  test _ _ _ hpc := h.test_after hd hpc
  claim _ _ _ hpc := h.claim_after hM hG hd hpc
  settable _ _ hs := h.settable_after hMk hd hs
  fresh _ _ hs := h.fresh_after hd hs
  apart _ _ _ hc hdh := h.apart_after hd hc hdh
  used _ hsel := h.used_after hMk hd hsel
  nodup := h.nodup_after hd

lemma boot (b : BootMem) : b.abstract.Issued := by
  have hpc : ∀ c, (b.abstract.ctl c).pc = .user ∨ ∃ k, (b.abstract.ctl c).pc = .allocLock k := by
    intro c
    by_cases hc : c = none
    · exact Or.inr ⟨.tssInit ⟨.idleTask, idleTaskName, b.idleEntry, b.idleEsp⟩, by
        simp [BootMem.abstract, BootMem.machine, hc]⟩
    · exact Or.inl (by simp [BootMem.abstract, BootMem.machine, hc, Ctl.own])
  have hkernel : ∀ j, j = 1 ∨ j = 2 → (b.abstract.sys.gdt j).present = true := by
    intro j hj
    have hlt : j < gdtTableSize := by rw [gdtTableSize]; omega
    refine (Machine.Marked.boot b).cpu.entries j hlt fun hz => ?_
    have hfree := (gdtInit_attr b.gdt j hlt).mp hz
    omega
  have htr : handedOut b.abstract.sys.trace = [] := rfl
  refine ⟨⟨hkernel 1 (Or.inl rfl), hkernel 2 (Or.inr rfl)⟩, fun c i k h => ?_, fun c i k h => ?_,
    fun c sel h => ?_, fun c sel h => ?_, fun c d sel h => ?_, by simp [htr], by simp [htr]⟩ <;>
    rcases hpc c with hu | ⟨k', hl⟩ <;> simp_all [Pc.settable, Pc.handing]

end Machine.Issued

end OsToyI386
