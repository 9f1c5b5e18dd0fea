import OsToyI386.Kernel.Trap
import OsToyI386.Scheduler.Boot
import Mathlib.Logic.Relation

/-!
# The context in a TSS

The fields of a `tss_t` that are assigned one by one, the registers that the processor keeps
there, and tasks that take turns: a switch saves the registers of one task in its TSS and
loads those of another.
-/

namespace OsToyI386

open Lib

section Fields

variable {mem mem' : Nat → BitVec 8} {off o : Nat} {v : BitVec 32}

lemma putDword_of_outside (h : off < o ∨ o + 4 ≤ off) : putDword mem o v off = mem off := by
  rw [putDword, if_neg (by omega), if_neg (by omega), if_neg (by omega), if_neg (by omega)]

lemma putDword_of_inside (h : o ≤ off ∧ off < o + 4) :
    putDword mem o v off = putDword mem' o v off := by
  simp only [putDword]
  split_ifs <;> first | rfl | omega

/-- Fields that are assigned one after the other. -/
def putFields (mem : Nat → BitVec 8) (fields : List (Nat × BitVec 32)) : Nat → BitVec 8 :=
  fields.foldl (fun mem f => putDword mem f.1 f.2) mem

lemma putFields_of_outside {fields : List (Nat × BitVec 32)}
    (h : ∀ f ∈ fields, off < f.1 ∨ f.1 + 4 ≤ off) : putFields mem fields off = mem off := by
  induction fields generalizing mem with
  | nil => rfl
  | cons f fields ih =>
    rw [List.forall_mem_cons] at h
    have hrest : putFields (putDword mem f.1 f.2) fields off = putDword mem f.1 f.2 off := ih h.2
    exact hrest.trans (putDword_of_outside h.1)

lemma putFields_of_inside {fields : List (Nat × BitVec 32)}
    (h : ∃ f ∈ fields, f.1 ≤ off ∧ off < f.1 + 4) :
    putFields mem fields off = putFields mem' fields off := by
  induction fields generalizing mem mem' with
  | nil => simp at h
  | cons f fields ih =>
    by_cases hrest : ∃ f ∈ fields, f.1 ≤ off ∧ off < f.1 + 4
    · exact ih hrest
    · have hout : ∀ mem, putFields mem fields off = mem off := by
        intro mem
        refine putFields_of_outside fun g hg => ?_
        by_contra hin
        exact hrest ⟨g, hg, by omega⟩
      obtain ⟨g, hg, hin⟩ := h
      rcases List.mem_cons.mp hg with rfl | hg
      · have hput : putDword mem g.1 g.2 off = putDword mem' g.1 g.2 off := putDword_of_inside hin
        exact ((hout _).trans hput).trans (hout _).symm
      · exact absurd ⟨g, hg, hin⟩ hrest

lemma getDword_congr (h : ∀ i < 4, mem (o + i) = mem' (o + i)) :
    getDword mem o = getDword mem' o := by
  rw [getDword, getDword, h 3 (by omega), h 2 (by omega), h 1 (by omega),
    show mem o = mem' o from h 0 (by omega)]

lemma getDword_putFields {fields : List (Nat × BitVec 32)}
    (hapart : fields.Pairwise fun f g => f.1 + 4 ≤ g.1 ∨ g.1 + 4 ≤ f.1) {f : Nat × BitVec 32}
    (hf : f ∈ fields) : getDword (putFields mem fields) f.1 = f.2 := by
  induction fields generalizing mem with
  | nil => simp at hf
  | cons g fields ih =>
    rw [List.pairwise_cons] at hapart
    rcases List.mem_cons.mp hf with rfl | hf
    · have hkeep : getDword (putFields (putDword mem f.1 f.2) fields) f.1 =
          getDword (putDword mem f.1 f.2) f.1 := by
        refine getDword_congr fun i hi => putFields_of_outside fun g hg => ?_
        have := hapart.1 g hg
        omega
      exact hkeep.trans (getDword_putDword mem f.1 f.2)
    · exact ih hapart.2 hf

end Fields

namespace Tss

/-! The offsets of the general registers. -/

def eax : Nat := 40
def ecx : Nat := 44
def edx : Nat := 48
def ebx : Nat := 52
def ebp : Nat := 60
def esi : Nat := 64
def edi : Nat := 68

end Tss

/-- What a switch away from a task writes to its TSS. -/
def Regs.fields (r : Regs) : List (Nat × BitVec 32) :=
  [(Tss.eip, r.eip), (Tss.eflags, r.eflags), (Tss.eax, r.eax), (Tss.ecx, r.ecx),
    (Tss.edx, r.edx), (Tss.ebx, r.ebx), (Tss.esp, r.esp), (Tss.ebp, r.ebp), (Tss.esi, r.esi),
    (Tss.edi, r.edi), (Tss.es, r.es.setWidth 32), (Tss.cs, r.cs.setWidth 32),
    (Tss.ds, r.ds.setWidth 32), (Tss.fs, r.fs.setWidth 32), (Tss.gs, r.gs.setWidth 32)]

def Tss.save (tss : Tss) (r : Regs) : Tss := putFields tss r.fields

/-- What a switch to a task reads from its TSS. -/
def Tss.load (tss : Tss) : Regs :=
  { eax := getDword tss eax, ecx := getDword tss ecx, edx := getDword tss edx
    ebx := getDword tss ebx, esp := getDword tss esp, ebp := getDword tss ebp
    esi := getDword tss esi, edi := getDword tss edi
    ds := (getDword tss ds).setWidth 16, es := (getDword tss es).setWidth 16
    fs := (getDword tss fs).setWidth 16, gs := (getDword tss gs).setWidth 16
    cs := (getDword tss cs).setWidth 16
    eip := getDword tss eip, eflags := getDword tss eflags }

lemma Regs.fields_apart (r : Regs) :
    r.fields.Pairwise fun f g => f.1 + 4 ≤ g.1 ∨ g.1 + 4 ≤ f.1 := by
  simp [fields, Tss.eip, Tss.eflags, Tss.eax, Tss.ecx, Tss.edx, Tss.ebx, Tss.esp, Tss.ebp, Tss.esi,
    Tss.edi, Tss.es, Tss.cs, Tss.ds, Tss.fs, Tss.gs]

lemma Tss.load_save (tss : Tss) (r : Regs) : (tss.save r).load = r := by
  have hget : ∀ f ∈ r.fields, getDword (tss.save r) f.1 = f.2 := fun f hf =>
    getDword_putFields r.fields_apart hf
  simp only [Regs.fields, List.forall_mem_cons] at hget
  obtain ⟨heip, heflags, heax, hecx, hedx, hebx, hesp, hebp, hesi, hedi, hes, hcs, hds, hfs, hgs,
    -⟩ := hget
  simp [load, heip, heflags, heax, hecx, hedx, hebx, hesp, hebp, hesi, hedi, hes, hcs, hds, hfs,
    hgs]

lemma farJump_loads {sel : BitVec 16} {p : Cpu}
    (h : (selInGdt sel && (p.gdt (selIndex sel)).isAvailableTss) = true)
    (hne : selIndex p.tr ≠ selIndex sel) :
    (farJump sel p).eflags =
      ((farJump sel p).tss (p.gdt (selIndex sel)).base).load.eflags := by
  have hbase : ((farJump sel p).gdt (selIndex sel)).base = (p.gdt (selIndex sel)).base := by
    rw [farJump, if_pos h]
    simp [Cpu.setDesc, Function.update_of_ne hne.symm, base_setBusy]
  rw [← hbase]
  simp only [farJump, if_pos h, Tss.load]

/-- The processor runs one task; the others are in their TSS. -/
structure World where
  cpu : X86
  tss : TaskPtr → Tss
  curr : TaskPtr

/-- A step of the running task's own code, or a switch to another task, at any time. -/
inductive World.Step (own : TaskPtr → X86 → X86 → Prop) : World → World → Prop
  | own {W : World} {s : X86} : own W.curr W.cpu s → Step own W { W with cpu := s }
  | switch {W : World} {t : TaskPtr} : t ≠ W.curr → Step own W
      { cpu := { W.cpu with toRegs := (W.tss t).load }
        tss := Function.update W.tss W.curr ((W.tss W.curr).save W.cpu.toRegs)
        curr := t }

/-- What a task sees: its own registers, wherever they are, and the memory. -/
def World.view (W : World) (t : TaskPtr) : X86 :=
  { W.cpu with toRegs := if W.curr = t then W.cpu.toRegs else (W.tss t).load }

/-- What happens in the view of one task: a step of its own code, or others change memory
outside of its stack, and what the processor leaves above selectors. -/
inductive Seen (own : X86 → X86 → Prop) (stack : Set (BitVec 32)) : X86 → X86 → Prop
  | own {s s' : X86} : own s s' → Seen own stack s s'
  | others {s : X86} {m : Mem} {pad : BitVec 32 → BitVec 16} : (∀ a ∈ stack, m a = s.mem a) →
      Seen own stack s { s with mem := m, pad }

section World

variable {own : TaskPtr → X86 → X86 → Prop} {stack : Set (BitVec 32)} {t : TaskPtr}
  {W W' : World}

lemma World.view_of_curr (h : W.curr = t) : W.view t = W.cpu := by
  rw [view, if_pos h]

/-- A switch is not seen by any task, nor by the one that it stops. -/
lemma World.Step.seen (h : Step own W W')
    (hothers : ∀ u ≠ t, ∀ s s', own u s s' → ∀ a ∈ stack, s'.mem a = s.mem a) :
    Seen (own t) stack (W.view t) (W'.view t) := by
  cases h with
  | @own s hown =>
    by_cases hcurr : W.curr = t
    · have hview : World.view { W with cpu := s } t = s := view_of_curr hcurr
      rw [view_of_curr hcurr, hview]
      exact .own (hcurr ▸ hown)
    · have hview : World.view { W with cpu := s } t =
          { W.view t with mem := s.mem, pad := s.pad } := by
        simp only [view, if_neg hcurr]
      rw [hview]
      exact .others fun a ha => hothers W.curr hcurr W.cpu s hown a ha
  | @switch u hne =>
    have hview : World.view { cpu := { W.cpu with toRegs := (W.tss u).load }
                              tss := Function.update W.tss W.curr
                                ((W.tss W.curr).save W.cpu.toRegs)
                              curr := u } t =
        { W.view t with mem := W.cpu.mem, pad := W.cpu.pad } := by
      by_cases hcurr : W.curr = t
      · have hu : u ≠ t := fun he => hne (he.trans hcurr.symm)
        simp only [view, if_pos hcurr, if_neg hu]
        rw [hcurr, Function.update_self, Tss.load_save]
      · by_cases hu : u = t
        · simp only [view, if_neg hcurr, hu, if_true]
        · simp only [view, if_neg hcurr, if_neg hu, Function.update_of_ne (Ne.symm hcurr)]
    rw [hview]
    exact .others fun _ _ => rfl

lemma World.seen_of_steps (h : Relation.ReflTransGen (Step own) W W')
    (hothers : ∀ u ≠ t, ∀ s s', own u s s' → ∀ a ∈ stack, s'.mem a = s.mem a) :
    Relation.ReflTransGen (Seen (own t) stack) (W.view t) (W'.view t) := by
  induction h with
  | refl => exact .refl
  | tail _ hstep ih => exact ih.tail (hstep.seen hothers)

end World

end OsToyI386
