import OsToyI386.Scheduler.Guard

/-!
# Who owns the GDT entries

Every entry of the GDT is free or belongs to the kernel, to a context that has claimed it,
or to the task whose TSS it describes. Only the running task's TSS is busy.
-/

namespace OsToyI386

open Lib

lemma low_byte (a : BitVec 32) : (a &&& 0xFF#32).setWidth 8 = a.setWidth 8 := by
  have h : (0xFF#32).setWidth 8 = BitVec.allOnes 8 := by decide
  rw [BitVec.setWidth_and, h, BitVec.and_allOnes]

lemma low_word (a : BitVec 32) : (a &&& 0xFFFF#32).setWidth 16 = a.setWidth 16 := by
  have h : (0xFFFF#32).setWidth 16 = BitVec.allOnes 16 := by decide
  rw [BitVec.setWidth_and, h, BitVec.and_allOnes]

lemma segmentDesc_base (base limit : BitVec 32) (attr : BitVec 16) :
    (segmentDesc base limit attr).base = base := by
  simp only [SegmentDesc.base, segmentDesc]
  rw [low_byte, low_byte, low_word]
  ext i hi
  simp only [BitVec.getElem_append]
  grind

lemma segmentDesc_attr {base limit : BitVec 32} {attr : BitVec 16} {i : Nat}
    (h : attr.getLsbD i = true) : (segmentDesc base limit attr).attr.getLsbD i = true := by
  simp only [segmentDesc]
  split <;> simp [h]

lemma ne_zero_of_bit {a : BitVec 16} {i : Nat} (h : a.getLsbD i = true) : a ≠ 0 := by
  rintro rfl
  simp at h

/-- The descriptor that `tss_init` sets. -/
def tssDesc (addr : BitVec 32) : SegmentDesc :=
  segmentDesc addr (BitVec.ofNat 32 Tss.size) (segPPresent ||| segDpl0 ||| segTypeTss)

lemma tssDesc_base (addr : BitVec 32) : (tssDesc addr).base = addr := segmentDesc_base ..

lemma tssDesc_attr (addr : BitVec 32) : (tssDesc addr).attr = 0x89#16 := by
  simp only [tssDesc, segmentDesc]
  decide

/-- The selector of an entry, as the processor reads it. -/
def selOf (i : Nat) : BitVec 16 := BitVec.ofInt 16 (i * 8 : Nat)

lemma selOf_toNat {i : Nat} (hi : i < gdtTableSize) : (selOf i).toNat = i * 8 := by
  rw [gdtTableSize] at hi
  rw [selOf, BitVec.ofInt_natCast, BitVec.toNat_ofNat]
  omega

lemma selIndex_selOf {i : Nat} (hi : i < gdtTableSize) : selIndex (selOf i) = i := by
  rw [selIndex, selOf_toNat hi]
  omega

lemma selInGdt_selOf {i : Nat} (hpos : 0 < i) (hi : i < gdtTableSize) :
    selInGdt (selOf i) = true := by
  have hlow : selOf i &&& 7#16 = 0#16 := by
    apply BitVec.eq_of_toNat_eq
    rw [BitVec.toNat_and, selOf_toNat hi]
    have h7 : (7#16).toNat = 2 ^ 3 - 1 := by decide
    rw [h7, Nat.and_two_pow_sub_one_eq_mod]
    simp
  simp [selInGdt, hlow, selIndex_selOf hi, hpos, hi]

lemma base_setBusy (d : SegmentDesc) : d.setBusy.base = d.base := rfl

lemma base_clearBusy (d : SegmentDesc) : d.clearBusy.base = d.base := rfl

lemma attr_setBusy {d : SegmentDesc} (h : d.attr = 0x89#16) : d.setBusy.attr = 0x8B#16 := by
  simp [SegmentDesc.setBusy, h]

lemma attr_clearBusy {d : SegmentDesc} (h : d.attr = 0x8B#16) : d.clearBusy.attr = 0x89#16 := by
  simp [SegmentDesc.clearBusy, h]

lemma isAvailableTss_of_attr {d : SegmentDesc} (h : d.attr = 0x89#16) :
    d.isAvailableTss = true := by
  simp [SegmentDesc.isAvailableTss, h]

lemma isBusyTss_of_attr {d : SegmentDesc} (h : d.attr = 0x8B#16) : d.isBusyTss = true := by
  simp [SegmentDesc.isBusyTss, h]

lemma farJump_gdt {p : Cpu} {i j : Nat} (hi : i < gdtTableSize) (hj : 0 < j)
    (hj' : j < gdtTableSize) (hij : i ≠ j) (htr : p.tr = selOf i)
    (hav : (p.gdt j).isAvailableTss = true) :
    (farJump (selOf j) p).gdt =
        Function.update (Function.update p.gdt i (p.gdt i).clearBusy) j (p.gdt j).setBusy ∧
      (farJump (selOf j) p).tr = selOf j ∧ (farJump (selOf j) p).tssAddr = p.tssAddr ∧
      (farJump (selOf j) p).halt = p.halt := by
  have hsel : selInGdt (selOf j) = true := selInGdt_selOf hj hj'
  simp [farJump, hsel, selIndex_selOf hj', selIndex_selOf hi, htr, hav, Cpu.setDesc, hij.symm]

namespace Core

/-- Nothing that concerns the task switch differs. -/
structure Still (K K' : Core) : Prop where
  gdt : K'.gdt = K.gdt
  tr : K'.tr = K.tr
  tssAddr : K'.tssAddr = K.tssAddr
  curr : K'.curr = K.curr
  sel : ∀ t, (K'.task t).tssSel = (K.task t).tssSel
  fault : K'.halt = some .cpuFault → K.halt = some .cpuFault

/-- The running task changes, with a jump to its TSS. -/
structure Switches (K K' : Core) (t : TaskPtr) : Prop where
  curr : K'.curr = some t
  other : K.curr ≠ some t
  sel : ∀ u, (K'.task u).tssSel = (K.task u).tssSel
  jump : ∃ p : Cpu, p.gdt = K.gdt ∧ p.tr = K.tr ∧ p.tssAddr = K.tssAddr ∧
    (p.halt = some .cpuFault → K.halt = some .cpuFault) ∧
    K'.toCpu = switchToTss (K.task t).tssSel p

def Turns (K K' : Core) : Prop := Still K K' ∨ ∃ t, Switches K K' t

namespace Still

variable {K K' K'' : Core} {t : TaskPtr} {q : Queue}

lemma refl (K : Core) : Still K K := ⟨rfl, rfl, rfl, rfl, fun _ => rfl, id⟩

lemma trans (h : Still K K') (h' : Still K' K'') : Still K K'' :=
  ⟨h'.gdt.trans h.gdt, h'.tr.trans h.tr, h'.tssAddr.trans h.tssAddr, h'.curr.trans h.curr,
    fun t => (h'.sel t).trans (h.sel t), fun hf => h.fault (h'.fault hf)⟩

lemma of_eq (hp : K'.toCpu = K.toCpu) (hc : K'.curr = K.curr) (ht : K'.task = K.task) :
    Still K K' := by
  refine ⟨?_, ?_, ?_, hc, fun t => by rw [ht], fun hf => ?_⟩ <;> simp_all

lemma off : Still K K.off := ⟨rfl, rfl, rfl, rfl, fun _ => rfl, id⟩

lemma flags (x : BitVec 32) : Still K (K.cpu fun p => { p with eflags := x }) :=
  ⟨rfl, rfl, rfl, rfl, fun _ => rfl, id⟩

lemma die {h : Halt} (hh : h ≠ .cpuFault) : Still K (K.die h) :=
  ⟨rfl, rfl, rfl, rfl, fun _ => rfl, fun hf => absurd (Option.some.inj hf) hh⟩

lemma setTask {x : Task} (hx : x.tssSel = (K.task t).tssSel) : Still K (K.setTask t x) := by
  refine ⟨rfl, rfl, rfl, rfl, fun u => ?_, id⟩
  by_cases hu : u = t
  · subst hu
    simp [Core.setTask, hx]
  · simp [Core.setTask, hu]

lemma emit (e : Event) : Still K (K.emit e) := of_eq rfl rfl rfl

lemma setMutex (m : MutexPtr) (x : ReinMutex) : Still K (K.setMutex m x) := of_eq rfl rfl rfl

lemma setSem (p : SemPtr) (x : Int) : Still K (K.setSem p x) := of_eq rfl rfl rfl

lemma leave (q : Queue) (t : TaskPtr) : Still K (K.leave q t) := of_eq rfl rfl rfl

lemma join (q : Queue) (t : TaskPtr) : Still K (K.join q t) := of_eq rfl rfl rfl

lemma pop (q : Queue) (t : TaskPtr) : Still K (K.pop q t) := of_eq rfl rfl rfl

lemma wake (t : TaskPtr) : Still K (K.wake t) := (join .ready t).trans (setTask rfl)

lemma turns (h : Still K K') : Turns K K' := Or.inl h

lemma dispatch (h : Still K K') : Turns K K'.dispatch := by
  have hsel : ∀ u, (K'.dispatch.task u).tssSel = (K.task u).tssSel := by
    intro u
    rw [dispatch_task]
    exact h.sel u
  by_cases hhead : K'.curr = some K'.head
  · left
    have hd : K'.dispatch = K'.off := by rw [Core.dispatch, if_pos hhead]
    rw [hd]
    exact h.trans off
  · right
    refine ⟨K'.head, dispatch_curr K', h.curr ▸ hhead, hsel, K'.toCpu.cli, h.gdt, h.tr,
      h.tssAddr, h.fault, ?_⟩
    rw [← h.sel, Core.dispatch, if_neg hhead]

end Still

lemma Turns.still {K K' K'' : Core} (h : Still K K') (h' : Turns K' K'') : Turns K K'' := by
  rcases h' with h' | ⟨t, h'⟩
  · exact Or.inl (h.trans h')
  · obtain ⟨p, hgdt, htr, haddr, hf, hp⟩ := h'.jump
    refine Or.inr ⟨t, h'.curr, h.curr ▸ h'.other, fun u => (h'.sel u).trans (h.sel u), p,
      hgdt.trans h.gdt, htr.trans h.tr, haddr.trans h.tssAddr, fun hh => h.fault (hf hh), ?_⟩
    rw [hp, h.sel]

/-- The actions that set descriptors, selectors, `TR` or, at boot, `curr_task` itself. -/
def setsUp : Act → Bool
  | .claim _ | .segSet _ _ _ _ | .fill _ _ | .writeTr | .becomeMain => true
  | _ => false

section Turns

variable {K : Core} {m : MutexPtr} {p : SemPtr} {c : TaskPtr}

lemma turns_block (K : Core) (t : TaskPtr) (q : Queue) (e : Event) :
    Turns K ((K.block t q).emit e).dispatch :=
  (((Still.pop _ _).trans (.join _ _)).trans (.emit _)).dispatch

lemma turns_lock (K : Core) (m : MutexPtr) : Turns K (K.lock m) := by
  unfold lock
  split
  · exact ((Still.setMutex _ _).trans (.emit _)).turns
  · split
    · exact ((Still.setMutex _ _).trans (.emit _)).turns
    · split
      · exact (Still.die (by simp)).turns
      · exact turns_block _ _ _ _

lemma still_unlock (K : Core) (m : MutexPtr) : Still K (K.unlock m) := by
  unfold unlock
  split
  · exact .die (by simp)
  · split
    · refine (Still.emit (.unlock K.curr m)).trans ?_
      unfold handOver
      split
      · exact .setMutex _ _
      · exact (((Still.leave _ _).trans (.wake _)).trans (.setMutex _ _)).trans (.emit _)
    · exact (Still.setMutex _ _).trans (.emit _)

lemma turns_wait (K : Core) (p : SemPtr) : Turns K (K.wait p) := by
  unfold wait
  split
  · exact ((Still.setSem _ _).trans (.emit _)).turns
  · split
    · exact (Still.die (by simp)).turns
    · exact turns_block _ _ _ _

lemma turns_notify (K : Core) (p : SemPtr) : Turns K (K.notify p) := by
  unfold notify
  dsimp only
  split
  · exact ((Still.emit _).trans (.setSem _ _)).turns
  · exact ((((Still.emit _).trans (.leave _ _)).trans (.wake _)).trans (.emit _)).dispatch

lemma turns_yield (K : Core) : Turns K K.yield := by
  unfold yield
  split
  · split
    · exact (Still.die (by simp)).turns
    · exact ((Still.pop _ _).trans (.wake _)).dispatch
  · exact (Still.refl K).turns

lemma turns_sleep (K : Core) (n : Int) : Turns K (K.sleep n) := by
  unfold sleep
  split
  · exact (Still.die (by simp)).turns
  · exact (((Still.pop _ _).trans (.setTask (by rfl))).trans (.join _ _)).dispatch

lemma still_sliceTick (K : Core) (c : TaskPtr) : Still K (K.sliceTick c) := by
  unfold sliceTick
  split
  · exact .refl K
  · split
    · exact ((Still.setTask (by rfl)).trans (.pop _ _)).trans (.wake _)
    · exact .setTask (by rfl)

lemma still_pass (ts : List TaskPtr) (K : Core) : Still K (ts.foldl sleeperTick K) := by
  induction ts generalizing K with
  | nil => exact .refl K
  | cons t ts ih =>
    have hone : Still K (K.sleeperTick t) := by
      unfold sleeperTick
      dsimp only
      split
      · exact ((Still.setTask (by rfl)).trans (.pop _ _)).trans (.wake _)
      · exact .setTask (by rfl)
    exact hone.trans (ih _)

lemma turns_tick (K : Core) : Turns K K.tick := by
  unfold tick
  split
  · exact (Still.die (by simp)).turns
  · exact ((still_sliceTick _ _).trans (still_pass _ _)).dispatch

/-- An action that sets nothing up at most switches to another task. -/
theorem exec_turns {a : Act} (ha : setsUp a = false) : Turns K (K.exec a) := by
  have hoff : Still K K.off := .off
  cases a with
  | nop => exact (Still.refl K).turns
  | note e => exact (Still.emit e).turns
  | ret e =>
    have hnote : Still (K.cpu fun p => { p with eflags := e.state }) (K.exec (.ret e)) :=
      .of_eq rfl rfl rfl
    exact ((Still.flags e.state).trans hnote).turns
  | timer => exact .still hoff (turns_tick _)
  | lock m => exact .still hoff (turns_lock _ m)
  | unlock m => exact (hoff.trans (still_unlock _ m)).turns
  | wait p => exact .still hoff (turns_wait _ p)
  | notify p => exact .still hoff (turns_notify _ p)
  | count p => exact hoff.turns
  | sleep ms => exact .still hoff (turns_sleep _ _)
  | yield => exact .still hoff (turns_yield _)
  | dispatch => exact (Still.refl K).dispatch
  | enable => exact (Still.flags (K.eflags ||| 0x200#32)).turns
  | disable => exact hoff.turns
  | fields r =>
    have hset : Still K (K.exec (.fields r)) := .setTask (by rfl)
    exact hset.turns
  | ready t =>
    have hlist : Still (K.off.wake t) (K.exec (.ready t)) := .of_eq rfl rfl rfl
    exact ((hoff.trans (.wake t)).trans hlist).turns
  | outb b => exact (Still.emit _).turns
  | _ => cases ha

end Turns

end Core

end OsToyI386
