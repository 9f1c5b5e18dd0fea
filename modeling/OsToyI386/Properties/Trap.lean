import OsToyI386.Scheduler.Context

/-!
# Through a trap and back

A stub builds the frame that the handler's C declaration describes, for both shapes of stack
that the processor leaves, and takes it down again. The one field that is not the register of
its name is `esp`.
-/

namespace OsToyI386

open Lib

/-- Since `s` words have been pushed, the last one first in the list, and no register that a
stub saves has changed. -/
structure Pushed (s s' : X86) (vs : List (BitVec 32)) : Prop where
  regs : s'.toRegs = { s.toRegs with
    esp := s.esp - BitVec.ofNat 32 (4 * vs.length)
    cs := s'.cs, eip := s'.eip, eflags := s'.eflags }
  pad : s'.pad = s.pad
  stacked : ∀ ws, Stacked s.mem s.esp ws → 4 * (vs.length + ws.length) ≤ 2 ^ 32 →
    Stacked s'.mem s'.esp (vs ++ ws)

namespace Pushed

variable {s s' : X86} {vs : List (BitVec 32)}

lemma refl (s : X86) : Pushed s s [] := by
  have hzero : s.esp - BitVec.ofNat 32 (4 * 0) = s.esp := BitVec.sub_zero s.esp
  refine ⟨?_, rfl, fun _ hws _ => hws⟩
  rw [List.length_nil, hzero]

lemma jump (h : Pushed s s' vs) (cs : BitVec 16) (eip eflags : BitVec 32) :
    Pushed s { s' with cs, eip, eflags } vs := by
  refine ⟨?_, h.pad, h.stacked⟩
  have hregs := h.regs
  rw [Regs.mk.injEq] at hregs
  simp [hregs]

lemma esp (h : Pushed s s' vs) : s'.esp = s.esp - BitVec.ofNat 32 (4 * vs.length) :=
  congrArg Regs.esp h.regs

lemma next (h : Pushed s s' vs) :
    s'.esp - 4#32 = s.esp - BitVec.ofNat 32 (4 * (vs.length + 1)) := by
  rw [h.esp, BitVec.sub_sub, ← BitVec.ofNat_add]
  rfl

lemma push (h : Pushed s s' vs) (v : BitVec 32) : Pushed s (s'.push v) (v :: vs) := by
  refine ⟨?_, h.pad, fun ws hws hfit => ?_⟩
  · rw [List.length_cons, ← h.next]
    have hregs := h.regs
    rw [Regs.mk.injEq] at hregs
    simp [X86.push, hregs]
  · rw [List.length_cons] at hfit
    have hold := h.stacked ws hws (by omega)
    exact hold.push (by rw [List.length_append]; omega) v

lemma pusha (h : Pushed s s' vs) : Pushed s s'.pusha
    (s.edi :: s.esi :: s.ebp :: s'.esp :: s.ebx :: s.edx :: s.ecx :: s.eax :: vs) := by
  have heax : s'.eax = s.eax := by rw [h.regs]
  have hecx : s'.ecx = s.ecx := by rw [h.regs]
  have hedx : s'.edx = s.edx := by rw [h.regs]
  have hebx : s'.ebx = s.ebx := by rw [h.regs]
  have hebp : s'.ebp = s.ebp := by rw [h.regs]
  have hesi : s'.esi = s.esi := by rw [h.regs]
  have hedi : s'.edi = s.edi := by rw [h.regs]
  rw [← heax, ← hecx, ← hedx, ← hebx, ← hebp, ← hesi, ← hedi]
  simp only [X86.pusha, X86.push_ecx, X86.push_edx, X86.push_ebx, X86.push_ebp, X86.push_esi,
    X86.push_edi]
  exact (((((((h.push s'.eax).push s'.ecx).push s'.edx).push s'.ebx).push s'.esp).push
    s'.ebp).push s'.esi).push s'.edi

lemma pushSel (h : Pushed s s' vs) (sel : BitVec 16) : Pushed s (s'.pushSel sel)
    ((s.pad (s.esp - BitVec.ofNat 32 (4 * (vs.length + 1))) ++ sel) :: vs) := by
  rw [X86.pushSel, h.next, h.pad]
  exact h.push _

/-- The selector that a segment register holds. -/
def selector (s : X86) : Seg → BitVec 16
  | .ds => s.ds
  | .es => s.es
  | .fs => s.fs
  | .gs => s.gs

lemma pushSeg (h : Pushed s s' vs) (r : Seg) : Pushed s (s'.pushSeg r)
    ((s.pad (s.esp - BitVec.ofNat 32 (4 * (vs.length + 1))) ++ selector s r) :: vs) := by
  have hsame : selector s' r = selector s r := by
    have hregs := h.regs
    rw [Regs.mk.injEq] at hregs
    cases r <;> simp [selector, hregs]
  rw [← hsame]
  cases r <;> exact h.pushSel _

end Pushed

/-- The vectors with a stub of their own. -/
def ownStubs : List (Nat × Stub) := irqStubs.map (fun x => (x.1, .exn x.2)) ++ [(irq0Timer, .timer)]

lemma args_of_ownStubs {vector : Nat} {stub : Stub} (h : (vector, stub) ∈ ownStubs) :
    stub.args = ((vector : Int), pushesErrorCode vector) := by
  have hall : ∀ x ∈ ownStubs, x.2.args = ((x.1 : Int), pushesErrorCode x.1) := by decide
  exact hall _ h

/-- The stub reports the number, and pushes an error code where the processor does not for a
vector of that number. -/
def Stub.Reports (stub : Stub) (number : Nat) : Prop :=
  BitVec.ofInt 32 stub.args.1 = BitVec.ofNat 32 number ∧ stub.args.2 = pushesErrorCode number

lemma reports_of_ownStubs {vector : Nat} {stub : Stub} (h : (vector, stub) ∈ ownStubs) :
    stub.Reports vector := by
  rw [Stub.Reports, args_of_ownStubs h]
  exact ⟨by simp, rfl⟩

/-- The words of the frame, from its start on. -/
def frameWords (vector : Nat) (errorCode : BitVec 32) (s : X86) : List (BitVec 32) :=
  [s.pad (s.esp - 68#32) ++ s.gs, s.pad (s.esp - 64#32) ++ s.fs, s.pad (s.esp - 60#32) ++ s.es,
    s.pad (s.esp - 56#32) ++ s.ds, s.edi, s.esi, s.ebp, s.esp - 20#32, s.ebx, s.edx, s.ecx, s.eax,
    BitVec.ofNat 32 vector, if pushesErrorCode vector then errorCode else 0#32, s.eip,
    s.pad (s.esp - 8#32) ++ s.cs, s.eflags]

section Entry

variable {vector : Nat} {stub : Stub} (g : GateDesc) (errorCode handler ret : BitVec 32) (s : X86)

lemma pushed_num (h : stub.Reports vector) :
    Pushed s (execAll ((if stub.args.2 then [] else [.pushImm 0#32]) ++
        [.pushImm (BitVec.ofInt 32 stub.args.1)]) (deliver g vector errorCode s))
      [BitVec.ofNat 32 vector, if pushesErrorCode vector then errorCode else 0#32, s.eip,
        s.pad (s.esp - 8#32) ++ s.cs, s.eflags] := by
  have hthree := (((Pushed.refl s).push s.eflags).pushSel s.cs).push s.eip
  rw [h.1, h.2, deliver]
  cases hcode : pushesErrorCode vector with
  | true => exact ((hthree.push errorCode).jump _ _ _).push _
  | false => exact ((hthree.jump _ _ _).push 0#32).push _

lemma pushed_enter (h : stub.Reports vector) :
    Pushed s (stub.enter handler ret (deliver g vector errorCode s))
      (ret :: (s.esp - 68#32) :: frameWords vector errorCode s) := by
  have hnum := pushed_num g errorCode s h
  have hentry : stub.enter handler ret (deliver g vector errorCode s) =
      execAll [.pusha, .pushSeg .ds, .pushSeg .es, .pushSeg .fs, .pushSeg .gs, .pushEsp,
          .call handler ret]
        (execAll ((if stub.args.2 then [] else [.pushImm 0#32]) ++
          [.pushImm (BitVec.ofInt 32 stub.args.1)]) (deliver g vector errorCode s)) := by
    rw [Stub.enter, stubEntry, execAll, execAll, execAll, ← List.foldl_append, List.append_assoc]
    rfl
  rw [hentry]
  generalize execAll _ (deliver g vector errorCode s) = s' at hnum ⊢
  have hframe := ((((hnum.pusha.pushSeg .ds).pushSeg .es).pushSeg .fs).pushSeg .gs)
  have hesp : s'.esp = s.esp - 20#32 := hnum.esp
  rw [hesp] at hframe
  have hbase : ((((s'.pusha.pushSeg .ds).pushSeg .es).pushSeg .fs).pushSeg .gs).esp =
      s.esp - 68#32 := hframe.esp
  have hall := (hframe.push (s.esp - 68#32)).push ret
  rw [← hbase] at hall
  rw [← hbase]
  exact hall.jump _ _ _

end Entry

/-- What the frame should hold: the interrupted registers, but for `esp` the stack pointer
behind the five words below it. -/
def trapFrame (vector : Nat) (errorCode : BitVec 32) (s : X86) : ExceptionFrame :=
  { gs := s.pad (s.esp - 68#32) ++ s.gs, fs := s.pad (s.esp - 64#32) ++ s.fs
    es := s.pad (s.esp - 60#32) ++ s.es, ds := s.pad (s.esp - 56#32) ++ s.ds
    edi := s.edi, esi := s.esi, ebp := s.ebp, esp := s.esp - 20#32
    ebx := s.ebx, edx := s.edx, ecx := s.ecx, eax := s.eax, num := BitVec.ofNat 32 vector
    errorCode := if pushesErrorCode vector then errorCode else 0#32
    eip := s.eip, cs := s.pad (s.esp - 8#32) ++ s.cs, eflags := s.eflags }

section Frame

variable {vector : Nat} {errorCode : BitVec 32} {s : X86}

lemma frameAt_of_stacked {m : Mem} {p : BitVec 32}
    (h : Stacked m p (frameWords vector errorCode s)) :
    frameAt m p = trapFrame vector errorCode s := by
  have hfield : ∀ i (hi : i < 17), getWord m (p + BitVec.ofNat 32 (4 * i)) =
      (frameWords vector errorCode s)[i] := fun i hi => h.get hi
  simp only [frameAt]
  rw [hfield 0 (by omega), hfield 1 (by omega), hfield 2 (by omega), hfield 3 (by omega),
    hfield 4 (by omega), hfield 5 (by omega), hfield 6 (by omega), hfield 7 (by omega),
    hfield 8 (by omega), hfield 9 (by omega), hfield 10 (by omega), hfield 11 (by omega),
    hfield 12 (by omega), hfield 13 (by omega), hfield 14 (by omega), hfield 15 (by omega),
    hfield 16 (by omega)]
  rfl

/-- The pops of the stub and `iret` take all registers from the frame, and end above it. -/
lemma leaveStub_of_stacked {s' : X86} (hesp : s'.esp + 4#32 = s.esp - 68#32)
    (h : Stacked s'.mem (s.esp - 68#32) (frameWords vector errorCode s)) :
    (leaveStub s').toRegs = s.toRegs := by
  obtain ⟨hgs, hfs, hes, hds, hedi, hesi, hebp, -, hebx, hedx, hecx, heax, -, -, heip, hcs,
    heflags, -⟩ := h
  have hsel : ∀ hi sel : BitVec 16, (hi ++ sel).setWidth 16 = sel := fun hi sel =>
    BitVec.setWidth_append_eq_right
  have hback : s.esp - 68#32 + 4#32 + 4#32 + 4#32 + 4#32 + 4#32 + 4#32 + 4#32 + 4#32 + 4#32 + 4#32 +
      4#32 + 4#32 + 4#32 + 4#32 + 4#32 + 4#32 + 4#32 = s.esp := by bv_omega
  have height : ∀ p : BitVec 32, p + 8#32 = p + 4#32 + 4#32 := by
    intro p
    rw [BitVec.add_assoc]
    rfl
  simp only [leaveStub, execAll, stubExit, List.foldl_cons, List.foldl_nil, Instr.exec,
    X86.popSeg, X86.popa, X86.iret, X86.pop, hesp, height]
  simp only [hgs, hfs, hes, hds, hedi, hesi, hebp, hebx, hedx, hecx, heax, heip, hcs, heflags,
    hback, hsel]

end Frame

section Gates

variable {addr : Stub → BitVec 32} {idt : Nat → GateDesc} {vector : Nat} {stub : Stub} {e : Exn}
  {l : List (Nat × Exn)}

/-- What `irq_install` writes. -/
def stubGate (offset : BitVec 32) : GateDesc :=
  gateDesc (BitVec.ofInt 16 kernelSelectorCode) offset (gatePPresent ||| gateDpl0 ||| gateTypeInt)

lemma installs_of_not_mem (h : vector ∉ l.map Prod.fst) :
    l.foldl (fun idt x => irqInstall idt x.1 (addr (.exn x.2))) idt vector = idt vector := by
  induction l generalizing idt with
  | nil => rfl
  | cons x l ih =>
    rw [List.map_cons, List.mem_cons, not_or] at h
    rw [List.foldl_cons, ih h.2, irqInstall, Function.update_of_ne h.1]

lemma installs_of_mem (hnodup : (l.map Prod.fst).Nodup) (h : (vector, e) ∈ l) :
    l.foldl (fun idt x => irqInstall idt x.1 (addr (.exn x.2))) idt vector =
      stubGate (addr (.exn e)) := by
  induction l generalizing idt with
  | nil => simp at h
  | cons x l ih =>
    rw [List.map_cons, List.nodup_cons] at hnodup
    rw [List.foldl_cons]
    rcases List.mem_cons.mp h with rfl | h
    · rw [installs_of_not_mem hnodup.1, irqInstall, Function.update_self]
      rfl
    · exact ih hnodup.2 h

lemma gate_of_ownStubs (h : (vector, stub) ∈ ownStubs) :
    initPit addr (irqInit addr idt) vector = stubGate (addr stub) := by
  rw [ownStubs, List.mem_append, List.mem_map, List.mem_singleton] at h
  rcases h with ⟨⟨v, e⟩, hmem, heq⟩ | heq
  · obtain ⟨rfl, rfl⟩ := Prod.mk.inj heq
    have hne : v ≠ irq0Timer := by
      have hall : ∀ x ∈ irqStubs, x.1 ≠ irq0Timer := by decide
      exact hall _ hmem
    rw [initPit, irqInstall, Function.update_of_ne hne]
    exact installs_of_mem (by decide) hmem
  · obtain ⟨rfl, rfl⟩ := Prod.mk.inj heq
    rw [initPit, irqInstall, Function.update_self]
    rfl

lemma stubGate_offset (offset : BitVec 32) : (stubGate offset).offset = offset := by
  simp only [GateDesc.offset, stubGate, gateDesc, low_word]
  apply BitVec.eq_of_getLsbD_eq
  intro i hi
  simp only [BitVec.getLsbD_append, BitVec.getLsbD_setWidth, BitVec.getLsbD_ushiftRight]
  grind

lemma deliver_stub {errorCode : BitVec 32} {s : X86} (h : (vector, stub) ∈ ownStubs) :
    let s' := deliver (initPit addr (irqInit addr idt) vector) vector errorCode s
    s'.eip = addr stub ∧ s'.cs = 8#16 ∧ s'.eflags.getLsbD 9 = false := by
  rw [gate_of_ownStubs h]
  refine ⟨stubGate_offset _, rfl, ?_⟩
  have hint : (stubGate (addr stub)).isInterrupt = true := by
    simp [GateDesc.isInterrupt, stubGate, gateDesc, gatePPresent, gateDpl0, gateTypeInt]
  simp [deliver, hint]

end Gates

/-! ### There and back -/

/-- The handler that began at `s` has returned at `s'`, with the frame as it was. -/
def KeepsFrame (s s' : X86) : Prop :=
  s'.esp = s.esp + 4#32 ∧ ∀ a, Within a (s.esp + 8#32) 68 → s'.mem a = s.mem a

section Return

variable {g : GateDesc} {vector : Nat} {stub : Stub} {errorCode handler ret : BitVec 32} {s : X86}

variable (g errorCode handler ret s) in
lemma frame_of_enter (h : stub.Reports vector) :
    let s' := stub.enter handler ret (deliver g vector errorCode s)
    getWord s'.mem s'.esp = ret ∧ s'.arg = s.esp - 68#32 ∧ s'.esp = s.esp - 76#32 ∧
      Stacked s'.mem (s.esp - 68#32) (frameWords vector errorCode s) := by
  intro s'
  have hpushed := pushed_enter g errorCode handler ret s h
  have hesp : s'.esp = s.esp - 76#32 := hpushed.esp
  have hstacked := hpushed.stacked [] trivial (by simp [frameWords])
  rw [List.append_nil] at hstacked
  have hbase : s'.esp + 4#32 + 4#32 = s.esp - 68#32 := by
    rw [hesp]
    bv_omega
  refine ⟨hstacked.head, hstacked.tail.head, hesp, ?_⟩
  rw [← hbase]
  exact hstacked.tail.tail

lemma leaveStub_of_keepsFrame (h : stub.Reports vector) {s' : X86}
    (hkeeps : KeepsFrame (stub.enter handler ret (deliver g vector errorCode s)) s') :
    (leaveStub s').toRegs = s.toRegs := by
  obtain ⟨-, -, hesp, hstacked⟩ := frame_of_enter g errorCode handler ret s h
  obtain ⟨hback, hmem⟩ := hkeeps
  have hbase : (stub.enter handler ret (deliver g vector errorCode s)).esp + 8#32 =
      s.esp - 68#32 := by
    rw [hesp]
    bv_omega
  rw [hbase] at hmem
  refine leaveStub_of_stacked ?_ (hstacked.of_within (by simp [frameWords]) hmem)
  rw [hback, hesp]
  bv_omega

end Return

/-- Any interrupted state, any vector with a stub of its own, any error code. The gate leads to
the stub, with interrupts off; the handler's argument points to a frame that holds the
interrupted registers, the vector and the error code, but in `esp` the stack pointer minus
20 and above each selector what the processor leaves there. A handler that returns with the
frame as it was leads back to the interrupted registers. So does one that is run in turns with
other tasks, switched away and back any number of times, if its own steps return like that and
the other tasks keep off its stack. -/
theorem trap_restores (addr : Stub → BitVec 32) (idt : Nat → GateDesc) (vector : Nat) (stub : Stub)
    (errorCode handler ret : BitVec 32) (s : X86) (h : (vector, stub) ∈ ownStubs) :
    let s₁ := deliver (initPit addr (irqInit addr idt) vector) vector errorCode s
    let s₂ := stub.enter handler ret s₁
    (s₁.eip = addr stub ∧ s₁.cs = 8#16 ∧ s₁.eflags.getLsbD 9 = false) ∧
    frameAt s₂.mem s₂.arg =
      { gs := s.pad (s.esp - 68#32) ++ s.gs, fs := s.pad (s.esp - 64#32) ++ s.fs
        es := s.pad (s.esp - 60#32) ++ s.es, ds := s.pad (s.esp - 56#32) ++ s.ds
        edi := s.edi, esi := s.esi, ebp := s.ebp, esp := s.esp - 20#32
        ebx := s.ebx, edx := s.edx, ecx := s.ecx, eax := s.eax, num := BitVec.ofNat 32 vector
        errorCode := if pushesErrorCode vector then errorCode else 0#32
        eip := s.eip, cs := s.pad (s.esp - 8#32) ++ s.cs, eflags := s.eflags } ∧
    (∀ s₃, KeepsFrame s₂ s₃ → (leaveStub s₃).toRegs = s.toRegs) ∧
    ∀ (own : TaskPtr → X86 → X86 → Prop) (stack : Set (BitVec 32)) (W W' : World),
      W.cpu = s₂ →
      (∀ t ≠ W.curr, ∀ u u', own t u u' → ∀ a ∈ stack, u'.mem a = u.mem a) →
      (∀ s₃, Relation.ReflTransGen (Seen (own W.curr) stack) s₂ s₃ → s₃.eip = ret →
        KeepsFrame s₂ s₃) →
      Relation.ReflTransGen (World.Step own) W W' → W'.curr = W.curr → W'.cpu.eip = ret →
      (leaveStub W'.cpu).toRegs = s.toRegs := by
  intro s₁ s₂
  have hreports := reports_of_ownStubs h
  have hentry := frame_of_enter (initPit addr (irqInit addr idt) vector) errorCode handler ret s
    hreports
  obtain ⟨-, harg, -, hstacked⟩ := hentry
  have hreturn : ∀ s₃, KeepsFrame s₂ s₃ → (leaveStub s₃).toRegs = s.toRegs :=
    fun _ hkeeps => leaveStub_of_keepsFrame hreports hkeeps
  refine ⟨deliver_stub h, ?_, hreturn, ?_⟩
  · rw [harg]
    exact frameAt_of_stacked hstacked
  · intro own stack W W' hcpu hothers hhandler hsteps hcurr heip
    have hseen := World.seen_of_steps hsteps hothers
    rw [World.view_of_curr rfl, World.view_of_curr hcurr, hcpu] at hseen
    exact hreturn _ (hhandler _ hseen heip)

def interrupted : X86 :=
  { eax := 1#32, ecx := 2#32, edx := 3#32, ebx := 4#32, esp := 0x90000#32, ebp := 5#32
    esi := 6#32, edi := 7#32, ds := 16#16, es := 16#16, fs := 16#16, gs := 16#16, cs := 8#16
    eip := 0x10000#32, eflags := 0x202#32, mem := fun _ => 0#8, pad := fun _ => 0xFFFF#16 }

/-- The start of a handler at `0x12000` that is to return to `0x11000`. -/
def entered (vector : Nat) (stub : Stub) : X86 :=
  stub.enter 0x12000#32 0x11000#32
    (deliver (initPit (fun _ => 0x13000#32)
      (irqInit (fun _ => 0x13000#32) fun _ => ⟨0#16, 0#16, 0#16, 0#16⟩) vector)
      vector 0#32 interrupted)

/-- Every task runs the one instruction `ret` at `0x12000`. -/
def returnsAtOnce : TaskPtr → X86 → X86 → Prop := fun _ s s' =>
  s.eip = 0x12000#32 ∧ s' = { s with eip := getWord s.mem s.esp, esp := s.esp + 4#32 }

lemma keepsFrame_returnsAtOnce {t : TaskPtr} {s s' : X86} (hret : getWord s.mem s.esp = 0x11000#32)
    (h : Relation.ReflTransGen (Seen (returnsAtOnce t) {a | Within a s.esp 76}) s s') :
    (∀ a, Within a s.esp 76 → s'.mem a = s.mem a) ∧
      (s'.toRegs = s.toRegs ∨ s'.eip = 0x11000#32 ∧ s'.esp = s.esp + 4#32) := by
  induction h with
  | refl => exact ⟨fun _ _ => rfl, .inl rfl⟩
  | tail _ hstep ih =>
    obtain ⟨hmem, hregs⟩ := ih
    cases hstep with
    | others hkept => exact ⟨fun a ha => (hkept a ha).trans (hmem a ha), hregs⟩
    | own hown =>
      obtain ⟨heip, rfl⟩ := hown
      refine ⟨hmem, .inr ?_⟩
      rcases hregs with hregs | ⟨hback, -⟩
      · have hesp := congrArg Regs.esp hregs
        refine ⟨?_, congrArg (· + 4#32) hesp⟩
        rw [← hret, ← hesp]
        exact getWord_of_within (n := 76) (by decide) (by decide) (hesp ▸ hmem)
      · rw [hback] at heip
        exact absurd heip (by decide)

/-- A tick, a switch to the idle task and one back. -/
theorem trap_restores_tick :
    ∃ W W₁ W₂ W₃ : World, W.cpu = entered 0x20 .timer ∧ W.curr = .mainTask ∧
      World.Step returnsAtOnce W W₁ ∧ W₁.curr = .idleTask ∧
      World.Step returnsAtOnce W₁ W₂ ∧ W₂.curr = .mainTask ∧
      World.Step returnsAtOnce W₂ W₃ ∧ (leaveStub W₃.cpu).toRegs = interrupted.toRegs := by
  have hmem : (0x20, Stub.timer) ∈ ownStubs := by decide
  obtain ⟨-, -, -, hall⟩ := trap_restores (fun _ => 0x13000#32) (fun _ => ⟨0#16, 0#16, 0#16, 0#16⟩)
    0x20 .timer 0#32 0x12000#32 0x11000#32 interrupted hmem
  obtain ⟨hret, -⟩ : getWord (entered 0x20 .timer).mem (entered 0x20 .timer).esp = 0x11000#32 ∧ _ :=
    frame_of_enter _ _ _ _ _ (reports_of_ownStubs hmem)
  let s := entered 0x20 .timer
  let W : World := ⟨s, fun _ _ => 0#8, .mainTask⟩
  let W₁ : World := ⟨{ s with toRegs := (W.tss .idleTask).load },
    Function.update W.tss .mainTask ((W.tss .mainTask).save s.toRegs), .idleTask⟩
  let W₂ : World := ⟨{ s with toRegs := (W₁.tss .mainTask).load },
    Function.update W₁.tss .idleTask ((W₁.tss .idleTask).save W₁.cpu.toRegs), .mainTask⟩
  have hback : W₂.cpu.toRegs = s.toRegs := by
    simp only [W₂, W₁, Function.update_self, Tss.load_save]
  let s' : X86 := { W₂.cpu with
    eip := getWord W₂.cpu.mem W₂.cpu.esp, esp := W₂.cpu.esp + 4#32 }
  have hout : World.Step returnsAtOnce W W₁ := .switch (by decide)
  have hin : World.Step returnsAtOnce W₁ W₂ := .switch (by decide)
  have hstart : W₂.cpu.eip = 0x12000#32 := congrArg Regs.eip hback
  have hown : World.Step returnsAtOnce W₂ { W₂ with cpu := s' } := .own ⟨hstart, rfl⟩
  refine ⟨W, W₁, W₂, { W₂ with cpu := s' }, rfl, rfl, hout, rfl, hin, rfl, hown, ?_⟩
  refine hall returnsAtOnce {a | Within a s.esp 76} W _ rfl ?_ ?_
    (((Relation.ReflTransGen.single hout).tail hin).tail hown) rfl ?_
  · rintro t - u u' ⟨-, rfl⟩ a -
    rfl
  · intro s₃ hseen heip
    obtain ⟨hsame, hregs | ⟨-, hesp⟩⟩ := keepsFrame_returnsAtOnce hret hseen
    · have hstill : s₃.eip = 0x12000#32 := congrArg Regs.eip hregs
      rw [hstill] at heip
      exact absurd heip (by decide)
    · exact ⟨hesp, fun a ha => hsame a (ha.sub (i := 8) (by omega) (by decide))⟩
  · have hesp : W₂.cpu.esp = s.esp := congrArg Regs.esp hback
    show getWord s.mem W₂.cpu.esp = _
    rw [hesp]
    exact hret

/-- A division by zero at the stack pointer `0x90000`: the frame has another one. -/
theorem trap_frame_moves_esp :
    interrupted.esp = 0x90000#32 ∧
      (frameAt (entered 0 (.exn .divider)).mem (entered 0 (.exn .divider)).arg).esp =
        0x8FFEC#32 := by
  have hmem : (0, Stub.exn .divider) ∈ ownStubs := by decide
  have hentry := frame_of_enter
    (initPit (fun _ => 0x13000#32)
      (irqInit (fun _ => 0x13000#32) fun _ => ⟨0#16, 0#16, 0#16, 0#16⟩) 0)
    0#32 0x12000#32 0x11000#32 interrupted (reports_of_ownStubs hmem)
  obtain ⟨-, harg, -, hstacked⟩ := hentry
  refine ⟨rfl, ?_⟩
  rw [entered, harg, frameAt_of_stacked hstacked]
  rfl

end OsToyI386
