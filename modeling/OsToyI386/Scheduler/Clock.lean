import OsToyI386.Kernel.Lines
import OsToyI386.Kernel.Machine
import OsToyI386.Properties.Vectors

/-!
# The machine with its interrupt controllers

The kernel beside the two 8259A controllers, on which devices raise their lines whenever they
like, and `do_handler_timer` with the count that it keeps. The vector of an acknowledged
interrupt decides which handler runs.
-/

namespace OsToyI386

open Lib

/-- An interrupt is taken, if there is one. -/
def Machine.interruptible (m : Machine Sys) : Bool :=
  decide (m.sys.halt = none) && m.sys.runs m.running && m.sys.interruptible

lemma Machine.Step.interruptible {m m' : Machine Sys} (h : m.Step .tick m') :
    m.interruptible = true := by
  simp only [Machine.Step, Machine.step] at h
  split at h
  · rename_i hlive
    split at h
    · rename_i hint
      rw [Machine.interruptible, Bool.and_eq_true, Bool.and_eq_true, decide_eq_true_iff]
      exact ⟨hlive, hint⟩
    · cases h
  · cases h

structure Clocked where
  machine : Machine Sys
  board : Board
  sysTick : BitVec 32
  /-- The exception whose handler has stopped the kernel. -/
  stopped : Option Exn

inductive ClockLabel
  /-- A device raises its line. -/
  | raise (l : IrqLine)
  /-- The kernel goes on, without an interrupt. -/
  | kernel (l : Label)
  /-- The processor acknowledges an interrupt and is given a vector. -/
  | interrupt (v : BitVec 8)
  deriving DecidableEq

/-- What a label means to the machine. -/
def ClockLabel.labels : ClockLabel → List Label
  | raise _ => []
  | kernel l => [l]
  | interrupt _ => [.tick]

/-- With the timer's line raised before each tick. -/
def Label.clocked (l : Label) : List ClockLabel :=
  if l.isTick then [.raise .timer, .interrupt 0x20#8] else [.kernel l]

@[simp] lemma Label.labels_clocked (l : Label) : l.clocked.flatMap ClockLabel.labels = [l] := by
  cases l <;> rfl

def ClockLabel.isInterrupt : ClockLabel → Bool
  | interrupt _ => true
  | _ => false

namespace Clocked

/-- `do_handler_timer`; the machine's tick is `task_time_tick()`. -/
def doHandlerTimer (c : Clocked) : Option Clocked :=
  let c := { c with sysTick := c.sysTick + 1#32 }
  let c := { c with board := c.board.picSendEoi irq0Timer }
  (c.machine.step .tick).map fun m => { c with machine := m }

/-- The handler that a vector leads to; that of an exception does not return. -/
def handle (v : BitVec 8) (c : Clocked) : Option Clocked :=
  match stubAt v.toNat with
  | .timer => c.doHandlerTimer
  | .exn e => some { c with stopped := some e }

def step (c : Clocked) : ClockLabel → Option Clocked
  | .raise l => if l = .cascade then none else some { c with board := c.board.raise l }
  | .kernel l =>
    if c.stopped = none ∧ l.isTick = false then
      (c.machine.step l).map fun m => { c with machine := m }
    else none
  | .interrupt v =>
    if c.stopped = none ∧ c.machine.interruptible then
      match c.board.acknowledge with
      | some (v', board) => if v' = v then { c with board }.handle v else none
      | none => none
    else none

/-- The step relation. -/
def Step (c : Clocked) (l : ClockLabel) (c' : Clocked) : Prop := c.step l = some c'

/-- After `pic_init` and `timer_init`, from whatever the chips held. -/
def boot (b : BootMem) (d : Board) : Clocked := ⟨b.machine, d.picInit.initPit, 0, none⟩

/-- The mask lets the timer through alone, besides the second controller, the chip counts down
from one value all the time, and no handler has stopped the kernel. -/
structure Inv (c : Clocked) : Prop where
  idle : c.board.Idle
  masked : ∀ l, c.board.lines.masked l = decide (l ≠ .cascade ∧ l ≠ .timer)
  pit : c.board.pit = ⟨0x36#8, none, 11931#16⟩
  running : c.stopped = none

section

variable {c c' : Clocked} {l : ClockLabel} {v : BitVec 8} {d : Board} {b : BootMem}

lemma irqEnable_pit (d : Board) (irqNum : Int) : (d.irqEnable irqNum).pit = d.pit := by
  unfold Board.irqEnable Board.irqMask
  split
  · rfl
  · dsimp only
    split <;> rfl

lemma picSendEoi_pit (d : Board) (irqNum : Int) : (d.picSendEoi irqNum).pit = d.pit := by
  unfold Board.picSendEoi
  dsimp only
  split <;> rfl

lemma acknowledge_pit {board : Board} (h : d.acknowledge = some (v, board)) :
    board.pit = d.pit := by
  obtain ⟨r, -, hr⟩ := Option.map_eq_some_iff.mp h
  cases hr
  rfl

lemma initPit_eq (d : Board) :
    d.initPit = { d with pit := ⟨0x36#8, none, 11931#16⟩ }.irqEnable irq0Timer := by
  rw [Board.initPit]
  simp [Board.outb, pitCommandModePort, pitChannel0DataPort, pitChannle0, pitLoadLohi, pitMode3,
    pitOscFreq, osTicksMs, Pit.writeControl, Pit.writeCounter]

lemma boot_lines (b : BootMem) (d : Board) :
    (boot b d).board.lines = IrqLines.init.setMask irq0Timer false ∧ (boot b d).board.Idle := by
  have hd := d.idle_picInit
  have hlines := Board.lines_irqEnable (b := { d.picInit with pit := ⟨0x36#8, none, 11931#16⟩ })
    ⟨hd.pics, hd.master_base, hd.slave_base⟩ irq0Timer
  rw [← initPit_eq] at hlines
  rw [← Board.lines_picInit d]
  exact hlines

lemma boot_pending (b : BootMem) (d : Board) (l : IrqLine) :
    (boot b d).board.lines.pending l = false := by
  rw [(boot_lines b d).1]
  rfl

lemma boot_inv (b : BootMem) (d : Board) : (boot b d).Inv := by
  obtain ⟨hlines, hidle⟩ := boot_lines b d
  have htimer : ∀ l : IrqLine, l.irqNum = irq0Timer ↔ l = .timer := fun l =>
    ⟨fun h => IrqLine.irqNum_inj (h.trans rfl), fun h => h ▸ rfl⟩
  refine ⟨hidle, fun l => ?_, ?_, rfl⟩
  · rw [hlines]
    simp only [IrqLines.setMask, IrqLines.init, htimer]
    by_cases hl : l = .timer <;> simp [hl]
  · rw [boot, initPit_eq]
    exact irqEnable_pit _ _

lemma step_cases (h : c.Step l c') :
    (∃ x, l = .raise x ∧ x ≠ .cascade ∧ c' = { c with board := c.board.raise x }) ∨
    (∃ k m, l = .kernel k ∧ k.isTick = false ∧ c.machine.Step k m ∧
      c' = { c with machine := m }) ∨
    ∃ v board, l = .interrupt v ∧ c.board.acknowledge = some (v, board) ∧
      { c with board }.handle v = some c' := by
  cases l with
  | raise x =>
    left
    simp only [Step, step] at h
    split at h
    · cases h
    · rename_i hx
      exact ⟨x, rfl, hx, (Option.some.inj h).symm⟩
  | kernel k =>
    right; left
    simp only [Step, step] at h
    split at h
    · rename_i hk
      obtain ⟨m, hm, hc⟩ := Option.map_eq_some_iff.mp h
      exact ⟨k, m, rfl, hk.2, hm, hc.symm⟩
    · cases h
  | interrupt v =>
    right; right
    simp only [Step, step] at h
    split at h
    · split at h
      · rename_i v' board hack
        split at h
        · rename_i hv
          exact ⟨v, board, rfl, hv ▸ hack, h⟩
        · cases h
      · cases h
    · cases h

lemma Inv.acknowledge {board : Board} (h : c.Inv) (ha : c.board.acknowledge = some (v, board)) :
    v = 0x20#8 ∧ c.board.lines.pending .timer = true ∧
      (board.picSendEoi irq0Timer).Idle ∧
      (board.picSendEoi irq0Timer).lines = { c.board.lines with
        pending := Function.update c.board.lines.pending .timer false } := by
  obtain ⟨l, ⟨hcascade, hpending, henabled⟩, -, rfl, hlines, hidle⟩ :=
    Board.asks_of_acknowledge h.idle ha
  have hl : l = .timer := by
    by_contra hne
    have hmasked : c.board.lines.masked l = true := by
      rw [h.masked]
      simp [hcascade, hne]
    cases l <;> simp [IrqLines.enabled, hmasked] at henabled
  subst hl
  rw [Board.irqNum_toNat] at hlines hidle
  exact ⟨rfl, hpending, hidle, hlines⟩

lemma Inv.interrupt (h : c.Inv) (hs : c.Step (.interrupt v) c') :
    v = 0x20#8 ∧ c.board.lines.pending .timer = true ∧ c.machine.Step .tick c'.machine ∧
      c'.sysTick = c.sysTick + 1#32 ∧ c'.Inv ∧
      c'.board.lines.pending = Function.update c.board.lines.pending .timer false := by
  rcases step_cases hs with ⟨x, hx, -⟩ | ⟨k, m, hx, -⟩ | ⟨v, board, hx, hack, hhandle⟩
  · cases hx
  · cases hx
  · cases hx
    obtain ⟨rfl, hpending, hidle, hlines⟩ := h.acknowledge hack
    have htimer : { c with board }.handle 0x20#8 = { c with board }.doHandlerTimer := rfl
    rw [htimer] at hhandle
    obtain ⟨m, hm, rfl⟩ := Option.map_eq_some_iff.mp hhandle
    refine ⟨rfl, hpending, hm, rfl, ⟨hidle, fun l => ?_, ?_, h.running⟩, ?_⟩
    · simp only [hlines, h.masked]
    · exact (picSendEoi_pit _ _).trans ((acknowledge_pit hack).trans h.pit)
    · simp only [hlines]

lemma Inv.exists_interrupt {m : Machine Sys} (h : c.Inv)
    (hpending : c.board.lines.pending .timer = true) (hm : c.machine.Step .tick m) :
    ∃ c', c.Step (.interrupt 0x20#8) c' ∧ c'.machine = m := by
  have hasks : c.board.lines.Asks .timer := by
    refine ⟨by decide, hpending, ?_⟩
    have hmasked := h.masked .timer
    simp only [IrqLine.timer] at hmasked
    simp [IrqLines.enabled, IrqLine.timer, hmasked]
  obtain ⟨v, board, hack⟩ := Board.exists_acknowledge h.idle hasks
  obtain ⟨rfl, -⟩ := h.acknowledge hack
  have hstep : c.step (.interrupt 0x20#8) = { c with board }.doHandlerTimer := by
    rw [step, if_pos ⟨h.running, hm.interruptible⟩]
    simp only [hack, if_true]
    rfl
  have hm' : c.machine.step .tick = some m := hm
  refine ⟨⟨m, board.picSendEoi irq0Timer, c.sysTick + 1#32, c.stopped⟩, ?_, rfl⟩
  rw [Step, hstep, doHandlerTimer]
  simp [hm']

lemma Inv.raise {x : IrqLine} (h : c.Inv) (hs : c.Step (.raise x) c') :
    c'.machine = c.machine ∧ c'.sysTick = c.sysTick ∧ c'.Inv ∧
      c'.board.lines.pending = Function.update c.board.lines.pending x true := by
  rcases step_cases hs with ⟨y, hx, hne, rfl⟩ | ⟨k, m, hx, -⟩ | ⟨v, board, hx, -⟩
  · cases hx
    obtain ⟨hlines, hidle⟩ := Board.lines_raise h.idle hne
    refine ⟨rfl, rfl, ⟨hidle, fun l => ?_, ?_, h.running⟩, ?_⟩
    · simp only [hlines, h.masked]
    · rw [← h.pit]
      cases x <;> rfl
    · simp only [hlines]
  · cases hx
  · cases hx

lemma Inv.kernel {k : Label} (h : c.Inv) (hs : c.Step (.kernel k) c') :
    c.machine.Step k c'.machine ∧ c'.sysTick = c.sysTick ∧ c'.Inv ∧ c'.board = c.board := by
  rcases step_cases hs with ⟨y, hx, -⟩ | ⟨k, m, hx, -, hm, rfl⟩ | ⟨v, board, hx, -⟩
  · cases hx
  · cases hx
    exact ⟨hm, rfl, ⟨h.idle, h.masked, h.pit, h.running⟩, rfl⟩
  · cases hx

lemma Inv.step (h : c.Inv) (hs : c.Step l c') :
    Run Machine.Step c.machine l.labels c'.machine ∧ c'.Inv := by
  cases l with
  | raise x =>
    obtain ⟨hm, -, hinv, -⟩ := h.raise hs
    rw [hm]
    exact ⟨.nil _, hinv⟩
  | kernel k =>
    obtain ⟨hm, -, hinv, -⟩ := h.kernel hs
    exact ⟨.single hm, hinv⟩
  | interrupt v =>
    obtain ⟨-, -, hm, -, hinv, -⟩ := h.interrupt hs
    exact ⟨.single hm, hinv⟩

lemma step_raise (c : Clocked) {x : IrqLine} (hx : x ≠ .cascade) :
    c.Step (.raise x) { c with board := c.board.raise x } := by
  rw [Step, step, if_neg hx]

lemma step_kernel {m : Machine Sys} {k : Label} (hc : c.stopped = none) (hk : k.isTick = false)
    (hm : c.machine.Step k m) : c.Step (.kernel k) { c with machine := m } := by
  have hm' : c.machine.step k = some m := hm
  rw [Step, step, if_pos ⟨hc, hk⟩, hm']
  rfl

/-- What the machine does, the clocked machine does, with the timer's line raised before each
tick. -/
lemma Inv.exists_run {m : Machine Sys} {k : Label} (h : c.Inv) (hm : c.machine.Step k m) :
    ∃ c', Run Clocked.Step c k.clocked c' ∧ c'.machine = m ∧ c'.Inv := by
  rw [Label.clocked]
  cases hk : k.isTick with
  | true =>
    have hkt : k = .tick := by
      cases k <;> first | rfl | cases hk
    subst hkt
    have hraise := step_raise c (x := .timer) (by decide)
    obtain ⟨-, -, hinv, hpending⟩ := h.raise hraise
    have hset : (c.board.raise .timer).lines.pending .timer = true := by
      rw [hpending, Function.update_self]
    obtain ⟨c', hs, hc'⟩ := hinv.exists_interrupt hset hm
    exact ⟨c', .cons hraise (.single hs), hc', (hinv.interrupt hs).2.2.2.2.1⟩
  | false =>
    have hs := step_kernel h.running hk hm
    exact ⟨_, .single hs, rfl, (h.kernel hs).2.2.1⟩

end

end Clocked

end OsToyI386
