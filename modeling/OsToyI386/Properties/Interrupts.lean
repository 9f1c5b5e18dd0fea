import OsToyI386.Kernel.Lines

/-!
# Interrupt controllers

Once `pic_init` has run, the two controllers are sixteen lines, of which the mask is what the
calls of `irq_enable` and `irq_disable` have made it and no interrupt stays in service.
-/

namespace OsToyI386

open Lib

namespace Board

variable {b b' : Board} {ls : List IrqLabel}

lemma lines_of_run (h : Run Board.Step b ls b') (hb : b.Idle) :
    Run IrqLines.Step b.lines ls b'.lines ∧ b'.Idle := by
  induction h with
  | nil b => exact ⟨.nil _, hb⟩
  | cons hs _ ih =>
    obtain ⟨hstep, hidle⟩ := hs.lines hb
    obtain ⟨hrun, hlast⟩ := ih hidle
    exact ⟨.cons hstep hrun, hlast⟩

lemma exists_run {s : IrqLines} (h : Run IrqLines.Step b.lines ls s) (hb : b.Idle) :
    ∃ b', Run Board.Step b ls b' ∧ b'.lines = s := by
  generalize hs : b.lines = s₀ at h
  induction h generalizing b with
  | nil s => exact ⟨b, .nil b, hs⟩
  | cons hstep _ ih =>
    subst hs
    obtain ⟨b', hb', hlines, hidle⟩ := exists_step hb hstep
    obtain ⟨b'', hrun, hlast⟩ := ih hidle hlines
    exact ⟨b'', .cons hb' hrun, hlast⟩

end Board

/-- From whatever the chips hold before `pic_init`, they behave like the sixteen lines, and
each interrupt has ended when its handler has. -/
theorem pics_are_lines (d : Board) (ls : List IrqLabel) :
    (∀ b, Run Board.Step d.picInit ls b →
      Run IrqLines.Step IrqLines.init ls b.lines ∧
        b.pics.master.isr = 0#8 ∧ b.pics.slave.isr = 0#8) ∧
      ∀ s, Run IrqLines.Step IrqLines.init ls s →
        ∃ b, Run Board.Step d.picInit ls b ∧ b.lines = s := by
  constructor
  · intro b h
    obtain ⟨hrun, hidle⟩ := Board.lines_of_run h d.idle_picInit
    rw [Board.lines_picInit] at hrun
    exact ⟨hrun, hidle.pics.master_isr, hidle.pics.slave_isr⟩
  · intro s h
    rw [← Board.lines_picInit d] at h
    exact Board.exists_run h d.idle_picInit

end OsToyI386
