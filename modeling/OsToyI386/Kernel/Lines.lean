import OsToyI386.Kernel.Devices
import OsToyI386.Lib.Runs

/-!
# What the interrupt controllers are for

Sixteen lines, some masked and some pending, of which the most urgent is served; the two
controllers, with the mask written through `irq_enable` and `irq_disable` and each interrupt
ended by `pic_send_eoi`, behave like that.
-/

namespace OsToyI386

open Lib

/-- Sixteen lines and nothing else. -/
structure IrqLines where
  masked : IrqLine → Bool
  pending : IrqLine → Bool

inductive IrqLabel
  /-- A device raises its line. -/
  | raise (l : IrqLine)
  | enable (irqNum : Int)
  | disable (irqNum : Int)
  /-- The processor is given a vector, and the handler ends the interrupt. -/
  | interrupt (v : BitVec 8)
  deriving DecidableEq

namespace IrqLines

/-- After `pic_init`. -/
def init : IrqLines := ⟨fun l => decide (l ≠ .cascade), fun _ => false⟩

/-- The mask lets a line through, and the mask of the line that the second controller hangs
on lets it through. -/
def enabled (s : IrqLines) : IrqLine → Bool
  | .pic0 i => !s.masked (.pic0 i)
  | .pic1 i => !s.masked (.pic1 i) && !s.masked .cascade

/-- A line that asks for service. -/
def Asks (s : IrqLines) (l : IrqLine) : Prop :=
  l ≠ .cascade ∧ s.pending l = true ∧ s.enabled l = true

/-- The line with a given number gets a mask bit. -/
def setMask (irqNum : Int) (v : Bool) (s : IrqLines) : IrqLines :=
  { s with masked := fun l => if l.irqNum = irqNum then v else s.masked l }

inductive Step : IrqLines → IrqLabel → IrqLines → Prop
  | raise {s : IrqLines} {l : IrqLine} (hl : l ≠ .cascade) :
    Step s (.raise l) { s with pending := Function.update s.pending l true }
  | enable {s : IrqLines} (irqNum : Int) : Step s (.enable irqNum) (s.setMask irqNum false)
  | disable {s : IrqLines} (irqNum : Int) : Step s (.disable irqNum) (s.setMask irqNum true)
  /-- The most urgent line that asks is served, and pends no longer. -/
  | interrupt {s : IrqLines} {l : IrqLine} (h : s.Asks l)
    (hmin : ∀ l', s.Asks l' → l.urgency ≤ l'.urgency) :
    Step s (.interrupt (BitVec.ofInt 8 l.irqNum))
      { s with pending := Function.update s.pending l false }

end IrqLines

namespace IrqLine

variable {l l' : IrqLine}

lemma num_lt (l : IrqLine) : l.num < 16 := by
  cases l with
  | pic0 i => exact lt_of_lt_of_le i.isLt (by decide)
  | pic1 i => exact Nat.add_lt_add_left i.isLt 8

lemma num_inj (h : l.num = l'.num) : l = l' := by
  cases l with
  | pic0 i =>
    cases l' with
    | pic0 j => exact congrArg pic0 (Fin.ext h)
    | pic1 j =>
      have hij : (i : ℕ) = 8 + (j : ℕ) := h
      omega
  | pic1 i =>
    cases l' with
    | pic0 j =>
      have hij : 8 + (i : ℕ) = (j : ℕ) := h
      omega
    | pic1 j => exact congrArg pic1 (Fin.ext (Nat.add_left_cancel h))

lemma irqNum_inj (h : l.irqNum = l'.irqNum) : l = l' := by
  apply num_inj
  simp only [irqNum] at h
  omega

lemma exists_irqNum {irqNum : Int} (h : ¬ (irqNum < irqPicStart ∨ irqNum > irqPicStart + 15)) :
    ∃ l : IrqLine, irqNum = l.irqNum := by
  unfold irqPicStart at h
  by_cases hlt : irqNum < 0x28
  · refine ⟨.pic0 ⟨(irqNum - 0x20).toNat, by omega⟩, ?_⟩
    simp only [IrqLine.irqNum, num, irqPicStart]
    omega
  · refine ⟨.pic1 ⟨(irqNum - 0x28).toNat, by omega⟩, ?_⟩
    simp only [IrqLine.irqNum, num, irqPicStart]
    omega

lemma urgency_inj (hl : l ≠ .cascade) (hl' : l' ≠ .cascade) (h : l.urgency = l'.urgency) :
    l = l' := by
  have hc : ((cascadeLine : Fin 8) : ℕ) = 2 := rfl
  cases l with
  | pic0 i =>
    cases l' with
    | pic0 j =>
      refine congrArg pic0 (Fin.ext ?_)
      simp only [urgency] at h
      omega
    | pic1 j =>
      exfalso
      apply hl
      refine congrArg pic0 (Fin.ext ?_)
      simp only [urgency, hc] at h
      omega
  | pic1 i =>
    cases l' with
    | pic0 j =>
      exfalso
      apply hl'
      refine congrArg pic0 (Fin.ext ?_)
      simp only [urgency, hc] at h
      omega
    | pic1 j =>
      refine congrArg pic1 (Fin.ext ?_)
      simp only [urgency] at h
      omega

/-- The line of the second controller's output comes behind the lines that outrank the second
controller, and before the rest. -/
lemma urgency_pic0_le_pic1 {i j : Fin 8} (h : i ≤ cascadeLine) (hne : i ≠ cascadeLine) :
    (pic0 i).urgency ≤ (pic1 j).urgency := by
  have hlt : (i : ℕ) < cascadeLine := lt_of_le_of_ne h fun he => hne (Fin.ext he)
  simp only [urgency]
  omega

lemma urgency_pic1_le_pic0 {i j : Fin 8} (h : cascadeLine ≤ i) (hne : i ≠ cascadeLine) :
    (pic1 j).urgency ≤ (pic0 i).urgency := by
  have hlt : (cascadeLine : ℕ) < i := lt_of_le_of_ne h fun he => hne (Fin.ext he.symm)
  simp only [urgency]
  omega

end IrqLine

namespace Board

/-- What the registers of the two controllers say about the lines. -/
def lines (b : Board) : IrqLines where
  masked
    | .pic0 i => b.pics.master.imr.getLsbD i
    | .pic1 i => b.pics.slave.imr.getLsbD i
  pending l :=
    decide (l ≠ .cascade) &&
      match l with
      | .pic0 i => b.pics.master.irr.getLsbD i
      | .pic1 i => b.pics.slave.irr.getLsbD i

/-- Set up by `pic_init`, with no interrupt in service. -/
structure Idle (b : Board) : Prop where
  pics : b.pics.Idle cascadeLine
  master_base : b.pics.master.base = 0x20#8
  slave_base : b.pics.slave.base = 0x28#8

inductive Step : Board → IrqLabel → Board → Prop
  | raise {b : Board} {l : IrqLine} (hl : l ≠ .cascade) : Step b (.raise l) (b.raise l)
  | enable {b : Board} (irqNum : Int) : Step b (.enable irqNum) (b.irqEnable irqNum)
  | disable {b : Board} (irqNum : Int) : Step b (.disable irqNum) (b.irqDisable irqNum)
  | interrupt {b b' : Board} {v : BitVec 8} (h : b.acknowledge = some (v, b')) :
    Step b (.interrupt v) (b'.picSendEoi v.toNat)

section

variable {b b' : Board} {l : IrqLine} {x : IrqLabel} {v : BitVec 8}

lemma picInit_pics (b : Board) : b.picInit.pics =
    ⟨⟨.ready, 0x11#8, 0x20#8, 0x04#8, 0x01#8, 0xFB#8, 0#8, 0#8⟩,
      ⟨.ready, 0x11#8, 0x28#8, 0x02#8, 0x01#8, 0xFF#8, 0#8, 0#8⟩⟩ := by
  simp [picInit, outb, pic0Icw1, pic0Icw2, pic0Icw3, pic0Icw4, pic0Imr, pic1Icw1, pic1Icw2,
    pic1Icw3, pic1Icw4, pic1Imr, irqPicStart, Pic.writeCommand, Pic.writeData, Pic.lastStage]

lemma idle_picInit (b : Board) : b.picInit.Idle where
  pics := by
    rw [picInit_pics]
    constructor <;> rfl
  master_base := by rw [picInit_pics]
  slave_base := by rw [picInit_pics]

lemma lines_picInit (b : Board) : b.picInit.lines = IrqLines.init := by
  have hmaster : ∀ i : Fin 8, (0xFB#8).getLsbD i = decide (i ≠ cascadeLine) := by decide
  have hslave : ∀ i : Fin 8, (0xFF#8).getLsbD i = true := by decide
  rw [lines, picInit_pics, IrqLines.init]
  congr 1
  · funext l
    cases l with
    | pic0 i => exact (hmaster i).trans (by simp [IrqLine.cascade])
    | pic1 i => exact (hslave i).trans (by simp [IrqLine.cascade])
  · funext l
    cases l <;> simp

/-- The mask register that a line is in. -/
def maskOf (b : Board) : IrqLine → BitVec 8
  | .pic0 _ => b.pics.master.imr
  | .pic1 _ => b.pics.slave.imr

/-- The place of a line in its registers. -/
def place : IrqLine → Fin 8
  | .pic0 i => i
  | .pic1 i => i

def writeMask (l : IrqLine) (m : BitVec 8) (b : Board) : Board :=
  match l with
  | .pic0 _ => { b with pics.master.imr := m }
  | .pic1 _ => { b with pics.slave.imr := m }

lemma Idle.writeMask (h : b.Idle) (l : IrqLine) (m : BitVec 8) : (b.writeMask l m).Idle := by
  obtain ⟨⟨h1, h2, h3, h4, h5, h6, h7, h8⟩, h9, h10⟩ := h
  cases l <;> exact ⟨⟨h1, h2, h3, h4, h5, h6, h7, h8⟩, h9, h10⟩

lemma irqMask_line (h : b.Idle) (f : BitVec 8 → BitVec 8 → BitVec 8) (l : IrqLine) :
    b.irqMask f l.irqNum = b.writeMask l (f (b.maskOf l) (BitVec.twoPow 8 (place l))) := by
  have hnum := l.num_lt
  rw [irqMask, if_neg (by simp only [IrqLine.irqNum]; omega)]
  cases l with
  | pic0 i =>
    have hi : (IrqLine.pic0 i).irqNum - irqPicStart = (i : ℕ) := by
      simp [IrqLine.irqNum, IrqLine.num]
    rw [hi, if_pos (by omega), Int.toNat_natCast, ← BitVec.twoPow_eq]
    simp [outb, inb, pic0Imr, Pic.writeData, Pic.readData, h.pics.master_ready, Board.writeMask,
      maskOf, place]
  | pic1 i =>
    have hi : (IrqLine.pic1 i).irqNum - irqPicStart = 8 + (i : ℕ) := by
      simp [IrqLine.irqNum, IrqLine.num]
    rw [hi, if_neg (by omega)]
    simp only [add_sub_cancel_left, Int.toNat_natCast, ← BitVec.twoPow_eq]
    simp [outb, inb, pic1Imr, Pic.writeData, Pic.readData, h.pics.slave_ready, Board.writeMask,
      maskOf, place]

lemma lines_writeMask {m : BitVec 8} {v : Bool}
    (hm : ∀ k : Fin 8, m.getLsbD k = if k = place l then v else (b.maskOf l).getLsbD k) :
    (b.writeMask l m).lines = b.lines.setMask l.irqNum v := by
  have hmasked : ∀ l' : IrqLine, (b.writeMask l m).lines.masked l' =
      if l' = l then v else b.lines.masked l' := by
    intro l'
    cases l with
    | pic0 i =>
      cases l' with
      | pic0 j =>
        refine (hm j).trans ?_
        simp only [place, IrqLine.pic0.injEq]
        rfl
      | pic1 j => rfl
    | pic1 i =>
      cases l' with
      | pic0 j => rfl
      | pic1 j =>
        refine (hm j).trans ?_
        simp only [place, IrqLine.pic1.injEq]
        rfl
  have hpending : (b.writeMask l m).lines.pending = b.lines.pending := by
    cases l <;> rfl
  rw [IrqLines.setMask, ← hpending]
  refine congrArg (IrqLines.mk · _) (funext fun l' => (hmasked l').trans ?_)
  by_cases hl : l' = l
  · rw [if_pos hl, if_pos (by rw [hl])]
  · rw [if_neg hl, if_neg fun hn => hl (IrqLine.irqNum_inj hn)]

lemma setMask_refused {s : IrqLines} {irqNum : Int} (v : Bool)
    (h : irqNum < irqPicStart ∨ irqNum > irqPicStart + 15) : s.setMask irqNum v = s := by
  have hne : ∀ l : IrqLine, l.irqNum ≠ irqNum := by
    intro l hl
    have := l.num_lt
    simp only [IrqLine.irqNum] at hl
    omega
  simp only [IrqLines.setMask, hne, if_false]

lemma lines_irqMask (h : b.Idle) {f : BitVec 8 → BitVec 8 → BitVec 8} {v : Bool}
    (hf : ∀ (m : BitVec 8) (i k : Fin 8),
      (f m (BitVec.twoPow 8 i)).getLsbD k = if k = i then v else m.getLsbD k) (irqNum : Int) :
    (b.irqMask f irqNum).lines = b.lines.setMask irqNum v ∧ (b.irqMask f irqNum).Idle := by
  by_cases hr : irqNum < irqPicStart ∨ irqNum > irqPicStart + 15
  · rw [irqMask, if_pos hr, setMask_refused v hr]
    exact ⟨rfl, h⟩
  · obtain ⟨l, rfl⟩ := IrqLine.exists_irqNum hr
    rw [irqMask_line h]
    exact ⟨lines_writeMask (hf _ _), h.writeMask _ _⟩

lemma lines_irqEnable (h : b.Idle) (irqNum : Int) :
    (b.irqEnable irqNum).lines = b.lines.setMask irqNum false ∧ (b.irqEnable irqNum).Idle := by
  exact lines_irqMask h Pic.getLsbD_clear irqNum

lemma lines_irqDisable (h : b.Idle) (irqNum : Int) :
    (b.irqDisable irqNum).lines = b.lines.setMask irqNum true ∧ (b.irqDisable irqNum).Idle := by
  exact lines_irqMask h Pic.getLsbD_set irqNum

lemma lines_raise (h : b.Idle) (hl : l ≠ .cascade) :
    (b.raise l).lines =
      { b.lines with pending := Function.update b.lines.pending l true } ∧ (b.raise l).Idle := by
  obtain ⟨⟨h1, h2, h3, h4, h5, h6, h7, h8⟩, h9, h10⟩ := h
  constructor
  · have hmasked : (b.raise l).lines.masked = b.lines.masked := by
      cases l <;> rfl
    refine congrArg₂ IrqLines.mk hmasked (funext fun l' => ?_)
    rw [Function.update_apply]
    cases l with
    | pic0 i =>
      cases l' with
      | pic0 j =>
        simp only [lines, raise, Pic.raise, Pic.getLsbD_set, IrqLine.pic0.injEq]
        by_cases hij : j = i
        · subst hij
          simp [hl]
        · simp [hij]
      | pic1 j => rfl
    | pic1 i =>
      cases l' with
      | pic0 j => rfl
      | pic1 j =>
        simp only [lines, raise, Pic.raise, Pic.getLsbD_set, IrqLine.pic1.injEq]
        by_cases hij : j = i
        · subst hij
          simp [IrqLine.cascade]
        · simp [hij]
  · cases l <;> exact ⟨⟨h1, h2, h3, h4, h5, h6, h7, h8⟩, h9, h10⟩

/-! ### An interrupt -/

lemma picSendEoi_pic0 (b : Board) (i : Fin 8) :
    b.picSendEoi (IrqLine.pic0 i).irqNum = { b with pics.master := b.pics.master.eoi } := by
  have hi : ¬ (IrqLine.pic0 i).irqNum - irqPicStart ≥ 8 := by
    simp only [IrqLine.irqNum, IrqLine.num]
    omega
  simp only [picSendEoi, hi, if_false]
  simp [outb, pic0Ocw2, Pic.writeCommand, picOcw2Eoi]

lemma picSendEoi_pic1 (b : Board) (i : Fin 8) :
    b.picSendEoi (IrqLine.pic1 i).irqNum =
      { b with pics := ⟨b.pics.master.eoi, b.pics.slave.eoi⟩ } := by
  have hi : (IrqLine.pic1 i).irqNum - irqPicStart ≥ 8 := by
    simp only [IrqLine.irqNum, IrqLine.num]
    omega
  simp only [picSendEoi, hi, if_true]
  simp [outb, pic0Ocw2, pic1Ocw2, Pic.writeCommand, picOcw2Eoi]

lemma vector_pic0 (i : Fin 8) :
    0x20#8 ||| BitVec.ofNat 8 i = BitVec.ofInt 8 (IrqLine.pic0 i).irqNum := by
  revert i
  decide

lemma vector_pic1 (i : Fin 8) :
    0x28#8 ||| BitVec.ofNat 8 i = BitVec.ofInt 8 (IrqLine.pic1 i).irqNum := by
  revert i
  decide

lemma irqNum_toNat (l : IrqLine) : ((BitVec.ofInt 8 l.irqNum).toNat : Int) = l.irqNum := by
  have hnum := l.num_lt
  simp only [IrqLine.irqNum, irqPicStart, BitVec.toNat_ofInt]
  omega

/-- What the first controller sees as requests that are not masked. -/
def seen (b : Board) : BitVec 8 := (b.pics.cascaded cascadeLine).irr &&& ~~~b.pics.master.imr

lemma asks_pic0 {i : Fin 8} :
    b.lines.Asks (.pic0 i) ↔ i ≠ cascadeLine ∧ b.seen.getLsbD i = true := by
  have hne : IrqLine.pic0 i ≠ .cascade ↔ i ≠ cascadeLine := by simp [IrqLine.cascade]
  rw [IrqLines.Asks, hne]
  refine and_congr_right fun hi => ?_
  rw [seen, BitVec.getLsbD_and, PicPair.cascaded_irr, if_neg hi, BitVec.getLsbD_not]
  simp [lines, IrqLines.enabled, hne.mpr hi]

lemma asks_pic1 {j : Fin 8} :
    b.lines.Asks (.pic1 j) ↔ (b.pics.slave.irr &&& ~~~b.pics.slave.imr).getLsbD j = true ∧
      b.pics.master.imr.getLsbD cascadeLine = false := by
  rw [IrqLines.Asks, BitVec.getLsbD_and, BitVec.getLsbD_not]
  simp [lines, IrqLines.enabled, IrqLine.cascade, and_assoc]

/-- A line of the second controller asks through the first. -/
lemma seen_cascade (h : b.Idle) {j : Fin 8} (hj : b.lines.Asks (.pic1 j)) :
    b.seen.getLsbD cascadeLine = true := by
  obtain ⟨hbit, hmask⟩ := asks_pic1.mp hj
  obtain ⟨k, hk⟩ := Pic.lowest_isSome hbit
  rw [seen, BitVec.getLsbD_and, PicPair.cascaded_irr, if_pos rfl, PicPair.slave_request h.pics, hk,
    BitVec.getLsbD_not, hmask]
  simp

lemma lines_served (h : b.Idle) {m s : BitVec 8}
    (hm : ∀ k : Fin 8, k ≠ cascadeLine →
      m.getLsbD k = if IrqLine.pic0 k = l then false else b.pics.master.irr.getLsbD k)
    (hs : ∀ k : Fin 8,
      s.getLsbD k = if IrqLine.pic1 k = l then false else b.pics.slave.irr.getLsbD k) :
    let b' := { b with
      pics := ⟨{ b.pics.master with irr := m }, { b.pics.slave with irr := s }⟩ }
    b'.lines = { b.lines with pending := Function.update b.lines.pending l false } ∧ b'.Idle := by
  obtain ⟨⟨h1, h2, h3, h4, h5, h6, h7, h8⟩, h9, h10⟩ := h
  refine ⟨congrArg₂ IrqLines.mk rfl (funext fun l' => ?_), ⟨h1, h2, h3, h4, h5, h6, h7, h8⟩, h9,
    h10⟩
  rw [Function.update_apply]
  cases l' with
  | pic0 k =>
    simp only [lines]
    by_cases hk : k = cascadeLine
    · simp [hk, IrqLine.cascade]
    · rw [hm k hk]
      by_cases hl : IrqLine.pic0 k = l <;> simp [hl]
  | pic1 k =>
    simp only [lines]
    rw [hs k]
    by_cases hl : IrqLine.pic1 k = l <;> simp [hl]

lemma asks_of_acknowledge (h : b.Idle) (ha : b.acknowledge = some (v, b')) :
    ∃ l, b.lines.Asks l ∧ (∀ l', b.lines.Asks l' → l.urgency ≤ l'.urgency) ∧
      v = BitVec.ofInt 8 l.irqNum ∧
      (b'.picSendEoi v.toNat).lines =
        { b.lines with pending := Function.update b.lines.pending l false } ∧
      (b'.picSendEoi v.toNat).Idle := by
  obtain ⟨⟨v', q'⟩, hq, hv⟩ := Option.map_eq_some_iff.mp ha
  obtain ⟨rfl, rfl⟩ := Prod.mk.inj hv
  rcases PicPair.acknowledge_cases h.pics hq with
    ⟨i, hi, hreq, rfl, rfl⟩ | ⟨j, hreq, hslave, rfl, rfl⟩
  · have hlow : Pic.lowest b.seen = some i := (PicPair.cascaded_request h.pics).symm.trans hreq
    have hv : b.pics.master.vector i = BitVec.ofInt 8 (IrqLine.pic0 i).irqNum := by
      rw [Pic.vector, h.master_base, vector_pic0]
    have heoi := Pic.eoi_serve hreq h.pics.master_eoi
    refine ⟨.pic0 i, asks_pic0.mpr ⟨hi, (Pic.lowest_eq_some_iff.mp hlow).1⟩, fun l' hl' => ?_, hv,
      ?_⟩
    · cases l' with
      | pic0 k => exact Nat.mul_le_mul_left 8 (Pic.lowest_le hlow (asks_pic0.mp hl').2)
      | pic1 k => exact IrqLine.urgency_pic0_le_pic1 (Pic.lowest_le hlow (seen_cascade h hl')) hi
    · rw [hv, irqNum_toNat, picSendEoi_pic0]
      simp only [heoi]
      refine lines_served (s := b.pics.slave.irr) h (fun k hk => ?_) fun k => ?_
      · rw [Pic.getLsbD_clear, PicPair.cascaded_irr, if_neg hk]
        simp
      · rw [if_neg (by simp)]
  · have hlow : Pic.lowest b.seen = some cascadeLine :=
      (PicPair.cascaded_request h.pics).symm.trans hreq
    have hlow' := (PicPair.slave_request h.pics).symm.trans hslave
    have hv : b.pics.slave.vector j = BitVec.ofInt 8 (IrqLine.pic1 j).irqNum := by
      rw [Pic.vector, h.slave_base, vector_pic1]
    have heoi := Pic.eoi_serve hreq h.pics.master_eoi
    have heoi' := Pic.eoi_serve hslave h.pics.slave_eoi
    have hmask : b.pics.master.imr.getLsbD cascadeLine = false := by
      have hbit := (Pic.lowest_eq_some_iff.mp hlow).1
      rw [seen, BitVec.getLsbD_and, BitVec.getLsbD_not, Bool.and_eq_true, Bool.and_eq_true] at hbit
      exact Bool.not_eq_true' _ ▸ hbit.2.2
    refine ⟨.pic1 j, asks_pic1.mpr ⟨(Pic.lowest_eq_some_iff.mp hlow').1, hmask⟩, fun l' hl' => ?_,
      hv, ?_⟩
    · cases l' with
      | pic0 k =>
        obtain ⟨hk, hbit⟩ := asks_pic0.mp hl'
        exact IrqLine.urgency_pic1_le_pic0 (Pic.lowest_le hlow hbit) hk
      | pic1 k => exact Nat.add_le_add_left (Pic.lowest_le hlow' (asks_pic1.mp hl').1) _
    · rw [hv, irqNum_toNat, picSendEoi_pic1]
      simp only [heoi, heoi']
      refine lines_served h (fun k hk => ?_) fun k => ?_
      · rw [Pic.getLsbD_clear, if_neg hk, PicPair.cascaded_irr, if_neg hk, if_neg (by simp)]
      · rw [Pic.getLsbD_clear]
        simp

lemma exists_acknowledge (h : b.Idle) (hl : b.lines.Asks l) :
    ∃ v b', b.acknowledge = some (v, b') := by
  have hseen : ∃ i : Fin 8, b.seen.getLsbD i = true := by
    cases l with
    | pic0 i => exact ⟨i, (asks_pic0.mp hl).2⟩
    | pic1 j => exact ⟨cascadeLine, seen_cascade h hl⟩
  obtain ⟨i, hi⟩ := hseen
  obtain ⟨k, hk⟩ := Pic.lowest_isSome hi
  have hreq : (b.pics.cascaded cascadeLine).request = some k :=
    (PicPair.cascaded_request h.pics).trans hk
  simp [acknowledge, PicPair.acknowledge, hreq]

lemma Step.lines (h : b.Idle) (hs : b.Step x b') : b.lines.Step x b'.lines ∧ b'.Idle := by
  cases hs with
  | raise hl =>
    obtain ⟨hlines, hidle⟩ := lines_raise h hl
    rw [hlines]
    exact ⟨.raise hl, hidle⟩
  | enable irqNum =>
    obtain ⟨hlines, hidle⟩ := lines_irqEnable h irqNum
    rw [hlines]
    exact ⟨.enable irqNum, hidle⟩
  | disable irqNum =>
    obtain ⟨hlines, hidle⟩ := lines_irqDisable h irqNum
    rw [hlines]
    exact ⟨.disable irqNum, hidle⟩
  | interrupt ha =>
    obtain ⟨l, hl, hmin, rfl, hlines, hidle⟩ := asks_of_acknowledge h ha
    rw [hlines]
    exact ⟨.interrupt hl hmin, hidle⟩

lemma exists_step {s : IrqLines} (h : b.Idle) (hs : b.lines.Step x s) :
    ∃ b', b.Step x b' ∧ b'.lines = s ∧ b'.Idle := by
  cases hs with
  | raise hl => exact ⟨_, .raise hl, lines_raise h hl⟩
  | enable irqNum => exact ⟨_, .enable irqNum, lines_irqEnable h irqNum⟩
  | disable irqNum => exact ⟨_, .disable irqNum, lines_irqDisable h irqNum⟩
  | interrupt hl hmin =>
    obtain ⟨v, b', ha⟩ := exists_acknowledge h hl
    obtain ⟨l', hl', hmin', rfl, hlines, hidle⟩ := asks_of_acknowledge h ha
    obtain rfl := IrqLine.urgency_inj hl.1 hl'.1 (le_antisymm (hmin _ hl') (hmin' _ hl))
    exact ⟨_, .interrupt ha, hlines, hidle⟩

end

end Board

end OsToyI386
