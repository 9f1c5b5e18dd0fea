import Mathlib.Data.Fin.Tuple.Basic

/-!
# The 8259A interrupt controller

Eight edge-triggered lines, the lower the more urgent: initialisation, mask, acknowledgement
and end of interrupt of one controller, and of two where the second hangs on a line of the
first. Rotating priorities, the special mask mode and polling are left out.
-/

namespace OsToyI386.Lib

/-- What the next byte on the data port is taken for. -/
inductive PicStage
  | icw2
  | icw3
  | icw4
  | ready
  deriving DecidableEq

/-- The initialisation words and the registers: masked, requested and in service. -/
structure Pic where
  stage : PicStage
  icw1 : BitVec 8
  base : BitVec 8
  icw3 : BitVec 8
  icw4 : BitVec 8
  imr : BitVec 8
  irr : BitVec 8
  isr : BitVec 8
  deriving DecidableEq

namespace Pic

/-- The most urgent line of a register. -/
def lowest (x : BitVec 8) : Option (Fin 8) := Fin.find? fun i => x.getLsbD i

/-- A rising edge on a line. -/
def raise (i : Fin 8) (p : Pic) : Pic := { p with irr := p.irr ||| BitVec.twoPow 8 i }

/-- The line that the processor is asked to serve: not masked, and more urgent than those in
service. -/
def request (p : Pic) : Option (Fin 8) :=
  if p.stage = .ready then
    match lowest (p.irr &&& ~~~p.imr), lowest p.isr with
    | some i, none => some i
    | some i, some j => if i < j then some i else none
    | none, _ => none
  else none

/-- With the second bit of ICW4 the interrupt ends as soon as it is acknowledged. -/
def serve (i : Fin 8) (p : Pic) : Pic :=
  { p with
    irr := p.irr &&& ~~~BitVec.twoPow 8 i
    isr := if p.icw4.getLsbD 1 then p.isr else p.isr ||| BitVec.twoPow 8 i }

/-- ICW2 gives the upper five bits of the vector. -/
def vector (i : Fin 8) (p : Pic) : BitVec 8 := p.base ||| BitVec.ofNat 8 i

/-- The end of the most urgent interrupt in service. -/
def eoi (p : Pic) : Pic :=
  match lowest p.isr with
  | some i => { p with isr := p.isr &&& ~~~BitVec.twoPow 8 i }
  | none => p

/-- The command port: ICW1, which starts the initialisation, or an end of interrupt by OCW2. -/
def writeCommand (v : BitVec 8) (p : Pic) : Pic :=
  if v.getLsbD 4 then { p with stage := .icw2, icw1 := v, icw4 := 0, imr := 0, irr := 0, isr := 0 }
  else if v.getLsbD 3 then p
  else if v.extractLsb' 5 3 = 1#3 then p.eoi
  else if v.extractLsb' 5 3 = 3#3 then
    { p with isr := p.isr &&& ~~~BitVec.twoPow 8 (v.extractLsb' 0 3).toNat }
  else p

/-- The stage behind ICW3, or behind ICW2 of a single controller. -/
def lastStage (p : Pic) : PicStage := if p.icw1.getLsbD 0 then .icw4 else .ready

/-- The data port: the words of the initialisation, and the mask from then on. -/
def writeData (v : BitVec 8) (p : Pic) : Pic :=
  match p.stage with
  | .icw2 =>
    { p with base := v &&& 0xF8#8, stage := if p.icw1.getLsbD 1 then p.lastStage else .icw3 }
  | .icw3 => { p with icw3 := v, stage := p.lastStage }
  | .icw4 => { p with icw4 := v, stage := .ready }
  | .ready => { p with imr := v }

/-- The data port reads as the mask. -/
def readData (p : Pic) : BitVec 8 := p.imr

section Lemmas

variable {p : Pic} {x : BitVec 8} {i j : Fin 8}

lemma lowest_eq_some_iff :
    lowest x = some i ↔ x.getLsbD i = true ∧ ∀ j < i, x.getLsbD j = false :=
  Fin.find?_eq_some_iff

lemma lowest_eq_none_iff : lowest x = none ↔ x = 0#8 := by
  rw [lowest, Fin.find?_eq_none_iff]
  constructor
  · intro h
    apply BitVec.eq_of_getLsbD_eq
    intro k hk
    simpa using h ⟨k, hk⟩
  · rintro rfl k
    simp

lemma lowest_isSome (h : x.getLsbD i = true) : ∃ j, lowest x = some j := by
  cases hx : lowest x with
  | some j => exact ⟨j, rfl⟩
  | none =>
    rw [lowest_eq_none_iff.mp hx] at h
    simp at h

lemma getLsbD_bit (i j : Fin 8) : (BitVec.twoPow 8 i).getLsbD j = decide (i = j) := by
  simp only [BitVec.getLsbD_twoPow, i.isLt, decide_true, Bool.true_and, Fin.ext_iff]

lemma getLsbD_set (x : BitVec 8) (i j : Fin 8) :
    (x ||| BitVec.twoPow 8 i).getLsbD j = if j = i then true else x.getLsbD j := by
  rw [BitVec.getLsbD_or, getLsbD_bit]
  by_cases hij : j = i
  · simp [hij]
  · simp [hij, Ne.symm hij]

lemma getLsbD_clear (x : BitVec 8) (i j : Fin 8) :
    (x &&& ~~~BitVec.twoPow 8 i).getLsbD j = if j = i then false else x.getLsbD j := by
  rw [BitVec.getLsbD_and, BitVec.getLsbD_not, getLsbD_bit]
  by_cases hij : j = i
  · simp [hij]
  · simp [hij, Ne.symm hij]

lemma lowest_le (h : lowest x = some i) (hj : x.getLsbD j = true) : i ≤ j := by
  by_contra hlt
  rw [(lowest_eq_some_iff.mp h).2 j (not_le.mp hlt)] at hj
  cases hj

lemma request_of_idle (hr : p.stage = .ready) (hs : p.isr = 0#8) :
    p.request = lowest (p.irr &&& ~~~p.imr) := by
  have hnone : lowest p.isr = none := lowest_eq_none_iff.mpr hs
  rw [request, if_pos hr, hnone]
  cases lowest (p.irr &&& ~~~p.imr) <;> rfl

lemma lowest_of_request (h : p.request = some i) : lowest (p.irr &&& ~~~p.imr) = some i := by
  unfold request at h
  split at h
  · split at h
    · rename_i hl _
      rw [hl, h]
    · rename_i hl _
      split at h
      · rw [hl, h]
      · cases h
    · cases h
  · cases h

lemma isr_of_request (h : p.request = some i) (hj : j ≤ i) : p.isr.getLsbD j = false := by
  unfold request at h
  split at h
  · split at h
    · rename_i hl
      rw [lowest_eq_none_iff.mp hl]
      simp
    · rename_i k hl hs
      split at h
      · rename_i hlt
        obtain rfl := Option.some.inj h
        exact (lowest_eq_some_iff.mp hs).2 j (lt_of_le_of_lt hj hlt)
      · cases h
    · cases h
  · cases h

lemma eoi_serve (h : p.request = some i) (ha : p.icw4.getLsbD 1 = false) :
    (p.serve i).eoi = { p with irr := p.irr &&& ~~~BitVec.twoPow 8 i } := by
  have hlow : lowest (p.isr ||| BitVec.twoPow 8 i) = some i := by
    rw [lowest_eq_some_iff]
    constructor
    · rw [getLsbD_set, if_pos rfl]
    · intro j hj
      rw [getLsbD_set, if_neg hj.ne, isr_of_request h hj.le]
  have hback : (p.isr ||| BitVec.twoPow 8 i) &&& ~~~BitVec.twoPow 8 i = p.isr := by
    apply BitVec.eq_of_getLsbD_eq
    intro k hk
    have hset := getLsbD_set p.isr i ⟨k, hk⟩
    have hclear := getLsbD_clear (p.isr ||| BitVec.twoPow 8 i) i ⟨k, hk⟩
    rw [hset] at hclear
    rw [hclear]
    split
    · rename_i hki
      rw [← isr_of_request h le_rfl, ← hki]
    · rfl
  simp only [serve, ha, Bool.false_eq_true, if_false]
  rw [eoi]
  simp only [hlow, hback]

end Lemmas

end Pic

/-- The output of the second controller is a line of the first. -/
structure PicPair where
  master : Pic
  slave : Pic
  deriving DecidableEq

namespace PicPair

section Cascade

variable (line : Fin 8)

/-- The first controller with the output of the second on its line. -/
def cascaded (q : PicPair) : Pic :=
  { q.master with
    irr :=
      if q.slave.request.isSome then q.master.irr ||| BitVec.twoPow 8 line
      else q.master.irr &&& ~~~BitVec.twoPow 8 line }

/-- The processor acknowledges an interrupt and is given a vector. The first controller gives
it, or leaves that to the second, which answers to its number; nobody else drives the bus. -/
def acknowledge (q : PicPair) : Option (BitVec 8 × PicPair) :=
  (q.cascaded line).request.map fun i =>
    let master := (q.cascaded line).serve i
    if i = line ∧ q.master.icw3.getLsbD line then
      match q.slave.request with
      | some j =>
        (if q.slave.icw3 = BitVec.ofNat 8 line then q.slave.vector j else 0xFF#8,
          ⟨master, q.slave.serve j⟩)
      | none => (0xFF#8, ⟨master, q.slave⟩)
    else (q.master.vector i, ⟨master, q.slave⟩)

/-- Both are set up for each other, an interrupt ends by command, and none is in service. -/
structure Idle (q : PicPair) : Prop where
  master_ready : q.master.stage = .ready
  slave_ready : q.slave.stage = .ready
  master_eoi : q.master.icw4.getLsbD 1 = false
  slave_eoi : q.slave.icw4.getLsbD 1 = false
  master_line : q.master.icw3.getLsbD line = true
  slave_line : q.slave.icw3 = BitVec.ofNat 8 line
  master_isr : q.master.isr = 0#8
  slave_isr : q.slave.isr = 0#8

variable {line} {q q' : PicPair} {v : BitVec 8} {i j : Fin 8}

lemma cascaded_request (h : q.Idle line) :
    (q.cascaded line).request =
      Pic.lowest ((q.cascaded line).irr &&& ~~~q.master.imr) :=
  Pic.request_of_idle h.master_ready h.master_isr

lemma slave_request (h : q.Idle line) :
    q.slave.request = Pic.lowest (q.slave.irr &&& ~~~q.slave.imr) :=
  Pic.request_of_idle h.slave_ready h.slave_isr

lemma cascaded_irr (q : PicPair) (line i : Fin 8) :
    (q.cascaded line).irr.getLsbD i =
      if i = line then q.slave.request.isSome else q.master.irr.getLsbD i := by
  unfold cascaded
  by_cases hs : q.slave.request.isSome = true
  · simp only [hs, if_true, Pic.getLsbD_set]
  · rw [if_neg hs, Pic.getLsbD_clear]
    simp only [hs]

lemma acknowledge_cases (h : q.Idle line) (ha : q.acknowledge line = some (v, q')) :
    (∃ i, i ≠ line ∧ (q.cascaded line).request = some i ∧ v = q.master.vector i ∧
      q' = ⟨(q.cascaded line).serve i, q.slave⟩) ∨
    ∃ j, (q.cascaded line).request = some line ∧ q.slave.request = some j ∧
      v = q.slave.vector j ∧ q' = ⟨(q.cascaded line).serve line, q.slave.serve j⟩ := by
  obtain ⟨i, hi, hout⟩ := Option.map_eq_some_iff.mp ha
  by_cases hline : i = line
  · subst hline
    right
    have hbit : (q.cascaded i).irr.getLsbD i = true := by
      have hlow := (Pic.lowest_eq_some_iff.mp (Pic.lowest_of_request hi)).1
      rw [BitVec.getLsbD_and, Bool.and_eq_true] at hlow
      exact hlow.1
    rw [cascaded_irr, if_pos rfl] at hbit
    obtain ⟨j, hj⟩ := Option.isSome_iff_exists.mp hbit
    simp only [h.master_line, and_self, if_true, hj, h.slave_line] at hout
    obtain ⟨rfl, rfl⟩ := Prod.mk.inj hout
    exact ⟨j, hi, hj, rfl, rfl⟩
  · left
    simp only [hline, false_and, if_false] at hout
    obtain ⟨rfl, rfl⟩ := Prod.mk.inj hout
    exact ⟨i, hline, hi, rfl, rfl⟩

end Cascade

end PicPair

end OsToyI386.Lib
