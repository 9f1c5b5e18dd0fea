import OsToyI386.Scheduler.Guard
import OsToyI386.Scheduler.Traces

/-!
# The serial port under preemption

A context that writes a line holds the mutex of `log.c` from before the first byte until
after the last. So the bytes sent are the lines of the calls that have begun, in the order
in which they began, less what the writer has still to send.
-/

namespace OsToyI386

open Lib

/-- What a call of `log_println` sends. -/
def logLine (text : List (BitVec 8)) : List (BitVec 8) := text ++ [0x0D#8, 0x0A#8]

/-- A call of a context to log a text. -/
abbrev LogCall := Ctx × List (BitVec 8)

def logLines (calls : List LogCall) : List (BitVec 8) := calls.flatMap fun x => logLine x.2

/-- The texts that one context logs. -/
def textsOf (c : Ctx) (calls : List LogCall) : List (List (BitVec 8)) :=
  calls.filterMap fun x => if x.1 = c then some x.2 else none

def Event.sent : Event → Option (BitVec 8)
  | com1 b => some b
  | _ => none

def Event.begun : Event → Option LogCall
  | logBegin c text => some (c, text)
  | _ => none

/-- The bytes written to the data port of COM1. -/
def sentBytes (tr : List Event) : List (BitVec 8) := tr.filterMap Event.sent

/-- The calls that have got the mutex and begun to write, in order. -/
def begunCalls (tr : List Event) : List LogCall := tr.filterMap Event.begun

namespace Pc

/-- Between the lock and the unlock of `log_println`. -/
def logging : Pc → Bool
  | logBegin _ | logPoll _ _ | logOut _ _ _ | logLf _ | logUnlock _ => true
  | _ => false

def logDoor : Pc → Bool
  | logBegin _ => true
  | _ => false

/-- The text that is being written and the bytes of its line still to be sent. -/
def unwritten : Pc → Option (List (BitVec 8) × List (BitVec 8))
  | logPoll text rest => some (text, logLine rest)
  | logOut text b rest => some (text, b :: logLine rest)
  | logLf text => some (text, [0x0A#8])
  | logUnlock text => some (text, [])
  | _ => none

/-- The text of a call that has not begun to write. -/
def unbegun : Pc → List (List (BitVec 8))
  | logLock text | logBegin text => [text]
  | _ => []

variable {c : Ctx} {p : Cpu} {a : Act} {pc pc' : Pc}

lemma guards_log : Guards .logMutex logging logDoor := by
  refine ⟨by simp, rfl, fun op => by cases op <;> rfl, fun c p a pc pc' h hc => ?_,
    fun c p pc pc' h => ?_, fun c p a pc pc' h hc => ?_⟩
  · revert h
    fun_cases next c p pc <;> intro h <;> cases h <;>
      first
      | (cases hc; done)
      | exact Or.inl ⟨rfl, rfl⟩
      | exact Or.inr ⟨rfl, by simp, by simp⟩
  · revert h
    fun_cases next c p pc <;> intro h <;> cases h
    exact ⟨rfl, rfl⟩
  · revert h
    fun_cases next c p pc <;> intro h <;> cases h <;>
      first
      | (cases hc; done)
      | exact Or.inl rfl
      | exact Or.inr rfl

lemma logging_of_unwritten {w : List (BitVec 8) × List (BitVec 8)} (h : pc.unwritten = some w) :
    pc.logging = true ∧ pc.logDoor = false := by
  cases pc <;> cases h <;> exact ⟨rfl, rfl⟩

lemma next_log (h : pc.next c p = some (a, pc')) :
    (∃ text, a = .note (.logBegin c text) ∧ pc = .logBegin text ∧
      pc'.unwritten = some (text, logLine text) ∧ pc'.unbegun = []) ∨
    (∃ text b rest, a = .outb b ∧ pc.unwritten = some (text, b :: rest) ∧
      pc'.unwritten = some (text, rest) ∧ pc.unbegun = [] ∧ pc'.unbegun = []) ∨
    ((∀ b, a ≠ .outb b) ∧ (∀ c text, a ≠ .note (.logBegin c text)) ∧
      (pc'.unwritten = pc.unwritten ∨
        ∃ text, pc.unwritten = some (text, []) ∧ pc'.unwritten = none) ∧
      pc'.unbegun = pc.unbegun) := by
  revert h
  fun_cases next c p pc <;> intro h <;> cases h
  all_goals first
    | exact Or.inr (Or.inr ⟨by simp, by simp, Or.inl rfl, rfl⟩)
    | exact Or.inr (Or.inr ⟨by simp, by simp, Or.inr ⟨_, rfl, rfl⟩, rfl⟩)
    | exact Or.inl ⟨_, rfl, rfl, rfl, rfl⟩
    | exact Or.inr (Or.inl ⟨_, _, _, rfl, rfl, rfl, rfl, rfl⟩)

end Pc

lemma logLines_append (xs ys : List LogCall) :
    logLines (xs ++ ys) = logLines xs ++ logLines ys := List.flatMap_append

lemma begunCalls_append (tr es : List Event) :
    begunCalls (tr ++ es) = begunCalls tr ++ begunCalls es := List.filterMap_append ..

lemma sentBytes_append (tr es : List Event) :
    sentBytes (tr ++ es) = sentBytes tr ++ sentBytes es := List.filterMap_append ..

lemma textsOf_append (c : Ctx) (xs ys : List LogCall) :
    textsOf c (xs ++ ys) = textsOf c xs ++ textsOf c ys := List.filterMap_append ..

namespace Core

variable {K : Core} {a : Act}

lemma exec_sent (he : K.Enabled a) (ha : ∀ b, a ≠ .outb b) :
    sentBytes (K.exec a).trace = sentBytes K.trace := by
  obtain ⟨es, htr, hes⟩ := exec_notes K a
  have hnil : sentBytes es = [] := by
    apply List.filterMap_eq_nil_iff.mpr
    intro e hmem
    rcases hes e hmem with hi | hn | ⟨b, hb, -⟩
    · cases e <;> first | rfl | cases hi
    · subst hn
      have hnote := he.1
      cases e <;> first | rfl | cases hnote
    · exact absurd hb (ha b)
  rw [htr, sentBytes_append, hnil, List.append_nil]

lemma exec_begun (ha : ∀ c text, a ≠ .note (.logBegin c text)) :
    begunCalls (K.exec a).trace = begunCalls K.trace := by
  obtain ⟨es, htr, hes⟩ := exec_notes K a
  have hnil : begunCalls es = [] := by
    apply List.filterMap_eq_nil_iff.mpr
    intro e hmem
    rcases hes e hmem with hi | hn | ⟨b, -, rfl⟩
    · cases e <;> first | rfl | cases hi
    · cases e <;> first | rfl | exact absurd hn (ha _ _)
    · rfl
  rw [htr, begunCalls_append, hnil, List.append_nil]

end Core

/-- The lines, the writer's last, that have been sent. -/
structure Machine.Logs (M : Machine Core) : Prop where
  enclosed : M.Enclosed .logMutex Pc.logging Pc.logDoor
  writer : ∀ c text rest, (M.ctl c).pc.unwritten = some (text, rest) →
    ∃ earlier part, begunCalls M.sys.trace = earlier ++ [(c, text)] ∧
      part ++ rest = logLine text ∧ sentBytes M.sys.trace = logLines earlier ++ part
  idle : (∀ c, (M.ctl c).pc.unwritten = none) →
    sentBytes M.sys.trace = logLines (begunCalls M.sys.trace)

namespace Machine.Logs

variable {M : Machine Core} {l : Label} {a : Act} {rest : List Epilogue} {pc : Pc}
  {new : List TaskPtr} {c d : Ctx}

lemma holds (h : M.Logs) {w : List (BitVec 8) × List (BitVec 8)}
    (hc : (M.ctl c).pc.unwritten = some w) : 0 < (M.sys.mutex .logMutex).heldBy c := by
  obtain ⟨hin, hdoor⟩ := Pc.logging_of_unwritten hc
  refine (h.enclosed.holds c hin).resolve_right fun hwait => ?_
  rw [hdoor] at hwait
  cases hwait.2

lemma alone (h : M.Logs) (hM : M.Sound) (hin : (M.ctl M.sys.curr).pc.logging = true)
    (hc : c ≠ M.sys.curr) : (M.ctl c).pc.unwritten = none := by
  cases hw : (M.ctl c).pc.unwritten with
  | none => rfl
  | some w =>
    have hheld := ReinMutex.heldBy_pos_iff.mp (h.holds hw)
    have hrun := ReinMutex.heldBy_pos_iff.mp (h.enclosed.running hM hin)
    exact absurd (hheld.2.symm.trans hrun.2) hc

lemma does_log (hd : M.Does l a rest pc new) :
    (∃ text, a = .note (.logBegin M.sys.curr text) ∧ (M.ctl M.sys.curr).pc = .logBegin text ∧
      pc.unwritten = some (text, logLine text)) ∨
    (∃ text b left, a = .outb b ∧ (M.ctl M.sys.curr).pc.unwritten = some (text, b :: left) ∧
      pc.unwritten = some (text, left)) ∨
    ((∀ b, a ≠ .outb b) ∧ (∀ c text, a ≠ .note (.logBegin c text)) ∧
      (pc.unwritten = (M.ctl M.sys.curr).pc.unwritten ∨
        ∃ text, (M.ctl M.sys.curr).pc.unwritten = some (text, []) ∧ pc.unwritten = none)) := by
  cases hd with
  | tick => exact Or.inr (Or.inr ⟨by simp, by simp, Or.inl rfl⟩)
  | ret => exact Or.inr (Or.inr ⟨by simp, by simp, Or.inl rfl⟩)
  | code _ hnext =>
    rcases Pc.next_log hnext with ⟨text, ha, hpc, hw, -⟩ | ⟨text, b, left, ha, hw, hw', -⟩ |
      ⟨hout, hnote, hw, -⟩
    · exact Or.inl ⟨text, ha, hpc, hw⟩
    · exact Or.inr (Or.inl ⟨text, b, left, ha, hw, hw'⟩)
    · exact Or.inr (Or.inr ⟨hout, hnote, hw⟩)
  | @call op hown _ =>
    have hold : (M.ctl M.sys.curr) = .own := hown
    rw [hold]
    refine Or.inr (Or.inr ⟨fun b hb => ?_, fun c text ht => ?_, Or.inl ?_⟩)
    · cases op <;> cases hb
    · cases op <;> cases ht
    · cases op <;> rfl

/-- Before a line begins nobody is writing, so every line is complete. -/
lemma sent_atBegin (h : M.Logs) (hM : M.Sound) {text : List (BitVec 8)}
    (hpc : (M.ctl M.sys.curr).pc = .logBegin text) :
    sentBytes M.sys.trace = logLines (begunCalls M.sys.trace) := by
  apply h.idle
  intro c
  by_cases hc : c = M.sys.curr
  · rw [hc, hpc]
    rfl
  · exact h.alone hM (by rw [hpc]; rfl) hc

lemma writer_after (h : M.Logs) (hM : M.Sound) (hd : M.Does l a rest pc new)
    {text left : List (BitVec 8)}
    (hw : ((M.after a rest pc new).ctl c).pc.unwritten = some (text, left)) :
    ∃ earlier part, begunCalls (M.sys.exec a).trace = earlier ++ [(c, text)] ∧
      part ++ left = logLine text ∧ sentBytes (M.sys.exec a).trace = logLines earlier ++ part := by
  have he := hM.enabled hd
  obtain ⟨hrun, hothers⟩ := hM.place_after hd
  rcases does_log hd with ⟨t, rfl, hpc, hnew⟩ | ⟨t, b, rest', rfl, hold, hnew⟩ |
    ⟨hout, hnote, hsame⟩
  · -- a line begins; nobody has been writing
    by_cases hc : c = M.sys.curr
    · subst hc
      rw [hrun, hnew] at hw
      obtain ⟨rfl, rfl⟩ : t = text ∧ logLine t = left := by simpa using hw
      refine ⟨begunCalls M.sys.trace, [], begunCalls_append .., rfl, ?_⟩
      rw [Core.exec_sent he (by simp), h.sent_atBegin hM hpc, List.append_nil]
    · rw [hothers c hc, h.alone hM (by rw [hpc]; rfl) hc] at hw
      cases hw
  · -- a byte is sent
    by_cases hc : c = M.sys.curr
    · subst hc
      rw [hrun, hnew] at hw
      obtain ⟨rfl, rfl⟩ : t = text ∧ rest' = left := by simpa using hw
      obtain ⟨earlier, part, hbegun, hpart, hsent⟩ := h.writer _ t _ hold
      refine ⟨earlier, part ++ [b], ?_, by simp [← hpart], ?_⟩
      · rw [Core.exec_begun (by simp), hbegun]
      · have hadd : sentBytes (M.sys.exec (.outb b)).trace = sentBytes M.sys.trace ++ [b] :=
          sentBytes_append ..
        rw [hadd, hsent, List.append_assoc]
    · have hin := (Pc.logging_of_unwritten hold).1
      rw [hothers c hc, h.alone hM hin hc] at hw
      cases hw
  · have hold : (M.ctl c).pc.unwritten = some (text, left) := by
      by_cases hc : c = M.sys.curr
      · subst hc
        rw [hrun] at hw
        rcases hsame with hsame | ⟨t, -, hgone⟩
        · exact hsame ▸ hw
        · rw [hgone] at hw
          cases hw
      · exact hothers c hc ▸ hw
    rw [Core.exec_sent he hout, Core.exec_begun hnote]
    exact h.writer c text left hold

lemma idle_after (h : M.Logs) (hM : M.Sound) (hd : M.Does l a rest pc new)
    (hnone : ∀ c, ((M.after a rest pc new).ctl c).pc.unwritten = none) :
    sentBytes (M.sys.exec a).trace = logLines (begunCalls (M.sys.exec a).trace) := by
  obtain ⟨hrun, hothers⟩ := hM.place_after hd
  have hgone : pc.unwritten = none := hrun ▸ hnone M.sys.curr
  rcases does_log hd with ⟨t, -, -, hnew⟩ | ⟨t, b, left, -, -, hnew⟩ | ⟨hout, hnote, hsame⟩
  · rw [hnew] at hgone
    cases hgone
  · rw [hnew] at hgone
    cases hgone
  · rw [Core.exec_sent (hM.enabled hd) hout, Core.exec_begun hnote]
    rcases hsame with hsame | ⟨text, hlast, -⟩
    · apply h.idle
      intro c
      by_cases hc : c = M.sys.curr
      · rw [hc, ← hsame, hgone]
      · rw [← hothers c hc, hnone c]
    · obtain ⟨earlier, part, hbegun, hpart, hsent⟩ := h.writer _ text [] hlast
      rw [hsent, hbegun, logLines_append, ← List.append_nil part, hpart]
      simp [logLines]

theorem after (h : M.Logs) (hM : M.Sound) (hd : M.Does l a rest pc new) :
    (M.after a rest pc new).Logs where
  enclosed := h.enclosed.after Pc.guards_log hM hd
  writer _ _ _ hw := h.writer_after hM hd hw
  idle hnone := h.idle_after hM hd hnone

lemma boot (b : BootMem) : b.abstract.Logs := by
  have hpc : ∀ c, (b.abstract.ctl c).pc.logging = false ∧
      (b.abstract.ctl c).pc.unwritten = none := by
    intro c
    by_cases hc : c = none
    · simp [BootMem.abstract, BootMem.machine, hc, Pc.logging, Pc.unwritten]
    · simp [BootMem.abstract, BootMem.machine, hc, Ctl.own, Pc.logging, Pc.unwritten]
  refine ⟨Enclosed.boot b fun c => (hpc c).1, fun c text rest hw => ?_, fun _ => rfl⟩
  rw [(hpc c).2] at hw
  cases hw

end Machine.Logs

end OsToyI386
