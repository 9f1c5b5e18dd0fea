import OsToyI386.Scheduler.Printing
import OsToyI386.Scheduler.Reports

/-!
# Log lines are whole

Whatever the tasks log and whenever they are preempted, the serial port shows whole lines,
those of each task in the order of its calls.
-/

namespace OsToyI386

open Lib

/-- The text of the call of `log_println` that a context is in, until the mutex is given back. -/
def Pc.inProgress : Pc → List (List (BitVec 8))
  | logLock text | logBegin text | logPoll text _ | logOut text _ _ | logLf text
  | logUnlock text => [text]
  | _ => []

lemma Pc.inProgress_eq (pc : Pc) :
    pc.inProgress = (pc.unwritten.map Prod.fst).toList ++ pc.unbegun := by
  cases pc <;> rfl

/-- The call of `log_println` that a step of the context `c` makes. -/
def Label.logged (c : Ctx) : Label → List LogCall
  | call (.log text) => [(c, text)]
  | _ => []

/-- The calls of `log_println` that are made in a run from `m`, in order. -/
def Machine.logCalls : Machine Sys → List Label → List LogCall :=
  Run.collect Machine.step fun m l => l.logged m.running

namespace Machine

variable {m m' : Machine Sys} {ls : List Label}

lemma logCalls_snoc (h : Run Step m ls m') (l : Label) :
    m.logCalls (ls ++ [l]) = m.logCalls ls ++ l.logged m'.running :=
  h.collect_snoc (fun _ _ _ hs => hs) l

lemma does_unbegun {M : Machine Core} {l : Label} {a : Act} {rest : List Epilogue} {pc : Pc}
    {new : List TaskPtr} (hd : M.Does l a rest pc new) :
    (∃ text, a = .note (.logBegin M.sys.curr text) ∧ l.logged M.sys.curr = [] ∧
      (M.ctl M.sys.curr).pc.unbegun = [text] ∧ pc.unbegun = []) ∨
    ((∀ c text, a ≠ .note (.logBegin c text)) ∧
      textsOf M.sys.curr (l.logged M.sys.curr) = pc.unbegun ∧
      (M.ctl M.sys.curr).pc.unbegun = []) ∨
    ((∀ c text, a ≠ .note (.logBegin c text)) ∧ l.logged M.sys.curr = [] ∧
      pc.unbegun = (M.ctl M.sys.curr).pc.unbegun) := by
  cases hd with
  | tick => exact Or.inr (Or.inr ⟨by simp, rfl, rfl⟩)
  | ret => exact Or.inr (Or.inr ⟨by simp, rfl, rfl⟩)
  | code _ hnext =>
    rcases Pc.next_log hnext with ⟨text, ha, hpc, -, hnone⟩ | ⟨text, b, left, ha, -, -, h1, h2⟩ |
      ⟨-, hnote, -, hsame⟩
    · refine Or.inl ⟨text, ha, rfl, ?_, hnone⟩
      have hpc' : (M.ctl M.sys.curr).pc = .logBegin text := hpc
      rw [hpc']
      rfl
    · exact Or.inr (Or.inr ⟨by simp [ha], rfl, h2.trans h1.symm⟩)
    · exact Or.inr (Or.inr ⟨hnote, rfl, hsame⟩)
  | @call op hown _ =>
    have hold : (M.ctl M.sys.curr) = .own := hown
    refine Or.inr (Or.inl ⟨fun c text ha => ?_, ?_, by rw [hold]; rfl⟩)
    · cases op <;> cases ha
    · cases op <;> simp [Label.logged, textsOf, Op.first, Pc.unbegun]

end Machine

namespace BootMem

variable {b : BootMem} {ls : List Label} {m m' : Machine Sys} {l : Label}

/-- Each task's calls begin in the order in which it makes them. -/
lemma Reaches.calls (h : b.Reaches ls m) (c : Ctx) :
    textsOf c (b.machine.logCalls ls) =
      textsOf c (begunCalls m.sys.trace) ++ (m.ctl c).pc.unbegun := by
  refine Run.history (P := fun ls m => textsOf c (b.machine.logCalls ls) =
    textsOf c (begunCalls m.sys.trace) ++ (m.ctl c).pc.unbegun) ?_ ?_ h
  · have hpc : (b.machine.ctl c).pc.unbegun = [] := by
      by_cases hc : c = none
      · simp [machine, hc, Pc.unbegun]
      · simp [machine, hc, Ctl.own, Pc.unbegun]
    rw [hpc]
    rfl
  · intro ls m l m' hr ih hs
    obtain ⟨M, hsim, hM, -⟩ := Reaches.logs hr
    obtain ⟨-, a, rest, pc, new, hd, rfl⟩ := Machine.step_iff.mp hs
    have hd' := hsim.does_iff.mp hd
    have hsim' : (m.after a rest pc new).Sim (M.after a rest pc new) :=
      hsim.after hM (hM.enabled hd')
    have htr : (m.after a rest pc new).sys.trace = (M.sys.exec a).trace := hsim'.sys.trace
    obtain ⟨hrun, hothers⟩ := hM.place_after hd'
    have hcurr : m.running = M.sys.curr := hsim.running
    rw [Machine.logCalls_snoc hr, textsOf_append, ih, hsim'.ctl, htr, hcurr, hsim.sys.trace,
      hsim.ctl]
    by_cases hc : c = M.sys.curr
    · subst hc
      rw [hrun]
      rcases Machine.does_unbegun hd' with ⟨text, rfl, hl, hold, hnew⟩ | ⟨ha, hl, hold⟩ |
        ⟨ha, hl, hsame⟩
      · have hbegun : begunCalls (M.sys.exec (.note (.logBegin M.sys.curr text))).trace =
            begunCalls M.sys.trace ++ [(M.sys.curr, text)] := begunCalls_append ..
        rw [hbegun, hl, hold, hnew, textsOf_append]
        simp [textsOf]
      · rw [Core.exec_begun ha, hl, hold, List.append_nil]
      · rw [Core.exec_begun ha, hl, hsame]
        exact List.append_nil _
    · rw [hothers c hc]
      have hlogged : textsOf c (l.logged M.sys.curr) = [] := by
        cases l with
        | call op => cases op <;> simp [Label.logged, textsOf, Ne.symm hc]
        | _ => rfl
      rw [hlogged, List.append_nil]
      by_cases ha : ∃ d text, a = .note (.logBegin d text)
      · obtain ⟨d, text, rfl⟩ := ha
        have hd'' : d = M.sys.curr := by
          rcases Machine.does_unbegun hd' with ⟨text', ha, -⟩ | ⟨ha, -⟩ | ⟨ha, -⟩
          · cases ha
            rfl
          · exact absurd rfl (ha d text)
          · exact absurd rfl (ha d text)
        have hbegun : begunCalls (M.sys.exec (.note (.logBegin d text))).trace =
            begunCalls M.sys.trace ++ [(d, text)] := begunCalls_append ..
        rw [hbegun, textsOf_append]
        simp [textsOf, hd'', Ne.symm hc]
      · rw [Core.exec_begun fun d text he => ha ⟨d, text, he⟩]

end BootMem

variable {b : BootMem} {ls : List Label} {m : Machine Sys}

/-- What the serial port has got is the lines of the completed calls, one after the other, and
the beginning of the line of at most one call in progress. The completed calls of a task are
all that it has made but the one it is in, in its order. -/
theorem log_lines_whole (h : b.Reaches ls m) :
    ∃ completed part, sentBytes m.sys.trace = logLines completed ++ part ∧
      (part = [] ∨ ∃ c text, (m.ctl c).pc.inProgress = [text] ∧ part <+: logLine text) ∧
      ∀ c, textsOf c (b.machine.logCalls ls) = textsOf c completed ++ (m.ctl c).pc.inProgress := by
  obtain ⟨M, hsim, hM, hL⟩ := h.logs
  have hcalls := h.calls
  rw [hsim.sys.trace, hsim.ctl] at *
  by_cases hw : ∃ c w, (M.ctl c).pc.unwritten = some w
  · -- a line is being written
    obtain ⟨c, ⟨text, rest⟩, hc⟩ := hw
    obtain ⟨earlier, part, hbegun, hpart, hsent⟩ := hL.writer c text rest hc
    have hin : (M.ctl c).pc.inProgress = [text] ++ (M.ctl c).pc.unbegun := by
      rw [Pc.inProgress_eq, hc]
      rfl
    have hnone : (M.ctl c).pc.unbegun = [] := by
      cases hpc : (M.ctl c).pc <;> first | rfl | (rw [hpc] at hc; cases hc)
    refine ⟨earlier, part, hsent, Or.inr ⟨c, text, by rw [hin, hnone]; rfl, ?_⟩, fun d => ?_⟩
    · exact ⟨rest, hpart⟩
    · rw [hcalls d, hbegun, textsOf_append]
      by_cases hd : d = c
      · subst hd
        rw [hin, List.append_assoc]
        simp [textsOf]
      · have hother : (M.ctl d).pc.unwritten = none := by
          cases hwd : (M.ctl d).pc.unwritten with
          | none => rfl
          | some w =>
            have hheld := ReinMutex.heldBy_pos_iff.mp (hL.holds hwd)
            exact absurd (hheld.2.symm.trans (ReinMutex.heldBy_pos_iff.mp (hL.holds hc)).2) hd
        rw [Pc.inProgress_eq, hother]
        simp [textsOf, Ne.symm hd]
  · -- no line is being written
    have hnone : ∀ c, (M.ctl c).pc.unwritten = none := by
      intro c
      cases hc : (M.ctl c).pc.unwritten with
      | none => rfl
      | some w => exact absurd ⟨c, w, hc⟩ hw
    refine ⟨begunCalls M.sys.trace, [], ?_, Or.inl rfl, fun c => ?_⟩
    · rw [hL.idle hnone, List.append_nil]
    · rw [hcalls c, Pc.inProgress_eq, hnone c]
      rfl

section Printed

open Machine

lemma Machine.logCalls_nil {ls : List Label} (hno : ∀ text, .call (.log text) ∉ ls)
    (m : Machine Sys) : m.logCalls ls = [] := by
  induction ls generalizing m with
  | nil => rfl
  | cons l ls ih =>
    have hl : l.logged m.running = [] := by
      cases l with
      | call op => cases op <;> first | rfl | exact absurd (List.mem_cons_self ..) (hno _)
      | run => rfl
      | tick => rfl
    have hls : ∀ text, .call (.log text) ∉ ls := fun text hmem =>
      hno text (List.mem_cons_of_mem _ hmem)
    rw [logCalls, Run.collect, hl, List.nil_append]
    cases m.step l with
    | none => rfl
    | some m' => exact ih hls m'

lemma BootMem.Plays.silent {ops : List (Ctx × Op)} {M : Machine Core} (h : b.Plays ops M)
    (hno : ∀ text, .log text ∉ ops.map Prod.snd) :
    begunCalls M.sys.trace = [] ∧ sentBytes M.sys.trace = [] := by
  obtain ⟨ls, m, hm, hsim, hmade, -⟩ := h.real
  obtain ⟨M', hsim', -, hL⟩ := hm.reaches.logs
  have htr : M'.sys.trace = M.sys.trace := hsim'.sys.trace.symm.trans hsim.sys.trace
  have hcalls : b.machine.logCalls ls = [] := by
    refine Machine.logCalls_nil (fun text hmem => hno text ?_) _
    rw [← hmade]
    exact List.mem_filterMap.mpr ⟨_, hmem, rfl⟩
  have hbegun : begunCalls M.sys.trace = [] := by
    refine List.eq_nil_iff_forall_not_mem.mpr fun y hy => ?_
    have htexts := hm.reaches.calls y.1
    rw [hcalls, hsim.sys.trace] at htexts
    have hnil := (List.append_eq_nil_iff.mp htexts.symm).1
    have hmem : y.2 ∈ textsOf y.1 (begunCalls M.sys.trace) :=
      List.mem_filterMap.mpr ⟨y, hy, if_pos rfl⟩
    rw [hnil] at hmem
    cases hmem
  refine ⟨hbegun, ?_⟩
  rw [← htr] at hbegun ⊢
  rw [hL.idle fun c => ?_, hbegun]
  · rfl
  · cases hc : (M'.ctl c).pc.unwritten with
    | none => rfl
    | some w =>
      obtain ⟨earlier, -, hlast, -⟩ := hL.writer c w.1 w.2 hc
      rw [hbegun] at hlast
      simp at hlast

/-- The main task has logged `a` and has sent the first byte of `bc`. -/
theorem log_lines_whole_main : ∃ ls m completed part, BootMem.zeroed.Reaches ls m ∧
    sentBytes m.sys.trace = [0x61#8, 0x0D#8, 0x0A#8, 0x62#8] ∧
    sentBytes m.sys.trace = logLines completed ++ part ∧
    textsOf (some .mainTask) completed = [[0x61#8]] ∧ part <+: logLine [0x62#8, 0x63#8] := by
  obtain ⟨K, st, hplays, hfilled, -⟩ := BootMem.zeroed.fills 0 (by decide)
  have hrunsOf : ∀ tr, Core.Runs { K with trace := tr } (some .mainTask) := fun _ =>
    ⟨hfilled.runs.halt, hfilled.runs.curr, hfilled.runs.runs⟩
  obtain ⟨hbegun₀, hsent₀⟩ := hplays.silent (by simp)
  obtain ⟨es₁, hbegun₁, hsent₁, h₁⟩ := hplays.log [0x61#8] hfilled.runs (hfilled.opened _) (by simp)
  obtain ⟨es₂, hbegun₂, hsent₂, h₂⟩ := h₁.logPart [0x62#8] [0x63#8] (hrunsOf _)
    (hfilled.opened _) (by simp)
  obtain ⟨ls, m, hm, hsim, -⟩ := h₂.real
  obtain ⟨completed, part, hsent, hpart, hcompleted⟩ := log_lines_whole hm.reaches
  have hmain : (m.ctl (some .mainTask)).pc = .logPoll [0x62#8, 0x63#8] [0x63#8] := by
    rw [hsim.ctl, place_self]
    rfl
  have hothers : ∀ c, c ≠ some .mainTask → (m.ctl c).pc = .user := by
    intro c hc
    rw [hsim.ctl]
    simp [place, Ctl.own, hc]
  have htr : m.sys.trace = K.trace ++ es₁ ++ es₂ := hsim.sys.trace
  refine ⟨ls, m, completed, part, hm.reaches, ?_, hsent, ?_, ?_⟩
  · rw [htr, sentBytes_append, sentBytes_append, hsent₁, hsent₂]
    exact congrArg (· ++ _ ++ _) hsent₀
  · have hcalls := hm.reaches.calls (some .mainTask)
    have hbegun : begunCalls K.trace = [] := hbegun₀
    rw [hcompleted, hmain, htr, begunCalls_append, begunCalls_append, hbegun, hbegun₁,
      hbegun₂] at hcalls
    exact (List.append_left_inj _).mp hcalls
  · rcases hpart with rfl | ⟨c, text, hin, hpart⟩
    · exact List.nil_prefix
    · by_cases hc : c = some .mainTask
      · rw [hc, hmain] at hin
        rwa [← List.singleton_inj.mp hin] at hpart
      · rw [hothers c hc] at hin
        cases hin

end Printed

end OsToyI386
