import OsToyI386.Scheduler.Boot
import OsToyI386.Scheduler.Protection

/-!
# Interrupt protection

A context finds its interrupt flag again after each call, however many calls are nested and
whatever runs in between, and everything that the tasks share is touched with interrupts
off.
-/

namespace OsToyI386

open Lib

/-- The context's own code sets the flag. -/
def Op.setsFlag : Op → Bool
  | irqEnableGlobal | irqDisableGlobal => true
  | _ => false

/-- A step in which context `c` does not set its flag by itself. -/
def Machine.StepKeeping {σ : Type} [Kernel σ] (c : Ctx) (m : Machine σ) (l : Label)
    (m' : Machine σ) : Prop :=
  m.Step l m' ∧ (m.running = c → ∀ op, l = .call op → op.setsFlag = false)

/-- The context runs and has no flags word left to restore: in its own code before a call
and after its return, and in between the protected parts of `task_init`. -/
def Machine.AtRest {σ : Type} [Kernel σ] (m : Machine σ) (c : Ctx) : Prop :=
  m.running = c ∧ (m.ctl c).pending = []

namespace Core

variable {K : Core} {a : Act} {e : Epilogue}

/-- The last epilogue that an action leaves restores the flags that the action found. -/
lemma leaves_last (h : (K.leaves a).getLast? = some e) : e.state = K.eflags := by
  have hd : ∀ f, (K.dispatched f).getLast? = some e → e.state = K.eflags := by
    intro f hf
    cases hf
    rfl
  have hs : ∀ f, [(⟨f, K.eflags⟩ : Epilogue)].getLast? = some e → e.state = K.eflags := by
    intro f hf
    cases hf
    rfl
  cases a <;> simp only [leaves] at h <;>
    first
    | exact hd _ h
    | exact hs _ h
    | cases h
    | (split at h <;> first | exact hd _ h | exact hs _ h | cases h)

lemma exec_flag (h : K.leaves a = []) (hhalt : (K.exec a).halt = none)
    (hret : ∀ e, a ≠ .ret e) (hen : a ≠ .enable) (hdis : a ≠ .disable) :
    (K.exec a).interruptible = K.interruptible ∧ (a ≠ .becomeMain → (K.exec a).curr = K.curr) := by
  cases a with
  | nop | note | claim | segSet | fill | fields | outb => exact ⟨rfl, fun _ => rfl⟩
  | becomeMain => exact ⟨rfl, fun hn => absurd rfl hn⟩
  | writeTr =>
    refine ⟨?_, fun _ => rfl⟩
    simp only [exec, cpu, Cpu.interruptible, OsToyI386.writeTr]
    split <;> rfl
  | unlock m =>
    -- nothing is left only where the assertion fails
    simp only [leaves] at h
    split at h
    · rename_i hbad
      have hbad' : (K.off.mutex m).locker = 0#32 ∨ (K.off.mutex m).owner ≠ K.off.curr := hbad
      rw [exec, unlock, if_pos hbad'] at hhalt
      cases hhalt
    · cases h
  | ret e => exact absurd rfl (hret e)
  | enable => exact absurd rfl hen
  | disable => exact absurd rfl hdis
  | lock | wait | notify | yield =>
    simp only [leaves, dispatched] at h
    split at h <;> cases h
  | timer | count | sleep | dispatch | ready => cases h

end Core

/-- The flag that context `c` has whenever it runs and has nothing to restore. -/
structure Machine.Restores (M : Machine Core) (c : Ctx) (flag : Bool) : Prop where
  saved : ∀ e, (M.ctl c).pending.getLast? = some e → e.state.getLsbD 9 = flag
  own : (M.ctl c).pending = [] →
    (M.sys.curr = c ∧ M.sys.interruptible = flag) ∨ (c = none ∧ M.sys.curr ≠ none)

namespace Machine.Restores

variable {M : Machine Core} {c : Ctx} {flag : Bool} {l : Label} {a : Act} {rest : List Epilogue}
  {pc : Pc} {new : List TaskPtr}

lemma not_flag_action (hd : M.Does l a rest pc new)
    (hl : ∀ op, l = .call op → op.setsFlag = false) : a ≠ .enable ∧ a ≠ .disable := by
  cases hd with
  | tick => exact ⟨by simp, by simp⟩
  | ret => exact ⟨by simp, by simp⟩
  | code hp hnext =>
    revert hnext
    fun_cases Pc.next M.running (Kernel.cpu M.sys) (M.ctl M.running).pc <;>
      intro hnext <;> cases hnext <;> exact ⟨by simp, by simp⟩
  | @call op hown hop =>
    have hop' := hl op rfl
    cases op with
    | irqEnableGlobal | irqDisableGlobal => cases hop'
    | _ => exact ⟨by simp [Op.first], by simp [Op.first]⟩

lemma after_other (h : M.Restores c flag) (hM : M.Sound) (hd : M.Does l a rest pc new)
    (hc : c ≠ M.sys.curr) : (M.after a rest pc new).Restores c flag := by
  have hpend := hM.after_pending hd c
  rw [if_neg hc] at hpend
  refine ⟨fun e he => h.saved e (hpend ▸ he), fun hnil => Or.inr ?_⟩
  rcases h.own (hpend ▸ hnil) with ⟨hcurr, -⟩ | ⟨hnone, hcurr⟩
  · exact absurd hcurr.symm hc
  · refine ⟨hnone, fun hn => hcurr ?_⟩
    exact ((Core.exec_curr hM.core (hM.enabled hd)).mp hn).1

lemma after_own (h : M.Restores M.sys.curr flag) (hM : M.Sound) (hd : M.Does l a rest pc new)
    (hl : ∀ op, l = .call op → op.setsFlag = false) (hhalt : (M.sys.exec a).halt = none) :
    (M.after a rest pc new).Restores M.sys.curr flag := by
  have hpend := hM.after_pending hd M.sys.curr
  rw [if_pos rfl] at hpend
  have hown : (M.ctl M.sys.curr).pending = [] → M.sys.interruptible = flag := by
    intro hnil
    rcases h.own hnil with ⟨-, hi⟩ | ⟨hnone, hcurr⟩
    · exact hi
    · exact absurd hnone hcurr
  rcases Machine.Sound.pending_cases hd with ⟨e, rfl, hold⟩ | ⟨hret, hold, -⟩
  · -- a return: the last epilogue of all brings the flag back
    have hleaves : M.sys.leaves (.ret e) = [] := rfl
    rw [hleaves, List.nil_append] at hpend
    refine ⟨fun e' he' => h.saved e' ?_, fun hnil => Or.inl ⟨rfl, ?_⟩⟩
    · rw [hpend] at he'
      rw [hold, List.getLast?_cons, he']
      rfl
    · rw [hpend] at hnil
      subst hnil
      have hlast : (M.ctl M.sys.curr).pending.getLast? = some e := by rw [hold]; rfl
      exact h.saved e hlast
  · obtain ⟨hen, hdis⟩ := not_flag_action hd hl
    refine ⟨fun e he => ?_, fun hnil => ?_⟩
    · rw [hpend] at he
      by_cases hrest : rest = []
      · rw [hrest, List.append_nil] at he
        have hflags := Core.leaves_last he
        rw [hflags]
        exact hown (hold.trans hrest)
      · rw [List.getLast?_append_of_ne_nil _ hrest] at he
        exact h.saved e (hold ▸ he)
    · rw [hpend] at hnil
      obtain ⟨hleaves, hrest⟩ := List.append_eq_nil_iff.mp hnil
      obtain ⟨hi, hcurr⟩ := Core.exec_flag hleaves hhalt hret hen hdis
      by_cases ha : a = .becomeMain
      · right
        obtain ⟨-, -, hpc⟩ := Machine.Sound.becomeMain_pc hd ha
        refine ⟨(hM.ctx _).atMain (Or.inr hpc), fun hn => ?_⟩
        exact ((Core.exec_curr hM.core (hM.enabled hd)).mp hn).2 ha
      · exact Or.inl ⟨hcurr ha, hi.trans (hown (hold.trans hrest))⟩

theorem after (h : M.Restores c flag) (hM : M.Sound) (hd : M.Does l a rest pc new)
    (hl : M.sys.curr = c → ∀ op, l = .call op → op.setsFlag = false)
    (hhalt : (M.sys.exec a).halt = none) : (M.after a rest pc new).Restores c flag := by
  by_cases hc : c = M.sys.curr
  · subst hc
    exact h.after_own hM hd (hl rfl) hhalt
  · exact h.after_other hM hd hc

end Machine.Restores

namespace Machine.Sim

variable {m m' : Machine Sys} {M : Machine Core} {c : Ctx} {flag : Bool} {ls : List Label}

/-- The flag is there whenever the context has nothing to restore, all along the run. -/
theorem restores (h : m.Sim M) (hM : M.Sound) (hR : M.sys.halt = none → M.Restores c flag)
    (hr : Run (StepKeeping c) m ls m') :
    ∃ M', m'.Sim M' ∧ M'.Sound ∧ (M'.sys.halt = none → M'.Restores c flag) := by
  apply hr.invariant (I := fun m => ∃ M, m.Sim M ∧ M.Sound ∧
    (M.sys.halt = none → M.Restores c flag)) ?_ ⟨M, h, hM, hR⟩
  rintro m l m' ⟨M, h, hM, hR⟩ ⟨hs, hl⟩
  obtain ⟨hlive, a, rest, pc, new, hd, rfl⟩ := step_iff.mp hs
  have hd' := h.does_iff.mp hd
  refine ⟨_, h.after hM (hM.enabled hd'), hM.after hd', fun hhalt => ?_⟩
  exact (hR (h.live_iff.mp hlive).1).after hM hd' (fun hc => hl (h.running.trans hc)) hhalt

end Machine.Sim

namespace Machine

variable {w w' : Machine Watched} {m' : Machine Sys} {l : Label} {a : Act} {rest : List Epilogue}
  {pc : Pc} {new : List TaskPtr}

lemma erase_after : (w.after a rest pc new).erase = w.erase.after a rest pc new := by
  have hsys := (Watching.erases_exec a w.sys).1
  have hes : (Kernel.exec a w.sys).2 = (Kernel.exec a w.erase.sys).2 :=
    (Watching.erases_exec a w.sys).2
  have hctl : (w.after a rest pc new).ctl = (w.erase.after a rest pc new).ctl := by
    simp only [after, commit, hes]
    rfl
  simp only [erase, hctl]
  exact congrArg (fun s => (⟨s, _, _⟩ : Machine Sys)) hsys

lemma erase_does : w.erase.Does l a rest pc new ↔ w.Does l a rest pc new := by
  constructor
  · intro hd
    cases hd with
    | tick hi => exact .tick hi
    | ret hp => exact .ret hp
    | code hp hnext => exact .code hp hnext
    | call hown hop => exact .call hown hop
  · intro hd
    cases hd with
    | tick hi => exact .tick hi
    | ret hp => exact .ret hp
    | code hp hnext => exact .code hp hnext
    | call hown hop => exact .call hown hop

end Machine

/-- The calls that context `c` is in after one more mark, newest first; `none` once a return
does not match the newest call or finds another flag than it. -/
def Mark.follow (c : Ctx) (x : Mark) : Option (List (Fn × Bool)) → Option (List (Fn × Bool))
  | none => none
  | some calls =>
    match x with
    | .enter d fn i => if d = c then some ((fn, i) :: calls) else some calls
    | .leave d fn i =>
      if d = c then
        match calls with
        | [] => none
        | (fn', i') :: calls => if fn = fn' ∧ i = i' then some calls else none
      else some calls

/-- The calls that context `c` is in, each with the flag that it found, or `none` when some
call did not return in order with the flag that it had found. -/
def openCalls (c : Ctx) (marks : List Mark) : Option (List (Fn × Bool)) :=
  marks.foldl (fun calls x => x.follow c calls) (some [])

/-- A call as the record shows it: the function and the flag that it found. -/
def Epilogue.found (e : Epilogue) : Fn × Bool := (e.fn, e.state.getLsbD 9)

section Calls

variable {c d : Ctx} {marks : List Mark} {calls : List (Fn × Bool)}

lemma openCalls_append (xs ys : List Mark) :
    openCalls c (xs ++ ys) = ys.foldl (fun calls x => x.follow c calls) (openCalls c xs) :=
  List.foldl_append

lemma openCalls_entered (h : openCalls c marks = some calls) (es : List Epilogue) :
    openCalls c (marks ++ es.reverse.map (Epilogue.entered d)) =
      some (if d = c then es.map Epilogue.found ++ calls else calls) := by
  induction es with
  | nil => simp [h]
  | cons e es ih =>
    rw [List.reverse_cons, List.map_append, ← List.append_assoc, openCalls_append, ih]
    by_cases hd : d = c <;> simp [Mark.follow, Epilogue.entered, Epilogue.found, hd]

end Calls

/-- Interrupts were off at each access, and the calls that a context is in, as the record
has them, are its epilogues. -/
structure Machine.Watches (w : Machine Watched) : Prop where
  allOff : w.sys.AllOff
  calls : ∀ c, ∃ calls, openCalls c w.sys.marks = some calls ∧
    (w.sys.sys.halt = none → calls = (w.ctl c).pending.map Epilogue.found)

namespace Machine.Watches

variable {w : Machine Watched} {M : Machine Core} {l : Label} {a : Act} {rest : List Epilogue}
  {pc : Pc} {new : List TaskPtr}

lemma after_pending (hsim : w.erase.Sim M) (hM : M.Sound) (hd : M.Does l a rest pc new) (c : Ctx) :
    ((w.after a rest pc new).ctl c).pending =
      if c = M.sys.curr then M.sys.leaves a ++ rest else (w.ctl c).pending := by
  have hsim' : (w.erase.after a rest pc new).Sim (M.after a rest pc new) :=
    hsim.after hM (hM.enabled hd)
  rw [← erase_after] at hsim'
  have hctl : (w.after a rest pc new).ctl = (M.after a rest pc new).ctl := hsim'.ctl
  have hold : w.ctl = M.ctl := hsim.ctl
  rw [hctl, hold, hM.after_pending hd c]

lemma after_ret {e : Epilogue} (h : w.Watches) (hsim : w.erase.Sim M) (hM : M.Sound)
    (hlive : M.Live) (hd : M.Does l (.ret e) rest pc new)
    (hold : (M.ctl M.sys.curr).pending = e :: rest) : (w.after (.ret e) rest pc new).Watches := by
  have hhalt : w.sys.sys.halt = none := (hsim.live_iff.mpr hlive).1
  have hrun : w.sys.sys.currTask = M.sys.curr := hsim.running
  have hmarks : (w.after (.ret e) rest pc new).sys.marks =
      w.sys.marks ++ [.leave M.sys.curr e.fn (e.state.getLsbD 9)] := by
    rw [← hrun]
    rfl
  refine ⟨h.allOff, fun c => ?_⟩
  obtain ⟨calls, hcalls, hpend⟩ := h.calls c
  have hpend' := hpend hhalt
  rw [hmarks, openCalls_append, hcalls, after_pending hsim hM hd c]
  by_cases hc : c = M.sys.curr
  · subst hc
    have hold' : (w.ctl M.sys.curr).pending = e :: rest := by
      rw [← hold, ← hsim.ctl]
      rfl
    refine ⟨rest.map Epilogue.found, ?_, fun _ => ?_⟩
    · rw [hpend', hold']
      simp [Mark.follow, Epilogue.found]
    · rw [if_pos rfl]
      rfl
  · refine ⟨calls, ?_, fun _ => ?_⟩
    · simp [Mark.follow, Ne.symm hc]
    · rw [if_neg hc, hpend']

theorem after (h : w.Watches) (hsim : w.erase.Sim M) (hM : M.Sound) (hlive : M.Live)
    (hd : M.Does l a rest pc new) : (w.after a rest pc new).Watches := by
  have hhalt : w.sys.sys.halt = none := (hsim.live_iff.mpr hlive).1
  have hrun : w.sys.sys.currTask = M.sys.curr := hsim.running
  rcases Machine.Sound.pending_cases hd with ⟨e, rfl, hold⟩ | ⟨hret, hold, -⟩
  · exact h.after_ret hsim hM hlive hd hold
  · obtain ⟨hoff, es, hmarks, hes⟩ := Watching.Protects.exec hret w.sys h.allOff
    have hmarks' : (w.after a rest pc new).sys.marks =
        w.sys.marks ++ es.reverse.map (Epilogue.entered M.sys.curr) := by
      rw [← hrun]
      exact hmarks
    have hleaves : (w.after a rest pc new).sys.sys.halt = none → es = M.sys.leaves a := by
      intro hn
      rw [← hes hn, (Watching.erases_exec a w.sys).2]
      exact (exec_refines hsim.sys hM.core (hM.enabled hd)).2
    refine ⟨hoff, fun c => ?_⟩
    obtain ⟨calls, hcalls, hpend⟩ := h.calls c
    rw [hmarks', openCalls_entered hcalls, after_pending hsim hM hd c]
    refine ⟨_, rfl, fun hn => ?_⟩
    rw [hpend hhalt]
    by_cases hc : c = M.sys.curr
    · have hold' : (w.ctl c).pending = rest := by
        rw [← hold, ← hsim.ctl, hc]
        rfl
      rw [if_pos hc.symm, if_pos hc, hold', hleaves hn, List.map_append]
    · rw [if_neg (Ne.symm hc), if_neg hc]

end Machine.Watches

variable {b : BootMem} {ls : List Label} {m : Machine Sys}

lemma BootMem.watched_watches (b : BootMem) : b.watched.Watches := by
  refine ⟨fun x hx => (by cases hx), fun c => ⟨[], rfl, fun _ => ?_⟩⟩
  by_cases hc : c = none
  · subst hc
    simp [watched, machine]
  · simp [watched, machine, hc, Ctl.own]

/-- Every run of the machine can be watched. -/
theorem BootMem.Reaches.watched (h : b.Reaches ls m) :
    ∃ w, Run Machine.Step b.watched ls w ∧ w.erase = m ∧ w.Watches := by
  apply Run.history (P := fun ls m => ∃ w, Run Machine.Step b.watched ls w ∧ w.erase = m ∧
    w.Watches) ⟨b.watched, .nil _, rfl, b.watched_watches⟩ ?_ h
  rintro ls _ l u hr ⟨w, hw, rfl, hwatch⟩ hs
  obtain ⟨M, -, hsim, hM⟩ := Reaches.sim hr
  obtain ⟨hlive, a, rest, pc, new, hd, rfl⟩ := Machine.step_iff.mp hs
  refine ⟨w.after a rest pc new, hw.snoc ?_, Machine.erase_after, ?_⟩
  · exact Machine.step_iff.mpr ⟨hlive, a, rest, pc, new, Machine.erase_does.mp hd, rfl⟩
  · exact hwatch.after hsim hM (hsim.live_iff.mp hlive) (hsim.does_iff.mp hd)

/-- Between two moments at which a context has nothing to restore, such as a call and its
return, its flag has not changed unless its own code has set it. At every depth, each call
has returned in order with the flag that it found or has its epilogue still to run. And
everything shared is touched with interrupts off. -/
theorem protection_never_leaks (h : b.Reaches ls m) :
    (∀ ls' m', m.AtRest m.running → Run (Machine.StepKeeping m.running) m ls' m' →
      m'.AtRest m.running → m'.sys.halt = none →
        m'.sys.interruptible = m.sys.interruptible) ∧
    ∃ w, Run Machine.Step b.watched ls w ∧ w.erase = m ∧
      (∀ c, ∃ calls, openCalls c w.sys.marks = some calls ∧
        (m.sys.halt = none → calls = (m.ctl c).pending.map Epilogue.found)) ∧
      ∀ x ∈ w.sys.accesses, x.interruptible = false := by
  refine ⟨fun ls' m' hrest hr hrest' hhalt => ?_, ?_⟩
  · obtain ⟨M, -, hsim, hM⟩ := h.sim
    have hR : M.Restores m.running m.sys.interruptible := by
      refine ⟨fun e he => ?_, fun _ => Or.inl ⟨hsim.running.symm, ?_⟩⟩
      · rw [← hsim.ctl, hrest.2] at he
        cases he
      · rw [hsim.sys.cpu]
    obtain ⟨M', hsim', -, hR'⟩ := hsim.restores hM (fun _ => hR) hr
    have hcpu := hsim'.sys.cpu
    have hpend : (M'.ctl m.running).pending = [] := by rw [← hsim'.ctl, hrest'.2]
    rw [hcpu]
    rcases (hR' (hcpu ▸ hhalt)).own hpend with ⟨-, hi⟩ | ⟨hnone, hcurr⟩
    · exact hi
    · exact absurd (hsim'.running.symm.trans (hrest'.1.trans hnone)) hcurr
  · obtain ⟨w, hw, rfl, hwatch⟩ := h.watched
    exact ⟨w, hw, rfl, hwatch.calls, hwatch.allOff⟩

/-- The main task calls `sem_count` and has its flag back. -/
theorem protection_never_leaks_main : ∃ ls m m', BootMem.zeroed.Reaches ls m ∧
    Run Machine.Step m [.call (.semCount ⟨0⟩), .run] m' ∧
    m'.sys.interruptible = m.sys.interruptible := by
  obtain ⟨ls, m, tr, hm, hsim, hM⟩ := BootMem.zeroed.reaches_main
  obtain ⟨hhalt, hcurr, hruns⟩ :=
    (BootMem.zeroed.atMain_booted (tr ++ [.initReturn .mainTask 0])).runs
  set M := BootMem.zeroed.mainMachine (tr ++ [.initReturn .mainTask 0])
  have hown : M.ctl M.running = .own := by simp [M, BootMem.mainMachine, Machine.place]
  have hrun : M.running = some .mainTask := hcurr
  have hop : M.allows (.semCount ⟨0⟩) = true := by
    simp [Machine.allows, hrun, Op.present, Op.nameable, Op.creates]
  have hcall : M.Step (.call (.semCount ⟨0⟩)) (M.after (.count ⟨0⟩) [] .user []) :=
    Machine.step_iff.mpr ⟨⟨hhalt, hrun ▸ hruns⟩, _, _, _, _, .call hown hop, rfl⟩
  set M₁ := M.after (.count ⟨0⟩) [] .user []
  have hctl : M₁.ctl M₁.running = ⟨[⟨.semCount ⟨0⟩, M.sys.eflags⟩], .user⟩ :=
    Machine.Sound.after_ctl_curr (by simp)
  have hret : M₁.Step .run (M₁.after (.ret ⟨.semCount ⟨0⟩, M.sys.eflags⟩) [] .user []) := by
    refine Machine.step_iff.mpr ⟨⟨hhalt, hrun ▸ hruns⟩, _, _, _, _, ?_, rfl⟩
    have hdoes : M₁.Does .run _ _ _ _ := .ret (congrArg Ctl.pending hctl)
    rwa [hctl] at hdoes
  obtain ⟨m', hr, hsim'⟩ := hsim.run_back hM (.cons hcall (.single hret))
  have hkeep : Run (Machine.StepKeeping m.running) m [.call (.semCount ⟨0⟩), .run] m' := by
    cases hr with
    | cons h1 h2 =>
      cases h2 with
      | cons h2 h3 =>
        cases h3
        refine .cons ⟨h1, fun _ op ho => ?_⟩ (.single ⟨h2, fun _ op ho => by cases ho⟩)
        cases ho
        rfl
  have hrest : m.AtRest m.running := ⟨rfl, by rw [hsim.ctl, hsim.running, hown]; rfl⟩
  have hrest' : m'.AtRest m.running := by
    refine ⟨hsim'.running.trans hsim.running.symm, ?_⟩
    rw [hsim'.ctl, hsim.running]
    exact congrArg Ctl.pending (Machine.Sound.after_ctl_curr (M := M₁) (by simp))
  have hhalt' : m'.sys.halt = none := by
    rw [hsim'.sys.cpu]
    exact hhalt
  exact ⟨ls, m, m', hm.reaches, hr,
    (protection_never_leaks hm.reaches).1 _ m' hrest hkeep hrest' hhalt'⟩

end OsToyI386
