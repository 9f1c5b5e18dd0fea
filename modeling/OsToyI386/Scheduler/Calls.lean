import OsToyI386.Scheduler.Waiting

/-!
# The calls of a run

The labels of a run and the places of its contexts say what has been called. The notes in
the trace agree: each call that may wait has been noted once, when it returned, unless it
has not returned yet, and each unlock has been noted.
-/

namespace OsToyI386

open Lib

namespace Machine

variable {σ : Type} [Kernel σ] {m : Machine σ} {l : Label} {a : Act} {rest : List Epilogue}
  {pc : Pc} {new : List TaskPtr}

/-- What a step does: its context and its action. A call by a context's own code is what the
called function does first. -/
def acts (m : Machine σ) : Label → List (Ctx × Act)
  | .tick => [(m.running, .timer)]
  | .call op => [(m.running, op.first.1)]
  | .run =>
    match (m.ctl m.running).pending with
    | e :: _ => [(m.running, .ret e)]
    | [] =>
      (((m.ctl m.running).pc.next m.running (Kernel.cpu m.sys)).map
        fun x => (m.running, x.1)).toList

/-- What the steps of a run do, in order. -/
def acted : Machine Sys → List Label → List (Ctx × Act) := Run.collect Machine.step acts

/-- What the own code of `c` calls in a step. -/
def calls (c : Ctx) (m : Machine σ) : Label → List Op
  | .call op => if m.running = c then [op] else []
  | _ => []

/-- What the own code of `c` calls in a run, in order. -/
def callsBy (c : Ctx) : Machine Sys → List Label → List Op := Run.collect Machine.step (calls c)

lemma Does.acts (hd : m.Does l a rest pc new) : m.acts l = [(m.running, a)] := by
  cases hd with
  | tick => rfl
  | ret hp => simp [Machine.acts, hp]
  | code hp hnext => simp [Machine.acts, hp, hnext]
  | call => rfl

end Machine

namespace Core

variable {K : Core} {a : Act} {x : MutexPtr} {c : Ctx}

lemma count_unlock (h : K.Inv) (he : K.Enabled a) (hlive : (K.exec a).halt = none) :
    (K.exec a).trace.count (.unlock c x) =
      K.trace.count (.unlock c x) + [(K.curr, a)].count (c, .unlock x) := by
  by_cases ha : a.obj = some (.mutex x)
  · cases a with
    | lock m =>
      cases ha
      rcases lock_cases (m := x) h he with ⟨-, hexec, -⟩ | ⟨t, -, -, -, -, hexec, -⟩
      · rw [hexec]
        simp [emit, setMutex, off, cpu]
      · rw [hexec, dispatch_trace]
        simp [emit, block, pop, leave, join, off, cpu]
    | unlock m =>
      cases ha
      have hcount : [(K.curr, Act.unlock x)].count (c, .unlock x) =
          [Event.unlock K.curr x].count (.unlock c x) := by
        simp [List.count_singleton]
      rw [hcount]
      rcases unlock_cases (K := K) (m := x) with ⟨-, hexec, -⟩ |
        ⟨-, -, -, ⟨-, hexec⟩ | ⟨-, -, hexec⟩ | ⟨-, t, ts, -, hexec⟩⟩
      · rw [hexec] at hlive
        cases hlive
      · rw [hexec, ← List.count_append]
        rfl
      · rw [hexec, ← List.count_append]
        rfl
      · have htr : (K.exec (.unlock x)).trace =
            K.trace ++ [.unlock K.curr x] ++ [.lockHand t x] := by
          rw [hexec]
          rfl
        rw [htr, List.count_append, List.count_append]
        simp
    | ret e =>
      have htr : (K.exec (.ret e)).trace = K.trace ++ e.fn.returned K.curr := rfl
      rw [htr, List.count_append]
      cases e.fn <;> simp [Fn.returned]
    | _ => cases ha
  · obtain ⟨es, htr, hes⟩ := (exec_spares he ha).trace
    have hzero : [(K.curr, a)].count (c, .unlock x) = 0 := by
      refine List.count_eq_zero.mpr fun hmem => ha ?_
      cases List.mem_singleton.mp hmem
      rfl
    rw [htr, List.count_append, hzero, List.count_eq_zero.mpr fun hmem => hes _ hmem rfl]

end Core

lemma waitLog_return (tr : List Event) (x : MutexPtr) (c : Ctx) :
    (waitLog (.mutex x) tr).count (c, .finish) = tr.count (.lockReturn c x) := by
  induction tr using List.reverseRecOn with
  | nil => rfl
  | append_singleton tr e ih =>
    have hone : (waitLog (.mutex x) [e]).count (c, .finish) = [e].count (.lockReturn c x) := by
      cases e with
      | lockTake d m => by_cases hm : m = x <;> simp [waitLog, Event.wait, hm]
      | lockBlock t m => by_cases hm : m = x <;> simp [waitLog, Event.wait, hm]
      | lockHand t m => by_cases hm : m = x <;> simp [waitLog, Event.wait, hm]
      | lockReturn d m =>
        by_cases hm : m = x <;> simp [waitLog, Event.wait, hm, List.count_singleton]
      | _ => simp [waitLog, Event.wait]
    rw [waitLog_append, List.count_append, List.count_append, ih, hone]

namespace Machine.WaitInv

variable {M : Machine Core} {o : Obj} {l : Label} {a : Act} {rest : List Epilogue} {pc : Pc}
  {new : List TaskPtr}

/-- A step that begins a call adds one to the calls that have not returned, and a step that
returns from one takes one away. -/
lemma entered_after (hM : M.Sound) (hd : M.Does l a rest pc new) (c : Ctx) :
    (waitLog o (M.sys.exec a).trace).count (c, .finish) +
        ((M.after a rest pc new).ctl c).callsOn o =
      (waitLog o M.sys.trace).count (c, .finish) + (M.ctl c).callsOn o +
        [(M.sys.curr, a)].count (c, o.enter) := by
  obtain ⟨log, htr, hstep⟩ := Core.exec_waitStep hM.core (hM.enabled hd) o
  rw [htr, callsOn_after hM hd, List.count_append]
  generalize (M.sys.leaves a).countP _ = n at hstep ⊢
  generalize (M.sys.exec a).queue o.queue = q at hstep
  have hnot : a ≠ o.enter → [(M.sys.curr, a)].count (c, o.enter) = 0 := by
    intro hne
    refine List.count_eq_zero.mpr fun hmem => hne ?_
    exact (congrArg Prod.snd (List.mem_singleton.mp hmem)).symm
  have hbegin : a = o.enter → rest = [] ∧ (M.ctl M.sys.curr).callsOn o = 0 := by
    rintro rfl
    cases o <;> exact callsOn_of_call hd (by simp [Obj.enter]) (by simp [Obj.enter])
  cases hstep with
  | keep hne hret =>
    rw [hnot hne, countP_rest hd hret]
    split
    · rename_i hc
      simp [hc]
    · simp
  | take henter =>
    obtain ⟨rfl, hzero⟩ := hbegin henter
    by_cases hc : c = M.sys.curr
    · subst hc
      simp [hzero, henter]
    · simp [hc, Ne.symm hc]
  | block henter hcurr ht =>
    obtain ⟨rfl, hzero⟩ := hbegin henter
    rw [← hcurr]
    by_cases hc : c = M.sys.curr
    · subst hc
      simp [hzero, henter]
    · simp [hc, Ne.symm hc]
  | grant hne hret hq =>
    rw [hnot hne, countP_rest hd fun e he => absurd he (hret e)]
    split
    · rename_i hc
      simp [hc]
    · simp
  | @finish e ha he =>
    subst ha
    have hone := callsOn_of_ret hd he
    rw [hnot (by cases o <;> simp [Obj.enter])]
    by_cases hc : c = M.sys.curr
    · subst hc
      simp [hone]
      omega
    · simp [hc, Ne.symm hc]

end Machine.WaitInv

namespace BootMem.Reaches

variable {b : BootMem} {ls : List Label} {m : Machine Sys}

/-- Each call that may wait has returned once, unless the context is still in it. -/
theorem entered (h : b.Reaches ls m) (o : Obj) (c : Ctx) :
    (b.machine.acted ls).count (c, o.enter) =
      (waitLog o m.sys.trace).count (c, .finish) + (m.ctl c).callsOn o := by
  refine Run.history (P := fun ls m => (b.machine.acted ls).count (c, o.enter) =
    (waitLog o m.sys.trace).count (c, .finish) + (m.ctl c).callsOn o) ?_ ?_ h
  · by_cases hc : c = none
    · simp [Machine.acted, Run.collect, machine, sys, waitLog, Ctl.callsOn, hc]
    · simp [Machine.acted, Run.collect, machine, sys, waitLog, Ctl.callsOn, Ctl.own, hc]
  · intro ls m l m' hr ih hs
    obtain ⟨M, -, hsim, hM⟩ := Reaches.sim hr
    obtain ⟨-, a, rest, pc, new, hd, rfl⟩ := Machine.step_iff.mp hs
    have hd' := hsim.does_iff.mp hd
    have hsim' : (m.after a rest pc new).Sim (M.after a rest pc new) :=
      hsim.after hM (hM.enabled hd')
    have hstep := Machine.WaitInv.entered_after (o := o) hM hd' c
    have hcurr : m.running = M.sys.curr := hsim.running
    rw [Machine.acted, hr.collect_snoc (fun _ _ _ hs => hs), ← Machine.acted, hd.acts, hcurr,
      List.count_append, ih, hsim'.sys.trace, hsim'.ctl, hsim.sys.trace, hsim.ctl]
    exact hstep.symm

/-- As long as the kernel has not halted, each unlock has been carried out. -/
theorem unlocked (h : b.Reaches ls m) (hlive : m.sys.halt = none) (x : MutexPtr) (c : Ctx) :
    (b.machine.acted ls).count (c, .unlock x) = m.sys.trace.count (.unlock c x) := by
  refine Run.history (P := fun ls m => m.sys.halt = none →
    (b.machine.acted ls).count (c, .unlock x) = m.sys.trace.count (.unlock c x)) ?_ ?_ h hlive
  · exact fun _ => rfl
  · intro ls m l m' hr ih hs hlive'
    obtain ⟨M, -, hsim, hM⟩ := Reaches.sim hr
    obtain ⟨hbefore, a, rest, pc, new, hd, rfl⟩ := Machine.step_iff.mp hs
    have hd' := hsim.does_iff.mp hd
    have hsim' : (m.after a rest pc new).Sim (M.after a rest pc new) :=
      hsim.after hM (hM.enabled hd')
    have hhalt : (M.sys.exec a).halt = none := by
      rw [hsim'.sys.cpu] at hlive'
      exact hlive'
    have hcount := Core.count_unlock (c := c) (x := x) hM.core (hM.enabled hd') hhalt
    have hcurr : m.running = M.sys.curr := hsim.running
    rw [Machine.acted, hr.collect_snoc (fun _ _ _ hs => hs), ← Machine.acted, hd.acts, hcurr,
      List.count_append, ih hbefore.1, hsim'.sys.trace, hsim.sys.trace]
    exact hcount.symm

end BootMem.Reaches

end OsToyI386
