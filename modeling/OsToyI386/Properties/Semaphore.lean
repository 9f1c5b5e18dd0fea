import OsToyI386.Scheduler.Filling
import OsToyI386.Scheduler.Traces

/-!
# Semaphores conserve notifications

A notification becomes a credit in the count or wakes a waiter, never both. The balance
between what was put in and what was granted holds in every state.
-/

namespace OsToyI386

open Lib Machine

/-- The calls of `sem_wait` granted so far: a credit was taken at once, or the task was
popped by a `sem_notify`. -/
def semGranted (tr : List Event) (p : SemPtr) : Nat :=
  (orderOf .take (waitLog (.sem p) tr)).length + (orderOf .grant (waitLog (.sem p) tr)).length

lemma semGranted_append (tr es : List Event) (p : SemPtr) :
    semGranted (tr ++ es) p = semGranted tr p + semGranted es p := by
  simp only [semGranted, waitLog_append, orderOf_append, List.length_append]
  omega

lemma semGranted_eq_zero {p : SemPtr} {es : List Event} (h : ∀ e ∈ es, e.obj ≠ some (.sem p)) :
    semGranted es p = 0 := by
  rw [semGranted, waitLog_eq_nil h]
  rfl

lemma count_notify_eq_zero {p : SemPtr} {es : List Event}
    (h : ∀ e ∈ es, e.obj ≠ some (.sem p)) : es.count (.semNotify p) = 0 :=
  List.count_eq_zero.mpr fun he => h _ he rfl

/-- The balance of a semaphore that started with `n` credits. -/
structure Core.Balanced (K : Core) (p : SemPtr) (n : Nat) : Prop where
  nonneg : 0 ≤ K.sem p
  credit : 0 < K.sem p → K.queue (.semWait p) = []
  balance : (n + K.trace.count (.semNotify p) : Int) = K.sem p + semGranted K.trace p

namespace Core.Balanced

variable {K K' : Core} {p : SemPtr} {n : Nat} {a : Act}

/-- What an operation adds to the trace accounts for what it does to the count. -/
lemma of_trace (h : K.Balanced p n) {es : List Event} (htr : K'.trace = K.trace ++ es)
    (hsem : K'.sem p + semGranted es p = K.sem p + es.count (.semNotify p))
    (hnonneg : 0 ≤ K'.sem p) (hcredit : 0 < K'.sem p → K'.queue (.semWait p) = []) :
    K'.Balanced p n := by
  refine ⟨hnonneg, hcredit, ?_⟩
  have hbal := h.balance
  rw [htr, List.count_append, semGranted_append]
  push_cast
  omega

lemma spares (h : K.Balanced p n) (hs : Spares (.sem p) K K') : K'.Balanced p n := by
  obtain ⟨es, htr, hes⟩ := hs.trace
  have hsem : K'.sem p = K.sem p := hs.sem p rfl
  have hq : K'.queue (.semWait p) = K.queue (.semWait p) := hs.queue
  refine h.of_trace htr ?_ (hsem ▸ h.nonneg) ?_
  · rw [hsem, semGranted_eq_zero hes, count_notify_eq_zero hes]
  · rw [hsem, hq]
    exact h.credit

lemma wait (h : K.Balanced p n) (hK : K.Inv) (hcurr : K.curr ≠ none)
    (hidle : K.curr ≠ some .idleTask) : (K.exec (.wait p)).Balanced p n := by
  rcases wait_cases (p := p) hK hcurr hidle with ⟨hpos, hexec, -⟩ | ⟨t, -, -, hle, hexec, -⟩
  · have hsem : (K.exec (.wait p)).sem p = K.sem p - 1 := by
      rw [hexec]
      simp [emit, setSem]
    have htr : (K.exec (.wait p)).trace = K.trace ++ [.semTake K.curr p] := by rw [hexec]; rfl
    have hq : (K.exec (.wait p)).queue = K.queue := by rw [hexec]; rfl
    refine h.of_trace htr ?_ (by omega) (fun _ => by rw [hq]; exact h.credit hpos)
    rw [hsem]
    simp [semGranted, waitLog, Event.wait, orderOf]
  · have hsem : (K.exec (.wait p)).sem = K.sem := by rw [hexec, dispatch_sem]; rfl
    have htr : (K.exec (.wait p)).trace = K.trace ++
        [.listPop .readyList ⟨t, .runNode⟩ (decide (t ∈ K.queue .ready)), .semBlock t p] := by
      rw [hexec, dispatch_trace]
      simp [block, emit, join, pop, leave, off, cpu, Queue.list, Queue.node]
      rfl
    refine h.of_trace htr ?_ (hsem ▸ h.nonneg) (fun hpos => ?_)
    · rw [hsem]
      simp [semGranted, waitLog, Event.wait, orderOf]
    · rw [hsem] at hpos
      omega

lemma notify (h : K.Balanced p n) : (K.exec (.notify p)).Balanced p n := by
  have hnonneg := h.nonneg
  rcases notify_cases (K := K) (p := p) with ⟨hq, hexec, -⟩ | ⟨t, ts, hq, hexec, -⟩
  · have hsem : (K.exec (.notify p)).sem p = K.sem p + 1 := by
      rw [hexec]
      simp [setSem]
    have htr : (K.exec (.notify p)).trace = K.trace ++ [.semNotify p] := by rw [hexec]; rfl
    have hq' : (K.exec (.notify p)).queue (.semWait p) = [] := by rw [hexec]; exact hq
    refine h.of_trace htr ?_ (by omega) (fun _ => hq')
    rw [hsem]
    simp [semGranted, waitLog, Event.wait, orderOf]
  · have hsem : (K.exec (.notify p)).sem = K.sem := by rw [hexec, dispatch_sem]; rfl
    have htr : (K.exec (.notify p)).trace = K.trace ++ [.semNotify p, .semPop t p] := by
      rw [hexec, dispatch_trace]
      simp [wake, emit, join, leave, setTask, off, cpu]
    refine h.of_trace htr ?_ (hsem ▸ h.nonneg) (fun hpos => ?_)
    · rw [hsem]
      simp [semGranted, waitLog, Event.wait, orderOf]
    · rw [hsem] at hpos
      simp [h.credit hpos] at hq

lemma exec (h : K.Balanced p n) (hK : K.Inv) (he : K.Enabled a) : (K.exec a).Balanced p n := by
  by_cases ha : a.obj = some (.sem p)
  · cases a with
    | wait p' =>
      cases ha
      exact h.wait hK he.1 he.2
    | notify p' =>
      cases ha
      exact h.notify
    | ret e =>
      have hfn : e.fn = .semWait p := by
        cases hf : e.fn <;> simp [Act.obj, Fn.obj, hf] at ha ⊢
        exact ha
      have htr : (K.exec (.ret e)).trace = K.trace ++ [.semReturn K.curr p] := by
        simp [Core.exec, hfn, Fn.returned]
      refine h.of_trace htr ?_ h.nonneg h.credit
      simp [Core.exec, cpu, semGranted, waitLog, Event.wait, orderOf]
    | _ => cases ha
  · exact h.spares (exec_spares he ha)

lemma boot (b : BootMem) : b.core.Balanced p (b.semCount p) := by
  refine ⟨?_, fun _ => rfl, ?_⟩
  · simp [BootMem.core]
  · simp [BootMem.core, semGranted, waitLog, orderOf]

end Core.Balanced

section Step

variable {M : Machine Core} {l : Label} {a : Act} {rest : List Epilogue} {pc : Pc}
  {new : List TaskPtr} {p : SemPtr}

lemma Machine.does_sem (hd : M.Does l a rest pc new) :
    (a = .notify p ↔ l = .call (.semNotify p)) ∧ (a = .wait p ↔ l = .call (.semWait p)) := by
  cases hd with
  | tick => simp
  | ret => simp
  | code _ hnext =>
    revert hnext
    fun_cases Pc.next M.running (Kernel.cpu M.sys) (M.ctl M.running).pc <;>
      intro hnext <;> cases hnext <;> simp
  | @call op hown hop => cases op <;> simp [Op.first]

lemma Core.count_notify_exec {K : Core} (he : K.Enabled a) (ha : a ≠ .notify p) :
    (K.exec a).trace.count (.semNotify p) = K.trace.count (.semNotify p) := by
  obtain ⟨es, htr, hes⟩ : Notes (fun e => e ≠ .semNotify p) K (K.exec a) := by
    by_cases hobj : a.obj = some (.sem p)
    · cases a with
      | wait p' =>
        have hoff : Notes (fun e => e ≠ .semNotify p) K K.off := .same rfl
        refine hoff.trans (?_ : Notes (fun e => e ≠ .semNotify p) K.off (K.off.wait p'))
        unfold wait
        split
        · have hset : Notes (fun e => e ≠ .semNotify p) K.off
              (K.off.setSem p' (K.off.sem p' - 1)) := .same rfl
          exact hset.trans (.emit (by simp))
        · split
          · exact .same rfl
          · rename_i t _
            have hleave : Notes (fun e => e ≠ .semNotify p) K.off (K.off.leave .ready t) :=
              .same rfl
            have hpop := hleave.trans (.emit (e := .listPop Queue.ready.list (Queue.ready.node t)
              (decide (t ∈ K.off.queue .ready))) (by simp))
            have hjoin : Notes (fun e => e ≠ .semNotify p) (K.off.pop .ready t)
              (K.off.block t (.semWait p')) := .same rfl
            exact ((hpop.trans hjoin).trans (.emit (by simp))).dispatch
      | notify p' =>
        cases hobj
        exact absurd rfl ha
      | ret e =>
        refine ⟨e.fn.returned K.curr, rfl, fun e' he' => ?_⟩
        cases hf : e.fn <;> simp [hf, Fn.returned] at he' <;> simp [he']
      | _ => cases hobj
    · obtain ⟨es, htr, hes⟩ := (exec_spares he hobj).trace
      exact ⟨es, htr, fun e hmem heq => hes e hmem (heq ▸ rfl)⟩
  rw [htr, List.count_append, List.count_eq_zero.mpr fun hmem => hes _ hmem rfl, Nat.add_zero]

lemma Core.count_notify_self {K : Core} :
    (K.exec (.notify p)).trace.count (.semNotify p) = K.trace.count (.semNotify p) + 1 := by
  rcases notify_cases (K := K) (p := p) with ⟨-, hexec, -⟩ | ⟨t, ts, -, hexec, -⟩
  · rw [hexec]
    simp [setSem, emit, off, cpu]
  · have htr : (K.exec (.notify p)).trace = K.trace ++ [.semNotify p, .semPop t p] := by
      rw [hexec, dispatch_trace]
      simp [wake, emit, join, leave, setTask, off, cpu]
    rw [htr, List.count_append]
    simp

lemma Machine.Sound.count_notify_after (hM : M.Sound) (hd : M.Does l a rest pc new) :
    (M.sys.exec a).trace.count (.semNotify p) =
      M.sys.trace.count (.semNotify p) + [l].count (.call (.semNotify p)) := by
  have hsem := (Machine.does_sem (p := p) hd).1
  by_cases ha : a = .notify p
  · rw [hsem.mp ha, ha, Core.count_notify_self]
    simp
  · rw [Core.count_notify_exec (hM.enabled hd) ha]
    have hl : l ≠ .call (.semNotify p) := fun hl => ha (hsem.mpr hl)
    rw [List.count_eq_zero.mpr fun hmem => hl (List.mem_singleton.mp hmem).symm, Nat.add_zero]

lemma Core.granted_exec {K : Core} (he : K.Enabled a) (ha : a ≠ .wait p) :
    semGranted (K.exec a).trace p + ((K.exec a).queue (.semWait p)).length =
        semGranted K.trace p + (K.queue (.semWait p)).length ∧
      ∀ t ∈ (K.exec a).queue (.semWait p), t ∈ K.queue (.semWait p) := by
  by_cases hobj : a.obj = some (.sem p)
  · cases a with
    | wait p' =>
      cases hobj
      exact absurd rfl ha
    | notify p' =>
      cases hobj
      rcases notify_cases (K := K) (p := p) with ⟨hq, hexec, -⟩ | ⟨t, ts, hq, hexec, -⟩
      · have htr : (K.exec (.notify p)).trace = K.trace ++ [.semNotify p] := by rw [hexec]; rfl
        have hq' : (K.exec (.notify p)).queue = K.queue := by rw [hexec]; rfl
        rw [htr, hq', semGranted_append]
        refine ⟨?_, fun _ h => h⟩
        simp [semGranted, waitLog, Event.wait, orderOf]
      · have htr : (K.exec (.notify p)).trace = K.trace ++ [.semNotify p, .semPop t p] := by
          rw [hexec, dispatch_trace]
          simp [wake, emit, join, leave, setTask, off, cpu]
        have hq' : (K.exec (.notify p)).queue (.semWait p) = ts := by
          rw [hexec, dispatch_queue]
          simp [emit, wake, join, leave, setTask, off, cpu, hq]
        rw [htr, hq', hq, semGranted_append]
        refine ⟨?_, fun _ h => List.mem_cons_of_mem _ h⟩
        simp [semGranted, waitLog, Event.wait, orderOf]
        omega
    | ret e =>
      have hfn : e.fn = .semWait p := by
        cases hf : e.fn <;> simp [Act.obj, Fn.obj, hf] at hobj ⊢
        exact hobj
      have htr : (K.exec (.ret e)).trace = K.trace ++ [.semReturn K.curr p] := by
        simp [Core.exec, hfn, Fn.returned]
      have hq' : (K.exec (.ret e)).queue = K.queue := rfl
      rw [htr, hq', semGranted_append]
      refine ⟨?_, fun _ h => h⟩
      simp [semGranted, waitLog, Event.wait, orderOf]
    | _ => cases hobj
  · have hs := exec_spares he hobj
    obtain ⟨es, htr, hes⟩ := hs.trace
    have hq : (K.exec a).queue (.semWait p) = K.queue (.semWait p) := hs.queue
    rw [htr, hq, semGranted_append, semGranted_eq_zero hes]
    exact ⟨rfl, fun _ h => h⟩

lemma Core.granted_wait {K : Core} (hK : K.Inv) (hcurr : K.curr ≠ none)
    (hidle : K.curr ≠ some .idleTask) :
    semGranted (K.exec (.wait p)).trace p + ((K.exec (.wait p)).queue (.semWait p)).length =
        semGranted K.trace p + (K.queue (.semWait p)).length + 1 ∧
      ∀ t ∈ (K.exec (.wait p)).queue (.semWait p),
        t ∈ K.queue (.semWait p) ∨ K.curr = some t := by
  rcases wait_cases (p := p) hK hcurr hidle with ⟨-, hexec, -⟩ | ⟨t, hc, -, -, hexec, -⟩
  · have htr : (K.exec (.wait p)).trace = K.trace ++ [.semTake K.curr p] := by rw [hexec]; rfl
    have hq : (K.exec (.wait p)).queue = K.queue := by rw [hexec]; rfl
    rw [htr, hq, semGranted_append]
    refine ⟨?_, fun _ h => Or.inl h⟩
    simp [semGranted, waitLog, Event.wait, orderOf]
    omega
  · have htr : (K.exec (.wait p)).trace = K.trace ++
        [.listPop .readyList ⟨t, .runNode⟩ (decide (t ∈ K.queue .ready)), .semBlock t p] := by
      rw [hexec, dispatch_trace]
      simp [block, emit, join, pop, leave, off, cpu, Queue.list, Queue.node]
      rfl
    have hq : (K.exec (.wait p)).queue (.semWait p) = K.queue (.semWait p) ++ [t] := by
      rw [hexec, dispatch_queue]
      simp [block, emit, join, pop, leave, off, cpu]
    rw [htr, hq, semGranted_append]
    refine ⟨?_, fun u hu => ?_⟩
    · simp [semGranted, waitLog, Event.wait, orderOf]
      omega
    · rcases List.mem_append.mp hu with hu | hu
      · exact Or.inl hu
      · rw [List.mem_singleton.mp hu]
        exact Or.inr hc

lemma Machine.Sound.granted_after (hM : M.Sound) (hd : M.Does l a rest pc new) :
    semGranted (M.sys.exec a).trace p + ((M.sys.exec a).queue (.semWait p)).length =
        semGranted M.sys.trace p + (M.sys.queue (.semWait p)).length +
          [l].count (.call (.semWait p)) ∧
      ∀ t ∈ (M.sys.exec a).queue (.semWait p),
        t ∈ M.sys.queue (.semWait p) ∨ (M.sys.curr = some t ∧ l = .call (.semWait p)) := by
  have hsem := (Machine.does_sem (p := p) hd).2
  have he := hM.enabled hd
  by_cases ha : a = .wait p
  · subst ha
    have hl := hsem.mp rfl
    obtain ⟨hsum, hmem⟩ := Core.granted_wait (p := p) hM.core he.1 he.2
    refine ⟨?_, fun t ht => (hmem t ht).imp_right fun hc => ⟨hc, hl⟩⟩
    rw [hsum, hl]
    simp
  · obtain ⟨hsum, hmem⟩ := Core.granted_exec he ha
    have hl : l ≠ .call (.semWait p) := fun hl => ha (hsem.mpr hl)
    rw [hsum, List.count_eq_zero.mpr fun hmem => hl (List.mem_singleton.mp hmem).symm, Nat.add_zero]
    exact ⟨rfl, fun t ht => Or.inl (hmem t ht)⟩

end Step

variable {b : BootMem} {ls : List Label} {m : Machine Sys}

lemma BootMem.Reaches.sem_calls (h : b.Reaches ls m) (p : SemPtr) :
    m.sys.trace.count (.semNotify p) = ls.count (.call (.semNotify p)) ∧
      semGranted m.sys.trace p + (m.sys.waiters (.sem p)).length =
        ls.count (.call (.semWait p)) := by
  refine Run.history (P := fun ls (m : Machine Sys) =>
    m.sys.trace.count (.semNotify p) = ls.count (.call (.semNotify p)) ∧
      semGranted m.sys.trace p + (m.sys.waiters (.sem p)).length =
        ls.count (.call (.semWait p))) ?_ ?_ h
  · rw [b.boot_represents.sys.waiters]
    exact ⟨rfl, rfl⟩
  · rintro ls m l m' hr ⟨hnotified, hgranted⟩ hs
    obtain ⟨M, -, hsim, hM⟩ := Reaches.sim hr
    obtain ⟨-, a, rest, pc, new, hd, rfl⟩ := Machine.step_iff.mp hs
    have hd' := hsim.does_iff.mp hd
    have hsim' : (m.after a rest pc new).Sim (M.after a rest pc new) :=
      hsim.after hM (hM.enabled hd')
    rw [hsim.sys.trace] at hnotified hgranted
    rw [hsim.sys.waiters] at hgranted
    rw [hsim'.sys.trace, hsim'.sys.waiters, List.count_append, List.count_append, ← hnotified,
      ← hgranted]
    exact ⟨hM.count_notify_after hd', (hM.granted_after hd').1⟩

/-- No notification of a semaphore is lost or invented. -/
theorem semaphore_conserves (h : b.Reaches ls m) (p : SemPtr) :
    0 ≤ m.sys.sem p ∧
    (0 < m.sys.sem p → m.sys.waiters (.sem p) = []) ∧
    (b.semCount p + m.sys.trace.count (.semNotify p) : Int) =
      m.sys.sem p + semGranted m.sys.trace p ∧
    -- what is counted are the calls
    m.sys.trace.count (.semNotify p) = ls.count (.call (.semNotify p)) ∧
    semGranted m.sys.trace p + (m.sys.waiters (.sem p)).length = ls.count (.call (.semWait p)) ∧
    -- a call takes a credit or blocks until it is popped once, and only then returns
    (∀ c, ∃ φ, phases (.sem p) m.sys.trace c = some φ ∧
      (φ = .blocked ↔ ∃ t ∈ m.sys.waiters (.sem p), c = some t)) ∧
    -- the waiters are popped in the order in which they blocked
    orderOf .block (waitLog (.sem p) m.sys.trace) =
      orderOf .grant (waitLog (.sem p) m.sys.trace) ++ (m.sys.waiters (.sem p)).map some := by
  obtain ⟨M, hsim, hM, hW, hB⟩ := h.invariant
    (I := fun M => M.WaitInv (.sem p) ∧ M.sys.Balanced p (b.semCount p))
    ⟨Machine.WaitInv.boot b, Core.Balanced.boot b⟩
    (fun M l a rest pc new hM hI _ hd => ⟨hI.1.after hM hd, hI.2.exec hM.core (hM.enabled hd)⟩)
  obtain ⟨hnotified, hgranted⟩ := h.sem_calls p
  have hrep := hsim.sys
  rw [hrep.trace] at hnotified hgranted
  rw [hrep.waiters] at hgranted
  rw [hrep.sem, hrep.trace, hrep.waiters]
  refine ⟨hB.nonneg, hB.credit, hB.balance, hnotified, hgranted, fun c => ?_, hW.order⟩
  obtain ⟨φ, hφ, hblocked, -⟩ := hW.lives c
  exact ⟨φ, hφ, hblocked⟩

/-- Memory in which the semaphores have no credit. -/
def BootMem.broke : BootMem := { BootMem.zeroed with semCount := fun _ => 0 }

lemma BootMem.broke_waits : ∃ M, BootMem.broke.Plays
      [(none, .taskMainInit), (some .mainTask, .taskInit (objReq 0)),
        (some .mainTask, .semWait ⟨0⟩)] M ∧
    M.sys.halt = none ∧ M.sys.curr = some (.obj 0) ∧ M.ctl (some (.obj 0)) = .own ∧
    M.sys.queue (.semWait ⟨0⟩) = [.mainTask] := by
  obtain ⟨K, st, hplays, hfilled, -⟩ := broke.fills 1 (by decide)
  have hcurr : K.curr = some .mainTask := hfilled.runs.curr
  have hcall := hplays.call (.semWait ⟨0⟩) hfilled.runs.halt hcurr (place_self ..) rfl
    (by simp [Op.creates]) (Or.inr ⟨_, rfl, by simp, by simp⟩)
  rcases Core.wait_cases (p := ⟨0⟩) hplays.sound.core (by simp [place, hcurr])
    (by simp [place, hcurr]) with ⟨hpos, -⟩ | ⟨t, ht, -, -, hexec, -⟩
  · have hsem : K.sem ⟨0⟩ = 0 := by
      rw [hfilled.sem]
      rfl
    have hpos' : 0 < K.sem ⟨0⟩ := hpos
    omega
  · obtain rfl : .mainTask = t := Option.some.inj (hcurr.symm.trans ht)
    obtain ⟨hnext, -, hwait, -, -, -, hhalt, -⟩ := Core.blocks hexec
      (hfilled.queue .ready) (by simp)
    refine ⟨_, hcall, hcall.unhalted ?_, hnext, by simp [place], hwait.trans ?_⟩
    · exact hhalt.imp_left fun h => h.trans hfilled.runs.halt
    · have hempty := hfilled.queue (.semWait ⟨0⟩)
      rw [if_neg (by simp)] at hempty
      simp [place, hempty]

lemma BootMem.broke_notifies : ∃ K ls m m', BootMem.broke.Reaches ls m ∧
    madeIn ls = [.taskMainInit, .taskInit (objReq 0), .semWait ⟨0⟩] ∧ Repr m.sys K ∧
    K.queue (.semWait ⟨0⟩) = [.mainTask] ∧ m.sys.waiters (.sem ⟨0⟩) = [.mainTask] ∧
    m.Step (.call (.semNotify ⟨0⟩)) m' ∧ Repr m'.sys (K.exec (.notify ⟨0⟩)) := by
  obtain ⟨M, hplays, hhalt, hcurr, hown, hwait⟩ := BootMem.broke_waits
  have hstep := hplays.call_step (.semNotify ⟨0⟩) hhalt hcurr hown rfl (by simp [Op.creates])
    (Or.inr ⟨_, rfl, by simp, by simp⟩)
  obtain ⟨ls, m, hm, hsim, hmade, -⟩ := hplays.real
  obtain ⟨m', hs, hsim'⟩ := hsim.step_back hplays.sound hstep.2
  have hwaiting : m.sys.waiters (.sem ⟨0⟩) = [.mainTask] := by
    rw [hsim.sys.waiters]
    exact hwait
  exact ⟨M.sys, ls, m, m', hm.reaches, hmade, hsim.sys, hwait, hwaiting, hs, hsim'.sys⟩

/-- The main task waits and the notification of the other one pops it. -/
theorem semaphore_conserves_main : ∃ ls m m', BootMem.broke.Reaches ls m ∧
    m.sys.waiters (.sem ⟨0⟩) = [.mainTask] ∧ m.Step (.call (.semNotify ⟨0⟩)) m' ∧
    m'.sys.waiters (.sem ⟨0⟩) = [] ∧ m'.sys.trace.count (.semNotify ⟨0⟩) = 1 ∧
    semGranted m'.sys.trace ⟨0⟩ = 1 ∧ m'.sys.sem ⟨0⟩ = 0 := by
  obtain ⟨K, ls, m, m', hm, hmade, -, hwait, hwaiting, hs, hrep'⟩ := BootMem.broke_notifies
  have hpopped : m'.sys.waiters (.sem ⟨0⟩) = [] := by
    rw [hrep'.waiters]
    rcases Core.notify_cases (K := K) (p := ⟨0⟩) with ⟨hq, -⟩ | ⟨t, ts, hq, hexec, -⟩
    · rw [hwait] at hq
      cases hq
    · have hqueue : (K.exec (.notify ⟨0⟩)).queue (.semWait ⟨0⟩) = ts := by
        rw [hexec, Core.dispatch_queue]
        simp [Core.emit, Core.wake, Core.join, Core.leave, Core.setTask, Core.off, Core.cpu, hq]
      rw [hwait] at hq
      cases hq
      exact hqueue
  have hcalls : ∀ op, (ls ++ [Label.call (.semNotify ⟨0⟩)]).count (.call op) =
      [Op.taskMainInit, .taskInit (objReq 0), .semWait ⟨0⟩, .semNotify ⟨0⟩].count op := by
    intro op
    rw [List.count_append, ← count_made, ← count_made, hmade, ← List.count_append]
    rfl
  obtain ⟨-, -, hbalance, hnotified, hgranted, -⟩ :=
    semaphore_conserves (hm.snoc hs) ⟨0⟩
  rw [hcalls] at hnotified hgranted
  rw [hpopped] at hgranted
  have hone : m'.sys.trace.count (.semNotify ⟨0⟩) = 1 := hnotified
  have hgrant : semGranted m'.sys.trace ⟨0⟩ = 1 := hgranted
  refine ⟨ls, m, m', hm, hwaiting, hs, hpopped, hone, hgrant, ?_⟩
  have hstart : BootMem.broke.semCount ⟨0⟩ = 0 := rfl
  rw [hone, hgrant, hstart] at hbalance
  omega

end OsToyI386
