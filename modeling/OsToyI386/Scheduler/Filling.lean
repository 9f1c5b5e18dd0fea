import OsToyI386.Scheduler.Boot

/-!
# The main task creates others

One `task_init` after the other takes one GDT entry after the other. The tasks stand in the
ready queue in the order of their creation, and a task that yields goes to its end.
-/

namespace OsToyI386

open Lib Machine

/-- The main task has created the first `k` of the other tasks. -/
structure Core.Filled (K : Core) (b : BootMem) (k : Nat) : Prop where
  runs : K.Runs (some .mainTask)
  tr : K.tr = selOf 4
  used : ∀ j, 1 ≤ j → j < 5 + k → (K.gdt j).attr ≠ 0
  free : ∀ j, 5 + k ≤ j → j < gdtTableSize → (K.gdt j).attr = 0
  stale : ∀ a, k ≤ a → (K.task (.obj a)).tssSel = (b.task (.obj a)).tssSel
  mutex : ∀ x, K.mutex x = ⟨none, 0#32⟩
  sem : K.sem = b.core.sem
  queue : ∀ q, K.queue q = if q = .ready then .mainTask :: (List.range k).map .obj else []

/-- The request for the `k`-th of them. -/
def objReq (k : Nat) : InitReq := ⟨.obj k, [0x74#8], 0, 0⟩

namespace Core

variable {K : Core} {b : BootMem} {k : Nat}

namespace Filled

lemma opened (h : K.Filled b k) (x : MutexPtr) : K.Open x :=
  ⟨h.mutex _, by rw [h.queue, if_neg (by simp)]⟩

lemma selIndex_ne (h : K.Filled b k) {found : Option Nat} (hfind : K.Finds found) :
    ∀ n, found = some n → selIndex K.tr ≠ n := by
  rintro n rfl hn
  rw [h.tr, selIndex_selOf (by decide)] at hn
  exact h.used n hfind.1 (by omega) hfind.2.2.1

lemma next {r : InitReq} (h : K.Filled b k) (hk : 5 + k < gdtTableSize) (hr : r.task = .obj k)
    (hok : r.nameOk = true) (tr : List Event) :
    K.Finds (some (5 + k)) ∧
      Core.Filled { K.initialised r (some (5 + k)) with trace := tr } b (k + 1) := by
  have hfind : K.Finds (some (5 + k)) :=
    ⟨by omega, hk, h.free _ (by omega) hk, h.used⟩
  have hruns := h.runs.initialised (r := r) (h.selIndex_ne hfind)
  have hgdt : (K.initialised r (some (5 + k))).gdt =
      Function.update K.gdt (5 + k) (tssDesc (K.tssAddr r.task)) := Core.initialised_gdt
  have hmutex : (K.initialised r (some (5 + k))).mutex = K.mutex :=
    Core.initialised_frame.2.1
  have htr : (K.initialised r (some (5 + k))).tr = K.tr := Core.initialised_frame.2.2.1
  refine ⟨hfind, ⟨hruns.halt, hruns.curr, hruns.runs⟩, htr.trans h.tr, fun j hj hjk => ?_,
    fun j hj hlt => ?_, fun a ha => ?_, fun x => (congrFun hmutex x).trans (h.mutex x),
    initialised_sem.trans h.sem, fun q => ?_⟩
  · rw [hgdt]
    by_cases hj5 : j = 5 + k
    · rw [hj5, Function.update_self, tssDesc_attr]
      decide
    · rw [Function.update_of_ne hj5]
      exact h.used j hj (by omega)
  · rw [hgdt, Function.update_of_ne (by omega)]
    exact h.free j (by omega) hlt
  · have hne : TaskPtr.obj a ≠ r.task := by
      rw [hr, ne_eq, TaskPtr.obj.injEq]
      omega
    have hsel : ((K.initialised r (some (5 + k))).task (.obj a)).tssSel =
        ((K.described r (some (5 + k))).task (.obj a)).tssSel :=
      Core.initialised_tssSel _
    refine hsel.trans ?_
    simp only [Core.described, Function.update_of_ne hne]
    exact h.stale a (by omega)
  · have hq : (K.initialised r (some (5 + k))).queue q = _ := Core.initialised_queue q
    refine hq.trans ?_
    rw [h.queue]
    by_cases hready : q = .ready
    · subst hready
      rw [if_pos ⟨hok, by simp [hr], rfl⟩, List.range_succ]
      simp [hr]
    · simp [hready]

end Filled

lemma exec_yield {t u : TaskPtr} {ts : List TaskPtr} (hc : K.curr = some t)
    (hq : K.queue .ready = t :: u :: ts) :
    (K.exec .yield).curr = some u ∧ (K.exec .yield).queue .ready = u :: ts ++ [t] ∧
      (∀ q, q ≠ .ready → (K.exec .yield).queue q = K.queue q) ∧
      (K.exec .yield).mutex = K.mutex ∧ (K.exec .yield).sem = K.sem ∧
      (K.exec .yield).trace = K.trace ++ [.listPop .readyList ⟨t, .runNode⟩ true] ∧
      ((K.exec .yield).halt = K.halt ∨ (K.exec .yield).halt = some .cpuFault) := by
  have hexec : K.exec .yield = ((K.off.pop .ready t).wake t).dispatch := by
    have hlen : (K.off.queue .ready).length > 1 := by
      have hsame : K.off.queue .ready = t :: u :: ts := hq
      simp [hsame]
    have hcurr : K.off.curr = some t := hc
    rw [exec, yield, if_pos hlen, hcurr]
  have hready : ((K.off.pop .ready t).wake t).queue .ready = u :: ts ++ [t] := by
    have hsame : K.off.queue .ready = t :: u :: ts := hq
    simp [wake, join, setTask, pop, emit, leave, hsame]
  rw [hexec]
  refine ⟨?_, by rw [dispatch_queue, hready], fun q hne => ?_, ?_, ?_, ?_, dispatch_halt _⟩
  · rw [dispatch_curr, head, hready]
    rfl
  · rw [dispatch_queue]
    simp [wake, join, setTask, pop, emit, leave, off, cpu, hne]
  · rw [dispatch_mutex]
    rfl
  · rw [dispatch_sem]
    rfl
  · have hmem : t ∈ K.off.queue .ready := by
      have hsame : K.off.queue .ready = t :: u :: ts := hq
      simp [hsame]
    rw [dispatch_trace]
    simp [wake, join, setTask, pop, emit, leave, hmem, Queue.list, Queue.node]
    rfl

lemma blocks {K' : Core} {t u : TaskPtr} {ts : List TaskPtr} {q : Queue} {e : Event}
    (hexec : K' = ((K.off.block t q).emit e).dispatch) (hq : K.queue .ready = t :: u :: ts)
    (hne : q ≠ .ready) :
    K'.curr = some u ∧ K'.queue .ready = u :: ts ∧ K'.queue q = K.queue q ++ [t] ∧
      (∀ r, r ≠ .ready → r ≠ q → K'.queue r = K.queue r) ∧ K'.mutex = K.mutex ∧
      K'.sem = K.sem ∧ (K'.halt = K.halt ∨ K'.halt = some .cpuFault) ∧
      K'.trace = K.trace ++ [.listPop .readyList ⟨t, .runNode⟩ true, e] := by
  have hsame : K.off.queue .ready = t :: u :: ts := hq
  have hready : ((K.off.block t q).emit e).queue .ready = u :: ts := by
    simp [block, join, pop, emit, leave, hsame, Ne.symm hne]
  rw [hexec]
  refine ⟨?_, by rw [dispatch_queue, hready], ?_, fun r hr hrq => ?_, ?_, ?_, dispatch_halt _, ?_⟩
  · rw [dispatch_curr, head, hready]
    rfl
  · rw [dispatch_queue]
    simp [block, join, pop, emit, leave, off, cpu, hne]
  · rw [dispatch_queue]
    simp [block, join, pop, emit, leave, off, cpu, hr, hrq]
  · rw [dispatch_mutex]
    rfl
  · rw [dispatch_sem]
    rfl
  · rw [dispatch_trace]
    simp [block, join, pop, emit, leave, hsame, Queue.list, Queue.node]
    rfl

lemma lock_waits {t u v : TaskPtr} {ts : List TaskPtr} {n : BitVec 32} {x : MutexPtr} (h : K.Inv)
    (hc : K.curr = some u) (hidle : u ≠ .idleTask) (hq : K.queue .ready = u :: v :: ts)
    (hheld : K.mutex x = ⟨some t, n⟩) (hn : n ≠ 0#32) (hne : t ≠ u) :
    (K.exec (.lock x)).queue (.mutexWait x) = K.queue (.mutexWait x) ++ [u] ∧
      (K.exec (.lock x)).mutex = K.mutex ∧
      (K.exec (.lock x)).trace =
        K.trace ++ [.listPop .readyList ⟨u, .runNode⟩ true, .lockBlock u x] := by
  rcases lock_cases (m := x) h (by simp [hc, hidle]) with
    ⟨hgets, -⟩ | ⟨w, hw, -, -, -, hexec, -⟩
  · rw [hheld, hc] at hgets
    rcases hgets with hz | ho
    · exact absurd hz hn
    · exact absurd (Option.some.inj ho) hne
  · obtain rfl : u = w := Option.some.inj (hc.symm.trans hw)
    obtain ⟨-, -, hwait, -, hm, -, -, htr⟩ := blocks hexec hq (by simp)
    exact ⟨hwait, hm, htr⟩

lemma exec_sleep {t u : TaskPtr} {ts : List TaskPtr} (ms : BitVec 32) (hc : K.curr = some t)
    (hq : K.queue .ready = t :: u :: ts) :
    (K.exec (.sleep ms)).curr = some u ∧ (K.exec (.sleep ms)).queue .ready = u :: ts ∧
      (K.exec (.sleep ms)).queue .sleep = K.queue .sleep ++ [t] ∧
      (∀ r, r ≠ .ready → r ≠ .sleep → (K.exec (.sleep ms)).queue r = K.queue r) ∧
      (K.exec (.sleep ms)).mutex = K.mutex ∧ (K.exec (.sleep ms)).sem = K.sem ∧
      (∀ x, ((K.exec (.sleep ms)).task x).sleepTicks =
        if x = t then (sleepTicksOf ms).toInt else (K.task x).sleepTicks) ∧
      ((K.exec (.sleep ms)).halt = K.halt ∨ (K.exec (.sleep ms)).halt = some .cpuFault) ∧
      (K.exec (.sleep ms)).trace = K.trace ++ [.listPop .readyList ⟨t, .runNode⟩ true] := by
  have hcurr : K.off.curr = some t := hc
  have hsame : K.off.queue .ready = t :: u :: ts := hq
  rw [exec, sleep, hcurr]
  simp only
  have hready : (((K.off.pop .ready t).setTask t { (K.off.pop .ready t).task t with
      sleepTicks := (sleepTicksOf ms).toInt, state := .sleep }).join .sleep t).queue .ready =
        u :: ts := by
    simp [join, setTask, pop, emit, leave, hsame]
  refine ⟨?_, by rw [dispatch_queue, hready], ?_, fun r hr hrs => ?_, ?_, ?_, fun x => ?_,
    dispatch_halt _, ?_⟩
  · rw [dispatch_curr, head, hready]
    rfl
  · rw [dispatch_queue]
    simp [join, setTask, pop, emit, leave, off, cpu]
  · rw [dispatch_queue]
    simp [join, setTask, pop, emit, leave, off, cpu, hr, hrs]
  · rw [dispatch_mutex]
    rfl
  · rw [dispatch_sem]
    rfl
  · rw [dispatch_task]
    by_cases hx : x = t
    · simp [join, setTask, hx]
    · simp [join, setTask, pop, emit, leave, off, cpu, hx]
  · rw [dispatch_trace]
    simp [join, setTask, pop, emit, leave, hsame, Queue.list, Queue.node]
    rfl

end Core

lemma BootMem.Plays.creates {b : BootMem} {k : Nat} {ops : List (Ctx × Op)} {K : Core}
    {st : List TaskPtr} (r : InitReq)
    (h : b.Plays ops (place K (fun _ => .own) st (some .mainTask) .own)) (hfilled : K.Filled b k)
    (hst : ∀ a, k ≤ a → .obj a ∉ st) (hk : k < 251) (hr : r.task = .obj k)
    (hok : r.nameOk = true) : ∃ K' st',
      b.Plays (ops ++ [(some .mainTask, .taskInit r)])
        (place K' (fun _ => .own) st' (some .mainTask) .own) ∧
      K'.Filled b (k + 1) ∧ ∀ a, k + 1 ≤ a → .obj a ∉ st' := by
  have hlt : 5 + k < gdtTableSize := by
    rw [gdtTableSize]
    omega
  obtain ⟨hfind, -⟩ := hfilled.next hlt hr hok []
  have hcall := h.call (.taskInit r) hfilled.runs.halt hfilled.runs.curr
    (place_self ..) rfl
    (by simpa [Op.creates, hr, place] using hst k le_rfl)
    (Or.inr ⟨_, rfl, by simp, by simp⟩)
  obtain ⟨tr, hgoes⟩ := goes_taskInit (w := true) (r := r) (f := fun _ => .own)
    (s := r.task :: st) .user hfilled.runs (hfilled.opened _) (by simp) hfind
    (hfilled.selIndex_ne hfind) (by rw [if_neg (by simp [hr])])
  rw [place_again] at hcall
  refine ⟨_, _, hcall.goes hgoes, (hfilled.next hlt hr hok _).2, fun a ha => ?_⟩
  simp only [hr, List.mem_cons, TaskPtr.obj.injEq, not_or]
  exact ⟨by omega, hst a (by omega)⟩

lemma BootMem.fills (b : BootMem) (k : Nat) (hk : k ≤ 251) : ∃ K st,
    b.Plays ((none, .taskMainInit) ::
        (List.range k).map fun i => (some .mainTask, .taskInit (objReq i)))
      (place K (fun _ => .own) st (some .mainTask) .own) ∧
    K.Filled b k ∧ ∀ a, k ≤ a → .obj a ∉ st := by
  induction k with
  | zero =>
    obtain ⟨tr, hplays⟩ := b.boots
    have hbooted := b.atMain_booted (tr ++ [.initReturn .mainTask 0])
    exact ⟨_, _, hplays, ⟨hbooted.runs, hbooted.tr, hbooted.used, hbooted.free,
      fun a _ => hbooted.others a, hbooted.mutex, b.atMain_sem _, hbooted.queue⟩, by simp⟩
  | succ k ih =>
    obtain ⟨K, st, hplays, hfilled, hst⟩ := ih (by omega)
    obtain ⟨K', st', hplays', hfilled', hst'⟩ := hplays.creates (objReq k) hfilled hst (by omega)
      rfl rfl
    refine ⟨K', st', ?_, hfilled', hst'⟩
    rw [List.range_succ, List.map_append]
    exact hplays'

end OsToyI386
