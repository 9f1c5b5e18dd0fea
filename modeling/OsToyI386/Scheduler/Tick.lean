import OsToyI386.Scheduler.Core
import Mathlib.Data.BitVec

/-!
# One pass over the sleepers

The pass of `task_time_tick` visits the sleepers one after the other and moves some of
them. In closed form: the due ones leave, in their order, for the end of the ready queue,
and the others keep their order with a tick less to sleep.
-/

namespace OsToyI386

open Lib

lemma sleepTicksOf_toNat (ms : BitVec 32) :
    (sleepTicksOf ms).toNat = (ms.toNat + 9) % 2 ^ 32 / 10 + 1 := by
  have h1 : (ms + osTicksMs - 1#32).toNat = (ms.toNat + 9) % 2 ^ 32 := by
    simp only [osTicksMs]
    bv_omega
  have h2 : ((ms + osTicksMs - 1#32) / osTicksMs).toNat = (ms.toNat + 9) % 2 ^ 32 / 10 := by
    rw [BitVec.toNat_udiv, h1]
    rfl
  rw [sleepTicksOf, BitVec.toNat_add, h2]
  simp
  omega

/-- The conversion to `int` loses nothing, and a sleep takes at least one tick. -/
lemma sleepTicksOf_toInt (ms : BitVec 32) :
    (sleepTicksOf ms).toInt = ((ms.toNat + 9) % 2 ^ 32 / 10 + 1 : Nat) := by
  rw [BitVec.toInt_eq_toNat_of_lt, sleepTicksOf_toNat]
  rw [sleepTicksOf_toNat]
  omega

lemma sleepTicksOf_ne_zero (ms : BitVec 32) : sleepTicksOf ms ≠ 0 := by
  intro h
  have := sleepTicksOf_toNat ms
  rw [h] at this
  simp at this

namespace Core

lemma dispatch_queue (K : Core) : K.dispatch.queue = K.queue := by
  unfold dispatch
  split <;> rfl

lemma dispatch_tasks (K : Core) : K.dispatch.tasks = K.tasks := by
  unfold dispatch
  split <;> rfl

lemma dispatch_mutex (K : Core) : K.dispatch.mutex = K.mutex := by
  unfold dispatch
  split <;> rfl

lemma dispatch_sem (K : Core) : K.dispatch.sem = K.sem := by
  unfold dispatch
  split <;> rfl

lemma dispatch_trace (K : Core) : K.dispatch.trace = K.trace := by
  unfold dispatch
  split <;> rfl

lemma dispatch_curr (K : Core) : K.dispatch.curr = some K.head := by
  unfold dispatch
  split
  · assumption
  · rfl

lemma dispatch_task (K : Core) (u : TaskPtr) :
    K.dispatch.task u = { K.task u with state := (K.dispatch.task u).state } := by
  unfold dispatch
  split
  · rfl
  · by_cases hr : K.queue .ready = []
    · simp [hr]
    · by_cases hu : u = K.head
      · simp [hr, hu]
      · simp [hr, hu]

lemma dispatch_halt (K : Core) : K.dispatch.halt = K.halt ∨ K.dispatch.halt = some .cpuFault := by
  unfold dispatch
  split
  · exact Or.inl rfl
  · simp only [switchToTss, farJump]
    split
    · exact Or.inl rfl
    · exact Or.inr rfl

lemma handOver_setMutex (K : Core) (m : MutexPtr) (x : ReinMutex) :
    (K.setMutex m x).handOver m = K.handOver m := by
  unfold handOver
  cases hq : K.queue (.mutexWait m) <;>
    simp [setMutex, emit, leave, wake, join, setTask, hq]

lemma emit_setMutex (K : Core) (m : MutexPtr) (x : ReinMutex) (e : Event) :
    (K.setMutex m x).emit e = (K.emit e).setMutex m x := rfl

lemma pop_task (K : Core) (q : Queue) (t : TaskPtr) : (K.pop q t).task = K.task := rfl

lemma head_congr {K K' : Core} (h : K'.queue .ready = K.queue .ready) : K'.head = K.head := by
  rw [head, head, h]

/-- Due at the next tick. -/
def due (K : Core) (t : TaskPtr) : Bool := (K.task t).sleepTicks = 1

lemma sleeperTick_due {K : Core} {t : TaskPtr} (h : K.due t) :
    K.sleeperTick t =
      ((K.setTask t { K.task t with sleepTicks := 0 }).pop .sleep t).wake t := by
  have h1 : (K.task t).sleepTicks = 1 := by simpa [due] using h
  simp [sleeperTick, setTask, h1]

lemma sleeperTick_not_due {K : Core} {t : TaskPtr} (h : ¬ K.due t) :
    K.sleeperTick t =
      K.setTask t { K.task t with sleepTicks := (K.task t).sleepTicks - 1 } := by
  have h1 : (K.task t).sleepTicks - 1 ≠ 0 := by
    have : (K.task t).sleepTicks ≠ 1 := by simpa [due] using h
    omega
  simp [sleeperTick, setTask, h1]

section Pass

variable {K : Core} {t u : TaskPtr} {ts : List TaskPtr}

/-- The fields of a sleeper after its turn. -/
def slept (K : Core) (t : TaskPtr) : Task :=
  { K.task t with
    sleepTicks := (K.task t).sleepTicks - 1
    state := if K.due t then .ready else (K.task t).state }

lemma sleeperTick_task :
    (K.sleeperTick t).task u = if u = t then K.slept t else K.task u := by
  by_cases h : K.due t
  · have h1 : (K.task t).sleepTicks = 1 := by simpa [due] using h
    rw [sleeperTick_due h]
    by_cases hu : u = t <;> simp [setTask, wake, pop, leave, join, emit, slept, hu, h, h1]
  · rw [sleeperTick_not_due h]
    by_cases hu : u = t <;> simp [setTask, slept, hu, h]

lemma sleeperTick_sleep (hnd : (K.queue .sleep).Nodup) :
    (K.sleeperTick t).queue .sleep =
      (K.queue .sleep).filter fun u => !(decide (u = t) && K.due u) := by
  by_cases h : K.due t
  · have hsame : (K.queue .sleep).filter (fun u => !(decide (u = t) && K.due u)) =
        (K.queue .sleep).filter (fun u => u != t) := by
      apply List.filter_congr
      intro u _
      by_cases hu : u = t <;> simp [hu, h]
    rw [sleeperTick_due h, hsame, ← hnd.erase_eq_filter]
    simp [wake, pop, leave, join, setTask, emit]
  · have hsame :
        (K.queue .sleep).filter (fun u => !(decide (u = t) && K.due u)) = K.queue .sleep := by
      apply List.filter_eq_self.mpr
      intro u _
      by_cases hu : u = t <;> simp [hu, h]
    rw [sleeperTick_not_due h, hsame]
    rfl

lemma sleeperTick_ready :
    (K.sleeperTick t).queue .ready = K.queue .ready ++ [t].filter K.due := by
  by_cases h : K.due t
  · rw [sleeperTick_due h]
    simp [wake, pop, leave, join, setTask, emit, h]
  · rw [sleeperTick_not_due h]
    simp [setTask, h]

lemma sleeperTick_rest :
    (K.sleeperTick t).tasks = K.tasks ∧ (K.sleeperTick t).curr = K.curr ∧
      (K.sleeperTick t).mutex = K.mutex ∧ (K.sleeperTick t).sem = K.sem ∧
      ∀ q, q ≠ .ready → q ≠ .sleep → (K.sleeperTick t).queue q = K.queue q := by
  by_cases h : K.due t
  · rw [sleeperTick_due h]
    refine ⟨rfl, rfl, rfl, rfl, fun q hr hs => ?_⟩
    simp [wake, pop, leave, join, setTask, emit, hr, hs]
  · rw [sleeperTick_not_due h]
    exact ⟨rfl, rfl, rfl, rfl, fun q _ _ => rfl⟩

lemma sleeperTick_trace (ht : t ∈ K.queue .sleep) :
    (K.sleeperTick t).trace =
      K.trace ++ ([t].filter K.due).map fun t => .listPop .sleepList (Queue.sleep.node t) true := by
  by_cases h : K.due t
  · rw [sleeperTick_due h]
    simp [wake, pop, leave, join, setTask, emit, Queue.list, h, ht]
  · rw [sleeperTick_not_due h]
    simp [setTask, h]

lemma sleeperTick_due_of_ne (h : u ≠ t) : (K.sleeperTick t).due u = K.due u := by
  rw [due, due, sleeperTick_task, if_neg h]

lemma filter_sleeperTick_due (hnot : t ∉ ts) :
    ts.filter (K.sleeperTick t).due = ts.filter K.due := by
  apply List.filter_congr
  intro u hu
  exact sleeperTick_due_of_ne (ne_of_mem_of_not_mem hu hnot)

/-- The sleepers still to visit keep their places while one has its turn. -/
lemma mem_sleeperTick_sleep (hnot : t ∉ ts) (hnd : (K.queue .sleep).Nodup)
    (hsub : ∀ u ∈ t :: ts, u ∈ K.queue .sleep) : ∀ u ∈ ts, u ∈ (K.sleeperTick t).queue .sleep := by
  intro u hu
  rw [sleeperTick_sleep hnd]
  simp [ne_of_mem_of_not_mem hu hnot, hsub u (List.mem_cons_of_mem t hu)]

lemma sleeperTick_nodup (hnd : (K.queue .sleep).Nodup) :
    ((K.sleeperTick t).queue .sleep).Nodup := by
  rw [sleeperTick_sleep hnd]
  exact hnd.filter _

/-! ### The pass over any of the sleepers, by induction on those still to visit -/

lemma pass_task (hts : ts.Nodup) :
    (ts.foldl sleeperTick K).task u = if u ∈ ts then K.slept u else K.task u := by
  induction ts generalizing K with
  | nil => rfl
  | cons t ts ih =>
    obtain ⟨hnot, hts⟩ := List.nodup_cons.mp hts
    rw [List.foldl_cons, ih hts]
    by_cases hu : u = t
    · subst hu
      simp [hnot, sleeperTick_task]
    · simp [hu, sleeperTick_task, slept, due]

lemma pass_sleep (hts : ts.Nodup) (hnd : (K.queue .sleep).Nodup) :
    (ts.foldl sleeperTick K).queue .sleep =
      (K.queue .sleep).filter fun u => !(decide (u ∈ ts) && K.due u) := by
  induction ts generalizing K with
  | nil => simp
  | cons t ts ih =>
    obtain ⟨hnot, hts⟩ := List.nodup_cons.mp hts
    rw [List.foldl_cons, ih hts (sleeperTick_nodup hnd), sleeperTick_sleep hnd,
      List.filter_filter]
    apply List.filter_congr
    intro u _
    by_cases hu : u = t
    · subst hu
      simp [hnot]
    · simp [hu, sleeperTick_due_of_ne hu]

lemma pass_ready (hts : ts.Nodup) :
    (ts.foldl sleeperTick K).queue .ready = K.queue .ready ++ ts.filter K.due := by
  induction ts generalizing K with
  | nil => simp
  | cons t ts ih =>
    obtain ⟨hnot, hts⟩ := List.nodup_cons.mp hts
    rw [List.foldl_cons, ih hts, sleeperTick_ready,
      filter_sleeperTick_due hnot, List.append_assoc,
      ← List.filter_append]
    rfl

lemma pass_trace (hts : ts.Nodup) (hnd : (K.queue .sleep).Nodup)
    (hsub : ∀ t ∈ ts, t ∈ K.queue .sleep) :
    (ts.foldl sleeperTick K).trace =
      K.trace ++ (ts.filter K.due).map fun t => .listPop .sleepList (Queue.sleep.node t) true := by
  induction ts generalizing K with
  | nil => simp
  | cons t ts ih =>
    obtain ⟨hnot, hts⟩ := List.nodup_cons.mp hts
    rw [List.foldl_cons, ih hts (sleeperTick_nodup hnd) (mem_sleeperTick_sleep hnot hnd hsub),
      sleeperTick_trace (hsub t List.mem_cons_self),
      filter_sleeperTick_due hnot, List.append_assoc, ← List.map_append,
      ← List.filter_append]
    rfl

lemma pass_rest (ts : List TaskPtr) (K : Core) :
    (ts.foldl sleeperTick K).tasks = K.tasks ∧ (ts.foldl sleeperTick K).curr = K.curr ∧
      (ts.foldl sleeperTick K).mutex = K.mutex ∧ (ts.foldl sleeperTick K).sem = K.sem ∧
      ∀ q, q ≠ .ready → q ≠ .sleep → (ts.foldl sleeperTick K).queue q = K.queue q := by
  induction ts generalizing K with
  | nil => exact ⟨rfl, rfl, rfl, rfl, fun _ _ _ => rfl⟩
  | cons t ts ih =>
    obtain ⟨h1, h2, h3, h4, h5⟩ := ih (K.sleeperTick t)
    obtain ⟨g1, g2, g3, g4, g5⟩ := sleeperTick_rest (K := K) (t := t)
    rw [List.foldl_cons]
    refine ⟨h1.trans g1, h2.trans g2, h3.trans g3, h4.trans g4, fun q hr hs => ?_⟩
    rw [h5 q hr hs, g5 q hr hs]

lemma pass_cpu (ts : List TaskPtr) (K : Core) : (ts.foldl sleeperTick K).toCpu = K.toCpu := by
  induction ts generalizing K with
  | nil => rfl
  | cons t ts ih =>
    rw [List.foldl_cons, ih, sleeperTick]
    split <;> rfl

lemma pass_moves (ts : List TaskPtr) (hts : ts.Nodup) (hnd : (K.queue .sleep).Nodup)
    (hsub : ∀ t ∈ ts, t ∈ K.queue .sleep) :
    Moves K.queue (ts.foldl sleeperTick K).queue := by
  induction ts generalizing K with
  | nil => exact .refl _
  | cons t ts ih =>
    obtain ⟨hnot, hts⟩ := List.nodup_cons.mp hts
    have hone : Moves K.queue (K.sleeperTick t).queue := by
      by_cases h : K.due t
      · rw [sleeperTick_due h]
        exact Moves.single (hsub t List.mem_cons_self)
      · rw [sleeperTick_not_due h]
        exact .refl _
    exact hone.trans (ih hts (sleeperTick_nodup hnd) (mem_sleeperTick_sleep hnot hnd hsub))

lemma sliceTick_cpu (K : Core) (c : TaskPtr) : (K.sliceTick c).toCpu = K.toCpu := by
  unfold sliceTick
  split
  · rfl
  · split <;> rfl

lemma sleepersTick_cpu (K : Core) : K.sleepersTick.toCpu = K.toCpu := pass_cpu _ K

/-- The pass in closed form: who still sleeps and who has become ready. -/
theorem sleepersTick_queue (hnd : (K.queue .sleep).Nodup) :
    K.sleepersTick.queue .sleep = (K.queue .sleep).filter (fun t => !K.due t) ∧
      K.sleepersTick.queue .ready = K.queue .ready ++ (K.queue .sleep).filter K.due := by
  refine ⟨?_, pass_ready hnd⟩
  rw [sleepersTick, pass_sleep hnd hnd]
  apply List.filter_congr
  intro t ht
  simp [ht]

theorem sleepersTick_task (hnd : (K.queue .sleep).Nodup) (u : TaskPtr) :
    K.sleepersTick.task u = if u ∈ K.queue .sleep then K.slept u else K.task u :=
  pass_task hnd

end Pass

section Tick

variable {K : Core} {c u : TaskPtr} {xs : List TaskPtr}

lemma sliceTick_ready (hr : K.queue .ready = c :: xs) (hidle : c ≠ .idleTask) :
    (K.sliceTick c).queue .ready =
      if (K.task c).sliceTicks = 1 then xs ++ [c] else c :: xs := by
  rw [sliceTick, if_neg hidle]
  split
  · simp [pop, leave, wake, join, setTask, emit, hr]
  · exact hr

lemma sliceTick_sleep (K : Core) (c : TaskPtr) :
    (K.sliceTick c).queue .sleep = K.queue .sleep := by
  unfold sliceTick
  split
  · rfl
  · split
    · simp [pop, leave, wake, join, setTask, emit]
    · rfl

lemma sliceTick_slice (hidle : c ≠ .idleTask) (hne : (K.task c).sliceTicks ≠ 1) :
    ((K.sliceTick c).task c).sliceTicks = (K.task c).sliceTicks - 1 := by
  rw [sliceTick, if_neg hidle, if_neg hne]
  simp [setTask]

lemma sliceTick_task (K : Core) (c u : TaskPtr) :
    ((K.sliceTick c).task u).sleepTicks = (K.task u).sleepTicks ∧
      ((K.sliceTick c).task u).tssSel = (K.task u).tssSel := by
  unfold sliceTick
  split
  · exact ⟨rfl, rfl⟩
  · by_cases hu : u = c
    · subst hu
      split <;> simp [pop, leave, wake, join, setTask, emit]
    · split <;> simp [pop, leave, wake, join, setTask, emit, hu]

lemma sliceTick_due (K : Core) (c : TaskPtr) : (K.sliceTick c).due = K.due := by
  funext u
  rw [due, due, (sliceTick_task K c u).1]

lemma tick_eq (hc : K.curr = some c) : K.tick = (K.sliceTick c).sleepersTick.dispatch := by
  rw [tick, hc]

lemma tick_ready (hnd : (K.queue .sleep).Nodup) (hc : K.curr = some c) :
    K.tick.queue .ready =
      (K.sliceTick c).queue .ready ++ (K.queue .sleep).filter K.due := by
  rw [← sliceTick_sleep K c] at hnd
  rw [tick_eq hc, dispatch_queue, (sleepersTick_queue hnd).2, sliceTick_sleep, sliceTick_due]

lemma tick_sleep (hnd : (K.queue .sleep).Nodup) (hc : K.curr = some c) :
    K.tick.queue .sleep = (K.queue .sleep).filter fun t => !K.due t := by
  rw [← sliceTick_sleep K c] at hnd
  rw [tick_eq hc, dispatch_queue, (sleepersTick_queue hnd).1, sliceTick_sleep, sliceTick_due]

lemma tick_slice (hnd : (K.queue .sleep).Nodup) (hc : K.curr = some c) (u : TaskPtr) :
    (K.tick.task u).sliceTicks = ((K.sliceTick c).task u).sliceTicks := by
  rw [← sliceTick_sleep K c] at hnd
  rw [tick_eq hc, dispatch_task, sleepersTick_task hnd]
  split <;> rfl

lemma tick_sleepTicks (hnd : (K.queue .sleep).Nodup) (hc : K.curr = some c)
    (hu : u ∈ K.queue .sleep) : (K.tick.task u).sleepTicks = (K.task u).sleepTicks - 1 := by
  rw [← sliceTick_sleep K c] at hnd hu
  rw [tick_eq hc, dispatch_task, sleepersTick_task hnd, if_pos hu]
  simp only [slept, (sliceTick_task K c u).1]

end Tick

end Core

end OsToyI386
