import OsToyI386.Lib.RoundRobin
import OsToyI386.Properties.Fairness
import OsToyI386.Properties.Sleep

/-!
# The ready queue in turns

Ticks serve the ready queue in turns, a slice each. A call that blocks or yields gives up
the rest of the caller's turn; every other call leaves the ready tasks in their order.
-/

namespace OsToyI386

open Lib

namespace Core

variable {K : Core} {t u c : TaskPtr} {a : Act} {S : Set TaskPtr}

/-- The ready queue with what is left of the slices. -/
def roundRobin (K : Core) (h : K.Inv) : RoundRobin TaskPtr taskTimeSliceDefault where
  queue := K.queue .ready
  left t := (K.task t).sliceTicks
  nodup := h.placed.apart.nodup .ready
  pos _ ht := (h.slice_of_ready ht).1
  le _ ht := (h.slice_of_ready ht).2

/-- The ready queue of `K'` is that of `K`, but newcomers may stand at its end, or the running
task `c` may be gone. -/
def LeavesReady (K K' : Core) (c : TaskPtr) : Prop :=
  (∃ xs, K'.queue .ready = K.queue .ready ++ xs) ∨ K'.queue .ready = (K.queue .ready).erase c

lemma LeavesReady.of_eq {K' : Core} (h : K'.queue .ready = K.queue .ready) :
    K.LeavesReady K' c := Or.inl ⟨[], by rw [h, List.append_nil]⟩

lemma block_ready {q : Queue} (hq : q ≠ .ready) :
    (K.block c q).queue .ready = (K.queue .ready).erase c := by
  simp [block, pop, leave, join, emit, hq.symm]

lemma rouse_ready {q : Queue} (hq : q ≠ .ready) :
    ((K.leave q t).wake t).queue .ready = K.queue .ready ++ [t] := by
  simp [wake, leave, join, setTask, hq.symm]

lemma lock_ready (m : MutexPtr) (hc : K.curr = some c) : K.LeavesReady (K.lock m) c := by
  unfold lock
  split
  · exact .of_eq rfl
  · split
    · exact .of_eq rfl
    · rw [hc]
      right
      rw [dispatch_queue]
      exact block_ready (q := .mutexWait m) (by simp)

lemma unlock_ready (m : MutexPtr) : K.LeavesReady (K.unlock m) c := by
  unfold unlock
  split
  · exact .of_eq rfl
  · split
    · unfold handOver
      split
      · exact .of_eq rfl
      · exact Or.inl ⟨_, rouse_ready (q := .mutexWait m) (by simp)⟩
    · exact .of_eq rfl

lemma wait_ready (p : SemPtr) (hc : K.curr = some c) : K.LeavesReady (K.wait p) c := by
  unfold wait
  split
  · exact .of_eq rfl
  · rw [hc]
    right
    rw [dispatch_queue]
    exact block_ready (q := .semWait p) (by simp)

lemma notify_ready (p : SemPtr) : K.LeavesReady (K.notify p) c := by
  unfold notify
  dsimp only
  split
  · exact .of_eq rfl
  · rename_i t _ _
    refine Or.inl ⟨[t], ?_⟩
    rw [dispatch_queue]
    exact rouse_ready (q := .semWait p) (by simp)

lemma yield_ready (hc : K.curr = some c) : K.LeavesReady K.yield c ∨
    K.yield.queue .ready = (K.queue .ready).erase c ++ [c] := by
  unfold yield
  split
  · rw [hc]
    right
    rw [dispatch_queue]
    simp [pop, wake, leave, join, emit, setTask]
  · exact Or.inl (.of_eq rfl)

/-- Apart from ticks, only the running task leaves its place in the ready queue, and only by
a yield does it join again. -/
lemma exec_ready (hc : K.curr = some c) (ha : a ≠ .timer) : K.LeavesReady (K.exec a) c ∨
    a = .yield ∧ (K.exec a).queue .ready = (K.queue .ready).erase c ++ [c] := by
  have hoff : K.off.curr = some c := hc
  cases a with
  | timer => exact absurd rfl ha
  | lock m => exact Or.inl (lock_ready (K := K.off) m hoff)
  | unlock m => exact Or.inl (unlock_ready (K := K.off) m)
  | wait p => exact Or.inl (wait_ready (K := K.off) p hoff)
  | notify p => exact Or.inl (notify_ready (K := K.off) p)
  | yield =>
    rcases yield_ready hoff with hleaves | hagain
    · exact Or.inl hleaves
    · exact Or.inr ⟨rfl, hagain⟩
  | sleep ms =>
    left
    right
    rw [exec, sleep, hoff]
    dsimp only
    rw [dispatch_queue]
    simp [pop, leave, join, emit, setTask, off, Core.cpu]
  | ready t =>
    left
    left
    exact ⟨[t], by simp [exec, create, wake, join, setTask, off, Core.cpu]⟩
  | dispatch => exact Or.inl (.of_eq (congrFun K.dispatch_queue .ready))
  | _ => exact Or.inl (.of_eq rfl)

lemma Inv.exec_slice (h : K.Inv) (he : K.Enabled a) (ha : a ≠ .timer) (hu : u ∈ K.queue .ready) :
    ((K.exec a).task u).sliceTicks = (K.task u).sliceTicks := by
  have htask : u ∈ K.tasks := (h.placed.placed u).mpr ⟨.ready, hu⟩
  by_cases hs : shuffling a = true
  · rw [(h.exec_settles he hs).task u]
  · cases a with
    | timer => exact absurd rfl ha
    | note e => rfl
    | becomeMain => rfl
    | sleep ms =>
      obtain ⟨c, hc⟩ := Option.ne_none_iff_exists'.mp he.1
      exact sleep_slice (K := K.off) hc _ u
    | fill sel r =>
      have hne : u ≠ r.task := fun hur => he (hur ▸ htask)
      simp [Core.exec, Core.setTask, Core.cpu, hne]
    | fields r =>
      have hne : u ≠ r.task := fun hur => he (hur ▸ htask)
      simp [Core.exec, Core.setTask, hne]
    | ready t =>
      have hne : u ≠ t := fun hut => he.1 (hut ▸ htask)
      simp [Core.exec, Core.create, wake, join, Core.setTask, Core.off, Core.cpu, hne]
    | _ => exact absurd rfl hs

lemma Inv.idle_ready (h : K.Inv) (hc : K.curr = some .idleTask) : K.queue .ready = [] := by
  have hhead := h.running _ hc
  cases hr : K.queue .ready with
  | nil => rfl
  | cons x xs =>
    have hx : TaskPtr.idleTask = x := by rw [hhead, head, hr]; rfl
    exact absurd (by rw [hr, hx]; exact List.mem_cons_self ..) (h.idle_not_mem .ready)

/-- No action but a tick serves anybody. Who waits for his next turn keeps his place. -/
lemma Inv.roundRobin_exec (h : K.Inv) (he : K.Enabled a) (hc : K.curr = some c)
    (ha : a ≠ .timer) (hS : c ∈ S → a ≠ .yield ∧ c ∈ (K.exec a).queue .ready) :
    RoundRobin.Step S (K.roundRobin h) none ((K.exec a).roundRobin (h.exec he)) := by
  have hslice : ∀ u ∈ K.queue .ready, ((K.exec a).task u).sliceTicks = (K.task u).sliceTicks :=
    fun u hu => h.exec_slice he ha hu
  have hpass : ∀ new, (K.exec a).queue .ready = (K.queue .ready).erase c ++ new → c ∉ S →
      RoundRobin.Step S (K.roundRobin h) none ((K.exec a).roundRobin (h.exec he)) := by
    intro new hready hcS
    by_cases hidle : c = .idleTask
    · have herase : (K.queue .ready).erase c = K.queue .ready := by
        rw [h.idle_ready (hidle ▸ hc)]
        rfl
      rw [herase] at hready
      exact .join hready hslice
    · obtain ⟨xs, hr⟩ := h.ready_cons hc hidle
      rw [hr, List.erase_cons_head] at hready
      exact .pass hr hcS hready fun u hu => hslice u (hr ▸ List.mem_cons_of_mem c hu)
  rcases exec_ready hc ha with (⟨new, hready⟩ | hready) | ⟨rfl, hready⟩
  · exact .join hready hslice
  · refine hpass [] (by rw [hready, List.append_nil]) fun hcS => ?_
    have hmem := (hS hcS).2
    rw [hready] at hmem
    exact (h.placed.apart.nodup .ready).not_mem_erase hmem
  · exact hpass [c] hready fun hcS => (hS hcS).1 rfl

lemma Inv.roundRobin_tick (h : K.Inv) (hc : K.curr = some c) (hidle : c ≠ .idleTask) :
    RoundRobin.Step S (K.roundRobin h) (some c) (K.tick.roundRobin h.tick) := by
  obtain ⟨xs, hr⟩ := h.ready_cons hc hidle
  have hnd := h.placed.apart.nodup .sleep
  have hready := tick_ready hnd hc
  rw [sliceTick_ready hr hidle] at hready
  have hother : ∀ u ∈ xs, (K.tick.task u).sliceTicks = (K.task u).sliceTicks := by
    intro u hu
    have hne : u ≠ c := by
      rintro rfl
      have hready := h.placed.apart.nodup .ready
      rw [hr] at hready
      exact (List.nodup_cons.mp hready).1 hu
    rw [tick_slice hnd hc, sliceTick, if_neg hidle]
    split <;> simp [pop, leave, wake, join, Core.setTask, emit, hne]
  by_cases h1 : (K.task c).sliceTicks = 1
  · rw [if_pos h1] at hready
    refine .expire hr h1 hready ?_ hother
    have htime := (h.slice c ((h.placed.placed c).mpr ⟨.ready, by simp [hr]⟩)).2.2
    refine (tick_slice hnd hc c).trans ?_
    rw [sliceTick, if_neg hidle, if_pos h1]
    simp [pop, leave, wake, join, Core.setTask, emit, htime]
  · rw [if_neg h1, ← hr] at hready
    refine .serve hr h1 hready ?_ hother
    exact (tick_slice hnd hc c).trans (sliceTick_slice hidle h1)

lemma Inv.roundRobin_idle (h : K.Inv) (hc : K.curr = some .idleTask) :
    RoundRobin.Step S (K.roundRobin h) none (K.tick.roundRobin h.tick) := by
  have hnil := h.idle_ready hc
  have hqueue : K.tick.queue .ready = K.queue .ready ++ K.tick.queue .ready := by
    rw [hnil, List.nil_append]
  refine .join hqueue fun u hu => ?_
  have hu' : u ∈ K.queue .ready := hu
  rw [hnil] at hu'
  cases hu'

end Core

end OsToyI386
