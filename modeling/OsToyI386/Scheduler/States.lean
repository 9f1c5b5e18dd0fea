import OsToyI386.Scheduler.Invariant

/-!
# What the state fields say

Every operation keeps the states of the sleepers and of the ready tasks that do not run in
step with the queues, and none writes `TASK_WAITTING`. The running task is `TASK_RUNNING`
from the dispatch that switches to it until its slice ends with no other task ready.
-/

namespace OsToyI386

open Lib

namespace Core

/-- The states agree with the queues, the task `x` and the waiters aside. -/
structure Honest (K : Core) (x : Ctx) : Prop where
  sleep : ∀ t ∈ K.queue .sleep, (K.task t).state = .sleep
  ready : ∀ t ∈ K.queue .ready, x ≠ some t → (K.task t).state = .ready
  never : ∀ t ∈ K.tasks, (K.task t).state ≠ .waitting

namespace Honest

variable {K K' : Core} {x : Ctx} {t c : TaskPtr} {q : Queue}

lemma weaken (h : K.Honest none) : K.Honest x :=
  ⟨h.sleep, fun t ht _ => h.ready t ht (by simp), h.never⟩

lemma congr (h : K.Honest x) (hs : K'.queue .sleep = K.queue .sleep)
    (hr : K'.queue .ready = K.queue .ready) (hts : K'.tasks = K.tasks)
    (ht : ∀ u ∈ K.tasks ∪ K.queue .sleep ∪ K.queue .ready, (K'.task u).state = (K.task u).state) :
    K'.Honest x := by
  refine ⟨fun u hu => ?_, fun u hu hx => ?_, fun u hu => ?_⟩
  · rw [hs] at hu
    rw [ht u (by simp [hu])]
    exact h.sleep u hu
  · rw [hr] at hu
    rw [ht u (by simp [hu])]
    exact h.ready u hu hx
  · rw [hts] at hu
    rw [ht u (by simp [hu])]
    exact h.never u hu

lemma popReady (h : K.Honest (some t)) (hnd : (K.queue .ready).Nodup) :
    (K.pop .ready t).Honest none := by
  refine ⟨fun u hu => ?_, fun u hu _ => ?_, h.never⟩
  · exact h.sleep u (by simpa [pop, leave, emit] using hu)
  · have hu' : u ∈ (K.queue .ready).erase t := by simpa [pop, leave, emit] using hu
    obtain ⟨hne, hmem⟩ := (hnd.mem_erase_iff).mp hu'
    exact h.ready u hmem (fun he => hne (Option.some.inj he).symm)

lemma joinOther (h : K.Honest x) (hr : q ≠ .ready) (hs : q ≠ .sleep) : (K.join q t).Honest x :=
  h.congr (by simp [join, hs.symm]) (by simp [join, hr.symm]) rfl (fun _ _ => rfl)

lemma leaveOther (h : K.Honest x) (hr : q ≠ .ready) (hs : q ≠ .sleep) : (K.leave q t).Honest x :=
  h.congr (by simp [leave, hs.symm]) (by simp [leave, hr.symm]) rfl (fun _ _ => rfl)

lemma wake (h : K.Honest x) (ht : t ∉ K.queue .sleep) : (K.wake t).Honest x := by
  refine ⟨fun u hu => ?_, fun u hu hx => ?_, fun u hu => ?_⟩
  · have hu' : u ∈ K.queue .sleep := by simpa [Core.wake, join, setTask] using hu
    simpa [Core.wake, join, setTask, ne_of_mem_of_not_mem hu' ht] using h.sleep u hu'
  · by_cases hut : u = t
    · simp [Core.wake, join, setTask, hut]
    · have hu' : u ∈ K.queue .ready := by simpa [Core.wake, join, setTask, hut] using hu
      simpa [Core.wake, join, setTask, hut] using h.ready u hu' hx
  · by_cases hut : u = t
    · simp [Core.wake, join, setTask, hut]
    · simpa [Core.wake, join, setTask, hut] using h.never u hu

lemma retire (h : K.Honest x) (ht : t ∉ K.queue .ready) {n : Int} :
    ((K.setTask t { K.task t with sleepTicks := n, state := .sleep }).join .sleep t).Honest x := by
  refine ⟨fun u hu => ?_, fun u hu hx => ?_, fun u hu => ?_⟩
  · by_cases hut : u = t
    · simp [join, setTask, hut]
    · have hu' : u ∈ K.queue .sleep := by simpa [join, setTask, hut] using hu
      simpa [join, setTask, hut] using h.sleep u hu'
  · have hu' : u ∈ K.queue .ready := by simpa [join, setTask] using hu
    simpa [join, setTask, ne_of_mem_of_not_mem hu' ht] using h.ready u hu' hx
  · by_cases hut : u = t
    · simp [join, setTask, hut]
    · simpa [join, setTask, hut] using h.never u hu

lemma dispatch (h : K.Honest (some K.head)) (hawake : K.head ∉ K.queue .sleep) :
    K.dispatch.Honest K.dispatch.curr := by
  have hother : ∀ u, u ≠ K.head → (K.dispatch.task u).state = (K.task u).state := by
    intro u hu
    unfold Core.dispatch
    split
    · rfl
    · split <;> simp [hu]
  have hhead : (K.dispatch.task K.head).state = (K.task K.head).state ∨
      (K.dispatch.task K.head).state = .running := by
    unfold Core.dispatch
    split
    · exact Or.inl rfl
    · split <;> simp
  rw [dispatch_curr]
  refine ⟨fun u hu => ?_, fun u hu hx => ?_, fun u hu => ?_⟩
  · rw [dispatch_queue] at hu
    rw [hother u (ne_of_mem_of_not_mem hu hawake)]
    exact h.sleep u hu
  · rw [dispatch_queue] at hu
    rw [hother u (fun he => hx (he ▸ rfl))]
    exact h.ready u hu hx
  · rw [dispatch_tasks] at hu
    by_cases hu' : u = K.head
    · subst hu'
      cases hhead with
      | inl hsame => exact hsame ▸ h.never _ hu
      | inr hrun => simp [hrun]
    · rw [hother u hu']
      exact h.never u hu

lemma sleepersTick (h : K.Honest x) (hnd : (K.queue .sleep).Nodup)
    (hapart : ∀ t ∈ K.queue .ready, t ∉ K.queue .sleep) : K.sleepersTick.Honest x := by
  have htask := sleepersTick_task hnd
  refine ⟨fun u hu => ?_, fun u hu hx => ?_, fun u hu => ?_⟩
  · rw [(sleepersTick_queue hnd).1] at hu
    obtain ⟨hmem, hdue⟩ := List.mem_filter.mp hu
    have hno : K.due u = false := by simpa using hdue
    rw [htask, if_pos hmem]
    simpa [slept, hno] using h.sleep u hmem
  · rw [(sleepersTick_queue hnd).2] at hu
    rw [htask]
    rcases List.mem_append.mp hu with hu | hu
    · rw [if_neg (hapart u hu)]
      exact h.ready u hu hx
    · obtain ⟨hmem, hdue⟩ := List.mem_filter.mp hu
      rw [if_pos hmem]
      simp [slept, hdue]
  · rw [Core.sleepersTick, (pass_rest _ _).1] at hu
    rw [htask]
    split
    · by_cases hdue : K.due u = true
      · simp [slept, hdue]
      · simpa [slept, hdue] using h.never u hu
    · exact h.never u hu

end Honest

lemma Sound.head_awake {K : Core} (h : K.Sound) : K.head ∉ K.queue .sleep := by
  intro hs
  cases hr : K.queue .ready with
  | nil =>
    rw [head, hr] at hs
    exact h.placed.idle ((h.placed.placed _).mpr ⟨_, hs⟩)
  | cons t ts =>
    rw [head, hr] at hs
    have ht : t ∈ K.queue .ready := by simp [hr]
    cases h.placed.apart.unique _ _ t ht hs

namespace Inv

variable {K : Core} {m : MutexPtr} {p : SemPtr} {t c : TaskPtr} {a : Act}

lemma awake (h : K.Inv) (hc : K.curr = some c) : c ∉ K.queue .sleep :=
  h.running c hc ▸ h.head_awake

lemma honest_block (h : K.Inv) (hK : K.Honest K.curr) (hc : K.curr = some t)
    (hidle : K.curr ≠ some .idleTask) {q : Queue} (hr : q ≠ .ready) (hs : q ≠ .sleep) {e : Event}
    (hpop : ∀ l n, e ≠ .listPop l n false) (hret : ∀ u ret, e ≠ .initReturn u ret) :
    ((K.block t q).emit e).dispatch.Honest ((K.block t q).emit e).dispatch.curr := by
  have ht : t ∈ K.queue .ready := h.mem_ready hc (fun hi => hidle (hi ▸ hc))
  have hpopped : (K.pop .ready t).Honest none := (hc ▸ hK).popReady (h.placed.apart.nodup .ready)
  have hblocked : ((K.block t q).emit e).Honest none :=
    (hpopped.joinOther hr hs).congr rfl rfl rfl (fun _ _ => rfl)
  have hsound := h.toSound.shuffle ((Shuffles.block ht hs).trans (.emit hpop hret))
  exact hblocked.weaken.dispatch hsound.head_awake

lemma honest_lock (h : K.Inv) (hK : K.Honest K.curr) (hidle : K.curr ≠ some .idleTask) :
    (K.lock m).Honest (K.lock m).curr := by
  unfold Core.lock
  split
  · exact hK.congr rfl rfl rfl (fun _ _ => rfl)
  · split
    · exact hK.congr rfl rfl rfl (fun _ _ => rfl)
    · split
      · exact hK.congr rfl rfl rfl (fun _ _ => rfl)
      · rename_i t hc
        exact h.honest_block hK hc hidle (by simp) (by simp) (by simp) (by simp)

lemma honest_wait (h : K.Inv) (hK : K.Honest K.curr) (hidle : K.curr ≠ some .idleTask) :
    (K.wait p).Honest (K.wait p).curr := by
  unfold Core.wait
  split
  · exact hK.congr rfl rfl rfl (fun _ _ => rfl)
  · split
    · exact hK.congr rfl rfl rfl (fun _ _ => rfl)
    · rename_i t hc
      exact h.honest_block hK hc hidle (by simp) (by simp) (by simp) (by simp)

lemma honest_yield (h : K.Inv) (hK : K.Honest K.curr) (hidle : K.curr ≠ some .idleTask) :
    K.yield.Honest K.yield.curr := by
  unfold Core.yield
  split
  · split
    · exact hK.congr rfl rfl rfl (fun _ _ => rfl)
    · rename_i t hc
      have ht : t ∈ K.queue .ready := h.mem_ready hc (fun hi => hidle (hi ▸ hc))
      have hpopped := (hc ▸ hK).popReady (h.placed.apart.nodup .ready)
      have hawake : t ∉ (K.pop .ready t).queue .sleep := by
        simpa [pop, leave, emit] using h.awake hc
      exact (hpopped.wake hawake).weaken.dispatch (h.toSound.shuffle (.rotate ht)).head_awake
  · exact hK

lemma honest_rouse (h : K.Inv) (hK : K.Honest K.curr) {q : Queue} (hr : q ≠ .ready)
    (hs : q ≠ .sleep) (ht : t ∈ K.queue q) : ((K.leave q t).wake t).Honest K.curr := by
  apply (hK.leaveOther hr hs).wake
  intro hsleep
  have hsleep' : t ∈ K.queue .sleep := by simpa [leave, hs.symm] using hsleep
  exact hs (h.placed.apart.unique _ _ t ht hsleep')

lemma honest_notify (h : K.Inv) (hK : K.Honest K.curr) (hc : K.curr = some c)
    (hidle : K.curr ≠ some .idleTask) : (K.notify p).Honest (K.notify p).curr := by
  have hs : Shuffles K (K.emit (.semNotify p)) := .emit (by simp) (by simp)
  unfold Core.notify
  dsimp only
  split
  · exact hK.congr rfl rfl rfl (fun _ _ => rfl)
  · rename_i t ts hq
    have ht : t ∈ K.queue (.semWait p) := by
      have hq' : K.queue (.semWait p) = t :: ts := hq
      simp [hq']
    have hroused : ((((K.emit (.semNotify p)).leave (.semWait p) t).wake t).emit
        (.semPop t p)).Honest K.curr :=
      (h.honest_rouse hK (by simp) (by simp) ht).congr rfl rfl rfl (fun _ _ => rfl)
    have hshuffle := (hs.trans (.rouse ht (by simp))).trans
      (.emit (e := .semPop t p) (by simp) (by simp))
    obtain ⟨xs, hr⟩ := h.ready_cons hc (fun hi => hidle (hi ▸ hc))
    have hhead : ((((K.emit (.semNotify p)).leave (.semWait p) t).wake t).emit
        (.semPop t p)).head = c := by
      simp [head, Core.wake, join, leave, Core.setTask, emit, hr]
    apply Honest.dispatch
    · rw [hhead, ← hc]
      exact hroused
    · exact (h.toSound.shuffle hshuffle).head_awake

lemma honest_unlock (h : K.Inv) (hK : K.Honest K.curr) : (K.unlock m).Honest (K.unlock m).curr := by
  unfold Core.unlock
  split
  · exact hK.congr rfl rfl rfl (fun _ _ => rfl)
  · split
    · unfold handOver
      split
      · exact hK.congr rfl rfl rfl (fun _ _ => rfl)
      · rename_i t ts hq
        have ht : t ∈ K.queue (.mutexWait m) := by
          have hq' : K.queue (.mutexWait m) = t :: ts := hq
          simp [hq']
        exact (h.honest_rouse hK (by simp) (by simp) ht).congr rfl rfl rfl (fun _ _ => rfl)
    · exact hK.congr rfl rfl rfl (fun _ _ => rfl)

lemma honest_sleep (h : K.Inv) (hK : K.Honest K.curr) (hidle : K.curr ≠ some .idleTask)
    {n : Int} (hn : 1 ≤ n) : (K.sleep n).Honest (K.sleep n).curr := by
  unfold Core.sleep
  split
  · exact hK.congr rfl rfl rfl (fun _ _ => rfl)
  · rename_i t hc
    have ht : t ∈ K.queue .ready := h.mem_ready hc (fun hi => hidle (hi ▸ hc))
    have hnd := h.placed.apart.nodup .ready
    have hgone : t ∉ (K.pop .ready t).queue .ready := by
      simpa [pop, leave, emit] using hnd.not_mem_erase
    exact (((hc ▸ hK).popReady hnd).retire hgone).weaken.dispatch
      (h.toSound.retire ht hn).head_awake

/-- After a tick of its slice the running task has gone to the end as a ready task, or it is
still the first. -/
lemma honest_sliceTick (h : K.Inv) (hK : K.Honest K.curr) (hc : K.curr = some c) :
    (K.sliceTick c).Honest none ∨
      (K.sliceTick c).Honest (some c) ∧ ∃ xs, (K.sliceTick c).queue .ready = c :: xs := by
  rw [hc] at hK
  have hset : ∀ n, (K.setTask c { K.task c with sliceTicks := n }).Honest (some c) := by
    intro n
    refine hK.congr rfl rfl rfl (fun u _ => ?_)
    by_cases hu : u = c <;> simp [Core.setTask, hu]
  by_cases hidle : c = .idleTask
  · left
    rw [sliceTick, if_pos hidle]
    refine ⟨hK.sleep, fun t ht _ => hK.ready t ht ?_, hK.never⟩
    rintro ⟨⟩
    exact h.idle_not_mem .ready (hidle ▸ ht)
  · rw [sliceTick, if_neg hidle]
    split
    · left
      apply Honest.wake
      · exact (hset _).popReady (h.placed.apart.nodup .ready)
      · simpa [pop, leave, emit, Core.setTask] using h.awake hc
    · exact Or.inr ⟨hset _, h.ready_cons hc hidle⟩

lemma honest_tick (h : K.Inv) (hK : K.Honest K.curr) (hc : K.curr = some c) :
    K.tick.Honest K.tick.curr := by
  have hslice := h.toSound.sliceTick (h.mem_ready hc)
  have hnd := hslice.placed.apart.nodup .sleep
  have hapart : ∀ t ∈ (K.sliceTick c).queue .ready, t ∉ (K.sliceTick c).queue .sleep := by
    intro t hr hs
    cases hslice.placed.apart.unique _ _ t hr hs
  rw [tick_eq hc]
  refine Honest.dispatch ?_ hslice.sleepersTick.head_awake
  cases h.honest_sliceTick hK hc with
  | inl hrotated => exact (hrotated.sleepersTick hnd hapart).weaken
  | inr hfirst =>
    obtain ⟨hstay, xs, hr⟩ := hfirst
    have hhead : (K.sliceTick c).sleepersTick.head = c := by
      simp [head, (sleepersTick_queue hnd).2, hr]
    rw [hhead]
    exact hstay.sleepersTick hnd hapart

/-- Every action keeps the states in step. -/
theorem honest_exec (h : K.Inv) (hK : K.Honest K.curr) (he : K.Enabled a) :
    (K.exec a).Honest (K.exec a).curr := by
  have hoff : K.off.Honest K.off.curr := hK.congr rfl rfl rfl (fun _ _ => rfl)
  have hsame : ∀ f, (K.cpu f).Honest (K.cpu f).curr :=
    fun _ => hK.congr rfl rfl rfl (fun _ _ => rfl)
  have hfields : ∀ t x, t ∉ K.tasks → (K.setTask t x).Honest (K.setTask t x).curr := by
    intro t x hnew
    have hother : ∀ q, ∀ u ∈ K.queue q, u ≠ t := fun q u hu hut =>
      hnew (hut ▸ (h.placed.placed u).mpr ⟨q, hu⟩)
    refine hK.congr rfl rfl rfl (fun u hu => ?_)
    have hut : u ≠ t := by
      simp only [List.mem_union_iff] at hu
      rcases hu with (hu | hu) | hu
      · exact ne_of_mem_of_not_mem hu hnew
      · exact hother _ u hu
      · exact hother _ u hu
    simp [Core.setTask, hut]
  cases a with
  | nop => exact hK
  | note e => exact hK.congr rfl rfl rfl (fun _ _ => rfl)
  | ret e => exact hK.congr rfl rfl rfl (fun _ _ => rfl)
  | timer =>
    obtain ⟨c, hc⟩ := Option.ne_none_iff_exists'.mp he
    exact h.off.honest_tick hoff hc
  | lock m => exact h.off.honest_lock hoff he
  | unlock m => exact h.off.honest_unlock hoff
  | wait p => exact h.off.honest_wait hoff he.2
  | notify p =>
    obtain ⟨c, hc⟩ := Option.ne_none_iff_exists'.mp he.1
    exact h.off.honest_notify hoff hc he.2
  | count p => exact hsame _
  | sleep ms => exact h.off.honest_sleep hoff he.2 (by rw [sleepTicksOf_toInt]; omega)
  | yield => exact h.off.honest_yield hoff he.2
  | dispatch =>
    obtain ⟨c, hc⟩ := Option.ne_none_iff_exists'.mp he
    have hhead : K.curr = some K.head := by rw [hc, h.running c hc]
    exact Honest.dispatch (hhead ▸ hK) h.head_awake
  | enable => exact hsame _
  | disable => exact hsame _
  | claim i => exact hsame _
  | segSet sel base limit attr => exact hsame _
  | fill sel r =>
    refine hK.congr rfl rfl rfl (fun u _ => ?_)
    by_cases hu : u = r.task <;> simp [Core.exec, Core.setTask, Core.cpu, hu]
  | fields r => exact hfields _ _ he
  | ready t =>
    have hawake : t ∉ K.off.queue .sleep := fun hs => he.1 ((h.placed.placed t).mpr ⟨_, hs⟩)
    have hwoken : (K.off.wake t).Honest K.curr := hoff.wake hawake
    refine ⟨hwoken.sleep, hwoken.ready, fun u hu => ?_⟩
    rcases List.mem_append.mp hu with hu | hu
    · exact hwoken.never u hu
    · simp [Core.exec, Core.create, Core.wake, join, Core.setTask, List.mem_singleton.mp hu]
  | writeTr => exact hsame _
  | becomeMain =>
    rw [he.1] at hK
    exact Honest.weaken ⟨hK.sleep, hK.ready, hK.never⟩
  | outb b => exact hK.congr rfl rfl rfl (fun _ _ => rfl)

end Inv

section Turn

variable {K L : Core} {c : TaskPtr} {a : Act}

lemma dispatch_switch (hne : L.curr ≠ some c) (hc : L.dispatch.curr = some c)
    (hidle : c ≠ .idleTask) : (L.dispatch.task c).state = .running := by
  rw [dispatch_curr] at hc
  obtain rfl : L.head = c := Option.some.inj hc
  have hr : L.queue .ready ≠ [] := by
    intro hr
    exact hidle (by simp [head, hr])
  unfold dispatch
  rw [if_neg hne, if_neg hr]
  simp

lemma dispatch_stay (hc : L.curr = some c) (hc' : L.dispatch.curr = some c) :
    L.dispatch.task c = L.task c := by
  rw [dispatch_curr] at hc'
  unfold dispatch
  rw [hc, hc', if_pos rfl]
  rfl

lemma exec_dispatches (he : K.Enabled a) :
    (∃ L : Core, K.exec a = L.dispatch ∧ L.curr = K.curr) ∨ (K.exec a).curr = K.curr ∨
      a = .becomeMain := by
  have htick : ∀ c, K.curr = some c → (K.off.sliceTick c).sleepersTick.curr = K.curr := by
    intro c hc
    rw [sleepersTick, (pass_rest _ _).2.1]
    unfold sliceTick
    split
    · rfl
    · split <;> rfl
  cases a with
  | timer =>
    obtain ⟨c, hc⟩ := Option.ne_none_iff_exists'.mp he
    exact Or.inl ⟨_, tick_eq hc, htick c hc⟩
  | lock m =>
    simp only [exec, lock]
    split
    · exact Or.inr (Or.inl rfl)
    · split
      · exact Or.inr (Or.inl rfl)
      · split
        · exact Or.inr (Or.inl rfl)
        · exact Or.inl ⟨_, rfl, rfl⟩
  | unlock m =>
    simp only [exec, unlock]
    split
    · exact Or.inr (Or.inl rfl)
    · split
      · unfold handOver
        split <;> exact Or.inr (Or.inl rfl)
      · exact Or.inr (Or.inl rfl)
  | wait p =>
    simp only [exec, wait]
    split
    · exact Or.inr (Or.inl rfl)
    · split
      · exact Or.inr (Or.inl rfl)
      · exact Or.inl ⟨_, rfl, rfl⟩
  | notify p =>
    simp only [exec, notify]
    split
    · exact Or.inr (Or.inl rfl)
    · exact Or.inl ⟨_, rfl, rfl⟩
  | sleep ms =>
    simp only [exec, sleep]
    split
    · exact Or.inr (Or.inl rfl)
    · exact Or.inl ⟨_, rfl, rfl⟩
  | yield =>
    simp only [exec, yield]
    split
    · split
      · exact Or.inr (Or.inl rfl)
      · exact Or.inl ⟨_, rfl, rfl⟩
    · exact Or.inr (Or.inl rfl)
  | dispatch => exact Or.inl ⟨K, rfl, rfl⟩
  | becomeMain => exact Or.inr (Or.inr rfl)
  | _ => exact Or.inr (Or.inl rfl)

/-- The task that a step switches to is `TASK_RUNNING`. -/
theorem exec_switch (he : K.Enabled a) (ha : a ≠ .becomeMain) (hne : K.curr ≠ some c)
    (hc : (K.exec a).curr = some c) (hidle : c ≠ .idleTask) :
    ((K.exec a).task c).state = .running := by
  rcases exec_dispatches he with ⟨L, hL, hcurr⟩ | hsame | hmain
  · rw [hL] at hc ⊢
    exact dispatch_switch (hcurr ▸ hne) hc hidle
  · exact absurd (hsame ▸ hc) hne
  · exact absurd hmain ha

/-- The task's slice ends with this action and no other task is ready. -/
def slipsBy (K : Core) (c : TaskPtr) (a : Act) : Prop :=
  a = .timer ∧ K.queue .ready = [c] ∧ (K.task c).sliceTicks = 1

lemma Inv.block_away (h : K.Inv) (hc : K.curr = some c) (hidle : c ≠ .idleTask) {L : Core}
    (hL : L.queue .ready = (K.queue .ready).drop 1) : L.dispatch.curr ≠ some c := by
  obtain ⟨xs, hr⟩ := h.ready_cons hc hidle
  have hnd := h.placed.apart.nodup .ready
  rw [hr] at hL hnd
  rw [dispatch_curr, head, hL]
  intro hhead
  cases xs with
  | nil => exact hidle (Option.some.inj hhead).symm
  | cons x xs =>
    have hx : x = c := Option.some.inj hhead
    simp [hx] at hnd

lemma Inv.tick_turn (h : K.Inv) (hc : K.curr = some c) (hidle : c ≠ .idleTask)
    (hc' : K.tick.curr = some c) :
    if (K.task c).sliceTicks = 1 then
      K.queue .ready = [c] ∧ (K.tick.task c).state = .ready
    else (K.tick.task c).state = (K.task c).state := by
  obtain ⟨xs, hr⟩ := h.ready_cons hc hidle
  have hnd := h.placed.apart.nodup .sleep
  have hhead : K.tick.head = c := by
    rw [tick_eq hc, dispatch_curr] at hc'
    rw [tick_eq hc, head_congr (congrFun (dispatch_queue _) _)]
    exact Option.some.inj hc'
  have hcurr : (K.sliceTick c).sleepersTick.curr = some c := by
    rw [sleepersTick, (pass_rest _ _).2.1]
    unfold sliceTick
    split
    · exact hc
    · split <;> exact hc
  have htask : K.tick.task c = (K.sliceTick c).task c := by
    have hawake : c ∉ (K.sliceTick c).queue .sleep := sliceTick_sleep K c ▸ h.awake hc
    rw [← sliceTick_sleep K c] at hnd
    rw [tick_eq hc] at hc' ⊢
    rw [dispatch_stay hcurr hc', sleepersTick_task hnd, if_neg hawake]
  rw [head, tick_ready hnd hc, sliceTick_ready hr hidle] at hhead
  rw [htask, sliceTick, if_neg hidle]
  split
  · rename_i hlast
    refine ⟨?_, by simp [wake, join, Core.setTask]⟩
    rw [if_pos hlast] at hhead
    cases xs with
    | nil => exact hr
    | cons x xs =>
      have hx : x = c := by simpa using hhead
      have hnodup := h.placed.apart.nodup .ready
      simp [hr, hx] at hnodup
  · simp [Core.setTask]

section Calls

variable {m : MutexPtr} {p : SemPtr} {t : TaskPtr} {ts : List TaskPtr} {q : Queue}

lemma Inv.ne_waiter (h : K.Inv) (hc : K.curr = some c) (hidle : c ≠ .idleTask) (hq : q ≠ .ready)
    (ht : t ∈ K.queue q) : c ≠ t := by
  rintro rfl
  exact hq (h.placed.apart.unique _ _ c ht (h.mem_ready hc hidle))

lemma Inv.unlock_turn (h : K.Inv) (hc : K.curr = some c) (hidle : c ≠ .idleTask) :
    ((K.exec (.unlock m)).task c).state = (K.task c).state := by
  simp only [Core.exec, unlock]
  split
  · rfl
  · split
    · unfold handOver
      split
      · rfl
      · rename_i t ts hq
        have hq' : K.queue (.mutexWait m) = t :: ts := hq
        have ht : c ≠ t := h.ne_waiter hc hidle (q := .mutexWait m) (by simp) (by simp [hq'])
        simp [wake, join, leave, emit, setMutex, Core.setTask, ht, Core.off, Core.cpu]
    · rfl

lemma Inv.notify_turn (h : K.Inv) (hc : K.curr = some c) (hidle : c ≠ .idleTask)
    (hc' : (K.exec (.notify p)).curr = some c) :
    ((K.exec (.notify p)).task c).state = (K.task c).state := by
  revert hc'
  simp only [Core.exec, notify]
  split
  · exact fun _ => rfl
  · rename_i t ts hq
    intro hc'
    have hq' : K.queue (.semWait p) = t :: ts := hq
    have ht : c ≠ t := h.ne_waiter hc hidle (q := .semWait p) (by simp) (by simp [hq'])
    refine (congrArg Task.state (dispatch_stay ?_ hc')).trans ?_
    · exact hc
    · simp [wake, join, leave, emit, Core.setTask, ht, Core.off, Core.cpu]

lemma Inv.yield_turn (h : K.Inv) (hc : K.curr = some c) (hidle : c ≠ .idleTask)
    (hc' : (K.exec .yield).curr = some c) :
    ((K.exec .yield).task c).state = (K.task c).state := by
  obtain ⟨xs, hr⟩ := h.ready_cons hc hidle
  have hoff : K.off.curr = some c := hc
  revert hc'
  simp only [Core.exec, yield, hoff]
  split
  · rename_i hlen
    intro hc'
    exfalso
    cases xs with
    | nil =>
      have hr' : K.off.queue .ready = [c] := hr
      simp [hr'] at hlen
    | cons x xs =>
      have hnodup := h.placed.apart.nodup .ready
      have hx : x = c := by
        simpa [dispatch_curr, head, wake, pop, leave, join, emit, Core.setTask, Core.off,
          Core.cpu, hr] using hc'
      simp [hr, hx] at hnodup
  · exact fun _ => rfl

end Calls

lemma Inv.exec_stay (h : K.Inv) (he : K.Enabled a) (hc : K.curr = some c)
    (hidle : c ≠ .idleTask) (hc' : (K.exec a).curr = some c) (ha : a ≠ .timer) :
    ((K.exec a).task c).state = (K.task c).state := by
  obtain ⟨xs, hr⟩ := h.ready_cons hc hidle
  have hoff : K.off.curr = some c := hc
  have htasks : c ∈ K.tasks := (h.placed.placed c).mpr ⟨.ready, by simp [hr]⟩
  have haway : ∀ L : Core, K.exec a = L.dispatch →
      L.queue .ready = (K.queue .ready).drop 1 → False := by
    intro L hL hq
    exact h.off.block_away hoff hidle hq (hL ▸ hc')
  cases a with
  | timer => exact absurd rfl ha
  | unlock m => exact h.unlock_turn hc hidle
  | notify p => exact h.notify_turn hc hidle hc'
  | yield => exact h.yield_turn hc hidle hc'
  | lock m =>
    revert haway
    simp only [Core.exec, lock, hoff]
    split
    · exact fun _ => rfl
    · split
      · exact fun _ => rfl
      · intro haway
        exact (haway _ rfl (by simp [block, pop, leave, join, emit, Core.off, Core.cpu, hr])).elim
  | wait p =>
    revert haway
    simp only [Core.exec, wait, hoff]
    split
    · exact fun _ => rfl
    · intro haway
      exact (haway _ rfl (by simp [block, pop, leave, join, emit, Core.off, Core.cpu, hr])).elim
  | sleep ms =>
    revert haway
    simp only [Core.exec, Core.sleep, hoff]
    intro haway
    exact (haway _ rfl (by
      simp [pop, leave, join, emit, Core.setTask, Core.off, Core.cpu, hr])).elim
  | dispatch => rw [Core.exec, dispatch_stay hc hc']
  | fill sel r =>
    have hne : c ≠ r.task := ne_of_mem_of_not_mem htasks he
    simp [Core.exec, Core.setTask, Core.cpu, hne]
  | fields r =>
    have hne : c ≠ r.task := ne_of_mem_of_not_mem htasks he
    simp [Core.exec, Core.setTask, hne]
  | ready t =>
    have hne : c ≠ t := ne_of_mem_of_not_mem htasks he.1
    simp [Core.exec, Core.create, wake, join, Core.setTask, Core.off, Core.cpu, hne]
  | _ => rfl

/-- While a task keeps the processor its state changes only when its slice ends. -/
theorem Inv.exec_turn (h : K.Inv) (he : K.Enabled a) (hc : K.curr = some c)
    (hidle : c ≠ .idleTask) (hc' : (K.exec a).curr = some c) :
    (K.slipsBy c a → ((K.exec a).task c).state = .ready) ∧
      (¬ K.slipsBy c a → ((K.exec a).task c).state = (K.task c).state) := by
  by_cases ha : a = .timer
  · subst ha
    have htick : if (K.task c).sliceTicks = 1 then
        K.queue .ready = [c] ∧ ((K.exec .timer).task c).state = .ready
        else ((K.exec .timer).task c).state = (K.task c).state :=
      h.off.tick_turn hc hidle hc'
    refine ⟨fun hslip => ?_, fun hslip => ?_⟩
    · rw [if_pos hslip.2.2] at htick
      exact htick.2
    · by_cases hlast : (K.task c).sliceTicks = 1
      · rw [if_pos hlast] at htick
        exact absurd ⟨rfl, htick.1, hlast⟩ hslip
      · rw [if_neg hlast] at htick
        exact htick
  · exact ⟨fun hslip => absurd hslip.1 ha, fun _ => h.exec_stay he hc hidle hc' ha⟩

end Turn

end Core

end OsToyI386
