import OsToyI386.Scheduler.Tick

/-!
# The invariant of the queues

Each task created stands in exactly one queue, the running task is the head of the ready
queue, slices and sleeps are in range, and nothing is ever popped off a list it is not in.
Most operations only shuffle tasks between queues; the invariant follows for all of them
at once.
-/

namespace OsToyI386

open Lib

/-- The notes that the code between the protected sections leaves. -/
def Event.isNote : Event → Bool
  | .allocReturn _ _ => true
  | .initReturn _ _ => true
  | .logBegin _ _ => true
  | .logEnd _ _ => true
  | _ => false

namespace Core

/-- Which actions are taken in which states. -/
def Enabled (K : Core) : Act → Prop
  | .note e => e.isNote ∧ ∀ t, e = .initReturn t 0 → t ∈ K.tasks ∨ t = .idleTask
  | .timer => K.curr ≠ none
  | .dispatch => K.curr ≠ none
  | .enable => K.curr ≠ none
  | .notify _ => K.curr ≠ none ∧ K.curr ≠ some .idleTask
  | .lock _ => K.curr ≠ some .idleTask
  | .unlock _ => K.curr ≠ some .idleTask
  | .wait _ => K.curr ≠ none ∧ K.curr ≠ some .idleTask
  | .sleep _ => K.curr ≠ none ∧ K.curr ≠ some .idleTask
  | .yield => K.curr ≠ none ∧ K.curr ≠ some .idleTask
  | .fill _ r => r.task ∉ K.tasks
  | .fields r => r.task ∉ K.tasks
  | .ready t =>
    t ∉ K.tasks ∧ t ≠ .idleTask ∧ K.curr ≠ some .idleTask ∧ (K.curr = none → t = .mainTask) ∧
      (K.task t).sliceTicks = taskTimeSliceDefault ∧ (K.task t).timeTicks = taskTimeSliceDefault
  | .becomeMain => K.curr = none ∧ K.queue .ready = [.mainTask]
  | .nop | .ret _ | .count _ | .disable | .claim _ | .segSet _ _ _ _ | .writeTr
  | .outb _ => True

/-- Each task created stands in exactly one queue, the idle task in none. -/
structure Placed (K : Core) : Prop where
  apart : Apart K.queue
  nodup : K.tasks.Nodup
  placed : ∀ t, t ∈ K.tasks ↔ ∃ q, t ∈ K.queue q
  idle : .idleTask ∉ K.tasks

/-- Before `curr_task` is set nothing but the main task can be queued. -/
structure AtBoot (K : Core) : Prop where
  others : ∀ q, q ≠ .ready → K.queue q = []
  ready : ∀ t ∈ K.queue .ready, t = .mainTask
  owner : ∀ m, (K.mutex m).owner = none

/-- What holds also while the running task is about to change. -/
structure Sound (K : Core) : Prop where
  placed : K.Placed
  slice : ∀ t ∈ K.tasks, 1 ≤ (K.task t).sliceTicks ∧ (K.task t).sliceTicks ≤ taskTimeSliceDefault ∧
    (K.task t).timeTicks = taskTimeSliceDefault
  asleep : ∀ t ∈ K.queue .sleep, 1 ≤ (K.task t).sleepTicks
  pops : ∀ l n found, .listPop l n found ∈ K.trace → found = true
  returned : ∀ t, .initReturn t 0 ∈ K.trace → t ≠ .idleTask → t ∈ K.tasks

structure Inv (K : Core) : Prop extends Sound K where
  running : ∀ c, K.curr = some c → c = K.head
  boot : K.curr = none → K.AtBoot

/-- `K'` comes from `K` by moving queued tasks to queues other than the sleep queue; of
the tasks only the states may differ. -/
structure Shuffles (K K' : Core) : Prop where
  moves : Moves K.queue K'.queue
  tasks : K'.tasks = K.tasks
  task : ∀ t, K'.task t = { K.task t with state := (K'.task t).state }
  sleep : K'.queue .sleep = K.queue .sleep
  pops : ∀ l n found, .listPop l n found ∈ K'.trace → found = true ∨ .listPop l n found ∈ K.trace
  returned : ∀ t ret, .initReturn t ret ∈ K'.trace → .initReturn t ret ∈ K.trace

/-- A shuffle that ends with the right task running. At most the head leaves the ready
queue, and newcomers join at its end. -/
structure Settles (K K' : Core) : Prop extends Shuffles K K' where
  running : ∀ c, K'.curr = some c → c = K'.head
  curr : K'.curr = none ↔ K.curr = none
  boot : K'.curr = none → K'.AtBoot
  ready : ∃ n xs, n ≤ 1 ∧ K'.queue .ready = (K.queue .ready).drop n ++ xs

namespace Shuffles

variable {K K' K'' : Core} {t : TaskPtr} {q : Queue}

lemma refl (K : Core) : Shuffles K K :=
  ⟨.refl _, rfl, fun _ => rfl, rfl, fun _ _ _ h => Or.inr h, fun _ _ h => h⟩

lemma trans (h : Shuffles K K') (h' : Shuffles K' K'') : Shuffles K K'' := by
  refine ⟨h.moves.trans h'.moves, h'.tasks.trans h.tasks, fun t => ?_, h'.sleep.trans h.sleep,
    fun l n found he => ?_, fun t ret he => ?_⟩
  · rw [h'.task t, h.task t]
  · rcases h'.pops l n found he with htrue | he
    · exact Or.inl htrue
    · exact h.pops l n found he
  · exact h.returned t ret (h'.returned t ret he)

lemma of_queue (hq : K'.queue = K.queue) (hts : K'.tasks = K.tasks)
    (ht : ∀ t, K'.task t = { K.task t with state := (K'.task t).state })
    (htr : K'.trace = K.trace) : Shuffles K K' :=
  ⟨hq ▸ .refl _, hts, ht, hq ▸ rfl, fun _ _ _ h => Or.inr (htr ▸ h),
    fun _ _ h => htr ▸ h⟩

lemma setMutex (m : MutexPtr) (x : ReinMutex) : Shuffles K (K.setMutex m x) :=
  of_queue rfl rfl (fun _ => rfl) rfl

lemma setSem (p : SemPtr) (x : Int) : Shuffles K (K.setSem p x) :=
  of_queue rfl rfl (fun _ => rfl) rfl

lemma cpu (f : Cpu → Cpu) : Shuffles K (K.cpu f) :=
  of_queue rfl rfl (fun _ => rfl) rfl

lemma dispatch : Shuffles K K.dispatch :=
  of_queue K.dispatch_queue K.dispatch_tasks K.dispatch_task K.dispatch_trace

lemma emit {e : Event} (hpop : ∀ l n, e ≠ .listPop l n false)
    (hret : ∀ t ret, e ≠ .initReturn t ret) : Shuffles K (K.emit e) := by
  refine ⟨.refl _, rfl, fun _ => rfl, rfl, fun l n found h => ?_, fun t ret h => ?_⟩
  · rcases List.mem_append.mp h with h | h
    · exact Or.inr h
    · cases found with
      | true => exact Or.inl rfl
      | false => exact absurd (List.mem_singleton.mp h).symm (hpop l n)
  · rcases List.mem_append.mp h with h | h
    · exact h
    · exact absurd (List.mem_singleton.mp h).symm (hret t ret)

lemma block (ht : t ∈ K.queue .ready) (hq : q ≠ .sleep) : Shuffles K (K.block t q) := by
  refine ⟨.single ht, rfl, fun _ => rfl, ?_, fun l n found h => ?_, fun u ret h => ?_⟩
  · simp [Core.block, pop, leave, join, Core.emit, Function.update_of_ne hq.symm]
  · rcases List.mem_append.mp h with h | h
    · exact Or.inr h
    · left
      rw [List.mem_singleton] at h
      simp_all
  · rcases List.mem_append.mp h with h | h
    · exact h
    · simp at h

lemma setState (t : TaskPtr) (x : TaskState) :
    Shuffles K (K.setTask t { K.task t with state := x }) := by
  refine of_queue rfl rfl (fun u => ?_) rfl
  by_cases hu : u = t
  · subst hu
    simp [setTask]
  · simp [setTask, hu]

lemma rotate (ht : t ∈ K.queue .ready) : Shuffles K ((K.pop .ready t).wake t) :=
  (block ht (by simp)).trans (setState t .ready)

lemma rouse (ht : t ∈ K.queue q) (hq : q ≠ .sleep) : Shuffles K ((K.leave q t).wake t) := by
  have hmove : Shuffles K ((K.leave q t).join .ready t) := by
    refine ⟨.single ht, rfl, fun _ => rfl, ?_, fun _ _ _ h => Or.inr h, fun _ _ h => h⟩
    simp [leave, join, Function.update_of_ne hq.symm]
  exact hmove.trans (setState t .ready)

end Shuffles

namespace Sound

variable {K K' : Core} {t c : TaskPtr}

lemma shuffle (h : K.Sound) (hs : Shuffles K K') : K'.Sound := by
  refine ⟨⟨h.placed.apart.moves hs.moves, hs.tasks ▸ h.placed.nodup, fun t => ?_,
    hs.tasks ▸ h.placed.idle⟩, fun t ht => ?_, fun t ht => ?_, fun l n found he => ?_,
    fun t he hidle => ?_⟩
  · rw [hs.tasks, h.placed.placed, hs.moves.exists_mem]
  · rw [hs.task t]
    exact h.slice t (hs.tasks ▸ ht)
  · rw [hs.task t]
    exact h.asleep t (hs.sleep ▸ ht)
  · rcases hs.pops l n found he with htrue | he
    · exact htrue
    · exact h.pops l n found he
  · rw [hs.tasks]
    exact h.returned t (hs.returned t 0 he) hidle

lemma dispatch (h : K.Sound) : K.dispatch.Inv := by
  refine ⟨h.shuffle .dispatch, fun c hc => ?_, fun hc => ?_⟩
  · rw [dispatch_curr] at hc
    rw [head_congr (congrFun K.dispatch_queue .ready)]
    exact (Option.some.inj hc).symm
  · simp [dispatch_curr] at hc

lemma retire (h : K.Sound) (ht : t ∈ K.queue .ready) {n : Int} (hn : 1 ≤ n) :
    (((K.pop .ready t).setTask t
      { (K.pop .ready t).task t with sleepTicks := n, state := .sleep }).join .sleep t).Sound := by
  refine ⟨⟨h.placed.apart.moveTo ht, h.placed.nodup, fun u => ?_, h.placed.idle⟩,
    fun u hu => ?_, fun u hu => ?_, fun l n found he => ?_, fun u he => ?_⟩
  · exact (h.placed.placed u).trans (exists_mem_moveTo ht).symm
  · by_cases hut : u = t
    · subst hut
      simpa [join, setTask, pop_task] using h.slice u hu
    · simpa [join, setTask, pop_task, hut] using h.slice u hu
  · by_cases hut : u = t
    · subst hut
      simpa [join, setTask] using hn
    · have hu' : u ∈ K.queue .sleep := by
        simpa [join, setTask, pop, leave, emit, hut] using hu
      simpa [join, setTask, hut, pop, leave, emit] using h.asleep u hu'
  · rcases List.mem_append.mp he with he | he
    · exact h.pops l n found he
    · rw [List.mem_singleton] at he
      simp_all
  · rcases List.mem_append.mp he with he | he
    · exact h.returned u he
    · simp at he

lemma sliceTick (h : K.Sound) (hc : c ≠ .idleTask → c ∈ K.queue .ready) :
    (K.sliceTick c).Sound := by
  unfold Core.sliceTick
  split
  · exact h
  · rename_i hidle
    have hmem := hc hidle
    have hts : c ∈ K.tasks := (h.placed.placed c).mpr ⟨_, hmem⟩
    obtain ⟨hlo, hhi, htime⟩ := h.slice c hts
    have hset : ∀ n, 1 ≤ n → n ≤ taskTimeSliceDefault →
        (K.setTask c { K.task c with sliceTicks := n }).Sound := by
      intro n hn1 hn2
      refine ⟨⟨h.placed.apart, h.placed.nodup, h.placed.placed, h.placed.idle⟩,
        fun u hu => ?_, fun u hu => ?_, h.pops, h.returned⟩
      · by_cases huc : u = c
        · subst huc
          simpa [setTask] using ⟨hn1, hn2, htime⟩
        · simpa [setTask, huc] using h.slice u hu
      · by_cases huc : u = c
        · subst huc
          simpa [setTask] using h.asleep u hu
        · simpa [setTask, huc] using h.asleep u hu
    split
    · refine (hset _ ?_ ?_).shuffle (.rotate hmem)
      · rw [htime]
        decide
      · exact Int.le_of_eq htime
    · exact hset _ (by omega) (by omega)

lemma sleepersTick (h : K.Sound) : K.sleepersTick.Sound := by
  have hnd := h.placed.apart.nodup .sleep
  obtain ⟨htasks, -, -, -, -⟩ := pass_rest (K.queue .sleep) K
  have hmoves := pass_moves _ hnd hnd (fun _ ht => ht)
  have htrace := pass_trace hnd hnd (fun _ ht => ht)
  refine ⟨⟨h.placed.apart.moves hmoves, htasks ▸ h.placed.nodup, fun u => ?_,
    htasks ▸ h.placed.idle⟩, fun u hu => ?_, fun u hu => ?_, fun l n found he => ?_,
    fun u he hidle => ?_⟩
  · rw [Core.sleepersTick, htasks, h.placed.placed, hmoves.exists_mem]
  · rw [sleepersTick_task hnd]
    have hu' : u ∈ K.tasks := htasks ▸ hu
    split
    · exact h.slice u hu'
    · exact h.slice u hu'
  · rw [(sleepersTick_queue hnd).1] at hu
    obtain ⟨hmem, hdue⟩ := List.mem_filter.mp hu
    have hlo := h.asleep u hmem
    rw [sleepersTick_task hnd, if_pos hmem]
    simp [due] at hdue
    simp only [slept]
    omega
  · rw [Core.sleepersTick, htrace] at he
    rcases List.mem_append.mp he with he | he
    · exact h.pops l n found he
    · obtain ⟨t, -, heq⟩ := List.mem_map.mp he
      simp_all
  · rw [Core.sleepersTick, htrace] at he
    rw [Core.sleepersTick, htasks]
    rcases List.mem_append.mp he with he | he
    · exact h.returned u he hidle
    · simp at he

end Sound

namespace AtBoot

variable {K : Core}

lemma emit (h : K.AtBoot) (e : Event) : (K.emit e).AtBoot := ⟨h.others, h.ready, h.owner⟩

lemma setMutex (h : K.AtBoot) (m : MutexPtr) {x : ReinMutex} (hx : x.owner = none) :
    (K.setMutex m x).AtBoot := by
  refine ⟨h.others, h.ready, fun m' => ?_⟩
  by_cases hm : m' = m
  · subst hm
    simpa [Core.setMutex] using hx
  · simpa [Core.setMutex, hm] using h.owner m'

end AtBoot

namespace Inv

variable {K K' : Core} {m : MutexPtr} {p : SemPtr} {t c : TaskPtr} {a : Act}

lemma mem_ready (h : K.Inv) (hc : K.curr = some c) (hidle : c ≠ .idleTask) :
    c ∈ K.queue .ready := by
  have hhead := h.running c hc
  cases hr : K.queue .ready with
  | nil => simp [head, hr] at hhead; contradiction
  | cons x xs =>
    simp [head, hr] at hhead
    simp [hhead]

lemma idle_not_mem (h : K.Inv) (q : Queue) : .idleTask ∉ K.queue q := fun hq =>
  h.placed.idle ((h.placed.placed _).mpr ⟨q, hq⟩)

lemma ready_ne_nil (h : K.Inv) (hc : K.curr = some c) (hidle : c ≠ .idleTask) :
    K.queue .ready ≠ [] :=
  List.ne_nil_of_mem (h.mem_ready hc hidle)

lemma ready_cons (h : K.Inv) (hc : K.curr = some c) (hidle : c ≠ .idleTask) :
    ∃ xs, K.queue .ready = c :: xs := by
  have hhead := h.running c hc
  cases hr : K.queue .ready with
  | nil => simp [head, hr] at hhead; contradiction
  | cons x xs =>
    simp [head, hr] at hhead
    exact ⟨xs, by rw [hhead]⟩

lemma settle (h : K.Inv) (hs : Settles K K') : K'.Inv :=
  ⟨h.toSound.shuffle hs.toShuffles, hs.running, hs.boot⟩

lemma shuffle_dispatch (hs : Shuffles K K') (hcurr : K.curr ≠ none) {n : Nat}
    (xs : List TaskPtr) (hn : n ≤ 1)
    (hready : K'.queue .ready = (K.queue .ready).drop n ++ xs) : Settles K K'.dispatch := by
  refine ⟨hs.trans .dispatch, fun c hc => ?_, ?_, fun hc => ?_, n, xs, hn, ?_⟩
  · rw [dispatch_curr] at hc
    rw [head_congr (congrFun K'.dispatch_queue .ready)]
    exact (Option.some.inj hc).symm
  · simp [dispatch_curr, hcurr]
  · simp [dispatch_curr] at hc
  · rw [dispatch_queue, hready]

lemma shuffle_stay (h : K.Inv) (hs : Shuffles K K') (hcurr : K'.curr = K.curr)
    (xs : List TaskPtr) (hready : K'.queue .ready = K.queue .ready ++ xs)
    (hidle : xs = [] ∨ K.curr ≠ some .idleTask) (hboot : K.curr = none → K'.AtBoot) :
    Settles K K' := by
  refine ⟨hs, fun c hc => ?_, by rw [hcurr], fun hc => hboot (hcurr ▸ hc), 0, xs, by omega,
    hready⟩
  rw [hcurr] at hc
  rw [h.running c hc, head, head, hready]
  rcases hidle with rfl | hidle
  · simp
  · have hne : K.queue .ready ≠ [] := h.ready_ne_nil hc (fun he => hidle (he ▸ hc))
    cases hr : K.queue .ready with
    | nil => exact absurd hr hne
    | cons x xs => rfl

lemma settles_cpu (h : K.Inv) (f : Cpu → Cpu) : Settles K (K.cpu f) :=
  h.shuffle_stay (.cpu f) rfl [] (by simp [Core.cpu]) (Or.inl rfl)
    (fun hc => ⟨(h.boot hc).others, (h.boot hc).ready, (h.boot hc).owner⟩)

lemma cpu (h : K.Inv) (f : Cpu → Cpu) : (K.cpu f).Inv := h.settle (h.settles_cpu f)

lemma off (h : K.Inv) : K.off.Inv := h.cpu _

lemma settles_off (hs : Settles K.off K') : Settles K K' :=
  ⟨(Shuffles.cpu Cpu.cli).trans hs.toShuffles, hs.running, hs.curr, hs.boot, hs.ready⟩

lemma settles_block (h : K.Inv) (hc : K.curr = some t) (hidle : K.curr ≠ some .idleTask)
    {q : Queue} (hq : q ≠ .sleep) (hqr : q ≠ .ready) {e : Event}
    (hpop : ∀ l n, e ≠ .listPop l n false) (hret : ∀ u ret, e ≠ .initReturn u ret) :
    Settles K ((K.block t q).emit e).dispatch := by
  obtain ⟨xs, hr⟩ := h.ready_cons hc (fun he => hidle (he ▸ hc))
  have ht : t ∈ K.queue .ready := by simp [hr]
  refine shuffle_dispatch ((Shuffles.block ht hq).trans (.emit hpop hret)) (by simp [hc])
    [] (n := 1) (by omega) ?_
  simp [emit, block, pop, leave, join, Function.update_of_ne hqr.symm, hr]

lemma settles_lock (h : K.Inv) (hidle : K.curr ≠ some .idleTask) : Settles K (K.lock m) := by
  have htake : ∀ x : ReinMutex, (K.curr = none → x.owner = none) →
      Settles K ((K.setMutex m x).emit (.lockTake K.curr m)) := by
    intro x hx
    have hs : Shuffles K ((K.setMutex m x).emit (.lockTake K.curr m)) :=
      (Shuffles.setMutex m x).trans (.emit (by simp) (by simp))
    exact h.shuffle_stay hs rfl [] (by simp [emit, setMutex]) (Or.inl rfl)
      (fun hc => ((h.boot hc).setMutex m (hx hc)).emit _)
  unfold Core.lock
  split
  · exact htake _ id
  · split
    · exact htake _ (fun hc => (h.boot hc).owner m)
    · split
      · exact h.settles_cpu _
      · rename_i t hc
        exact h.settles_block hc hidle (by simp) (by simp) (by simp) (by simp)

lemma settles_wait (h : K.Inv) (hc : K.curr ≠ none) (hidle : K.curr ≠ some .idleTask) :
    Settles K (K.wait p) := by
  unfold Core.wait
  split
  · exact h.shuffle_stay ((Shuffles.setSem p _).trans (.emit (by simp) (by simp))) rfl []
      (by simp [emit, setSem]) (Or.inl rfl) (fun hn => absurd hn hc)
  · split
    · exact h.settles_cpu _
    · rename_i t ht
      exact h.settles_block ht hidle (by simp) (by simp) (by simp) (by simp)

lemma settles_yield (h : K.Inv) (hidle : K.curr ≠ some .idleTask) : Settles K K.yield := by
  unfold Core.yield
  split
  · split
    · exact h.settles_cpu _
    · rename_i t ht
      obtain ⟨xs, hr⟩ := h.ready_cons ht (fun he => hidle (he ▸ ht))
      refine shuffle_dispatch (.rotate (by simp [hr])) (by simp [ht]) [t] (n := 1)
        (by omega) ?_
      simp [wake, pop, leave, join, emit, setTask, hr]
  · exact h.shuffle_stay (.refl K) rfl [] (by simp) (Or.inl rfl) h.boot

lemma settles_notify (h : K.Inv) (hc : K.curr ≠ none) : Settles K (K.notify p) := by
  have hs : Shuffles K (K.emit (.semNotify p)) := .emit (by simp) (by simp)
  unfold Core.notify
  dsimp only
  split
  · refine h.shuffle_stay (hs.trans (.setSem p _)) rfl [] (by simp [emit, setSem])
      (Or.inl rfl) (fun hn => absurd hn hc)
  · rename_i t ts hq
    have ht : t ∈ (K.emit (.semNotify p)).queue (.semWait p) := by simp [hq]
    refine shuffle_dispatch ((hs.trans (.rouse ht (by simp))).trans (.emit (by simp) (by simp)))
      hc [t] (n := 0) (by omega) ?_
    simp [wake, leave, join, emit, setTask]

lemma settles_unlock (h : K.Inv) (hidle : K.curr ≠ some .idleTask) : Settles K (K.unlock m) := by
  unfold Core.unlock
  split
  · exact h.settles_cpu _
  · have hs : Shuffles K (K.emit (.unlock K.curr m)) := .emit (by simp) (by simp)
    split
    · unfold handOver
      split
      · exact h.shuffle_stay (hs.trans (.setMutex m _)) rfl []
          (by simp [emit, setMutex]) (Or.inl rfl)
          (fun hc => ((h.boot hc).emit _).setMutex m rfl)
      · rename_i t ts hq
        have ht : t ∈ (K.emit (.unlock K.curr m)).queue (.mutexWait m) := by simp [hq]
        refine h.shuffle_stay (((hs.trans (.rouse ht (by simp))).trans (.setMutex m _)).trans
          (.emit (by simp) (by simp))) rfl [t]
          (by simp [emit, setMutex, Core.wake, leave, join, setTask]) (Or.inr hidle) (fun hc => ?_)
        have hnone := (h.boot hc).others (.mutexWait m) (by simp)
        have hq' : K.queue (.mutexWait m) = t :: ts := hq
        simp [hnone] at hq'
    · exact h.shuffle_stay ((Shuffles.setMutex m _).trans (.emit (by simp) (by simp))) rfl
        [] (by simp [emit, setMutex]) (Or.inl rfl)
        (fun hc => ((h.boot hc).setMutex m (by simpa using (h.boot hc).owner m)).emit _)

lemma sleep (h : K.Inv) (hidle : K.curr ≠ some .idleTask) {n : Int} (hn : 1 ≤ n) :
    (K.sleep n).Inv := by
  unfold Core.sleep
  split
  · exact h.cpu _
  · rename_i t ht
    have hr : t ∈ K.queue .ready := h.mem_ready ht (fun he => hidle (he ▸ ht))
    exact (h.toSound.retire hr hn).dispatch

lemma tick (h : K.Inv) : K.tick.Inv := by
  unfold Core.tick
  split
  · exact h.cpu _
  · rename_i c hc
    exact (h.toSound.sliceTick (h.mem_ready hc)).sleepersTick.dispatch

lemma create (h : K.Inv) (hnew : t ∉ K.tasks) (hidle : t ≠ .idleTask)
    (hcurr : K.curr ≠ some .idleTask) (hboot : K.curr = none → t = .mainTask)
    (hslice : (K.task t).sliceTicks = taskTimeSliceDefault)
    (htime : (K.task t).timeTicks = taskTimeSliceDefault) : (K.create t).Inv := by
  have hfree : ∀ q, t ∉ K.queue q := fun q hq => hnew ((h.placed.placed t).mpr ⟨q, hq⟩)
  have hsleep : (K.create t).queue .sleep = K.queue .sleep := by
    simp [Core.create, wake, join, setTask]
  have hready : (K.create t).queue .ready = K.queue .ready ++ [t] := by
    simp [Core.create, wake, join, setTask]
  have hother : ∀ q, q ≠ .ready → (K.create t).queue q = K.queue q := by
    intro q hq
    simp [Core.create, wake, join, setTask, hq]
  have htask : ∀ u, (K.create t).task u =
      { K.task u with state := ((K.create t).task u).state } := by
    intro u
    by_cases hu : u = t
    · subst hu
      simp [Core.create, wake, join, setTask]
    · simp [Core.create, wake, join, setTask, hu]
  refine ⟨⟨⟨h.placed.apart.snoc hfree, ?_, fun u => ?_, ?_⟩, fun u hu => ?_, fun u hu => ?_,
    h.pops, fun u he hu => ?_⟩, fun c hc => ?_, fun hn => ⟨fun q hq => ?_, fun u hu => ?_, ?_⟩⟩
  · exact List.nodup_append.mpr ⟨h.placed.nodup, List.nodup_singleton t, fun a ha b hb =>
      (List.mem_singleton.mp hb) ▸ ne_of_mem_of_not_mem ha hnew⟩
  · have hmem : (∃ q, u ∈ (K.create t).queue q) ↔ (∃ q, u ∈ K.queue q) ∨ u = t := by
      constructor
      · rintro ⟨q, hq⟩
        by_cases hqr : q = .ready
        · subst hqr
          rw [hready] at hq
          rcases List.mem_append.mp hq with hq | hq
          · exact Or.inl ⟨_, hq⟩
          · exact Or.inr (List.mem_singleton.mp hq)
        · exact Or.inl ⟨q, hother q hqr ▸ hq⟩
      · rintro (⟨q, hq⟩ | rfl)
        · by_cases hqr : q = .ready
          · subst hqr
            exact ⟨.ready, by rw [hready]; exact List.mem_append_left _ hq⟩
          · exact ⟨q, (hother q hqr).symm ▸ hq⟩
        · exact ⟨.ready, by rw [hready]; simp⟩
    rw [hmem, ← h.placed.placed]
    simp [Core.create]
  · intro hmem
    rcases List.mem_append.mp hmem with hmem | hmem
    · exact h.placed.idle hmem
    · exact hidle (List.mem_singleton.mp hmem).symm
  · rw [htask]
    rcases List.mem_append.mp hu with hu | hu
    · exact h.slice u hu
    · rw [List.mem_singleton.mp hu]
      simp [hslice, htime, taskTimeSliceDefault]
  · rw [htask]
    exact h.asleep u (hsleep ▸ hu)
  · exact List.mem_append_left _ (h.returned u he hu)
  · have hne := h.ready_ne_nil hc (fun he => hcurr (he ▸ hc))
    rw [h.running c hc, head, head, hready]
    cases hr : K.queue .ready with
    | nil => exact absurd hr hne
    | cons x xs => rfl
  · rw [hother q hq]
    exact (h.boot hn).others q hq
  · rw [hready] at hu
    rcases List.mem_append.mp hu with hu | hu
    · exact (h.boot hn).ready u hu
    · rw [List.mem_singleton.mp hu]
      exact hboot hn
  · exact (h.boot hn).owner

lemma setTask (h : K.Inv) (hnew : t ∉ K.tasks) (x : Task) : (K.setTask t x).Inv := by
  have hkeep : ∀ u, u ∈ K.tasks → (K.setTask t x).task u = K.task u := by
    intro u hu
    simp [Core.setTask, ne_of_mem_of_not_mem hu hnew]
  refine ⟨⟨⟨h.placed.apart, h.placed.nodup, h.placed.placed, h.placed.idle⟩, fun u hu => ?_,
    fun u hu => ?_, h.pops, h.returned⟩, h.running, fun hn => ?_⟩
  · rw [hkeep u hu]
    exact h.slice u hu
  · rw [hkeep u ((h.placed.placed u).mpr ⟨_, hu⟩)]
    exact h.asleep u hu
  · exact ⟨(h.boot hn).others, (h.boot hn).ready, (h.boot hn).owner⟩

lemma note (h : K.Inv) {es : List Event} (hpop : ∀ l n, .listPop l n false ∉ es)
    (hret : ∀ t, .initReturn t 0 ∈ es → t ∈ K.tasks ∨ t = .idleTask) :
    Inv { K with trace := K.trace ++ es } := by
  refine ⟨⟨⟨h.placed.apart, h.placed.nodup, h.placed.placed, h.placed.idle⟩, h.slice, h.asleep,
    fun l n found he => ?_, fun t he hidle => ?_⟩, h.running, fun hn => ?_⟩
  · rcases List.mem_append.mp he with he | he
    · exact h.pops l n found he
    · cases found with
      | true => rfl
      | false => exact absurd he (hpop l n)
  · rcases List.mem_append.mp he with he | he
    · exact h.returned t he hidle
    · exact (hret t he).resolve_right hidle
  · exact ⟨(h.boot hn).others, (h.boot hn).ready, (h.boot hn).owner⟩

lemma becomeMain (h : K.Inv) (hready : K.queue .ready = [.mainTask]) :
    Inv { K with curr := some .mainTask } := by
  refine ⟨⟨⟨h.placed.apart, h.placed.nodup, h.placed.placed, h.placed.idle⟩, h.slice, h.asleep,
    h.pops, h.returned⟩, fun c hc => ?_, fun hn => by simp at hn⟩
  rw [← Option.some.inj hc]
  simp [head, hready]

end Inv

/-- Every action but those that tick, put a task to sleep, create one or make the boot
context a task. -/
def shuffling : Act → Bool
  | .note _ | .timer | .sleep _ | .fill _ _ | .fields _ | .ready _ | .becomeMain => false
  | _ => true

lemma Inv.settles_note {K : Core} (h : K.Inv) {es : List Event}
    (hpop : ∀ l n, .listPop l n false ∉ es) (hret : ∀ t ret, .initReturn t ret ∉ es) :
    Settles K { K with trace := K.trace ++ es } := by
  have hs : Shuffles K { K with trace := K.trace ++ es } := by
    refine ⟨.refl _, rfl, fun _ => rfl, rfl, fun l n found he => ?_, fun t ret he => ?_⟩
    · rcases List.mem_append.mp he with he | he
      · exact Or.inr he
      · cases found with
        | true => exact Or.inl rfl
        | false => exact absurd he (hpop l n)
    · exact (List.mem_append.mp he).resolve_right (hret t ret)
  exact h.shuffle_stay hs rfl [] (by simp) (Or.inl rfl)
    (fun hc => ⟨(h.boot hc).others, (h.boot hc).ready, (h.boot hc).owner⟩)

theorem Inv.exec_settles {K : Core} {a : Act} (h : K.Inv) (he : K.Enabled a)
    (ha : shuffling a = true) : Settles K (K.exec a) := by
  cases a with
  | nop => exact h.shuffle_stay (.refl K) rfl [] (by simp [exec]) (Or.inl rfl) h.boot
  | ret e =>
    have hc := h.settles_cpu fun p => { p with eflags := e.state }
    have hn : Settles (K.cpu fun p => { p with eflags := e.state }) (K.exec (.ret e)) := by
      apply (h.settle hc).settles_note
      · intro l n hmem
        cases hf : e.fn <;> simp [hf, Fn.returned] at hmem
      · intro t ret hmem
        cases hf : e.fn <;> simp [hf, Fn.returned] at hmem
    exact ⟨hc.toShuffles.trans hn.toShuffles, hn.running, hn.curr, hn.boot, hn.ready⟩
  | lock m => exact settles_off (h.off.settles_lock he)
  | unlock m => exact settles_off (h.off.settles_unlock he)
  | wait p => exact settles_off (h.off.settles_wait he.1 he.2)
  | notify p => exact settles_off (h.off.settles_notify he.1)
  | count p => exact h.settles_cpu _
  | yield => exact settles_off (h.off.settles_yield he.2)
  | dispatch => exact shuffle_dispatch (.refl K) he [] (n := 0) (by omega) (by simp)
  | enable => exact h.settles_cpu _
  | disable => exact h.settles_cpu _
  | claim i => exact h.settles_cpu _
  | segSet sel base limit attr => exact h.settles_cpu _
  | writeTr => exact h.settles_cpu _
  | outb b => exact h.settles_note (by simp) (by simp)
  | note _ => cases ha
  | timer => cases ha
  | sleep _ => cases ha
  | fill _ _ => cases ha
  | fields _ => cases ha
  | ready _ => cases ha
  | becomeMain => cases ha

/-- The invariant of the step: every action keeps it. -/
theorem Inv.exec {K : Core} {a : Act} (h : K.Inv) (he : K.Enabled a) : (K.exec a).Inv := by
  by_cases ha : shuffling a = true
  · exact h.settle (h.exec_settles he ha)
  · cases a with
    | note e =>
      obtain ⟨hnote, hret⟩ := he
      apply h.note
      · intro l n hmem
        rw [← List.mem_singleton.mp hmem] at hnote
        simp [Event.isNote] at hnote
      · intro t hmem
        exact hret t (List.mem_singleton.mp hmem).symm
    | timer => exact h.off.tick
    | sleep ms => exact h.off.sleep he.2 (by rw [sleepTicksOf_toInt]; omega)
    | fill sel r => exact (h.cpu _).setTask he _
    | fields r => exact h.setTask he _
    | ready t =>
      obtain ⟨hnew, hidle, hcurr, hboot, hslice, htime⟩ := he
      exact h.off.create hnew hidle hcurr hboot hslice htime
    | becomeMain => exact h.becomeMain he.2
    | _ => exact absurd rfl ha

section Effects

variable {K : Core} {a : Act} {u : TaskPtr}

lemma mem_exec_tasks (h : K.Inv) (he : K.Enabled a) :
    u ∈ (K.exec a).tasks ↔ u ∈ K.tasks ∨ a = .ready u := by
  by_cases ha : shuffling a = true
  · rw [(h.exec_settles he ha).tasks]
    have hne : a ≠ .ready u := by
      rintro rfl
      cases ha
    simp [hne]
  · cases a with
    | timer =>
      obtain ⟨c, hc⟩ := Option.ne_none_iff_exists'.mp he
      have htasks : (K.exec .timer).tasks = K.tasks := by
        have hoff : K.off.curr = some c := hc
        simp only [exec, tick, hoff, dispatch_tasks]
        rw [sleepersTick, (pass_rest _ _).1]
        unfold sliceTick
        split
        · rfl
        · split <;> rfl
      simp [htasks]
    | sleep ms =>
      obtain ⟨c, hc⟩ := Option.ne_none_iff_exists'.mp he.1
      have hoff : K.off.curr = some c := hc
      have htasks : (K.exec (.sleep ms)).tasks = K.tasks := by
        simp only [exec, sleep, hoff, dispatch_tasks]
        rfl
      simp [htasks]
    | ready t => simp [exec, create, off, cpu, eq_comm]
    | note e => simp [exec, emit]
    | fill sel r => simp [exec, setTask, cpu]
    | fields r => simp [exec, setTask]
    | becomeMain => simp [exec]
    | _ => exact absurd rfl ha

lemma exec_clock (h : K.Inv) (he : K.Enabled a) (hu : u ∉ K.tasks)
    (hf : ∀ r, a = .fields r → r.task ≠ u) :
    ((K.exec a).task u).sliceTicks = (K.task u).sliceTicks ∧
      ((K.exec a).task u).timeTicks = (K.task u).timeTicks := by
  by_cases ha : shuffling a = true
  · rw [(h.exec_settles he ha).task u]
    exact ⟨rfl, rfl⟩
  · cases a with
    | timer =>
      obtain ⟨c, hc⟩ := Option.ne_none_iff_exists'.mp he
      have hoff : K.off.curr = some c := hc
      have hnd : ((K.off.sliceTick c).queue .sleep).Nodup :=
        (h.off.toSound.sliceTick (h.mem_ready hc)).placed.apart.nodup .sleep
      have hslice : ((K.off.sliceTick c).task u).sliceTicks = (K.task u).sliceTicks ∧
          ((K.off.sliceTick c).task u).timeTicks = (K.task u).timeTicks := by
        unfold sliceTick
        split
        · exact ⟨rfl, rfl⟩
        · rename_i hidle
          have huc : u ≠ c := fun hn => hu ((h.placed.placed u).mpr ⟨_, hn ▸ h.mem_ready hc hidle⟩)
          split <;> simp [wake, pop, leave, join, emit, setTask, off, cpu, huc]
      simp only [exec, tick, hoff]
      rw [dispatch_task, sleepersTick_task hnd]
      split <;> exact hslice
    | sleep ms =>
      obtain ⟨c, hc⟩ := Option.ne_none_iff_exists'.mp he.1
      have hoff : K.off.curr = some c := hc
      simp only [exec, sleep, hoff]
      rw [dispatch_task]
      by_cases huc : u = c
      · subst huc
        simp [join, setTask, pop_task, off, cpu]
      · simp [join, setTask, pop_task, off, cpu, huc]
    | ready t =>
      by_cases hut : u = t
      · subst hut
        simp [exec, create, wake, join, setTask, off, cpu]
      · simp [exec, create, wake, join, setTask, off, cpu, hut]
    | note e => exact ⟨rfl, rfl⟩
    | fill sel r =>
      by_cases hut : u = r.task
      · subst hut
        simp [exec, setTask, cpu]
      · simp [exec, setTask, cpu, hut]
    | fields r =>
      have hut : u ≠ r.task := fun hn => hf r rfl hn.symm
      simp [exec, setTask, hut]
    | becomeMain => exact ⟨rfl, rfl⟩
    | _ => exact absurd rfl ha

lemma exec_curr (h : K.Inv) (he : K.Enabled a) :
    (K.exec a).curr = none ↔ K.curr = none ∧ a ≠ .becomeMain := by
  by_cases ha : shuffling a = true
  · rw [(h.exec_settles he ha).curr]
    have hne : a ≠ .becomeMain := by
      rintro rfl
      cases ha
    simp [hne]
  · cases a with
    | timer =>
      obtain ⟨c, hc⟩ := Option.ne_none_iff_exists'.mp he
      have hoff : K.off.curr = some c := hc
      simp [exec, tick, hoff, dispatch_curr, hc]
    | sleep ms =>
      obtain ⟨c, hc⟩ := Option.ne_none_iff_exists'.mp he.1
      have hoff : K.off.curr = some c := hc
      simp [exec, sleep, hoff, dispatch_curr, hc]
    | ready t => simp [exec, create, wake, join, setTask, off, cpu]
    | note e => simp [exec, emit]
    | fill sel r => simp [exec, setTask, cpu]
    | fields r => simp [exec, setTask]
    | becomeMain => simp [exec]
    | _ => exact absurd rfl ha

lemma Inv.ready_at_boot (h : K.Inv) (hc : K.curr = none) (hmain : .mainTask ∈ K.tasks) :
    K.queue .ready = [.mainTask] := by
  obtain ⟨q, hq⟩ := (h.placed.placed _).mp hmain
  have hqr : q = .ready := by
    by_contra hne
    simp [(h.boot hc).others q hne] at hq
  subst hqr
  have hnd := h.placed.apart.nodup .ready
  have hall := (h.boot hc).ready
  cases hr : K.queue .ready with
  | nil => simp [hr] at hq
  | cons x xs =>
    rw [hr] at hnd hall
    have hx : x = .mainTask := hall x (by simp)
    have hxs : xs = [] := by
      apply List.eq_nil_iff_forall_not_mem.mpr
      intro y hy
      have hyx : y = x := (hall y (by simp [hy])).trans hx.symm
      exact (List.nodup_cons.mp hnd).1 (hyx ▸ hy)
    rw [hx, hxs]

lemma leaves_state {e : Epilogue} (hmem : e ∈ K.leaves a) :
    e.state = K.eflags ∨ e.state = K.off.eflags := by
  have hd : ∀ f, e ∈ K.dispatched f → e.state = K.eflags ∨ e.state = K.off.eflags := by
    intro f hf
    simp only [dispatched, List.mem_cons, List.not_mem_nil, or_false] at hf
    rcases hf with rfl | rfl
    · exact Or.inr rfl
    · exact Or.inl rfl
  have hs : ∀ f, e ∈ [(⟨f, K.eflags⟩ : Epilogue)] →
      e.state = K.eflags ∨ e.state = K.off.eflags := by
    intro f hf
    rw [List.mem_singleton.mp hf]
    exact Or.inl rfl
  cases a <;> simp only [leaves, List.not_mem_nil] at hmem <;>
    first
    | exact hd _ hmem
    | exact hs _ hmem
    | split at hmem <;> first | exact hd _ hmem | exact hs _ hmem | cases hmem

lemma off_interruptible : K.off.interruptible = false := by
  simp [off, cpu, Cpu.interruptible, Cpu.cli]

lemma exec_boot_flags (he : K.Enabled a) (hc : K.curr = none)
    (hboot : ∀ m, (K.mutex m).owner = none) (hi : K.interruptible = false)
    (hret : ∀ e, a = .ret e → e.state.getLsbD 9 = false) :
    (K.exec a).interruptible = false := by
  have hoff := off_interruptible (K := K)
  cases a with
  | ret e => exact hret e rfl
  | lock m =>
    have hm : K.off.mutex m = K.mutex m := rfl
    have hcc : K.off.curr = none := hc
    simp only [exec, lock, hm, hcc, hboot m, if_true]
    split <;> exact hoff
  | unlock m =>
    simp only [exec, unlock]
    split
    · exact hoff
    · split
      · unfold handOver
        split <;> exact hoff
      · exact hoff
  | timer => exact absurd hc he
  | wait p => exact absurd hc he.1
  | notify p => exact absurd hc he.1
  | sleep ms => exact absurd hc he.1
  | yield => exact absurd hc he.1
  | dispatch => exact absurd hc he
  | enable => exact absurd hc he
  | count p => exact hoff
  | disable => exact hoff
  | ready t => exact hoff
  | writeTr =>
    simp only [exec, cpu, Cpu.interruptible, OsToyI386.writeTr]
    split <;> exact hi
  | _ => exact hi

end Effects

end Core

end OsToyI386
