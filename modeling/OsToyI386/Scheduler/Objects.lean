import OsToyI386.Scheduler.Invariant

/-!
# What an action does to a mutex or a semaphore it is not about

Each action concerns at most one mutex or semaphore. The fields and the wait list of every
other one stay as they are, and nothing about it enters the trace.
-/

namespace OsToyI386

open Lib

/-- A mutex or a semaphore. -/
inductive Obj
  | mutex (m : MutexPtr)
  | sem (p : SemPtr)
  deriving DecidableEq

/-- Its wait list. -/
def Obj.queue : Obj → Queue
  | mutex m => .mutexWait m
  | sem p => .semWait p

def Event.obj : Event → Option Obj
  | lockTake _ m | lockBlock _ m | lockHand _ m | lockReturn _ m | unlock _ m => some (.mutex m)
  | semTake _ p | semBlock _ p | semPop _ p | semReturn _ p | semNotify p => some (.sem p)
  | _ => none

/-- The call that waits for the object. -/
def Fn.obj : Fn → Option Obj
  | reinMutexLock m => some (.mutex m)
  | semWait p => some (.sem p)
  | _ => none

def Act.obj : Act → Option Obj
  | lock m | unlock m => some (.mutex m)
  | wait p | notify p => some (.sem p)
  | ret e => e.fn.obj
  | _ => none

lemma Obj.queue_ne_ready (o : Obj) : o.queue ≠ .ready := by cases o <;> simp [queue]

lemma Obj.queue_ne_sleep (o : Obj) : o.queue ≠ .sleep := by cases o <;> simp [queue]

namespace Core

/-- Nothing about the object differs, and nothing about it is noted. -/
structure Spares (o : Obj) (K K' : Core) : Prop where
  mutex : ∀ m, o = .mutex m → K'.mutex m = K.mutex m
  sem : ∀ p, o = .sem p → K'.sem p = K.sem p
  queue : K'.queue o.queue = K.queue o.queue
  trace : ∃ es, K'.trace = K.trace ++ es ∧ ∀ e ∈ es, e.obj ≠ some o

namespace Spares

variable {o : Obj} {K K' K'' : Core} {t : TaskPtr} {q : Queue}

lemma refl (o : Obj) (K : Core) : Spares o K K :=
  ⟨fun _ _ => rfl, fun _ _ => rfl, rfl, [], by simp, by simp⟩

lemma trans (h : Spares o K K') (h' : Spares o K' K'') : Spares o K K'' := by
  obtain ⟨es, htr, hes⟩ := h.trace
  obtain ⟨es', htr', hes'⟩ := h'.trace
  refine ⟨fun m hm => (h'.mutex m hm).trans (h.mutex m hm),
    fun p hp => (h'.sem p hp).trans (h.sem p hp), h'.queue.trans h.queue, es ++ es', ?_, ?_⟩
  · rw [htr', htr, List.append_assoc]
  · intro e he
    exact (List.mem_append.mp he).elim (hes e) (hes' e)

lemma of_eq (hm : K'.mutex = K.mutex) (hs : K'.sem = K.sem)
    (hq : K'.queue o.queue = K.queue o.queue) (htr : K'.trace = K.trace) : Spares o K K' :=
  ⟨fun _ _ => by rw [hm], fun _ _ => by rw [hs], hq, [], by simp [htr], by simp⟩

lemma cpu (f : Cpu → Cpu) : Spares o K (K.cpu f) := of_eq rfl rfl rfl rfl

lemma setTask (t : TaskPtr) (x : Task) : Spares o K (K.setTask t x) := of_eq rfl rfl rfl rfl

lemma emits {es : List Event} (hes : ∀ e ∈ es, e.obj ≠ some o) :
    Spares o K { K with trace := K.trace ++ es } :=
  ⟨fun _ _ => rfl, fun _ _ => rfl, rfl, es, rfl, hes⟩

lemma emit {e : Event} (he : e.obj ≠ some o) : Spares o K (K.emit e) :=
  emits fun _ h => (List.mem_singleton.mp h) ▸ he

lemma setMutex {m : MutexPtr} (hm : some (Obj.mutex m) ≠ some o) (x : ReinMutex) :
    Spares o K (K.setMutex m x) := by
  refine ⟨fun m' hm' => ?_, fun _ _ => rfl, rfl, [], by simp [Core.setMutex], by simp⟩
  have hne : m' ≠ m := fun he => hm (by rw [hm', he])
  simp [Core.setMutex, hne]

lemma setSem {p : SemPtr} (hp : some (Obj.sem p) ≠ some o) (x : Int) :
    Spares o K (K.setSem p x) := by
  refine ⟨fun _ _ => rfl, fun p' hp' => ?_, rfl, [], by simp [Core.setSem], by simp⟩
  have hne : p' ≠ p := fun he => hp (by rw [hp', he])
  simp [Core.setSem, hne]

lemma leave (hq : o.queue ≠ q) : Spares o K (K.leave q t) :=
  of_eq rfl rfl (by simp [Core.leave, hq]) rfl

lemma join (hq : o.queue ≠ q) : Spares o K (K.join q t) :=
  of_eq rfl rfl (by simp [Core.join, hq]) rfl

lemma pop (hq : o.queue ≠ q) : Spares o K (K.pop q t) :=
  (leave hq).trans (emit (by simp [Event.obj]))

lemma wake : Spares o K (K.wake t) := (join o.queue_ne_ready).trans (setTask t _)

lemma dispatch : Spares o K K.dispatch :=
  of_eq K.dispatch_mutex K.dispatch_sem (congrFun K.dispatch_queue _) K.dispatch_trace

lemma block (hq : o.queue ≠ q) {e : Event} (he : e.obj ≠ some o) :
    Spares o K ((K.block t q).emit e).dispatch :=
  (((pop o.queue_ne_ready).trans (join hq)).trans (emit he)).trans dispatch

end Spares

variable {o : Obj} {K : Core} {a : Act}

lemma queue_ne {x : Obj} (h : some x ≠ some o) : o.queue ≠ x.queue := by
  intro hq
  apply h
  cases x <;> cases o <;> simp_all [Obj.queue]

lemma spares_lock {m : MutexPtr} (h : some (Obj.mutex m) ≠ some o) : Spares o K (K.lock m) := by
  unfold lock
  split
  · exact (Spares.setMutex h _).trans (.emit h)
  · split
    · exact (Spares.setMutex h _).trans (.emit h)
    · split
      · exact .cpu _
      · exact .block (queue_ne h) h

lemma spares_unlock {m : MutexPtr} (h : some (Obj.mutex m) ≠ some o) :
    Spares o K (K.unlock m) := by
  unfold unlock
  split
  · exact .cpu _
  · have hu : Spares o K (K.emit (.unlock K.curr m)) := .emit h
    split
    · unfold handOver
      split
      · exact hu.trans (.setMutex h _)
      · exact (((hu.trans (.leave (queue_ne h))).trans .wake).trans (.setMutex h _)).trans (.emit h)
    · exact (Spares.setMutex h _).trans (.emit h)

lemma spares_wait {p : SemPtr} (h : some (Obj.sem p) ≠ some o) : Spares o K (K.wait p) := by
  unfold wait
  split
  · exact (Spares.setSem h _).trans (.emit h)
  · split
    · exact .cpu _
    · exact .block (queue_ne h) h

lemma spares_notify {p : SemPtr} (h : some (Obj.sem p) ≠ some o) : Spares o K (K.notify p) := by
  have hn : Spares o K (K.emit (.semNotify p)) := .emit h
  unfold notify
  dsimp only
  split
  · exact hn.trans (.setSem h _)
  · rename_i t ts hq
    exact (((hn.trans (.leave (queue_ne h))).trans .wake).trans
      (.emit (e := .semPop t p) h)).trans .dispatch

lemma spares_sliceTick (c : TaskPtr) : Spares o K (K.sliceTick c) := by
  unfold sliceTick
  split
  · exact .refl _ _
  · split
    · exact ((Spares.setTask c _).trans (.pop o.queue_ne_ready)).trans .wake
    · exact .setTask _ _

lemma spares_pass (ts : List TaskPtr) (K : Core) : Spares o K (ts.foldl sleeperTick K) := by
  induction ts generalizing K with
  | nil => exact .refl _ _
  | cons t ts ih =>
    have hone : Spares o K (K.sleeperTick t) := by
      unfold sleeperTick
      dsimp only
      split
      · exact ((Spares.setTask t _).trans (.pop o.queue_ne_sleep)).trans .wake
      · exact .setTask _ _
    exact hone.trans (ih _)

lemma spares_tick : Spares o K K.tick := by
  unfold tick
  split
  · exact .cpu _
  · exact ((spares_sliceTick _).trans (spares_pass _ _)).trans .dispatch

/-- An action spares every object that it is not about. -/
theorem exec_spares (he : K.Enabled a) (ha : a.obj ≠ some o) : Spares o K (K.exec a) := by
  have hoff : Spares o K K.off := .cpu _
  cases a with
  | nop => exact .refl _ _
  | note e =>
    apply Spares.emit
    have hnote : e.isNote = true := he.1
    cases e <;> simp_all [Event.isNote, Event.obj]
  | ret e =>
    refine (Spares.cpu fun p => { p with eflags := e.state }).trans (.emits fun e' hmem => ?_)
    cases hf : e.fn <;> simp_all [Fn.returned, Act.obj, Fn.obj, Event.obj]
  | timer => exact hoff.trans spares_tick
  | lock m => exact hoff.trans (spares_lock ha)
  | unlock m => exact hoff.trans (spares_unlock ha)
  | wait p => exact hoff.trans (spares_wait ha)
  | notify p => exact hoff.trans (spares_notify ha)
  | count p => exact hoff
  | sleep ms =>
    refine hoff.trans (?_ : Spares o K.off (K.off.sleep (sleepTicksOf ms).toInt))
    unfold sleep
    split
    · exact .cpu _
    · exact (((Spares.pop o.queue_ne_ready).trans (.setTask _ _)).trans
        (.join o.queue_ne_sleep)).trans .dispatch
  | yield =>
    refine hoff.trans (?_ : Spares o K.off K.off.yield)
    unfold yield
    split
    · split
      · exact .cpu _
      · exact ((Spares.pop o.queue_ne_ready).trans .wake).trans .dispatch
    · exact .refl _ _
  | dispatch => exact .dispatch
  | enable => exact .cpu _
  | disable => exact hoff
  | claim i => exact .cpu _
  | segSet sel base limit attr => exact .cpu _
  | fill sel r => exact (Spares.cpu _).trans (.setTask _ _)
  | fields r => exact .setTask _ _
  | ready t => exact hoff.trans (Spares.wake.trans (.of_eq rfl rfl rfl rfl))
  | writeTr => exact .cpu _
  | becomeMain => exact .of_eq rfl rfl rfl rfl
  | outb b => exact .emit (by simp [Event.obj])

lemma leaves_obj {e : Epilogue} (hmem : e ∈ K.leaves a) (ha : a.obj ≠ some o) :
    e.fn.obj ≠ some o := by
  have hd : ∀ f : Fn, f.obj ≠ some o → e ∈ K.dispatched f → e.fn.obj ≠ some o := by
    intro f hf hmem
    simp only [dispatched, List.mem_cons, List.not_mem_nil, or_false] at hmem
    rcases hmem with rfl | rfl
    · simp [Fn.obj]
    · exact hf
  have hs : ∀ f : Fn, f.obj ≠ some o → e ∈ [(⟨f, K.eflags⟩ : Epilogue)] → e.fn.obj ≠ some o := by
    intro f hf hmem
    rw [List.mem_singleton.mp hmem]
    exact hf
  cases a <;> simp only [leaves, List.not_mem_nil] at hmem <;>
    first
    | exact hd _ (by simp [Fn.obj]) hmem
    | exact hs _ (by simp [Fn.obj]) hmem
    | split at hmem <;>
        first
        | exact hd _ (by exact ha) hmem
        | exact hs _ (by exact ha) hmem
        | exact hd _ (by simp [Fn.obj]) hmem
        | exact hs _ (by simp [Fn.obj]) hmem
        | cases hmem

end Core

end OsToyI386
