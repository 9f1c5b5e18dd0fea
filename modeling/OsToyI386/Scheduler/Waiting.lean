import OsToyI386.Scheduler.Simulation
import OsToyI386.Scheduler.Objects

/-!
# Calls that wait

`rein_mutex_lock` and `sem_wait` have the same life: the call gets what it wants at once,
or it blocks and is granted it later by another context, and then it returns. The
invariant follows each context through its calls on one object and keeps the grants in
the order of the blocks.
-/

namespace OsToyI386

open Lib

inductive WaitKind
  | take
  | block
  | grant
  | finish
  deriving DecidableEq

/-- Where a context is in its calls on one object. -/
inductive Phase
  | idle
  | took
  | blocked
  | granted
  deriving DecidableEq

/-- The life of a call. -/
def Phase.next : Phase → WaitKind → Option Phase
  | idle, .take => some took
  | idle, .block => some blocked
  | blocked, .grant => some granted
  | took, .finish => some idle
  | granted, .finish => some idle
  | _, _ => none

/-- How a call that may wait for an object begins. -/
def Obj.enter : Obj → Act
  | mutex m => .lock m
  | sem p => .wait p

lemma Obj.obj_enter (o : Obj) : o.enter.obj = some o := by cases o <;> rfl

def Event.wait : Event → Option (Obj × Ctx × WaitKind)
  | lockTake c m => some (.mutex m, c, .take)
  | lockBlock t m => some (.mutex m, some t, .block)
  | lockHand t m => some (.mutex m, some t, .grant)
  | lockReturn c m => some (.mutex m, c, .finish)
  | semTake c p => some (.sem p, c, .take)
  | semBlock t p => some (.sem p, some t, .block)
  | semPop t p => some (.sem p, some t, .grant)
  | semReturn c p => some (.sem p, c, .finish)
  | _ => none

/-- What happened to the calls on one object. -/
def waitLog (o : Obj) (tr : List Event) : List (Ctx × WaitKind) :=
  tr.filterMap fun e => e.wait.bind fun w => if w.1 = o then some w.2 else none

/-- The phase of a context after what happened, if its calls have lived as they should. -/
def phase (c : Ctx) (log : List (Ctx × WaitKind)) : Option Phase :=
  log.foldl (fun φ w => if w.1 = c then φ.bind (·.next w.2) else φ) (some .idle)

/-- The contexts that something of one kind happened to, in order. -/
def orderOf (k : WaitKind) (log : List (Ctx × WaitKind)) : List Ctx :=
  (log.filter fun w => w.2 = k).map Prod.fst

/-- The calls of a context on an object that have not returned. -/
def Ctl.callsOn (k : Ctl) (o : Obj) : Nat := k.pending.countP fun e => e.fn.obj = some o

lemma waitLog_append (o : Obj) (tr tr' : List Event) :
    waitLog o (tr ++ tr') = waitLog o tr ++ waitLog o tr' := List.filterMap_append ..

lemma Event.wait_obj {e : Event} {w : Obj × Ctx × WaitKind} (h : e.wait = some w) :
    e.obj = some w.1 := by
  cases e <;> cases h <;> rfl

lemma waitLog_eq_nil {o : Obj} {es : List Event} (h : ∀ e ∈ es, e.obj ≠ some o) :
    waitLog o es = [] := by
  apply List.filterMap_eq_nil_iff.mpr
  intro e he
  cases hw : e.wait with
  | none => rfl
  | some w =>
    have hne : w.1 ≠ o := fun ho => h e he (ho ▸ Event.wait_obj hw)
    simp [hne]

lemma phase_append (c : Ctx) (log log' : List (Ctx × WaitKind)) :
    phase c (log ++ log') =
      log'.foldl (fun φ w => if w.1 = c then φ.bind (·.next w.2) else φ) (phase c log) :=
  List.foldl_append ..

lemma phase_snoc (c : Ctx) (log : List (Ctx × WaitKind)) (w : Ctx × WaitKind) :
    phase c (log ++ [w]) = if w.1 = c then (phase c log).bind (·.next w.2) else phase c log := by
  simp [phase_append]

/-- The phases of all contexts in their calls on an object. -/
def phases (o : Obj) (tr : List Event) (c : Ctx) : Option Phase := phase c (waitLog o tr)

lemma phases_keep (o : Obj) (tr : List Event) {es : List Event} (h : ∀ e ∈ es, e.wait = none) :
    phases o (tr ++ es) = phases o tr := by
  have hnil : waitLog o es = [] :=
    List.filterMap_eq_nil_iff.mpr fun e he => by rw [h e he]; rfl
  funext c
  rw [phases, phases, waitLog_append, hnil, List.append_nil]

lemma phases_snoc (o : Obj) (tr : List Event) {e : Event} {c : Ctx} {k : WaitKind}
    (he : e.wait = some (o, c, k)) :
    phases o (tr ++ [e]) =
      Function.update (phases o tr) c ((phases o tr c).bind (·.next k)) := by
  have hlog : waitLog o [e] = [(c, k)] := by simp [waitLog, he]
  funext c'
  rw [phases, waitLog_append, hlog, phase_snoc]
  by_cases hc : c = c'
  · subst hc
    rw [if_pos rfl, Function.update_self]
    rfl
  · rw [if_neg hc, Function.update_of_ne (Ne.symm hc)]
    rfl

lemma orderOf_append (k : WaitKind) (log log' : List (Ctx × WaitKind)) :
    orderOf k (log ++ log') = orderOf k log ++ orderOf k log' := by
  simp [orderOf]

/-- One context in the log: it is blocked exactly while it waits in the list, and in one
call exactly while it is not idle. -/
def Lives (c : Ctx) (log : List (Ctx × WaitKind)) (q : List TaskPtr) (calls : Nat) : Prop :=
  ∃ φ, phase c log = some φ ∧ (φ = .blocked ↔ ∃ t ∈ q, c = some t) ∧
    calls = if φ = .idle then 0 else 1

namespace Lives

variable {c d : Ctx} {log : List (Ctx × WaitKind)} {q q' : List TaskPtr} {n : Nat}
  {k : WaitKind} {t : TaskPtr}

lemma other (h : Lives c log q n) (hd : d ≠ c)
    (hq : (∃ t ∈ q', c = some t) ↔ ∃ t ∈ q, c = some t) : Lives c (log ++ [(d, k)]) q' n := by
  obtain ⟨φ, hφ, hblocked, hn⟩ := h
  refine ⟨φ, ?_, hblocked.trans hq.symm, hn⟩
  rw [phase_snoc, if_neg hd, hφ]

lemma idle (h : Lives c log q 0) : phase c log = some .idle := by
  obtain ⟨φ, hφ, -, hn⟩ := h
  by_cases hidle : φ = .idle
  · rw [hφ, hidle]
  · rw [if_neg hidle] at hn
    cases hn

lemma not_mem (h : Lives c log q 0) : ¬∃ t ∈ q, c = some t := by
  obtain ⟨φ, hφ, hblocked, -⟩ := id h
  obtain rfl : φ = .idle := Option.some.inj (hφ.symm.trans h.idle)
  rw [← hblocked]
  simp

lemma take (h : Lives c log q 0) : Lives c (log ++ [(c, .take)]) q 1 := by
  refine ⟨.took, ?_, by simpa using h.not_mem, rfl⟩
  rw [phase_snoc, if_pos rfl, h.idle]
  rfl

lemma block (h : Lives (some t) log q 0) :
    Lives (some t) (log ++ [(some t, .block)]) (q ++ [t]) 1 := by
  refine ⟨.blocked, ?_, by simp, rfl⟩
  rw [phase_snoc, if_pos rfl, h.idle]
  rfl

lemma grant (h : Lives (some t) log (t :: q) n) (ht : t ∉ q) :
    Lives (some t) (log ++ [(some t, .grant)]) q n := by
  obtain ⟨φ, hφ, hblocked, hn⟩ := h
  obtain rfl : φ = .blocked := hblocked.mpr ⟨t, List.mem_cons_self, rfl⟩
  refine ⟨.granted, ?_, ?_, hn⟩
  · rw [phase_snoc, if_pos rfl, hφ]
    rfl
  · simp only [reduceCtorEq, false_iff, not_exists, not_and]
    intro u hu htu
    exact ht (Option.some.inj htu ▸ hu)

lemma finish (h : Lives c log q 1) (hnot : ¬∃ t ∈ q, c = some t) :
    Lives c (log ++ [(c, .finish)]) q 0 := by
  obtain ⟨φ, hφ, hblocked, hn⟩ := h
  refine ⟨.idle, ?_, by simpa using hnot, rfl⟩
  rw [phase_snoc, if_pos rfl, hφ]
  cases φ with
  | idle => cases hn
  | blocked => exact absurd (hblocked.mp rfl) hnot
  | took => rfl
  | granted => rfl

end Lives

namespace Core

variable {K : Core} {m : MutexPtr} {p : SemPtr} {o : Obj} {a : Act}

lemma lock_cases (h : K.Inv) (hidle : K.curr ≠ some .idleTask) :
    (((K.mutex m).locker = 0#32 ∨ (K.mutex m).owner = K.curr) ∧
      K.exec (.lock m) =
        (K.off.setMutex m ⟨K.curr, (K.mutex m).locker + 1#32⟩).emit (.lockTake K.curr m) ∧
      K.leaves (.lock m) = [⟨.reinMutexLock m, K.eflags⟩]) ∨
    ∃ t, K.curr = some t ∧ t ∈ K.queue .ready ∧ (K.mutex m).locker ≠ 0#32 ∧
      (K.mutex m).owner ≠ K.curr ∧
      K.exec (.lock m) = ((K.off.block t (.mutexWait m)).emit (.lockBlock t m)).dispatch ∧
      K.leaves (.lock m) = K.dispatched (.reinMutexLock m) := by
  have hm : K.off.mutex m = K.mutex m := rfl
  have hc : K.off.curr = K.curr := rfl
  by_cases hz : (K.mutex m).locker = 0#32
  · left
    simp [exec, lock, leaves, hm, hc, hz]
  · by_cases ho : (K.mutex m).owner = K.curr
    · left
      simp [exec, lock, leaves, hm, hc, hz, ho]
    · right
      cases hcurr : K.curr with
      | none => exact absurd ((h.boot hcurr).owner m) (hcurr ▸ ho)
      | some t =>
        have hr := h.mem_ready hcurr (fun he => hidle (he ▸ hcurr))
        rw [hcurr] at ho
        refine ⟨t, rfl, hr, hz, ho, ?_, ?_⟩
        · simp [exec, lock, hm, hc, hz, ho, hcurr]
        · simp [leaves, hz, ho, hcurr]

/-- `rein_mutex_unlock` fails its `ASSERT`s, lowers the count, frees the mutex or hands it
over. -/
lemma unlock_cases :
    (((K.mutex m).locker = 0#32 ∨ (K.mutex m).owner ≠ K.curr) ∧
      K.exec (.unlock m) = K.off.die .assertFailed ∧ K.leaves (.unlock m) = []) ∨
    ((K.mutex m).locker ≠ 0#32 ∧ (K.mutex m).owner = K.curr ∧
      K.leaves (.unlock m) = [⟨.reinMutexUnlock m, K.eflags⟩] ∧
      (((K.mutex m).locker ≠ 1#32 ∧ K.exec (.unlock m) =
          (K.off.setMutex m ⟨K.curr, (K.mutex m).locker - 1#32⟩).emit (.unlock K.curr m)) ∨
        ((K.mutex m).locker = 1#32 ∧ K.queue (.mutexWait m) = [] ∧
          K.exec (.unlock m) = (K.off.emit (.unlock K.curr m)).setMutex m ⟨none, 0#32⟩) ∨
        ((K.mutex m).locker = 1#32 ∧ ∃ t ts, K.queue (.mutexWait m) = t :: ts ∧
          K.exec (.unlock m) =
            ((((K.off.emit (.unlock K.curr m)).leave (.mutexWait m) t).wake t).setMutex m
              ⟨some t, 1#32⟩).emit (.lockHand t m)))) := by
  have hm : K.off.mutex m = K.mutex m := rfl
  have hc : K.off.curr = K.curr := rfl
  by_cases hz : (K.mutex m).locker = 0#32
  · left
    simp [exec, unlock, leaves, hm, hz]
  · by_cases ho : (K.mutex m).owner = K.curr
    · right
      refine ⟨hz, ho, by simp [leaves, hz, ho], ?_⟩
      by_cases h1 : (K.mutex m).locker = 1#32
      · right
        have hq : (K.off.emit (.unlock K.curr m)).queue (.mutexWait m) =
            K.queue (.mutexWait m) := rfl
        cases hqueue : K.queue (.mutexWait m) with
        | nil =>
          left
          simp [exec, unlock, handOver, hm, hc, ho, h1, hq, hqueue]
        | cons t ts =>
          right
          refine ⟨h1, t, ts, rfl, ?_⟩
          simp [exec, unlock, handOver, hm, hc, ho, h1, hq, hqueue]
      · left
        simp [exec, unlock, hm, hc, hz, ho, h1]
    · left
      simp [exec, unlock, leaves, hm, hc, ho]

lemma wait_cases (h : K.Inv) (hcurr : K.curr ≠ none) (hidle : K.curr ≠ some .idleTask) :
    (0 < K.sem p ∧
      K.exec (.wait p) = (K.off.setSem p (K.sem p - 1)).emit (.semTake K.curr p) ∧
      K.leaves (.wait p) = [⟨.semWait p, K.eflags⟩]) ∨
    ∃ t, K.curr = some t ∧ t ∈ K.queue .ready ∧ K.sem p ≤ 0 ∧
      K.exec (.wait p) = ((K.off.block t (.semWait p)).emit (.semBlock t p)).dispatch ∧
      K.leaves (.wait p) = K.dispatched (.semWait p) := by
  have hs : K.off.sem p = K.sem p := rfl
  have hc : K.off.curr = K.curr := rfl
  by_cases hp : 0 < K.sem p
  · left
    simp [exec, wait, leaves, hs, hc, hp]
  · right
    obtain ⟨t, ht⟩ := Option.ne_none_iff_exists'.mp hcurr
    have hr := h.mem_ready ht (fun he => hidle (he ▸ ht))
    refine ⟨t, ht, hr, Int.not_lt.mp hp, ?_, ?_⟩
    · simp [exec, wait, hs, hc, hp, ht]
    · simp [leaves, hp]

lemma notify_cases :
    (K.queue (.semWait p) = [] ∧
      K.exec (.notify p) = (K.off.emit (.semNotify p)).setSem p (K.sem p + 1) ∧
      K.leaves (.notify p) = [⟨.semNotify p, K.eflags⟩]) ∨
    ∃ t ts, K.queue (.semWait p) = t :: ts ∧
      K.exec (.notify p) =
        ((((K.off.emit (.semNotify p)).leave (.semWait p) t).wake t).emit (.semPop t p)).dispatch ∧
      K.leaves (.notify p) = K.dispatched (.semNotify p) := by
  have hq : (K.off.emit (.semNotify p)).queue (.semWait p) = K.queue (.semWait p) := rfl
  have hs : (K.off.emit (.semNotify p)).sem p = K.sem p := rfl
  cases hqueue : K.queue (.semWait p) with
  | nil =>
    left
    simp [exec, notify, leaves, hq, hs, hqueue]
  | cons t ts =>
    right
    refine ⟨t, ts, rfl, ?_, ?_⟩
    · simp [exec, notify, hq, hqueue]
    · simp [leaves, hqueue]

/-- What an action can do to the calls on an object: the log grows, the wait list has a
new content, and a number of the epilogues left wait for the object. -/
inductive WaitStep (K : Core) (o : Obj) (a : Act) :
    List (Ctx × WaitKind) → List TaskPtr → Nat → Prop
  | keep : a ≠ o.enter → (∀ e, a = .ret e → e.fn.obj ≠ some o) →
      K.WaitStep o a [] (K.queue o.queue) 0
  | take : a = o.enter → K.WaitStep o a [(K.curr, .take)] (K.queue o.queue) 1
  | block {t : TaskPtr} : a = o.enter → K.curr = some t → t ∈ K.queue .ready →
      K.WaitStep o a [(some t, .block)] (K.queue o.queue ++ [t]) 1
  | grant {t : TaskPtr} {ts : List TaskPtr} : a ≠ o.enter → (∀ e, a ≠ .ret e) →
      K.queue o.queue = t :: ts → K.WaitStep o a [(some t, .grant)] ts 0
  | finish {e : Epilogue} : a = .ret e → e.fn.obj = some o →
      K.WaitStep o a [(K.curr, .finish)] (K.queue o.queue) 0

lemma countP_call {f : Fn} (hf : f.obj = some o) (state : BitVec 32) :
    [(⟨f, state⟩ : Epilogue)].countP (fun e => e.fn.obj = some o) = 1 := by simp [hf]

lemma countP_dispatched {f : Fn} (hf : f.obj = some o) :
    (K.dispatched f).countP (fun e => e.fn.obj = some o) = 1 := by
  simp [dispatched, Fn.obj] at hf ⊢
  simp [hf]

/-- The action is a `WaitStep` on the object. -/
def StepsWait (K : Core) (o : Obj) (a : Act) : Prop :=
  ∃ log, waitLog o (K.exec a).trace = waitLog o K.trace ++ log ∧
    K.WaitStep o a log ((K.exec a).queue o.queue)
      ((K.leaves a).countP fun e => e.fn.obj = some o)

lemma stepsWait_lock (h : K.Inv) (hidle : K.curr ≠ some .idleTask) :
    K.StepsWait (.mutex m) (.lock m) := by
  rcases lock_cases (m := m) h hidle with ⟨-, hexec, hleaves⟩ | ⟨t, hc, ht, -, -, hexec, hleaves⟩
  · refine ⟨[(K.curr, .take)], ?_, ?_⟩
    · rw [hexec]
      simp [emit, setMutex, off, cpu, waitLog, Event.wait]
    · rw [hexec, hleaves, countP_call rfl]
      exact .take rfl
  · refine ⟨[(some t, .block)], ?_, ?_⟩
    · rw [hexec, dispatch_trace]
      simp [emit, block, pop, leave, join, off, cpu, waitLog, Event.wait]
    · rw [hexec, hleaves, dispatch_queue, countP_dispatched rfl]
      have hq : (((K.off.block t (.mutexWait m)).emit (.lockBlock t m)).queue
          (Obj.mutex m).queue) = K.queue (Obj.mutex m).queue ++ [t] := by
        simp [emit, block, pop, leave, join, off, cpu, Obj.queue]
      rw [hq]
      exact .block rfl hc ht

lemma stepsWait_unlock : K.StepsWait (.mutex m) (.unlock m) := by
  rcases unlock_cases (K := K) (m := m) with ⟨-, hexec, hleaves⟩ |
    ⟨-, -, hleaves, ⟨-, hexec⟩ | ⟨-, -, hexec⟩ | ⟨-, t, ts, hq, hexec⟩⟩
  · refine ⟨[], by rw [hexec]; simp [die, off, cpu], ?_⟩
    rw [hexec, hleaves]
    exact .keep (by simp [Obj.enter]) (by simp)
  · refine ⟨[], ?_, ?_⟩
    · rw [hexec]
      simp [emit, setMutex, off, cpu, waitLog, Event.wait]
    · rw [hexec, hleaves]
      exact .keep (by simp [Obj.enter]) (by simp)
  · refine ⟨[], ?_, ?_⟩
    · rw [hexec]
      simp [emit, setMutex, off, cpu, waitLog, Event.wait]
    · rw [hexec, hleaves]
      exact .keep (by simp [Obj.enter]) (by simp)
  · refine ⟨[(some t, .grant)], ?_, ?_⟩
    · rw [hexec]
      simp [emit, setMutex, off, cpu, leave, wake, join, setTask, waitLog, Event.wait]
    · rw [hexec, hleaves]
      have hq' : (((((K.off.emit (.unlock K.curr m)).leave (.mutexWait m) t).wake t).setMutex m
          ⟨some t, 1#32⟩).emit (.lockHand t m)).queue (Obj.mutex m).queue = ts := by
        simp [emit, setMutex, off, cpu, leave, wake, join, setTask, Obj.queue, hq]
      rw [hq']
      exact .grant (by simp [Obj.enter]) (by simp) hq

lemma stepsWait_wait (h : K.Inv) (hcurr : K.curr ≠ none) (hidle : K.curr ≠ some .idleTask) :
    K.StepsWait (.sem p) (.wait p) := by
  rcases wait_cases (p := p) h hcurr hidle with ⟨-, hexec, hleaves⟩ |
    ⟨t, hc, ht, -, hexec, hleaves⟩
  · refine ⟨[(K.curr, .take)], ?_, ?_⟩
    · rw [hexec]
      simp [emit, setSem, off, cpu, waitLog, Event.wait]
    · rw [hexec, hleaves, countP_call rfl]
      exact .take rfl
  · refine ⟨[(some t, .block)], ?_, ?_⟩
    · rw [hexec, dispatch_trace]
      simp [emit, block, pop, leave, join, off, cpu, waitLog, Event.wait]
    · rw [hexec, hleaves, dispatch_queue, countP_dispatched rfl]
      have hq : (((K.off.block t (.semWait p)).emit (.semBlock t p)).queue
          (Obj.sem p).queue) = K.queue (Obj.sem p).queue ++ [t] := by
        simp [emit, block, pop, leave, join, off, cpu, Obj.queue]
      rw [hq]
      exact .block rfl hc ht

lemma stepsWait_notify : K.StepsWait (.sem p) (.notify p) := by
  rcases notify_cases (K := K) (p := p) with ⟨-, hexec, hleaves⟩ | ⟨t, ts, hq, hexec, hleaves⟩
  · refine ⟨[], ?_, ?_⟩
    · rw [hexec]
      simp [emit, setSem, off, cpu, waitLog, Event.wait]
    · rw [hexec, hleaves]
      exact .keep (by simp [Obj.enter]) (by simp)
  · refine ⟨[(some t, .grant)], ?_, ?_⟩
    · rw [hexec, dispatch_trace]
      simp [emit, off, cpu, leave, wake, join, setTask, waitLog, Event.wait]
    · rw [hexec, hleaves, dispatch_queue]
      have hq' : ((((K.off.emit (.semNotify p)).leave (.semWait p) t).wake t).emit
          (.semPop t p)).queue (Obj.sem p).queue = ts := by
        simp [emit, off, cpu, leave, wake, join, setTask, Obj.queue, hq]
      rw [hq']
      exact .grant (by simp [Obj.enter]) (by simp) hq

lemma exec_waitStep (h : K.Inv) (he : K.Enabled a) (o : Obj) : K.StepsWait o a := by
  by_cases ha : a.obj = some o
  · cases a with
    | lock m =>
      cases ha
      exact stepsWait_lock h he
    | unlock m =>
      cases ha
      exact stepsWait_unlock
    | wait p =>
      cases ha
      exact stepsWait_wait h he.1 he.2
    | notify p =>
      cases ha
      exact stepsWait_notify
    | ret e =>
      refine ⟨[(K.curr, .finish)], ?_, .finish rfl ha⟩
      simp only [exec, waitLog_append]
      cases hf : e.fn <;> simp [Act.obj, Fn.obj, hf] at ha <;>
        simp [← ha, Fn.returned, waitLog, Event.wait]
    | _ => cases ha
  · obtain ⟨es, htr, hes⟩ := (exec_spares he ha).trace
    refine ⟨[], by rw [htr, waitLog_append, waitLog_eq_nil hes], ?_⟩
    have hzero : ((K.leaves a).countP fun e => e.fn.obj = some o) = 0 := by
      rw [List.countP_eq_zero]
      intro e hmem
      simpa using leaves_obj hmem ha
    rw [(exec_spares he ha).queue, hzero]
    refine .keep ?_ (fun e hae => by simpa [hae, Act.obj] using ha)
    rintro rfl
    exact ha o.obj_enter

end Core

/-- Each context lives through its calls on the object one after the other, blocked
exactly while it is in the wait list, and the grants come in the order of the blocks. -/
structure Machine.WaitInv (M : Machine Core) (o : Obj) : Prop where
  lives : ∀ c, ∃ φ, phase c (waitLog o M.sys.trace) = some φ ∧
    (φ = .blocked ↔ ∃ t ∈ M.sys.queue o.queue, c = some t) ∧
    (M.ctl c).callsOn o = if φ = .idle then 0 else 1
  order : orderOf .block (waitLog o M.sys.trace) =
    orderOf .grant (waitLog o M.sys.trace) ++ (M.sys.queue o.queue).map some

namespace Machine.WaitInv

variable {M : Machine Core} {o : Obj} {l : Label} {a : Act} {rest : List Epilogue} {pc : Pc}
  {new : List TaskPtr}

lemma boot (b : BootMem) : b.abstract.WaitInv o := by
  refine ⟨fun c => ⟨.idle, rfl, by simp [BootMem.abstract, BootMem.core], ?_⟩, rfl⟩
  by_cases hc : c = none
  · simp [BootMem.abstract, BootMem.machine, Ctl.callsOn, hc]
  · simp [BootMem.abstract, BootMem.machine, Ctl.callsOn, Ctl.own, hc]

lemma curr_not_mem (hM : M.Sound) {t : TaskPtr} (hc : M.sys.curr = some t) :
    t ∉ M.sys.queue o.queue := by
  intro hq
  by_cases hidle : t = .idleTask
  · exact hM.core.idle_not_mem _ (hidle ▸ hq)
  · have hr := hM.core.mem_ready hc hidle
    exact o.queue_ne_ready (hM.core.placed.apart.unique _ _ t hq hr)

lemma callsOn_after (hM : M.Sound) (hd : M.Does l a rest pc new) (c : Ctx) :
    ((M.after a rest pc new).ctl c).callsOn o =
      if c = M.sys.curr then
        (M.sys.leaves a).countP (fun e => e.fn.obj = some o) +
          rest.countP fun e => e.fn.obj = some o
      else (M.ctl c).callsOn o := by
  rw [Ctl.callsOn, Machine.Sound.after_pending hM hd]
  split
  · rw [List.countP_append]
  · rfl

lemma countP_rest (hd : M.Does l a rest pc new)
    (hret : ∀ e, a = .ret e → e.fn.obj ≠ some o) :
    (rest.countP fun e => e.fn.obj = some o) = (M.ctl M.sys.curr).callsOn o := by
  rcases Machine.Sound.pending_cases hd with ⟨e, ha, hp⟩ | ⟨-, hp, -⟩
  · rw [Ctl.callsOn, hp, List.countP_cons_of_neg (by simpa using hret e ha)]
  · rw [Ctl.callsOn, hp]

lemma callsOn_of_call (hd : M.Does l a rest pc new) (hret : ∀ e, a ≠ .ret e)
    (htimer : a ≠ .timer) : rest = [] ∧ (M.ctl M.sys.curr).callsOn o = 0 := by
  have hp := (Machine.Sound.pending_cases hd).resolve_left (fun ⟨e, he, _⟩ => hret e he)
  have hrest := hp.2.2 htimer
  exact ⟨hrest, by rw [Ctl.callsOn, hp.2.1, hrest, List.countP_nil]⟩

lemma idle_of_call (h : M.WaitInv o) (hd : M.Does l a rest pc new) (hret : ∀ e, a ≠ .ret e)
    (htimer : a ≠ .timer) :
    rest = [] ∧ Lives M.sys.curr (waitLog o M.sys.trace) (M.sys.queue o.queue) 0 := by
  obtain ⟨hrest, hzero⟩ := callsOn_of_call (o := o) hd hret htimer
  exact ⟨hrest, hzero ▸ h.lives M.sys.curr⟩

lemma idle_of_enter (h : M.WaitInv o) (hd : M.Does l a rest pc new) (ha : a = o.enter) :
    rest = [] ∧ Lives M.sys.curr (waitLog o M.sys.trace) (M.sys.queue o.queue) 0 := by
  subst ha
  cases o <;> exact h.idle_of_call hd (by simp [Obj.enter]) (by simp [Obj.enter])

lemma callsOn_of_ret (hd : M.Does l (.ret e) rest pc new) (he : e.fn.obj = some o) :
    (M.ctl M.sys.curr).callsOn o = rest.countP (fun e => e.fn.obj = some o) + 1 := by
  have hp : (M.ctl M.sys.curr).pending = e :: rest := by
    rcases Machine.Sound.pending_cases hd with ⟨e', ha, hp⟩ | ⟨hno, -, -⟩
    · cases ha
      exact hp
    · exact absurd rfl (hno e)
  rw [Ctl.callsOn, hp, List.countP_cons_of_pos (by simpa using he)]

lemma one_of_ret (h : M.WaitInv o) (hd : M.Does l (.ret e) rest pc new)
    (he : e.fn.obj = some o) :
    (rest.countP fun e => e.fn.obj = some o) = 0 ∧
      Lives M.sys.curr (waitLog o M.sys.trace) (M.sys.queue o.queue) 1 := by
  have hcount := callsOn_of_ret hd he
  have hlives : Lives M.sys.curr (waitLog o M.sys.trace) (M.sys.queue o.queue)
      ((M.ctl M.sys.curr).callsOn o) := h.lives M.sys.curr
  have hzero : (rest.countP fun e => e.fn.obj = some o) = 0 := by
    obtain ⟨φ, -, -, hn⟩ := id hlives
    rw [hcount] at hn
    split at hn <;> omega
  rw [hcount, hzero] at hlives
  exact ⟨hzero, hlives⟩

lemma lives_after (h : M.WaitInv o) (hM : M.Sound) (hd : M.Does l a rest pc new)
    {log : List (Ctx × WaitKind)} {q : List TaskPtr} {n : Nat} (hstep : M.sys.WaitStep o a log q n)
    (c : Ctx) :
    Lives c (waitLog o M.sys.trace ++ log) q
      (if c = M.sys.curr then n + rest.countP fun e => e.fn.obj = some o
        else (M.ctl c).callsOn o) := by
  have hlives : Lives c (waitLog o M.sys.trace) (M.sys.queue o.queue) ((M.ctl c).callsOn o) :=
    h.lives c
  -- without a call or a return, the calls of every context are as before
  have hkeep : (∀ e, a = .ret e → e.fn.obj ≠ some o) →
      (if c = M.sys.curr then 0 + rest.countP fun e => e.fn.obj = some o
        else (M.ctl c).callsOn o) = (M.ctl c).callsOn o := by
    intro hret
    rw [countP_rest hd hret, Nat.zero_add]
    split
    · rename_i hc
      rw [hc]
    · rfl
  cases hstep with
  | keep _ hret =>
    rw [List.append_nil, hkeep hret]
    exact hlives
  | take henter =>
    by_cases hc : c = M.sys.curr
    · obtain ⟨rfl, hidle⟩ := h.idle_of_enter hd henter
      rw [if_pos hc, hc]
      exact hidle.take
    · rw [if_neg hc]
      exact hlives.other (Ne.symm hc) Iff.rfl
  | @block t henter ht hready =>
    by_cases hc : c = M.sys.curr
    · obtain ⟨rfl, hidle⟩ := h.idle_of_enter hd henter
      rw [if_pos hc, hc, ht]
      exact (ht ▸ hidle).block
    · have hct : some t ≠ c := fun he => hc (he.symm.trans ht.symm)
      rw [if_neg hc]
      refine hlives.other hct ?_
      simp [or_and_right, exists_or, Ne.symm hct]
  | @grant t _ _ hret hq =>
    have ht : t ∉ q := (List.nodup_cons.mp (hq ▸ hM.core.placed.apart.nodup o.queue)).1
    rw [hkeep fun e he => absurd he (hret e)]
    rw [hq] at hlives
    by_cases hct : c = some t
    · subst hct
      exact hlives.grant ht
    · refine hlives.other (Ne.symm hct) ?_
      simp [hct]
  | @finish e ha he =>
    subst ha
    by_cases hc : c = M.sys.curr
    · obtain ⟨hzero, hone⟩ := h.one_of_ret hd he
      rw [if_pos hc, hc, hzero]
      refine hone.finish ?_
      rintro ⟨t, ht, hct⟩
      exact curr_not_mem hM hct ht
    · rw [if_neg hc]
      exact hlives.other (Ne.symm hc) Iff.rfl

theorem after (h : M.WaitInv o) (hM : M.Sound) (hd : M.Does l a rest pc new) :
    (M.after a rest pc new).WaitInv o := by
  obtain ⟨log, htr, hstep⟩ := Core.exec_waitStep hM.core (hM.enabled hd) o
  have hsys : (M.after a rest pc new).sys = M.sys.exec a := rfl
  refine ⟨fun c => ?_, ?_⟩
  · rw [hsys, htr, callsOn_after hM hd]
    exact h.lives_after hM hd hstep c
  · rw [hsys, htr, orderOf_append, orderOf_append, h.order]
    generalize (M.sys.exec a).queue o.queue = q at hstep ⊢
    generalize (M.sys.leaves a).countP _ = n at hstep
    cases hstep with
    | keep => simp [orderOf]
    | take => simp [orderOf]
    | block => simp [orderOf]
    | grant _ _ hq => simp [orderOf, hq]
    | finish => simp [orderOf]

lemma phases_blocked (h : M.WaitInv o) {t : TaskPtr} (ht : t ∈ M.sys.queue o.queue) :
    phases o M.sys.trace (some t) = some .blocked := by
  obtain ⟨φ, hφ, hblocked, -⟩ := h.lives (some t)
  rw [OsToyI386.phases, hφ, hblocked.mpr ⟨t, ht, rfl⟩]

lemma phases_idle (h : M.WaitInv o) (hd : M.Does l a rest pc new) (hret : ∀ e, a ≠ .ret e)
    (htimer : a ≠ .timer) : phases o M.sys.trace M.sys.curr = some .idle := by
  exact (h.idle_of_call hd hret htimer).2.idle

lemma phases_got (h : M.WaitInv o) (hM : M.Sound)
    (hp : e ∈ (M.ctl M.sys.curr).pending) (he : e.fn.obj = some o) :
    phases o M.sys.trace M.sys.curr = some .took ∨
      phases o M.sys.trace M.sys.curr = some .granted := by
  obtain ⟨φ, hφ, hblocked, hn⟩ := h.lives M.sys.curr
  have hpos : 0 < (M.ctl M.sys.curr).callsOn o :=
    List.countP_pos_iff.mpr ⟨e, hp, by simpa using he⟩
  rw [OsToyI386.phases, hφ]
  cases φ with
  | idle =>
    rw [hn] at hpos
    simp at hpos
  | took => exact Or.inl rfl
  | granted => exact Or.inr rfl
  | blocked =>
    obtain ⟨t, ht, hct⟩ := hblocked.mp rfl
    exact absurd ht (curr_not_mem hM hct)

end Machine.WaitInv

/-- The tasks in the wait list of a mutex or semaphore. -/
def Sys.waiters (s : Sys) (o : Obj) : List TaskPtr := (s.heap.toList o.queue.list).map containerOf

lemma Repr.waiters {s : Sys} {K : Core} (h : Repr s K) (o : Obj) :
    s.waiters o = K.queue o.queue := by
  rw [Sys.waiters, h.toList_eq, List.map_map]
  exact List.map_id'' (fun t => Queue.containerOf_node _ t) _

end OsToyI386
