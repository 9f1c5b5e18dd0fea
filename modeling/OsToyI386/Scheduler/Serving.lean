import OsToyI386.Scheduler.Waiting

/-!
# Waiters in turn

What an action does to a place in the wait list of a mutex or a semaphore: nothing, or the
first waiter is served and all others move up.
-/

namespace OsToyI386

/-- The first waiter of the object, if there is one, is served. -/
def Event.serves (o : Obj) : Event → Bool
  | .lockHand _ m => decide (o = .mutex m)
  | .semNotify p => decide (o = .sem p)
  | _ => false

/-- How often a waiter was to be served: a mutex was handed over, or a semaphore notified. -/
def servings (o : Obj) (tr : List Event) : Nat := tr.countP (Event.serves o)

lemma Event.serves_obj {o : Obj} {e : Event} (h : e.serves o = true) : e.obj = some o := by
  cases e <;> simp_all [serves, obj]

lemma servings_append (o : Obj) (tr es : List Event) :
    servings o (tr ++ es) = servings o tr + servings o es := List.countP_append

lemma servings_eq_zero {o : Obj} {es : List Event} (h : ∀ e ∈ es, e.obj ≠ some o) :
    servings o es = 0 :=
  List.countP_eq_zero.mpr fun e he hs => h e he (Event.serves_obj hs)

namespace Core

/-- The task has become ready behind all others, and owns the mutex that it waited for. -/
structure Served (K : Core) (o : Obj) (t : TaskPtr) : Prop where
  ready : ∃ xs, xs ≠ [] ∧ K.queue .ready = xs ++ [t]
  owner : ∀ m, o = .mutex m → K.mutex m = ⟨some t, 1#32⟩

/-- The task at a place in the wait list keeps its place, or the first waiter is served and
the task moves up. -/
def Advances (K K' : Core) (o : Obj) (t : TaskPtr) (k : Nat) : Prop :=
  ((K'.queue o.queue)[k]? = some t ∧ servings o K'.trace = servings o K.trace) ∨
    (servings o K'.trace = servings o K.trace + 1 ∧ (k = 0 → K'.Served o t) ∧
      ∀ j, k = j + 1 → (K'.queue o.queue)[j]? = some t)

namespace Advances

variable {K K' : Core} {o : Obj} {t u : TaskPtr} {k : Nat} {xs : List TaskPtr}
  {a : Act} {m : MutexPtr} {p : SemPtr}

lemma stay (xs : List TaskPtr) (es : List Event) (ht : (K.queue o.queue)[k]? = some t)
    (hq : K'.queue o.queue = K.queue o.queue ++ xs) (htr : K'.trace = K.trace ++ es)
    (hes : servings o es = 0) : K.Advances K' o t k := by
  refine Or.inl ⟨?_, by rw [htr, servings_append, hes, Nat.add_zero]⟩
  rw [hq, List.getElem?_append_left (List.getElem?_eq_some_iff.mp ht).1, ht]

lemma up (es : List Event) (ht : (K.queue o.queue)[k]? = some t)
    (hcons : K.queue o.queue = u :: xs) (hq : K'.queue o.queue = xs)
    (htr : K'.trace = K.trace ++ es) (hes : servings o es = 1) (hserved : K'.Served o u) :
    K.Advances K' o t k := by
  refine Or.inr ⟨by rw [htr, servings_append, hes], ?_, ?_⟩
  · rintro rfl
    rw [hcons] at ht
    obtain rfl := Option.some.inj ht
    exact hserved
  · rintro j rfl
    rw [hcons] at ht
    rw [hq]
    exact ht

lemma lock (hK : K.Inv) (hidle : K.curr ≠ some .idleTask)
    (ht : (K.queue (.mutexWait m))[k]? = some t) :
    K.Advances (K.exec (.lock m)) (.mutex m) t k := by
  rcases lock_cases (m := m) hK hidle with ⟨-, hexec, -⟩ | ⟨u, hc, hr, -, -, hexec, -⟩
  · rw [hexec]
    exact stay [] [.lockTake K.curr m] ht (List.append_nil _).symm rfl rfl
  · rw [hexec]
    refine stay [u] [.listPop .readyList ⟨u, .runNode⟩ true, .lockBlock u m] ht ?_ ?_
      rfl
    · rw [dispatch_queue]
      simp [Obj.queue, emit, block, join, pop, leave, off, cpu]
    · rw [dispatch_trace]
      simp [emit, block, join, pop, leave, off, cpu, hr, Queue.list, Queue.node]

lemma ready_ne_nil (hK : K.Inv) (hidle : K.curr ≠ some .idleTask)
    (hcons : K.queue o.queue = u :: xs) : K.queue .ready ≠ [] := by
  cases hc : K.curr with
  | none =>
    have hnil := (hK.boot hc).others o.queue o.queue_ne_ready
    rw [hcons] at hnil
    cases hnil
  | some c => exact hK.ready_ne_nil hc fun hi => hidle (hi ▸ hc)

lemma unlock (hK : K.Inv) (hidle : K.curr ≠ some .idleTask)
    (ht : (K.queue (.mutexWait m))[k]? = some t) :
    K.Advances (K.exec (.unlock m)) (.mutex m) t k := by
  rcases unlock_cases (K := K) (m := m) with ⟨-, hexec, -⟩ |
    ⟨-, -, -, ⟨-, hexec⟩ | ⟨-, -, hexec⟩ | ⟨-, u, us, hq, hexec⟩⟩
  · rw [hexec]
    exact stay [] [] ht (List.append_nil _).symm (List.append_nil _).symm rfl
  · rw [hexec]
    exact stay [] [.unlock K.curr m] ht (List.append_nil _).symm rfl rfl
  · rw [hexec]
    exact stay [] [.unlock K.curr m] ht (List.append_nil _).symm rfl rfl
  · have hne := ready_ne_nil (o := .mutex m) hK hidle hq
    rw [hexec]
    refine up [.unlock K.curr m, .lockHand u m] ht hq ?_ ?_ ?_ ⟨⟨_, hne, ?_⟩, ?_⟩
    · simp [Obj.queue, emit, setMutex, wake, join, leave, setTask, off, cpu, hq]
    · simp [emit, setMutex, wake, join, leave, setTask, off, cpu]
    · simp [servings, Event.serves]
    · simp [emit, setMutex, wake, join, leave, setTask, off, cpu]
    · intro m' hm
      cases hm
      simp [emit, setMutex]

lemma wait (hK : K.Inv) (hcurr : K.curr ≠ none) (hidle : K.curr ≠ some .idleTask)
    (ht : (K.queue (.semWait p))[k]? = some t) :
    K.Advances (K.exec (.wait p)) (.sem p) t k := by
  rcases wait_cases (p := p) hK hcurr hidle with ⟨-, hexec, -⟩ | ⟨u, hc, hr, -, hexec, -⟩
  · rw [hexec]
    exact stay [] [.semTake K.curr p] ht (List.append_nil _).symm rfl rfl
  · rw [hexec]
    refine stay [u] [.listPop .readyList ⟨u, .runNode⟩ true, .semBlock u p] ht ?_ ?_
      rfl
    · rw [dispatch_queue]
      simp [Obj.queue, emit, block, join, pop, leave, off, cpu]
    · rw [dispatch_trace]
      simp [emit, block, join, pop, leave, off, cpu, hr, Queue.list, Queue.node]

lemma notify (hK : K.Inv) (hidle : K.curr ≠ some .idleTask)
    (ht : (K.queue (.semWait p))[k]? = some t) :
    K.Advances (K.exec (.notify p)) (.sem p) t k := by
  rcases notify_cases (K := K) (p := p) with ⟨hq, -, -⟩ | ⟨u, us, hq, hexec, -⟩
  · rw [hq] at ht
    cases ht
  · have hne := ready_ne_nil (o := .sem p) hK hidle hq
    rw [hexec]
    refine up [.semNotify p, .semPop u p] ht hq ?_ ?_ ?_ ⟨⟨_, hne, ?_⟩, ?_⟩
    · rw [dispatch_queue]
      simp [Obj.queue, emit, wake, join, leave, setTask, off, cpu, hq]
    · rw [dispatch_trace]
      simp [emit, wake, join, leave, setTask, off, cpu]
    · simp [servings, Event.serves]
    · rw [dispatch_queue]
      simp [emit, wake, join, leave, setTask, off, cpu]
    · intro m hm
      cases hm

lemma servings_notify (K : Core) (p : SemPtr) :
    servings (.sem p) (K.exec (.notify p)).trace = servings (.sem p) K.trace + 1 := by
  rcases notify_cases (K := K) (p := p) with ⟨-, hexec, -⟩ | ⟨u, us, -, hexec, -⟩
  · have htr : (K.exec (.notify p)).trace = K.trace ++ [.semNotify p] := by rw [hexec]; rfl
    rw [htr, servings_append]
    simp [servings, Event.serves]
  · have htr : (K.exec (.notify p)).trace = K.trace ++ [.semNotify p, .semPop u p] := by
      rw [hexec, dispatch_trace]
      simp [emit, wake, join, leave, setTask, off, cpu]
    rw [htr, servings_append]
    simp [servings, Event.serves]

theorem exec (hK : K.Inv) (he : K.Enabled a) (ht : (K.queue o.queue)[k]? = some t) :
    K.Advances (K.exec a) o t k := by
  by_cases ha : a.obj = some o
  · cases a with
    | lock m =>
      cases ha
      exact lock hK he ht
    | unlock m =>
      cases ha
      exact unlock hK he ht
    | wait p =>
      cases ha
      exact wait hK he.1 he.2 ht
    | notify p =>
      cases ha
      exact notify hK he.2 ht
    | ret e =>
      refine stay [] _ ht (List.append_nil _).symm rfl ?_
      cases e.fn <;> rfl
    | _ => cases ha
  · obtain ⟨es, htr, hes⟩ := (exec_spares he ha).trace
    have hq := (exec_spares he ha).queue
    exact stay [] es ht (hq.trans (List.append_nil _).symm) htr (servings_eq_zero hes)

end Advances

end Core

end OsToyI386
