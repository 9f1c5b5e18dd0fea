import OsToyI386.Lib.WaitsFor
import OsToyI386.Scheduler.Waiting

/-!
# Mutexes taken in order

Each mutex has a rank, and a context locks only mutexes that rank above all that it holds.
Then a task that waits for a mutex holds only mutexes below it, in every state of every run.
-/

namespace OsToyI386

open Lib

/-- The context has taken the mutex. A task's lock whose `locker` has wrapped around to 0 still
has its owner. -/
def ReinMutex.takenBy (x : ReinMutex) (c : Ctx) : Prop :=
  x.owner = c ∧ (x.locker ≠ 0#32 ∨ c ≠ none)

namespace Core

variable {K K' : Core} {rank : MutexPtr → ℕ} {a : Act} {m : MutexPtr}

/-- A mutex with waiters is held, and each of them holds only mutexes that rank below it. -/
structure LockOrdered (K : Core) (rank : MutexPtr → ℕ) : Prop where
  held : ∀ x, K.queue (.mutexWait x) ≠ [] → ∃ c, (K.mutex x).takenBy c
  order : ∀ x y t, t ∈ K.queue (.mutexWait x) → (K.mutex y).takenBy (some t) → rank y < rank x

namespace LockOrdered

lemma same (h : K.LockOrdered rank) (hm : K'.mutex = K.mutex)
    (hq : ∀ x, K'.queue (.mutexWait x) = K.queue (.mutexWait x)) : K'.LockOrdered rank := by
  refine ⟨fun x => ?_, fun x y t => ?_⟩
  · rw [hm, hq]
    exact h.held x
  · rw [hm, hq]
    exact h.order x y t

lemma not_waiting {t : TaskPtr} (hK : K.Inv) (hc : K.curr = some t) (hidle : t ≠ .idleTask)
    (x : MutexPtr) : t ∉ K.queue (.mutexWait x) := by
  intro hq
  have hqueue := hK.placed.apart.unique _ _ t (hK.mem_ready hc hidle) hq
  cases hqueue

lemma set (h : K.LockOrdered rank) {v : ReinMutex}
    (hm : K'.mutex = Function.update K.mutex m v)
    (hq : ∀ x, ∀ t ∈ K'.queue (.mutexWait x), t ∈ K.queue (.mutexWait x))
    (hheld : K'.queue (.mutexWait m) ≠ [] → ∃ c, v.takenBy c)
    (hnew : ∀ x, ∀ t ∈ K'.queue (.mutexWait x), v.takenBy (some t) →
      (K.mutex m).takenBy (some t)) : K'.LockOrdered rank := by
  refine ⟨fun x hx => ?_, fun x y t ht hy => ?_⟩
  · by_cases hxm : x = m
    · rw [hxm, hm, Function.update_self]
      exact hheld (hxm ▸ hx)
    · rw [hm, Function.update_of_ne hxm]
      obtain ⟨t, ht⟩ := List.exists_mem_of_ne_nil _ hx
      exact h.held x (List.ne_nil_of_mem (hq x t ht))
  · by_cases hym : y = m
    · rw [hym, hm, Function.update_self] at hy
      rw [hym]
      exact h.order x m t (hq x t ht) (hnew x t ht hy)
    · rw [hm, Function.update_of_ne hym] at hy
      exact h.order x y t (hq x t ht) hy

lemma lock (h : K.LockOrdered rank) (hK : K.Inv) (hidle : K.curr ≠ some .idleTask)
    (hasc : ∀ y, (K.mutex y).takenBy K.curr → y ≠ m → rank y < rank m) :
    (K.exec (.lock m)).LockOrdered rank := by
  rcases lock_cases (m := m) hK hidle with ⟨-, hexec, -⟩ | ⟨t, hc, -, hz, ho, hexec, -⟩
  · rw [hexec]
    refine h.set rfl (fun _ _ ht => ht) (fun hne => ⟨K.curr, rfl, Or.inr fun hboot => ?_⟩)
      fun x t ht hy => ?_
    · exact hne ((hK.boot hboot).others (.mutexWait m) (by simp))
    · have hc : K.curr = some t := hy.1
      exact absurd ht (not_waiting hK hc (fun hi => hidle (hi ▸ hc)) x)
  · have hm : (K.exec (.lock m)).mutex = K.mutex := by
      rw [hexec, dispatch_mutex]
      rfl
    have hq : ∀ x, (K.exec (.lock m)).queue (.mutexWait x) =
        if x = m then K.queue (.mutexWait x) ++ [t] else K.queue (.mutexWait x) := by
      intro x
      rw [hexec, dispatch_queue]
      by_cases hxm : x = m
      · subst hxm
        simp [block, emit, join, pop, leave, off, cpu]
      · simp [block, emit, join, pop, leave, off, cpu, hxm]
    refine ⟨fun x hx => ?_, fun x y u hu hy => ?_⟩
    · rw [hm]
      rw [hq] at hx
      split at hx
      · rename_i hxm
        exact ⟨_, rfl, Or.inl (hxm ▸ hz)⟩
      · exact h.held x hx
    · rw [hm] at hy
      rw [hq] at hu
      split at hu
      · rename_i hxm
        subst hxm
        rcases List.mem_append.mp hu with hu | hu
        · exact h.order x y u hu hy
        · obtain rfl := List.mem_singleton.mp hu
          refine hasc y (hc ▸ hy) ?_
          rintro rfl
          exact ho (hy.1.trans hc.symm)
      · exact h.order x y u hu hy

lemma mem_handed {t u : TaskPtr} {ts : List TaskPtr} {x : MutexPtr} (hK : K.Inv)
    (hq : K.queue (.mutexWait m) = t :: ts)
    (hq' : K'.queue (.mutexWait x) = if x = m then ts else K.queue (.mutexWait x))
    (hu : u ∈ K'.queue (.mutexWait x)) : u ≠ t ∧ u ∈ K.queue (.mutexWait x) := by
  rw [hq'] at hu
  by_cases hxm : x = m
  · rw [if_pos hxm] at hu
    have hnodup := hK.placed.apart.nodup (.mutexWait m)
    rw [hq] at hnodup
    refine ⟨fun hut => (List.nodup_cons.mp hnodup).1 (hut ▸ hu), ?_⟩
    rw [hxm, hq]
    exact List.mem_cons_of_mem _ hu
  · rw [if_neg hxm] at hu
    refine ⟨?_, hu⟩
    rintro rfl
    have hmem : u ∈ K.queue (.mutexWait m) := hq ▸ List.mem_cons_self
    have hqueue := hK.placed.apart.unique _ _ u hmem hu
    exact hxm (Queue.mutexWait.inj hqueue).symm

lemma unlock (h : K.LockOrdered rank) (hK : K.Inv) : (K.exec (.unlock m)).LockOrdered rank := by
  rcases unlock_cases (K := K) (m := m) with ⟨-, hexec, -⟩ | ⟨hz, ho, -, hrest⟩
  · rw [hexec]
    exact h.same rfl fun _ => rfl
  rcases hrest with ⟨h1, hexec⟩ | ⟨h1, hq, hexec⟩ | ⟨h1, t, ts, hq, hexec⟩
  · -- the count goes down, the owner stays
    rw [hexec]
    refine h.set rfl (fun _ _ ht => ht) (fun _ => ⟨K.curr, rfl, Or.inl ?_⟩)
      fun _ _ _ hy => ⟨ho.trans hy.1, Or.inl hz⟩
    change (K.mutex m).locker - 1#32 ≠ 0#32
    bv_omega
  · -- nobody waits
    rw [hexec]
    refine h.set rfl (fun _ _ ht => ht) (fun hne => absurd hq hne) fun _ _ _ hy => ?_
    cases hy.1
  · -- the first waiter, which waits for nothing else, becomes the owner
    have hq' : ∀ x, (K.exec (.unlock m)).queue (.mutexWait x) =
        if x = m then ts else K.queue (.mutexWait x) := by
      intro x
      rw [hexec]
      by_cases hxm : x = m
      · subst hxm
        simp [emit, setMutex, wake, join, leave, setTask, off, cpu, hq]
      · simp [emit, setMutex, wake, join, leave, setTask, off, cpu, hxm]
    have hm : (K.exec (.unlock m)).mutex = Function.update K.mutex m ⟨some t, 1#32⟩ := by
      rw [hexec]
      rfl
    refine h.set hm (fun x u hu => (mem_handed hK hq (hq' x) hu).2)
      (fun _ => ⟨some t, rfl, Or.inl (by simp)⟩) fun x u hu hy => ?_
    exact absurd (Option.some.inj hy.1).symm (mem_handed hK hq (hq' x) hu).1

/-- The invariant of an action that keeps to the order. -/
theorem exec (h : K.LockOrdered rank) (hK : K.Inv) (he : K.Enabled a)
    (hasc : ∀ x, a = .lock x → ∀ y, (K.mutex y).takenBy K.curr → y ≠ x → rank y < rank x) :
    (K.exec a).LockOrdered rank := by
  have hspares : (∀ x, a.obj ≠ some (.mutex x)) → (K.exec a).LockOrdered rank := fun ha =>
    h.same (funext fun x => (exec_spares he (ha x)).mutex x rfl)
      fun x => (exec_spares he (ha x)).queue
  cases a with
  | lock m => exact h.lock hK he (hasc m rfl)
  | unlock m => exact h.unlock hK
  | ret e => exact h.same rfl fun _ => rfl
  | _ => exact hspares fun x hx => by cases hx

end LockOrdered

end Core

/-- A step in which the running context locks, besides what it holds already, only mutexes
that rank above all that it holds. -/
def Machine.StepOrdered (rank : MutexPtr → ℕ) (m : Machine Sys) (l : Label) (m' : Machine Sys) :
    Prop :=
  m.Step l m' ∧ ∀ x, m.Locks l x →
    ∀ y, (m.sys.mutex y).takenBy m.sys.currTask → y ≠ x → rank y < rank x

/-- The rule over the runs that keep to the order. -/
theorem BootMem.lockOrdered {b : BootMem} {rank : MutexPtr → ℕ} {ls : List Label}
    {m : Machine Sys} (h : Run (Machine.StepOrdered rank) b.machine ls m) :
    ∃ M, m.Sim M ∧ M.Sound ∧ M.sys.LockOrdered rank := by
  refine h.invariant (I := fun m => ∃ M, m.Sim M ∧ M.Sound ∧ M.sys.LockOrdered rank) ?_
    ⟨_, b.boot_represents, b.boot_sound, ?_⟩
  · rintro m l m' ⟨M, hsim, hM, hO⟩ ⟨hs, hasc⟩
    obtain ⟨-, a, rest, pc, new, hd, rfl⟩ := Machine.step_iff.mp hs
    have hd' := hsim.does_iff.mp hd
    refine ⟨_, hsim.after hM (hM.enabled hd'), hM.after hd',
      hO.exec hM.core (hM.enabled hd') fun x hx y hy => ?_⟩
    subst hx
    refine hasc x ⟨rest, pc, new, hd⟩ y ?_
    rw [hsim.sys.mutex, hsim.sys.curr]
    exact hy
  · exact ⟨fun _ hne => absurd rfl hne, fun _ _ _ ht _ => absurd ht (by simp [abstract, core])⟩

end OsToyI386
