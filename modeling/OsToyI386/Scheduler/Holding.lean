import OsToyI386.Scheduler.Waiting

/-!
# Who holds a mutex

A context holds a mutex as often as it has got it, by a lock or by a hand-over, and not
unlocked it. So the state of the record tells when the context got it.
-/

namespace OsToyI386

open Lib

/-- How often `c` holds the mutex with this record. -/
def ReinMutex.heldBy (x : ReinMutex) (c : Ctx) : Int := if x.owner = c then x.locker.toNat else 0

namespace ReinMutex

variable {x : ReinMutex} {c : Ctx}

lemma heldBy_nonneg (x : ReinMutex) (c : Ctx) : 0 ≤ x.heldBy c := by
  unfold heldBy
  split
  · exact Int.natCast_nonneg _
  · exact Int.le_refl 0

lemma heldBy_pos_iff : 0 < x.heldBy c ↔ x.locker ≠ 0#32 ∧ x.owner = c := by
  unfold heldBy
  split
  · rename_i ho
    rw [Int.natCast_pos, and_iff_left ho, Nat.pos_iff_ne_zero]
    exact BitVec.toNat_ne_iff_ne (y := 0#32)
  · rename_i ho
    exact iff_of_false (by omega) fun h => ho h.2

lemma heldBy_of_ne (h : x.owner ≠ c) : x.heldBy c = 0 := if_neg h

lemma heldBy_free (h : x.locker = 0#32) (c : Ctx) : x.heldBy c = 0 := by
  unfold heldBy
  rw [h]
  split <;> rfl

lemma free_of_heldBy (h : x.heldBy c = 0) (hfree : x.locker = 0#32 ∨ x.owner = c) :
    x.locker = 0#32 := by
  rcases hfree with hz | ho
  · exact hz
  · by_contra hz
    have hpos := heldBy_pos_iff.mpr ⟨hz, ho⟩
    omega

end ReinMutex

/-- The context gets the mutex. -/
def Event.acquires (x : MutexPtr) (c : Ctx) : Event → Bool
  | lockTake d m => decide (d = c ∧ m = x)
  | lockHand t m => decide (some t = c ∧ m = x)
  | _ => false

/-- How often the context has got the mutex. -/
def gained (tr : List Event) (x : MutexPtr) (c : Ctx) : Nat := tr.countP (Event.acquires x c)

lemma gained_append (tr es : List Event) (x : MutexPtr) (c : Ctx) :
    gained (tr ++ es) x c = gained tr x c + gained es x c := List.countP_append

namespace Core

variable {K : Core} {x : MutexPtr} {a : Act} {c : Ctx}

/-- What an action does to the holders of a mutex, and which contexts it is about. -/
structure Transfers (K : Core) (a : Act) (x : MutexPtr) (es : List Event) : Prop where
  trace : (K.exec a).trace = K.trace ++ es
  holds : ∀ c, ((K.exec a).mutex x).heldBy c =
    (K.mutex x).heldBy c + gained es x c - es.count (.unlock c x)
  gets : ∀ c, gained es x c ≠ 0 → (a = .lock x ∧ c = K.curr) ∨
    (a = .unlock x ∧ (K.mutex x).owner = K.curr ∧ ∃ t ∈ K.queue (.mutexWait x), c = some t)
  gives : ∀ c, es.count (.unlock c x) ≠ 0 → a = .unlock x ∧ c = K.curr
  once : ∀ c, gained es x c ≤ 1
  takes : a = .lock x → gained es x K.curr = 0 → ((K.exec a).mutex x).owner ≠ K.curr ∧
    ∃ t ∈ (K.exec a).queue (.mutexWait x), K.curr = some t
  back : a = .unlock x → (K.mutex x).locker ≠ 0#32 → (K.mutex x).owner = K.curr →
    es.count (.unlock K.curr x) = 1
  waits : ∀ t ∈ (K.exec a).queue (.mutexWait x), t ∈ K.queue (.mutexWait x) ∨
    (a = .lock x ∧ K.curr = some t)
  stays : ∀ t ∈ K.queue (.mutexWait x),
    t ∈ (K.exec a).queue (.mutexWait x) ∨ gained es x (some t) ≠ 0
  free : ((K.mutex x).locker = 0#32 → (K.mutex x).owner = none ∧ K.queue (.mutexWait x) = []) →
    ((K.exec a).mutex x).locker = 0#32 →
      ((K.exec a).mutex x).owner = none ∧ (K.exec a).queue (.mutexWait x) = []

lemma Inv.curr_not_waiting (h : K.Inv) {t : TaskPtr} (hc : K.curr = some t) {q : Queue}
    (hq : q ≠ .ready) : t ∉ K.queue q := by
  intro ht
  by_cases hidle : t = .idleTask
  · exact h.idle_not_mem q (hidle ▸ ht)
  · exact hq (h.placed.apart.unique _ _ t ht (h.mem_ready hc hidle))

lemma transfers_lock (h : K.Inv) (hidle : K.curr ≠ some .idleTask)
    (hfresh : (K.mutex x).heldBy K.curr = 0) : ∃ es, K.Transfers (.lock x) x es := by
  rcases lock_cases (m := x) h hidle with ⟨hfree, hexec, -⟩ | ⟨t, hc, -, hz, ho, hexec, -⟩
  · have hz := ReinMutex.free_of_heldBy hfresh hfree
    have hm : (K.exec (.lock x)).mutex x = ⟨K.curr, 1#32⟩ := by
      rw [hexec]
      simp [emit, setMutex, hz]
    refine ⟨[.lockTake K.curr x], by rw [hexec]; rfl, fun c => ?_, fun c hg => ?_, by simp,
      fun c => ?_, by simp [gained, Event.acquires], by simp, fun t ht => Or.inl ?_,
      fun t ht => Or.inl ?_, fun _ hz' => ?_⟩
    · rw [hm, ReinMutex.heldBy_free hz, ReinMutex.heldBy]
      by_cases hc : K.curr = c
      · simp [gained, Event.acquires, hc]
      · simp [gained, Event.acquires, hc]
    · left
      refine ⟨rfl, ?_⟩
      by_contra hc
      simp [gained, Event.acquires, Ne.symm hc] at hg
    · exact List.countP_le_length
    · rw [hexec] at ht
      exact ht
    · rw [hexec]
      exact ht
    · rw [hm] at hz'
      cases hz'
  · have hm : (K.exec (.lock x)).mutex x = K.mutex x := by
      rw [hexec, dispatch_mutex]
      rfl
    have hq : (K.exec (.lock x)).queue (.mutexWait x) = K.queue (.mutexWait x) ++ [t] := by
      rw [hexec, dispatch_queue]
      simp [block, emit, join, pop, leave, off, cpu]
    refine ⟨[.listPop .readyList ⟨t, .runNode⟩ (decide (t ∈ K.queue .ready)), .lockBlock t x],
      ?_, fun c => ?_, by simp [gained, Event.acquires], by simp, by simp [gained, Event.acquires],
      fun _ _ => ⟨hm ▸ ho, t, by simp [hq], hc⟩, by simp, fun u hu => ?_,
      fun u hu => Or.inl (hq ▸ List.mem_append_left _ hu), fun _ hz' => absurd (hm ▸ hz') hz⟩
    · rw [hexec, dispatch_trace]
      simp [block, emit, join, pop, leave, off, cpu, Queue.list, Queue.node]
      rfl
    · simp [hm, gained, Event.acquires]
    · rw [hq, List.mem_append, List.mem_singleton] at hu
      rcases hu with hu | rfl
      · exact Or.inl hu
      · exact Or.inr ⟨rfl, hc⟩

lemma transfers_given (htr : (K.exec (.unlock x)).trace = K.trace ++ [.unlock K.curr x])
    (hq : (K.exec (.unlock x)).queue (.mutexWait x) = K.queue (.mutexWait x))
    (hheld : ∀ c, ((K.exec (.unlock x)).mutex x).heldBy c =
      (K.mutex x).heldBy c - if K.curr = c then 1 else 0)
    (hfree : ((K.exec (.unlock x)).mutex x).locker = 0#32 →
      ((K.exec (.unlock x)).mutex x).owner = none ∧ K.queue (.mutexWait x) = []) :
    K.Transfers (.unlock x) x [.unlock K.curr x] := by
  refine ⟨htr, fun c => ?_, by simp [gained, Event.acquires], fun c hc => ?_,
    by simp [gained, Event.acquires], by simp, by simp, fun t ht => Or.inl (hq ▸ ht),
    fun t ht => Or.inl (hq.symm ▸ ht), fun _ hz => hq.symm ▸ hfree hz⟩
  · rw [hheld]
    by_cases hc : K.curr = c
    · simp [gained, Event.acquires, hc]
    · simp [gained, Event.acquires, hc]
  · refine ⟨rfl, ?_⟩
    by_contra hne
    simp [Ne.symm hne] at hc

lemma transfers_handed (h : K.Inv) {t : TaskPtr} {ts : List TaskPtr}
    (ho : (K.mutex x).owner = K.curr) (h1 : (K.mutex x).locker = 1#32)
    (hq : K.queue (.mutexWait x) = t :: ts)
    (hexec : K.exec (.unlock x) =
      ((((K.off.emit (.unlock K.curr x)).leave (.mutexWait x) t).wake t).setMutex x
        ⟨some t, 1#32⟩).emit (.lockHand t x)) :
    K.Transfers (.unlock x) x [.unlock K.curr x, .lockHand t x] := by
  have ht : t ∈ K.queue (.mutexWait x) := by simp [hq]
  have hne : K.curr ≠ some t := fun hc => h.curr_not_waiting hc (by simp) ht
  have hqq : (K.exec (.unlock x)).queue (.mutexWait x) = ts := by
    rw [hexec]
    simp [emit, setMutex, wake, join, setTask, leave, off, cpu, hq]
  refine ⟨?_, fun c => ?_, fun c hg => ?_, fun c hc => ?_,
    fun c => ?_, by simp, by simp, fun u hu => Or.inl ?_, fun u hu => ?_, fun _ hz => ?_⟩
  · rw [hexec]
    simp [emit, setMutex, wake, join, setTask, leave, off, cpu]
  · rw [hexec]
    by_cases hc : K.curr = c
    · have htc : some t ≠ c := fun he => hne (hc.trans he.symm)
      simp [emit, setMutex, ReinMutex.heldBy, gained, Event.acquires, ho, hc, h1, htc]
    · by_cases htc : some t = c
      · simp [emit, setMutex, ReinMutex.heldBy, gained, Event.acquires, ho, hc, htc]
      · simp [emit, setMutex, ReinMutex.heldBy, gained, Event.acquires, ho, hc, htc]
  · right
    refine ⟨rfl, ho, t, ht, ?_⟩
    by_contra hne
    simp [gained, Event.acquires, Ne.symm hne] at hg
  · refine ⟨rfl, ?_⟩
    by_contra hne
    simp [Ne.symm hne] at hc
  · simp only [gained, List.countP_cons, List.countP_nil, Event.acquires]
    split <;> simp
  · rw [hqq] at hu
    simp [hq, hu]
  · rw [hq] at hu
    rcases List.mem_cons.mp hu with rfl | hu
    · simp [gained, Event.acquires]
    · exact Or.inl (hqq ▸ hu)
  · rw [hexec] at hz
    simp [emit, setMutex] at hz

lemma transfers_unlock (h : K.Inv) : ∃ es, K.Transfers (.unlock x) x es := by
  rcases unlock_cases (K := K) (m := x) with ⟨hno, hexec, -⟩ | ⟨hz, ho, -, hrest⟩
  · -- the assertion fails
    refine ⟨[], by simp [hexec, die, cpu, off], fun c => ?_, by simp [gained], by simp,
      by simp [gained], by simp, fun _ hz ho => ?_, fun t ht => Or.inl ?_, fun t ht => Or.inl ?_,
      fun hf hz => ?_⟩
    · rw [hexec]
      simp [gained, die, cpu, off]
    · exact (hno.elim hz (fun hne => hne ho)).elim
    · rw [hexec] at ht
      exact ht
    · rw [hexec]
      exact ht
    · rw [hexec] at hz ⊢
      exact hf hz
  rcases hrest with ⟨h1, hexec⟩ | ⟨h1, hnone, hexec⟩ | ⟨h1, t, ts, hq, hexec⟩
  · refine ⟨_, transfers_given (by rw [hexec]; rfl) (by rw [hexec]; rfl) (fun c => ?_)
      (fun hz' => ?_)⟩
    · have hless : ((K.mutex x).locker - 1#32).toNat + 1 = (K.mutex x).locker.toNat := by bv_omega
      rw [hexec]
      by_cases hc : K.curr = c
      · simp only [emit, setMutex, ReinMutex.heldBy, ho, hc, Function.update_self, if_true]
        omega
      · simp [emit, setMutex, ReinMutex.heldBy, ho, hc]
    · have hm : (K.exec (.unlock x)).mutex x = ⟨K.curr, (K.mutex x).locker - 1#32⟩ := by
        rw [hexec]
        simp [emit, setMutex]
      rw [hm] at hz'
      exact absurd hz' (by bv_omega)
  · refine ⟨_, transfers_given (by rw [hexec]; rfl) (by rw [hexec]; rfl) (fun c => ?_)
      (fun _ => ⟨?_, hnone⟩)⟩
    · rw [hexec]
      by_cases hc : K.curr = c
      · simp [emit, setMutex, ReinMutex.heldBy, ho, hc, h1]
      · simp [emit, setMutex, ReinMutex.heldBy, ho, hc]
    · rw [hexec]
      simp [setMutex]
  · exact ⟨_, transfers_handed h ho h1 hq hexec⟩

/-- Every action moves a mutex between its holders as its notes say, unless it is locked by
who holds it. -/
theorem exec_transfers (h : K.Inv) (he : K.Enabled a) (x : MutexPtr)
    (hfresh : a = .lock x → (K.mutex x).heldBy K.curr = 0) : ∃ es, K.Transfers a x es := by
  by_cases ha : a.obj = some (.mutex x)
  · cases a with
    | lock m =>
      cases ha
      exact transfers_lock h he (hfresh rfl)
    | unlock m =>
      cases ha
      exact transfers_unlock h
    | ret e =>
      have hfn : e.fn = .reinMutexLock x := by
        cases hf : e.fn <;> simp [Act.obj, Fn.obj, hf] at ha ⊢
        exact ha
      refine ⟨[.lockReturn K.curr x], ?_, fun c => ?_, by simp [gained, Event.acquires], by simp,
        by simp [gained, Event.acquires], by simp, by simp, fun t ht => Or.inl ht,
        fun t ht => Or.inl ht, fun hf => hf⟩
      · simp [exec, hfn, Fn.returned]
      · simp [exec, gained, Event.acquires, cpu]
    | _ => cases ha
  · obtain ⟨hm, -, hq, es, htr, hes⟩ := exec_spares he ha
    have hgain : ∀ c, gained es x c = 0 := by
      intro c
      refine List.countP_eq_zero.mpr fun e hmem hacq => hes e hmem ?_
      cases e <;> simp_all [Event.acquires, Event.obj]
    have hgive : ∀ c, es.count (.unlock c x) = 0 :=
      fun c => List.count_eq_zero.mpr fun hmem => hes _ hmem rfl
    refine ⟨es, htr, fun c => ?_, fun c hg => absurd (hgain c) hg, fun c hg => absurd (hgive c) hg,
      fun c => by rw [hgain]; exact Nat.zero_le 1, ?_, ?_, fun t ht => Or.inl (hq ▸ ht),
      fun t ht => Or.inl (hq.symm ▸ ht), fun hf hz => ?_⟩
    · rw [hm x rfl, hgain, hgive]
      simp
    · rintro rfl
      exact absurd rfl ha
    · rintro rfl
      exact absurd rfl ha
    · have hqueue : (K.exec a).queue (.mutexWait x) = K.queue (.mutexWait x) := hq
      rw [hm x rfl] at hz ⊢
      rw [hqueue]
      exact hf hz

end Core

end OsToyI386
