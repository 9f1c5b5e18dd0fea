import OsToyI386.Scheduler.Calls
import OsToyI386.Scheduler.Filling

/-!
# Re-entrant mutual exclusion

The record of a mutex is the account of its owner: what the owner has taken and not given
back. Everything that `rein_mutex_t` promises is read off this account, as long as `locker`,
an `int`, does not wrap around.
-/

namespace OsToyI386

open Lib

/-- How many more locks a context has returned from than it has given back. -/
def lockDepth (tr : List Event) (x : MutexPtr) (c : Ctx) : Int :=
  tr.count (.lockReturn c x) - tr.count (.unlock c x)

/-- A call that has got the mutex and has not returned counts `1`. -/
def Phase.inFlight : Option Phase → Int
  | some .took | some .granted => 1
  | some .idle | some .blocked | none => 0

lemma toInt_succ {n : BitVec 32} (h0 : 0 ≤ n.toInt) (h : n.toInt < 2 ^ 31 - 1) :
    (n + 1#32).toInt = n.toInt + 1 := by
  simp only [BitVec.toInt_eq_toNat_cond] at *
  bv_omega

lemma toInt_pred {n : BitVec 32} (h : 0 < n.toInt) : (n - 1#32).toInt = n.toInt - 1 := by
  simp only [BitVec.toInt_eq_toNat_cond] at *
  bv_omega

lemma toInt_eq_zero {n : BitVec 32} : n.toInt = 0 ↔ n = 0#32 := BitVec.toInt_inj (y := 0#32)

/-- The record `x` of a mutex is the account of its owner; no waiter is its owner. The
contexts have the depths `d` and are in the phases `φ`. -/
structure Account (x : ReinMutex) (waiters : List TaskPtr) (d : Ctx → Int)
    (φ : Ctx → Option Phase) : Prop where
  free : x.locker = 0#32 → x.owner = none ∧ waiters = []
  depth : ∀ c, 0 ≤ d c
  owner : ∀ c, d c + Phase.inFlight (φ c) =
    if x.locker ≠ 0#32 ∧ x.owner = c then x.locker.toInt else 0
  granted : ∀ c, φ c = some .granted → d c = 0
  waiting : ∀ t ∈ waiters, x.owner ≠ some t

namespace Account

variable {x : ReinMutex} {ws : List TaskPtr} {d : Ctx → Int} {φ : Ctx → Option Phase} {c : Ctx}
  {t : TaskPtr}

lemma inFlight_nonneg (f : Option Phase) : 0 ≤ Phase.inFlight f := by
  unfold Phase.inFlight
  split <;> omega

lemma locker_nonneg (h : Account x ws d φ) : 0 ≤ x.locker.toInt := by
  have howner := h.owner x.owner
  have hdepth := h.depth x.owner
  have hfly := inFlight_nonneg (φ x.owner)
  split at howner
  · omega
  · rename_i hz
    exact (toInt_eq_zero.mpr (by simpa using hz)).ge

lemma owner_of_pos (h : Account x ws d φ) (hc : 0 < d c + Phase.inFlight (φ c)) :
    x.locker ≠ 0#32 ∧ x.owner = c := by
  by_contra hne
  rw [h.owner c, if_neg hne] at hc
  omega

lemma zero_of_ne (h : Account x ws d φ) (hc : x.owner ≠ c) :
    d c = 0 ∧ Phase.inFlight (φ c) = 0 := by
  have howner := h.owner c
  rw [if_neg (fun hx => hc hx.2)] at howner
  have hdepth := h.depth c
  have hfly := inFlight_nonneg (φ c)
  omega

lemma take (h : Account x ws d φ) (hidle : φ c = some .idle)
    (hfree : x.locker = 0#32 ∨ x.owner = c) (hbelow : d c < 2 ^ 31 - 1) :
    Account ⟨c, x.locker + 1#32⟩ ws d (Function.update φ c (some .took)) := by
  have hlocker := h.locker_nonneg
  have hcd : d c = x.locker.toInt := by
    have howner := h.owner c
    rw [hidle] at howner
    simp only [Phase.inFlight, Int.add_zero] at howner
    rw [howner]
    split
    · rfl
    · rename_i hno
      by_contra hz
      have hlocked : x.locker ≠ 0#32 := fun h0 => hz (toInt_eq_zero.mpr h0).symm
      exact hno ⟨hlocked, hfree.resolve_left hlocked⟩
  have hsucc : (x.locker + 1#32).toInt = x.locker.toInt + 1 := toInt_succ hlocker (hcd ▸ hbelow)
  have hmore : x.locker + 1#32 ≠ 0#32 := by
    intro hz
    have hzero := toInt_eq_zero.mpr hz
    omega
  refine ⟨fun hz => absurd hz hmore, h.depth, fun c' => ?_, fun c' hg => ?_, fun t ht => ?_⟩
  · by_cases hc : c' = c
    · subst hc
      rw [if_pos ⟨hmore, rfl⟩]
      simp [Phase.inFlight, hcd, hsucc]
    · have howner := h.owner c'
      rw [if_neg (fun hx => hc hx.2.symm)]
      rw [Function.update_of_ne hc, howner, if_neg]
      rintro ⟨hz, ho⟩
      rcases hfree with hf | hf
      · exact hz hf
      · exact hc (ho.symm.trans hf)
  · by_cases hc : c' = c
    · subst hc
      simp at hg
    · rw [Function.update_of_ne hc] at hg
      exact h.granted c' hg
  · rcases hfree with hf | hf
    · rw [(h.free hf).2] at ht
      cases ht
    · simpa [hf] using h.waiting t ht

lemma block (h : Account x ws d φ) (hidle : φ (some t) = some .idle) (hz : x.locker ≠ 0#32)
    (ho : x.owner ≠ some t) :
    Account x (ws ++ [t]) d (Function.update φ (some t) (some .blocked)) := by
  refine ⟨fun hz' => absurd hz' hz, h.depth, fun c => ?_, fun c hg => ?_, fun u hu => ?_⟩
  · by_cases hc : c = some t
    · subst hc
      have howner := h.owner (some t)
      rw [hidle] at howner
      simpa [Phase.inFlight] using howner
    · rw [Function.update_of_ne hc]
      exact h.owner c
  · by_cases hc : c = some t
    · subst hc
      simp at hg
    · rw [Function.update_of_ne hc] at hg
      exact h.granted c hg
  · rcases List.mem_append.mp hu with hu | hu
    · exact h.waiting u hu
    · rw [List.mem_singleton.mp hu]
      exact ho

lemma lower (h : Account x ws d φ) (hidle : φ x.owner = some .idle) (hz : x.locker ≠ 0#32)
    (h1 : x.locker ≠ 1#32) :
    Account ⟨x.owner, x.locker - 1#32⟩ ws (Function.update d x.owner (d x.owner - 1)) φ := by
  have hlocker := h.locker_nonneg
  have hpos : 0 < x.locker.toInt :=
    lt_of_le_of_ne hlocker fun h0 => hz (toInt_eq_zero.mp h0.symm)
  have hpred : (x.locker - 1#32).toInt = x.locker.toInt - 1 := toInt_pred hpos
  have hmore : x.locker - 1#32 ≠ 0#32 := fun h0 => h1 (by bv_omega)
  have howner := h.owner x.owner
  rw [hidle, if_pos ⟨hz, rfl⟩] at howner
  simp only [Phase.inFlight, Int.add_zero] at howner
  refine ⟨fun h0 => absurd h0 hmore, fun c => ?_, fun c => ?_, fun c hg => ?_, h.waiting⟩
  · by_cases hc : c = x.owner
    · subst hc
      rw [Function.update_self]
      omega
    · rw [Function.update_of_ne hc]
      exact h.depth c
  · by_cases hc : c = x.owner
    · subst hc
      rw [if_pos ⟨hmore, rfl⟩, hidle, howner]
      simp [Phase.inFlight, hpred]
    · have hown := h.owner c
      rw [Function.update_of_ne hc, hown, if_neg (fun hx => hc hx.2.symm),
        if_neg (fun hx => hc hx.2.symm)]
  · have hc : c ≠ x.owner := by
      rintro rfl
      rw [hidle] at hg
      cases hg
    rw [Function.update_of_ne hc]
    exact h.granted c hg

lemma all_zero (h : Account x ws d φ) (hidle : φ x.owner = some .idle) (h1 : x.locker = 1#32)
    (c : Ctx) : Function.update d x.owner (d x.owner - 1) c = 0 ∧ Phase.inFlight (φ c) = 0 := by
  by_cases hc : c = x.owner
  · subst hc
    have howner := h.owner x.owner
    rw [hidle, if_pos ⟨by simp [h1], rfl⟩, h1] at howner
    simp only [Phase.inFlight, Int.add_zero] at howner
    simp [howner, hidle, Phase.inFlight]
  · rw [Function.update_of_ne hc]
    exact h.zero_of_ne (Ne.symm hc)

lemma release (h : Account x [] d φ) (hidle : φ x.owner = some .idle) (h1 : x.locker = 1#32) :
    Account ⟨none, 0#32⟩ [] (Function.update d x.owner (d x.owner - 1)) φ := by
  have hzero := h.all_zero hidle h1
  refine ⟨fun _ => ⟨rfl, rfl⟩, fun c => ?_, fun c => ?_, fun c _ => (hzero c).1, by simp⟩
  · rw [(hzero c).1]
  · rw [(hzero c).1, (hzero c).2]
    simp

lemma hand (h : Account x (t :: ws) d φ) (hnd : (t :: ws).Nodup)
    (hidle : φ x.owner = some .idle) (h1 : x.locker = 1#32) :
    Account ⟨some t, 1#32⟩ ws (Function.update d x.owner (d x.owner - 1))
      (Function.update φ (some t) (some .granted)) := by
  have hzero := h.all_zero hidle h1
  refine ⟨by simp, fun c => ?_, fun c => ?_, fun c _ => (hzero c).1, fun u hu hut => ?_⟩
  · rw [(hzero c).1]
  · rw [(hzero c).1]
    by_cases hc : c = some t
    · subst hc
      simp [Phase.inFlight]
    · rw [Function.update_of_ne hc, (hzero c).2, if_neg (fun hx => hc hx.2.symm)]
      rfl
  · have htu : t = u := Option.some.inj hut
    exact (List.nodup_cons.mp hnd).1 (htu ▸ hu)

lemma finish (h : Account x ws d φ) (hgot : φ c = some .took ∨ φ c = some .granted) :
    Account x ws (Function.update d c (d c + 1)) (Function.update φ c (some .idle)) := by
  have hfly : Phase.inFlight (φ c) = 1 := by
    rcases hgot with hg | hg <;> rw [hg] <;> rfl
  refine ⟨h.free, fun c' => ?_, fun c' => ?_, fun c' hg => ?_, h.waiting⟩
  · by_cases hc : c' = c
    · subst hc
      have := h.depth c'
      rw [Function.update_self]
      omega
    · rw [Function.update_of_ne hc]
      exact h.depth c'
  · by_cases hc : c' = c
    · subst hc
      have howner := h.owner c'
      rw [hfly] at howner
      simpa [Phase.inFlight] using howner
    · rw [Function.update_of_ne hc, Function.update_of_ne hc]
      exact h.owner c'
  · by_cases hc : c' = c
    · subst hc
      simp at hg
    · rw [Function.update_of_ne hc] at hg ⊢
      exact h.granted c' hg

end Account

lemma lockDepth_append (tr es : List Event) (x : MutexPtr) (c : Ctx) :
    lockDepth (tr ++ es) x c = lockDepth tr x c + lockDepth es x c := by
  simp only [lockDepth, List.count_append, Int.natCast_add]
  omega

lemma lockDepth_eq_zero {x : MutexPtr} {es : List Event} (h : ∀ e ∈ es, e.obj ≠ some (.mutex x))
    (c : Ctx) : lockDepth es x c = 0 := by
  have h1 : es.count (.lockReturn c x) = 0 := List.count_eq_zero.mpr fun he => h _ he rfl
  have h2 : es.count (.unlock c x) = 0 := List.count_eq_zero.mpr fun he => h _ he rfl
  simp [lockDepth, h1, h2]

lemma lockDepth_snoc (tr : List Event) {e : Event} {x : MutexPtr} {c : Ctx}
    (h : ∀ c' ≠ c, e ≠ .lockReturn c' x ∧ e ≠ .unlock c' x) :
    lockDepth (tr ++ [e]) x =
      Function.update (lockDepth tr x) c (lockDepth tr x c + lockDepth [e] x c) := by
  funext c'
  rw [lockDepth_append]
  by_cases hc : c' = c
  · rw [hc, Function.update_self]
  · obtain ⟨hreturn, hunlock⟩ := h c' hc
    rw [Function.update_of_ne hc]
    simp [lockDepth, hreturn, hunlock]

lemma lockDepth_return (tr : List Event) (x : MutexPtr) (c : Ctx) :
    lockDepth (tr ++ [.lockReturn c x]) x =
      Function.update (lockDepth tr x) c (lockDepth tr x c + 1) := by
  rw [lockDepth_snoc tr (c := c) fun c' hc => by simp [hc.symm]]
  simp [lockDepth]

lemma lockDepth_unlock (tr : List Event) (x : MutexPtr) (c : Ctx) :
    lockDepth (tr ++ [.unlock c x]) x =
      Function.update (lockDepth tr x) c (lockDepth tr x c - 1) := by
  rw [lockDepth_snoc tr (c := c) fun c' hc => by simp [hc.symm]]
  simp [lockDepth, Int.sub_eq_add_neg]

lemma lockDepth_keep (tr : List Event) {es : List Event} {x : MutexPtr}
    (h : ∀ e ∈ es, (∀ c, e ≠ .lockReturn c x) ∧ ∀ c, e ≠ .unlock c x) :
    lockDepth (tr ++ es) x = lockDepth tr x := by
  funext c
  have h1 : es.count (.lockReturn c x) = 0 := List.count_eq_zero.mpr fun he => (h _ he).1 c rfl
  have h2 : es.count (.unlock c x) = 0 := List.count_eq_zero.mpr fun he => (h _ he).2 c rfl
  rw [lockDepth_append]
  simp [lockDepth, h1, h2]

/-- The account of a mutex in the abstract state. -/
def Core.Accounts (K : Core) (x : MutexPtr) : Prop :=
  Account (K.mutex x) (K.queue (.mutexWait x)) (lockDepth K.trace x) (phases (.mutex x) K.trace)

namespace Core.Accounts

variable {K K' : Core} {x : MutexPtr} {a : Act}

lemma spares (h : K.Accounts x) (hs : Spares (.mutex x) K K') : K'.Accounts x := by
  obtain ⟨es, htr, hes⟩ := hs.trace
  have hd : lockDepth K'.trace x = lockDepth K.trace x := by
    funext c
    rw [htr, lockDepth_append, lockDepth_eq_zero hes, Int.add_zero]
  have hφ : phases (.mutex x) K'.trace = phases (.mutex x) K.trace := by
    funext c
    rw [phases, htr, waitLog_append, waitLog_eq_nil hes, List.append_nil]
    rfl
  rw [Accounts, hs.mutex x rfl, show K'.queue (.mutexWait x) = K.queue (.mutexWait x) from hs.queue,
    hd, hφ]
  exact h

lemma lock (h : K.Accounts x) (hK : K.Inv) (hrun : K.curr ≠ some .idleTask)
    (hidle : phases (.mutex x) K.trace K.curr = some .idle)
    (hbelow : lockDepth K.trace x K.curr < 2 ^ 31 - 1) : (K.exec (.lock x)).Accounts x := by
  rcases lock_cases (m := x) hK hrun with ⟨hfree, hexec, -⟩ | ⟨t, hc, -, hz, ho, hexec, -⟩
  · have htr : (K.exec (.lock x)).trace = K.trace ++ [.lockTake K.curr x] := by rw [hexec]; rfl
    have hm : (K.exec (.lock x)).mutex x = ⟨K.curr, (K.mutex x).locker + 1#32⟩ := by
      rw [hexec]
      simp [emit, setMutex]
    have hq : (K.exec (.lock x)).queue = K.queue := by rw [hexec]; rfl
    rw [Accounts, hm, hq, htr, lockDepth_keep _ (by simp), phases_snoc _ _ rfl, hidle]
    exact h.take hidle hfree hbelow
  · have htr : (K.exec (.lock x)).trace =
        K.trace ++ [.listPop .readyList ⟨t, .runNode⟩ (decide (t ∈ K.queue .ready))] ++
          [.lockBlock t x] := by
      rw [hexec, dispatch_trace]
      rfl
    have hm : (K.exec (.lock x)).mutex = K.mutex := by rw [hexec, dispatch_mutex]; rfl
    have hq : (K.exec (.lock x)).queue (.mutexWait x) = K.queue (.mutexWait x) ++ [t] := by
      rw [hexec, dispatch_queue]
      simp [block, emit, join, pop, leave, off, cpu]
    rw [hc] at hidle ho
    rw [Accounts, hm, hq, htr, lockDepth_keep _ (by simp), lockDepth_keep _ (by simp),
      phases_snoc _ _ rfl, phases_keep _ _ (by simp [Event.wait]), hidle]
    exact h.block hidle hz ho

lemma unlock (h : K.Accounts x) (hK : K.Inv)
    (hwait : ∀ t ∈ K.queue (.mutexWait x), phases (.mutex x) K.trace (some t) = some .blocked)
    (hidle : phases (.mutex x) K.trace K.curr = some .idle) : (K.exec (.unlock x)).Accounts x := by
  rcases unlock_cases (K := K) (m := x) with ⟨-, hexec, -⟩ | ⟨hz, ho, -, hrest⟩
  · rw [hexec]
    exact h
  have hcurr : K.curr = (K.mutex x).owner := ho.symm
  rw [hcurr] at hidle
  rcases hrest with ⟨h1, hexec⟩ | ⟨h1, hq, hexec⟩ | ⟨h1, t, ts, hq, hexec⟩
  · have hm : (K.exec (.unlock x)).mutex x =
        ⟨(K.mutex x).owner, (K.mutex x).locker - 1#32⟩ := by
      rw [hexec, hcurr]
      simp [emit, setMutex]
    have htr : (K.exec (.unlock x)).trace = K.trace ++ [.unlock (K.mutex x).owner x] := by
      rw [hexec, hcurr]
      rfl
    have hq : (K.exec (.unlock x)).queue = K.queue := by rw [hexec]; rfl
    rw [Accounts, hm, hq, htr, lockDepth_unlock, phases_keep _ _ (by simp [Event.wait])]
    exact h.lower hidle hz h1
  · have hm : (K.exec (.unlock x)).mutex x = ⟨none, 0#32⟩ := by
      rw [hexec]
      simp [setMutex]
    have htr : (K.exec (.unlock x)).trace = K.trace ++ [.unlock (K.mutex x).owner x] := by
      rw [hexec, hcurr]
      rfl
    have hq' : (K.exec (.unlock x)).queue (.mutexWait x) = [] := by rw [hexec]; exact hq
    rw [Accounts, hm, hq', htr, lockDepth_unlock, phases_keep _ _ (by simp [Event.wait])]
    rw [Accounts, hq] at h
    exact h.release hidle h1
  · have hm : (K.exec (.unlock x)).mutex x = ⟨some t, 1#32⟩ := by
      rw [hexec]
      simp [emit, setMutex]
    have htr : (K.exec (.unlock x)).trace =
        K.trace ++ [.unlock (K.mutex x).owner x] ++ [.lockHand t x] := by
      rw [hexec, hcurr]
      rfl
    have hq' : (K.exec (.unlock x)).queue (.mutexWait x) = ts := by
      rw [hexec]
      simp [emit, setMutex, wake, join, setTask, leave, off, cpu, hq]
    have hblocked := hwait t (by simp [hq])
    rw [Accounts, hm, hq', htr, lockDepth_keep _ (by simp), lockDepth_unlock, phases_snoc _ _ rfl,
      phases_keep _ _ (by simp [Event.wait]), hblocked]
    have hnd : (t :: ts).Nodup := hq ▸ hK.placed.apart.nodup (.mutexWait x)
    rw [Accounts, hq] at h
    exact h.hand hnd hidle h1

lemma ret {e : Epilogue} (h : K.Accounts x) (hfn : e.fn = .reinMutexLock x)
    (hgot : phases (.mutex x) K.trace K.curr = some .took ∨
      phases (.mutex x) K.trace K.curr = some .granted) : (K.exec (.ret e)).Accounts x := by
  have htr : (K.exec (.ret e)).trace = K.trace ++ [.lockReturn K.curr x] := by
    simp [exec, hfn, Fn.returned]
  have hnext : (phases (.mutex x) K.trace K.curr).bind (·.next .finish) = some .idle := by
    rcases hgot with hg | hg <;> rw [hg] <;> rfl
  have hm : (K.exec (.ret e)).mutex = K.mutex := rfl
  have hq : (K.exec (.ret e)).queue = K.queue := rfl
  rw [Accounts, hm, hq, htr, lockDepth_return, phases_snoc _ _ rfl, hnext]
  exact h.finish hgot

lemma boot (b : BootMem) : b.core.Accounts x := by
  refine ⟨fun _ => ⟨rfl, rfl⟩, fun c => ?_, fun c => ?_, fun c hc => ?_, by simp [BootMem.core]⟩
  · simp [lockDepth, BootMem.core]
  · simp [lockDepth, BootMem.core, phases, waitLog, phase, Phase.inFlight, reinMutexInit]
  · simp [lockDepth, BootMem.core]

end Core.Accounts

namespace Machine.WaitInv

variable {M : Machine Core} {o : Obj} {x : MutexPtr} {l : Label} {a : Act}
  {rest : List Epilogue} {pc : Pc} {new : List TaskPtr} {e : Epilogue}

lemma accounts_after (h : M.WaitInv (.mutex x)) (hM : M.Sound) (hx : M.sys.Accounts x)
    (hd : M.Does l a rest pc new)
    (hbelow : a = .lock x → lockDepth M.sys.trace x M.sys.curr < 2 ^ 31 - 1) :
    (M.after a rest pc new).sys.Accounts x := by
  have he := hM.enabled hd
  have hsys : (M.after a rest pc new).sys = M.sys.exec a := rfl
  rw [hsys]
  by_cases ha : a.obj = some (.mutex x)
  · cases a with
    | lock m =>
      cases ha
      exact hx.lock hM.core he (h.phases_idle hd (by simp) (by simp)) (hbelow rfl)
    | unlock m =>
      cases ha
      exact hx.unlock hM.core (fun t ht => h.phases_blocked ht)
        (h.phases_idle hd (by simp) (by simp))
    | ret e =>
      have hfn : e.fn = .reinMutexLock x := by
        cases hf : e.fn <;> simp [Act.obj, Fn.obj, hf] at ha ⊢
        exact ha
      have hp : e ∈ (M.ctl M.sys.curr).pending := by
        rcases Machine.Sound.pending_cases hd with ⟨e', ha', hp⟩ | ⟨hno, -, -⟩
        · cases ha'
          simp [hp]
        · exact absurd rfl (hno e)
      exact hx.ret hfn (h.phases_got hM hp ha)
    | _ => cases ha
  · exact hx.spares (Core.exec_spares he ha)

end Machine.WaitInv

/-- A step in which the running context locks the mutex only if it has fewer than `2 ^ 31 - 1`
locks of it outstanding. -/
def Machine.StepBelow (x : MutexPtr) (m : Machine Sys) (l : Label) (m' : Machine Sys) : Prop :=
  m.Step l m' ∧ (m.Locks l x → lockDepth m.sys.trace x m.running < 2 ^ 31 - 1)

/-- Re-entrant mutual exclusion with hand-over in the order of the waiters. -/
structure Machine.Excludes (m : Machine Sys) (x : MutexPtr) : Prop where
  depth : ∀ c, 0 ≤ lockDepth m.sys.trace x c
  /-- At most one context holds the mutex. -/
  one : ∀ c c', 0 < lockDepth m.sys.trace x c → 0 < lockDepth m.sys.trace x c' → c = c'
  /-- While it is being handed over nobody holds it. -/
  handed : ∀ c, phases (.mutex x) m.sys.trace c = some .granted →
    (m.sys.mutex x).owner = c ∧ (m.sys.mutex x).locker = 1#32 ∧
      ∀ c', lockDepth m.sys.trace x c' = 0
  /-- The record is the account of the owner. -/
  account : ∀ c, lockDepth m.sys.trace x c + Phase.inFlight (phases (.mutex x) m.sys.trace c) =
    if (m.sys.mutex x).locker ≠ 0#32 ∧ (m.sys.mutex x).owner = c then (m.sys.mutex x).locker.toInt
    else 0
  free : (m.sys.mutex x).locker = 0#32 → (m.sys.mutex x).owner = none ∧
    m.sys.waiters (.mutex x) = []
  /-- Only the owner returns from a call. -/
  returns : ∀ e rest, (m.ctl m.running).pending = e :: rest → e.fn = .reinMutexLock x →
    (m.sys.mutex x).owner = m.running ∧ (m.sys.mutex x).locker ≠ 0#32
  /-- The mutex is acquired in the order of blocking. -/
  order : orderOf .block (waitLog (.mutex x) m.sys.trace) =
    orderOf .grant (waitLog (.mutex x) m.sys.trace) ++ (m.sys.waiters (.mutex x)).map some
  /-- The assertions of the unlock hold for a holder. -/
  asserts : 0 < lockDepth m.sys.trace x m.running → (reinMutexUnlock x m.sys).1.halt = m.sys.halt

namespace Machine.Sim

variable {m : Machine Sys} {M : Machine Core} {x : MutexPtr}

lemma excludes (h : m.Sim M) (hM : M.Sound) (hW : M.WaitInv (.mutex x))
    (hA : M.sys.Accounts x) : m.Excludes x := by
  have hrep := h.sys
  have hrun : m.running = M.sys.curr := h.running
  have howner : ∀ c, 0 < lockDepth M.sys.trace x c → (M.sys.mutex x).locker ≠ 0#32 ∧
      (M.sys.mutex x).owner = c := by
    intro c hc
    have hfly := Account.inFlight_nonneg (phases (.mutex x) M.sys.trace c)
    exact hA.owner_of_pos (by omega)
  refine ⟨?_, ?_, ?_, ?_, ?_, ?_, ?_, ?_⟩
  · rw [hrep.trace]
    exact hA.depth
  · rw [hrep.trace]
    exact fun c c' hc hc' => (howner c hc).2.symm.trans (howner c' hc').2
  · rw [hrep.trace, hrep.mutex]
    intro c hc
    have hd := hA.granted c hc
    have hacc := hA.owner c
    have hfly : Phase.inFlight (phases (.mutex x) M.sys.trace c) = 1 := by rw [hc]; rfl
    obtain ⟨hz, ho⟩ := hA.owner_of_pos (c := c) (by omega)
    rw [if_pos ⟨hz, ho⟩, hd, hfly] at hacc
    refine ⟨ho, BitVec.toInt_inj.mp hacc.symm, fun c' => ?_⟩
    by_cases hcc : c' = c
    · rw [hcc, hd]
    · exact (hA.zero_of_ne (fun h => hcc (h.symm.trans ho))).1
  · rw [hrep.trace, hrep.mutex]
    exact hA.owner
  · rw [hrep.mutex, hrep.waiters]
    exact hA.free
  · rw [hrep.mutex, h.ctl, hrun]
    intro e rest hp hfn
    have hgot := hW.phases_got hM (e := e) (by simp [hp]) (by rw [hfn]; rfl)
    have hfly : Phase.inFlight (phases (.mutex x) M.sys.trace M.sys.curr) = 1 := by
      rcases hgot with hg | hg <;> rw [hg] <;> rfl
    have hd := hA.depth M.sys.curr
    exact (hA.owner_of_pos (by omega)).symm
  · rw [hrep.trace, hrep.waiters]
    exact hW.order
  · rw [hrep.trace, hrun]
    intro hc
    obtain ⟨hz, ho⟩ := howner _ hc
    have hcpu := (hrep.unlock hM.core.placed.apart x).1.cpu
    have hhalt : (M.sys.exec (.unlock x)).halt = M.sys.halt := by
      rcases Core.unlock_cases (K := M.sys) (m := x) with ⟨hno, -, -⟩ |
        ⟨-, -, -, ⟨-, hexec⟩ | ⟨-, -, hexec⟩ | ⟨-, t, ts, -, hexec⟩⟩
      · exact absurd hno (by simp [hz, ho])
      all_goals
        rw [hexec]
        rfl
    exact (congrArg Cpu.halt hcpu).trans (hhalt.trans (congrArg Cpu.halt hrep.cpu).symm)

end Machine.Sim

section Excludes

variable {b : BootMem} {ls : List Label} {m : Machine Sys} {x : MutexPtr} {addr : Nat} {c : Ctx}

lemma BootMem.excludes (h : Run (Machine.StepBelow x) b.machine ls m) : m.Excludes x := by
  obtain ⟨M, hsim, hM, hW, hA⟩ : ∃ M, m.Sim M ∧ M.Sound ∧ M.WaitInv (.mutex x) ∧
      M.sys.Accounts x := by
    refine h.invariant (I := fun m => ∃ M, m.Sim M ∧ M.Sound ∧ M.WaitInv (.mutex x) ∧
      M.sys.Accounts x) ?_
      ⟨_, b.boot_represents, b.boot_sound, Machine.WaitInv.boot b, Core.Accounts.boot b⟩
    rintro m l m' ⟨M, hsim, hM, hW, hA⟩ ⟨hs, hbelow⟩
    obtain ⟨-, a, rest, pc, new, hd, rfl⟩ := Machine.step_iff.mp hs
    have hd' := hsim.does_iff.mp hd
    refine ⟨_, hsim.after hM (hM.enabled hd'), hM.after hd', hW.after hM hd',
      hW.accounts_after hM hA hd' ?_⟩
    rintro rfl
    have hrun : m.running = M.sys.curr := hsim.running
    rw [← hrun, ← hsim.sys.trace]
    exact hbelow ⟨rest, pc, new, hd⟩
  exact hsim.excludes hM hW hA

/-- As long as nobody locks the mutex with `2 ^ 31 - 1` locks of it outstanding, it is held by
one context at a time, re-entrantly, and handed over in the order of the waiters. Each call of
`rein_mutex_lock` has returned once unless it goes on, and each unlock has been carried out. -/
theorem mutex_excludes (h : Run (Machine.StepBelow x) b.machine ls m) :
    m.Excludes x ∧
    (∀ c, (b.machine.acted ls).count (c, .lock x) =
      m.sys.trace.count (.lockReturn c x) + (m.ctl c).callsOn (.mutex x)) ∧
    (m.sys.halt = none → ∀ c,
      (b.machine.acted ls).count (c, .unlock x) = m.sys.trace.count (.unlock c x)) := by
  have hreach : b.Reaches ls m := h.mono fun _ _ _ hs => hs.1
  refine ⟨BootMem.excludes h, fun c => ?_, fun hlive c => hreach.unlocked hlive x c⟩
  have hentered := hreach.entered (.mutex x) c
  rwa [waitLog_return] at hentered

lemma Machine.Locks.label {m : Machine Sys} {l : Label} (h : m.Locks l (.obj addr)) :
    l = .call (.reinMutexLock (.obj addr)) := by
  obtain ⟨rest, pc, new, hd⟩ := h
  generalize ha : Act.lock (.obj addr) = a at hd
  cases hd with
  | tick => cases ha
  | ret => cases ha
  | code _ hnext =>
    subst ha
    revert hnext
    fun_cases Pc.next m.running (Kernel.cpu m.sys) (m.ctl m.running).pc <;>
      intro hnext <;> cases hnext
  | @call op _ _ =>
    cases op <;> cases ha
    rfl

lemma BootMem.Reaches.depth_le (addr : Nat) (h : b.Reaches ls m) (c : Ctx) :
    lockDepth m.sys.trace (.obj addr) c ≤ ls.count (.call (.reinMutexLock (.obj addr))) := by
  suffices hle : (b.machine.acted ls).count (c, .lock (.obj addr)) ≤
      ls.count (.call (.reinMutexLock (.obj addr))) by
    have hentered := h.entered (.mutex (.obj addr)) c
    rw [waitLog_return, Obj.enter] at hentered
    rw [lockDepth]
    omega
  refine Run.history (P := fun ls _ => (b.machine.acted ls).count (c, .lock (.obj addr)) ≤
    ls.count (.call (.reinMutexLock (.obj addr)))) (by simp [Machine.acted, Run.collect]) ?_ h
  intro ls m l m' hr ih hs
  obtain ⟨-, a, rest, pc, new, hd, -⟩ := Machine.step_iff.mp hs
  rw [Machine.acted, hr.collect_snoc (fun _ _ _ hs => hs), ← Machine.acted, hd.acts,
    List.count_append, List.count_append]
  refine Nat.add_le_add ih ?_
  by_cases ha : a = .lock (.obj addr)
  · subst ha
    obtain rfl := Machine.Locks.label ⟨rest, pc, new, hd⟩
    rw [List.count_singleton_self]
    exact List.count_le_length
  · rw [List.count_eq_zero.mpr fun hmem => ha (congrArg Prod.snd (List.mem_singleton.mp hmem)).symm]
    exact Nat.zero_le _

/-- Runs with fewer than `2 ^ 31` calls of `rein_mutex_lock` meet the condition. -/
lemma BootMem.Reaches.below (addr : Nat) (h : b.Reaches ls m)
    (hfew : ls.count (.call (.reinMutexLock (.obj addr))) < 2 ^ 31) :
    Run (Machine.StepBelow (.obj addr)) b.machine ls m := by
  refine Run.history (P := fun ls m => ls.count (.call (.reinMutexLock (.obj addr))) < 2 ^ 31 →
    Run (Machine.StepBelow (.obj addr)) b.machine ls m) (fun _ => .nil _) ?_ h hfew
  intro ls m l m' hr ih hs hfew
  rw [List.count_append] at hfew
  refine (ih (by omega)).snoc ⟨hs, fun hl => ?_⟩
  have hdepth := Reaches.depth_le addr hr m.running
  rw [hl.label, List.count_singleton_self] at hfew
  omega

end Excludes

section Nested

open Machine

variable {b : BootMem} {ops : List (Ctx × Op)} {M : Machine Core} {t : TaskPtr}

lemma BootMem.Plays.depth_zero (addr : Nat) (h : b.Plays ops M)
    (hno : ∀ y ∈ ops, y.2 ≠ .reinMutexLock (.obj addr)) (c : Ctx) :
    lockDepth M.sys.trace (.obj addr) c = 0 := by
  obtain ⟨ls, m, hm, hsim, hmade, -⟩ := h.real
  have hcount : ls.count (.call (.reinMutexLock (.obj addr))) = 0 := by
    rw [← count_made, hmade]
    refine List.count_eq_zero.mpr fun hmem => ?_
    obtain ⟨y, hy, hlock⟩ := List.mem_map.mp hmem
    exact hno y hy hlock
  have hle := hm.reaches.depth_le addr c
  have hnonneg := (BootMem.excludes (hm.reaches.below addr (by omega))).depth c
  rw [hcount] at hle
  rw [← hsim.sys.trace]
  omega

lemma BootMem.Plays.locks (h : b.Plays ops M) (hhalt : M.sys.halt = none)
    (hc : M.sys.curr = some t) (hidle : t ≠ .idleTask) (hown : M.ctl (some t) = .own) (addr : Nat)
    (hfree : M.sys.mutex (.obj addr) = ⟨none, 0#32⟩) (n : Nat) :
    ∃ K, b.Plays (ops ++ List.replicate n (some t, .reinMutexLock (.obj addr)))
        (place K M.ctl M.started (some t) .own) ∧
      K.halt = none ∧ K.curr = some t ∧ K.queue = M.sys.queue ∧
      K.mutex = Function.update M.sys.mutex (.obj addr)
        (if n = 0 then ⟨none, 0#32⟩ else ⟨some t, BitVec.ofNat 32 n⟩) ∧
      lockDepth K.trace (.obj addr) (some t) =
        lockDepth M.sys.trace (.obj addr) (some t) + n := by
  induction n with
  | zero =>
    refine ⟨M.sys, ?_, hhalt, hc, rfl, ?_, by simp⟩
    · rwa [place_eq hown, List.replicate_zero, List.append_nil]
    · rw [if_pos rfl, ← hfree, Function.update_eq_self]
  | succ n ih =>
    obtain ⟨K, hplays, hK, hcK, hq, hm, hd⟩ := ih
    have hrecord : ((K.mutex (.obj addr)).locker = 0#32 ∨ (K.mutex (.obj addr)).owner = K.curr) ∧
        (K.mutex (.obj addr)).locker = BitVec.ofNat 32 n := by
      rw [hm, Function.update_self, hcK]
      split
      · rename_i hz
        exact ⟨Or.inl rfl, hz ▸ rfl⟩
      · exact ⟨Or.inr rfl, rfl⟩
    rcases Core.lock_cases (m := .obj addr) hplays.sound.core (by simp [place, hcK, hidle]) with
      ⟨-, hexec, hleaves⟩ | ⟨u, -, -, hz, ho, -⟩
    · have hexec' : K.exec (.lock (.obj addr)) =
          (K.off.setMutex (.obj addr) ⟨some t, BitVec.ofNat 32 (n + 1)⟩).emit
            (.lockTake (some t) (.obj addr)) := by
        rw [← hcK, BitVec.ofNat_add, ← hrecord.2]
        exact hexec
      have hcall := hplays.through (.reinMutexLock (.obj addr)) hK hcK (place_self ..) rfl
        (by simp [Op.creates]) (Or.inr ⟨t, rfl, hidle, by simp⟩) rfl hleaves
        ((congrArg (fun L : Core => L.halt) hexec').trans hK)
        ((congrArg Core.curr hexec').trans hcK)
      rw [place_again, List.append_assoc, ← List.replicate_succ'] at hcall
      have hret : ∀ e : Epilogue, e.fn = .reinMutexLock (.obj addr) →
          lockDepth ((K.exec (.lock (.obj addr))).exec (.ret e)).trace (.obj addr) (some t) =
            lockDepth K.trace (.obj addr) (some t) + 1 := by
        intro e hfn
        rw [Core.exec, hexec', hfn, lockDepth_append]
        simp [lockDepth, Core.emit, Core.setMutex, Core.off, Core.cpu, Fn.returned, hcK]
      refine ⟨_, hcall, ?_, ?_, ?_, ?_, ?_⟩
      · exact (congrArg (fun L : Core => L.halt) hexec').trans hK
      · exact (congrArg Core.curr hexec').trans hcK
      · exact (congrArg Core.queue hexec').trans hq
      · have hset : (K.exec (.lock (.obj addr))).mutex =
            Function.update K.mutex (.obj addr) ⟨some t, BitVec.ofNat 32 (n + 1)⟩ :=
          congrArg Core.mutex hexec'
        rw [hm, Function.update_idem] at hset
        exact hset
      · refine (hret _ rfl).trans ?_
        rw [hd]
        push_cast
        omega
    · exact absurd hrecord.1 (by simp only [not_or]; exact ⟨hz, ho⟩)

lemma BootMem.main_locks_twice : ∃ M, BootMem.zeroed.Plays
      ([(none, .taskMainInit), (some .mainTask, .taskInit (objReq 0))] ++
        List.replicate 2 (some .mainTask, .reinMutexLock (.obj 0)) ++
        [(some .mainTask, .sysSchedYield)] ++ [(some (.obj 0), .reinMutexLock (.obj 0))]) M ∧
    M.sys.queue (.mutexWait (.obj 0)) = [.obj 0] ∧
    lockDepth M.sys.trace (.obj 0) (some .mainTask) = 2 := by
  obtain ⟨K, st, hplays, hfilled, -⟩ := BootMem.zeroed.fills 1 (by decide)
  have hzero := hplays.depth_zero 0 (by simp) (some .mainTask)
  obtain ⟨K₂, h₂, hhalt₂, hcurr₂, hq₂, hm₂, hd₂⟩ := hplays.locks hfilled.runs.halt
    hfilled.runs.curr (by simp) (place_self ..) 0 (hfilled.mutex _) 2
  -- the main task yields
  have hready₂ : K₂.queue .ready = [.mainTask, .obj 0] := by
    rw [hq₂]
    exact hfilled.queue .ready
  obtain ⟨hcurr₃, hready₃, hqueue₃, hm₃, -, htr₃, hhalt₃⟩ := Core.exec_yield hcurr₂ hready₂
  have h₃ := h₂.call .sysSchedYield hhalt₂ hcurr₂ (place_self ..) rfl (by simp [Op.creates])
    (Or.inr ⟨_, rfl, by simp, by simp⟩)
  have hlive₃ := h₃.unhalted (hhalt₃.imp_left fun h => h.trans hhalt₂)
  -- the other task blocks
  have h₄ := h₃.call (.reinMutexLock (.obj 0)) hlive₃ hcurr₃ (by simp [place]) rfl
    (by simp [Op.creates]) (Or.inr ⟨_, rfl, by simp, by simp⟩)
  have hheld : (K₂.exec .yield).mutex (.obj 0) = ⟨some .mainTask, 2#32⟩ := by
    rw [hm₃, hm₂]
    exact Function.update_self ..
  obtain ⟨hwait, -, htr₄⟩ := Core.lock_waits h₃.sound.core hcurr₃ (by simp) hready₃ hheld
    (by decide) (by simp)
  refine ⟨_, h₄, hwait.trans ?_, ?_⟩
  · have hempty : (K₂.exec .yield).queue (.mutexWait (.obj 0)) = [] := by
      rw [hqueue₃ _ (by simp), hq₂]
      exact hfilled.queue (.mutexWait (.obj 0))
    exact congrArg (· ++ [TaskPtr.obj 0]) hempty
  · have htrace := congrArg (fun tr => lockDepth tr (.obj 0) (some .mainTask))
      (htr₄.trans (congrArg (· ++ _) htr₃))
    refine htrace.trans ?_
    simp only [lockDepth_append, hd₂]
    simp [lockDepth, place]
    exact hzero

/-- The main task holds the mutex twice while the other one waits for it. -/
theorem mutex_excludes_main : ∃ ls m,
    Run (Machine.StepBelow (.obj 0)) BootMem.zeroed.machine ls m ∧
    lockDepth m.sys.trace (.obj 0) (some .mainTask) = 2 ∧
    m.sys.waiters (.mutex (.obj 0)) = [.obj 0] ∧ m.Excludes (.obj 0) := by
  obtain ⟨M, hplays, hwait, hdepth⟩ := BootMem.main_locks_twice
  obtain ⟨ls, m, hm, hsim, hmade, -⟩ := hplays.real
  have hbelow := hm.reaches.below 0 (by rw [← count_made, hmade]; decide)
  refine ⟨ls, m, hbelow, hsim.sys.trace ▸ hdepth, ?_, (mutex_excludes hbelow).1⟩
  rw [hsim.sys.waiters]
  exact hwait

/-- After `2 ^ 31` locks of the main task `locker` is negative. -/
theorem locker_wraps_around : ∃ ls m, BootMem.zeroed.Reaches ls m ∧
    lockDepth m.sys.trace (.obj 0) (some .mainTask) = 2 ^ 31 ∧
    (m.sys.mutex (.obj 0)).owner = some .mainTask ∧
    (m.sys.mutex (.obj 0)).locker.toInt = -2 ^ 31 ∧ ¬ m.Excludes (.obj 0) := by
  obtain ⟨tr, hplays⟩ := BootMem.zeroed.boots
  have hbooted := BootMem.zeroed.atMain_booted (tr ++ [.initReturn .mainTask 0])
  have hzero := hplays.depth_zero 0 (by simp) (some .mainTask)
  obtain ⟨K, hlocks, -, -, -, hm, hd⟩ := hplays.locks hbooted.runs.halt
    hbooted.runs.curr (by simp) (place_self ..) 0 (hbooted.mutex _) (2 ^ 31)
  obtain ⟨ls, m, hreach, hsim, -⟩ := hlocks.real
  have hdepth : lockDepth m.sys.trace (.obj 0) (some .mainTask) = 2 ^ 31 := by
    rw [hsim.sys.trace]
    refine hd.trans ?_
    rw [hzero]
    rfl
  have hrecord : m.sys.mutex (.obj 0) = ⟨some .mainTask, BitVec.ofNat 32 (2 ^ 31)⟩ := by
    rw [hsim.sys.mutex]
    refine (congrFun hm _).trans ?_
    rw [Function.update_self, if_neg (by decide)]
  have htoInt : (m.sys.mutex (.obj 0)).locker.toInt = -2 ^ 31 := by
    rw [hrecord]
    decide
  refine ⟨ls, m, hreach.reaches, hdepth, by rw [hrecord], htoInt, fun hexcl => ?_⟩
  have haccount := hexcl.account (some .mainTask)
  have hfly := Account.inFlight_nonneg (phases (.mutex (.obj 0)) m.sys.trace (some .mainTask))
  rw [hdepth, htoInt] at haccount
  split at haccount <;> omega

end Nested

end OsToyI386
