import OsToyI386.Properties.Placement
import OsToyI386.Scheduler.Filling

/-!
# No ready task starves

How long a ready task can still wait is measured by the rest of the running slice and a
full slice for each task between. Each tick lowers the measure, nothing else raises it.
-/

namespace OsToyI386

open Lib

namespace Core

/-- The ticks that the task at position `p` of the ready queue waits at most. -/
def waitMeasure (K : Core) (p : Nat) : Int := (K.task K.head).sliceTicks + 10 * (p - 1)

variable {K K' : Core} {t c : TaskPtr} {p n : Nat} {xs : List TaskPtr} {a : Act}

lemma Inv.slice_of_ready (h : K.Inv) (ht : t ∈ K.queue .ready) :
    1 ≤ (K.task t).sliceTicks ∧ (K.task t).sliceTicks ≤ 10 := by
  have hs := h.slice t ((h.placed.placed t).mpr ⟨.ready, ht⟩)
  exact ⟨hs.1, hs.2.1⟩

/-- The task at position `p` runs in `K'`, or stands there at a position at which it does
not wait longer. -/
def Nearer (K K' : Core) (t : TaskPtr) (p : Nat) : Prop :=
  K'.curr = some t ∨
    ∃ p', 1 ≤ p' ∧ (K'.queue .ready)[p']? = some t ∧ K'.waitMeasure p' ≤ K.waitMeasure p

lemma moves_up (h' : K'.Inv) (hc' : K'.curr ≠ none) (hp : 1 ≤ p)
    (ht : (K.queue .ready)[p]? = some t)
    (hready : K'.queue .ready = (K.queue .ready).drop 1 ++ xs) :
    K'.curr = some t ∨
      ∃ p', 1 ≤ p' ∧ (K'.queue .ready)[p']? = some t ∧ K'.waitMeasure p' ≤ 10 * (p - 1) := by
  have hget : (K'.queue .ready)[p - 1]? = some t := by
    rw [hready, List.getElem?_append_left, List.getElem?_drop]
    · rw [← ht]
      congr 1
      omega
    · have := (List.getElem?_eq_some_iff.mp ht).1
      rw [List.length_drop]
      omega
  obtain ⟨c', hcc⟩ := Option.ne_none_iff_exists'.mp hc'
  have hhead := h'.running c' hcc
  by_cases hp1 : p = 1
  · left
    subst hp1
    have hfirst : (K'.queue .ready).head? = some t := by
      rw [List.head?_eq_getElem?]
      exact hget
    rw [hcc, hhead, head, hfirst]
    rfl
  · right
    refine ⟨p - 1, by omega, hget, ?_⟩
    have hmem : K'.head ∈ K'.queue .ready := by
      rw [← hhead]
      refine h'.mem_ready hcc (fun hidle => ?_)
      have hne : K'.queue .ready ≠ [] := List.ne_nil_of_mem (List.mem_of_getElem? hget)
      obtain ⟨x, ys, hx⟩ := List.exists_cons_of_ne_nil hne
      apply h'.idle_not_mem .ready
      rw [hx, ← hidle, hhead, head, hx]
      simp
    have hslice := (h'.slice_of_ready hmem).2
    rw [waitMeasure]
    omega

lemma stays (ht : (K.queue .ready)[p]? = some t)
    (hready : K'.queue .ready = K.queue .ready ++ xs) :
    (K'.queue .ready)[p]? = some t ∧ K'.head = K.head := by
  have hlt := (List.getElem?_eq_some_iff.mp ht).1
  refine ⟨by rw [hready, List.getElem?_append_left hlt, ht], ?_⟩
  obtain ⟨x, ys, hx⟩ := List.exists_cons_of_ne_nil (List.ne_nil_of_mem (List.mem_of_getElem? ht))
  rw [head, head, hready, hx]
  rfl

lemma nearer_of_drop (h : K.Inv) (h' : K'.Inv) (hc' : K'.curr ≠ none) (hp : 1 ≤ p)
    (ht : (K.queue .ready)[p]? = some t) (xs : List TaskPtr) (hn : n ≤ 1)
    (hready : K'.queue .ready = (K.queue .ready).drop n ++ xs)
    (hslice : ∀ u ∈ K.queue .ready, (K'.task u).sliceTicks = (K.task u).sliceTicks) :
    K.Nearer K' t p := by
  have hmem : K.head ∈ K.queue .ready := by
    obtain ⟨x, ys, hx⟩ := List.exists_cons_of_ne_nil (List.ne_nil_of_mem (List.mem_of_getElem? ht))
    simp [head, hx]
  have hpos := (h.slice_of_ready hmem).1
  rcases Nat.le_one_iff_eq_zero_or_eq_one.mp hn with rfl | rfl
  · obtain ⟨hget, hhead⟩ := stays ht hready
    refine Or.inr ⟨p, hp, hget, ?_⟩
    rw [waitMeasure, waitMeasure, hhead, hslice _ hmem]
  · rcases moves_up h' hc' hp ht hready with hcurr | ⟨p', hp', hget, hle⟩
    · exact Or.inl hcurr
    · refine Or.inr ⟨p', hp', hget, ?_⟩
      have hdef : K.waitMeasure p = (K.task K.head).sliceTicks + 10 * (p - 1) := rfl
      omega

lemma Inv.tick_nearer (h : K.Inv) (hc : K.curr = some c) (hp : 1 ≤ p)
    (ht : (K.queue .ready)[p]? = some t) :
    K.tick.curr = some t ∨
      ∃ p', 1 ≤ p' ∧ (K.tick.queue .ready)[p']? = some t ∧
        K.tick.waitMeasure p' < K.waitMeasure p := by
  have hidle : c ≠ .idleTask := by
    rintro rfl
    have hhead := h.running _ hc
    obtain ⟨x, ys, hx⟩ := List.exists_cons_of_ne_nil (List.ne_nil_of_mem (List.mem_of_getElem? ht))
    apply h.idle_not_mem .ready
    rw [hhead, head, hx]
    simp
  obtain ⟨xs, hr⟩ := h.ready_cons hc hidle
  have hhead : K.head = c := (h.running c hc).symm
  have hslice := h.slice_of_ready (t := c) (by simp [hr])
  have hready := tick_ready (h.placed.apart.nodup .sleep) hc
  rw [sliceTick_ready hr hidle] at hready
  have hcurr : K.tick.curr ≠ none := by
    rw [Core.tick, hc]
    simp [dispatch_curr]
  by_cases h1 : (K.task c).sliceTicks = 1
  · rw [if_pos h1, List.append_assoc] at hready
    have hdrop : K.tick.queue .ready = (K.queue .ready).drop 1 ++
        ([c] ++ (K.queue .sleep).filter K.due) := by
      rw [hready, hr]
      rfl
    rcases moves_up h.tick hcurr hp ht hdrop with hrun | ⟨p', hp', hget, hle⟩
    · exact Or.inl hrun
    · refine Or.inr ⟨p', hp', hget, ?_⟩
      have hdef : K.waitMeasure p = (K.task K.head).sliceTicks + 10 * (p - 1) := rfl
      rw [hhead] at hdef
      omega
  · rw [if_neg h1, ← hr] at hready
    obtain ⟨hget, hhead'⟩ := stays ht hready
    refine Or.inr ⟨p, hp, hget, ?_⟩
    rw [waitMeasure, waitMeasure, hhead', hhead, tick_slice (h.placed.apart.nodup .sleep) hc,
      sliceTick_slice hidle h1]
    omega

lemma sleep_ready (h : K.Inv) (hc : K.curr = some c) (hidle : c ≠ .idleTask) (n : Int) :
    (K.sleep n).queue .ready = (K.queue .ready).drop 1 := by
  obtain ⟨xs, hr⟩ := h.ready_cons hc hidle
  simp [sleep, hc, dispatch_queue, join, setTask, pop, leave, emit, hr]

lemma sleep_slice (hc : K.curr = some c) (n : Int) (u : TaskPtr) :
    ((K.sleep n).task u).sliceTicks = (K.task u).sliceTicks := by
  have hsleep : K.sleep n =
      (((K.pop .ready c).setTask c
        { (K.pop .ready c).task c with sleepTicks := n, state := .sleep }).join
          .sleep c).dispatch := by
    rw [sleep, hc]
  rw [hsleep, dispatch_task]
  by_cases hu : u = c
  · subst hu
    simp [join, setTask, pop, leave, emit]
  · simp [join, setTask, pop, leave, emit, hu]

/-- No action lets a ready task wait longer. -/
theorem Inv.exec_nearer (h : K.Inv) (he : K.Enabled a) (hc : K.curr = some c) (hp : 1 ≤ p)
    (ht : (K.queue .ready)[p]? = some t) : K.Nearer (K.exec a) t p := by
  have hcurr : (K.exec a).curr ≠ none := fun hn => by
    have := ((exec_curr h he).mp hn).1
    simp [hc] at this
  have h' := h.exec he
  by_cases ha : shuffling a = true
  · have hs := h.exec_settles he ha
    obtain ⟨n, xs, hn, hready⟩ := hs.ready
    exact nearer_of_drop h h' hcurr hp ht xs hn hready (fun u _ => by rw [hs.task u])
  · cases a with
    | note e =>
      exact nearer_of_drop h h' hcurr hp ht [] (n := 0) (by omega) (by simp [Core.exec, emit])
        (fun _ _ => rfl)
    | timer =>
      rcases h.off.tick_nearer hc hp ht with hrun | ⟨p', hp', hget, hlt⟩
      · exact Or.inl hrun
      · exact Or.inr ⟨p', hp', hget, le_of_lt hlt⟩
    | sleep ms =>
      have hidle : c ≠ .idleTask := fun hi => he.2 (hi ▸ hc)
      exact nearer_of_drop h h' hcurr hp ht [] (n := 1) (by omega)
        (by rw [List.append_nil]; exact sleep_ready h.off hc hidle _) 
        (fun u _ => sleep_slice (K := K.off) hc _ u)
    | fill sel r =>
      refine nearer_of_drop h h' hcurr hp ht [] (n := 0) (by omega)
        (by simp [Core.exec, Core.setTask, Core.cpu]) (fun u _ => ?_)
      by_cases hu : u = r.task
      · subst hu
        simp [Core.exec, Core.setTask, Core.cpu]
      · simp [Core.exec, Core.setTask, Core.cpu, hu]
    | fields r =>
      refine nearer_of_drop h h' hcurr hp ht [] (n := 0) (by omega)
        (by simp [Core.exec, Core.setTask]) (fun u hu => ?_)
      have hne : u ≠ r.task := fun hur => he (hur ▸ (h.placed.placed u).mpr ⟨.ready, hu⟩)
      simp [Core.exec, Core.setTask, hne]
    | ready u' =>
      refine nearer_of_drop h h' hcurr hp ht [u'] (n := 0) (by omega)
        (by simp [Core.exec, Core.create, wake, join, Core.setTask, Core.off, Core.cpu])
        (fun u _ => ?_)
      by_cases hu : u = u'
      · subst hu
        simp [Core.exec, Core.create, wake, join, Core.setTask, Core.off, Core.cpu]
      · simp [Core.exec, Core.create, wake, join, Core.setTask, Core.off, Core.cpu, hu]
    | becomeMain =>
      have := he.1
      simp [hc] at this
    | _ => exact absurd rfl ha

end Core

lemma Machine.Sound.nearer {M M' : Machine Core} {l : Label} {t : TaskPtr} {p : Nat}
    (h : M.Sound) (hs : M.Step l M') (hc : M.sys.curr ≠ none) (hp : 1 ≤ p)
    (ht : (M.sys.queue .ready)[p]? = some t) :
    M'.sys.curr = some t ∨
      ∃ p', 1 ≤ p' ∧ (M'.sys.queue .ready)[p']? = some t ∧
        M'.sys.waitMeasure p' ≤ M.sys.waitMeasure p ∧
        (l.isTick = true → M'.sys.waitMeasure p' < M.sys.waitMeasure p) := by
  obtain ⟨-, a, rest, pc, new, hd, rfl⟩ := Machine.step_iff.mp hs
  obtain ⟨c, hcc⟩ := Option.ne_none_iff_exists'.mp hc
  have he := h.enabled hd
  by_cases hl : l.isTick = true
  · cases hd with
    | tick =>
      rcases h.core.off.tick_nearer hcc hp ht with hrun | ⟨p', hp', hget, hlt⟩
      · exact Or.inl hrun
      · exact Or.inr ⟨p', hp', hget, le_of_lt hlt, fun _ => hlt⟩
    | ret => cases hl
    | code => cases hl
    | call => cases hl
  · rcases h.core.exec_nearer he hcc hp ht with hrun | ⟨p', hp', hget, hle⟩
    · exact Or.inl hrun
    · exact Or.inr ⟨p', hp', hget, hle, fun htick => absurd htick hl⟩

/-- The slice of the running task and a full slice for each task before position `p`. -/
def Sys.waitMeasure (s : Sys) (p : Nat) : Int :=
  match s.currTask with
  | none => 0
  | some c => (s.task c).sliceTicks + 10 * (p - 1)

/-- The task is at position `p` of the ready list. -/
def Sys.ReadyAt (s : Sys) (t : TaskPtr) (p : Nat) : Prop :=
  (s.heap.toList .readyList)[p]? = some ⟨t, .runNode⟩

namespace Machine.Sim

variable {m m' : Machine Sys} {M : Machine Core} {l : Label} {t : TaskPtr} {p : Nat}

lemma readyAt_iff (h : m.Sim M) : m.sys.ReadyAt t p ↔ (M.sys.queue .ready)[p]? = some t := by
  have hlist : m.sys.heap.toList .readyList = (M.sys.queue .ready).map Queue.ready.node :=
    h.sys.toList_eq .ready
  rw [Sys.ReadyAt, hlist, List.getElem?_map]
  constructor
  · intro hget
    obtain ⟨u, hu, hnode⟩ := Option.map_eq_some_iff.mp hget
    rw [hu, Queue.ready.node_injective (hnode.trans rfl : Queue.ready.node u = Queue.ready.node t)]
  · intro hget
    rw [hget]
    rfl

lemma waitMeasure_eq (h : m.Sim M) (hM : M.Sound) (hc : M.sys.curr ≠ none) (p : Nat) :
    m.sys.waitMeasure p = M.sys.waitMeasure p := by
  obtain ⟨c, hcc⟩ := Option.ne_none_iff_exists'.mp hc
  rw [Sys.waitMeasure, h.sys.curr, hcc, Core.waitMeasure, ← hM.core.running c hcc, h.sys.task]

lemma curr_ne_none (hM : M.Sound) {M' : Machine Core} (hs : M.Step l M')
    (hc : M.sys.curr ≠ none) : M'.sys.curr ≠ none := by
  obtain ⟨-, a, rest, pc, new, hd, rfl⟩ := Machine.step_iff.mp hs
  exact fun hn => hc ((Core.exec_curr hM.core (hM.enabled hd)).mp hn).1

lemma nearer (h : m.Sim M) (hM : M.Sound) (hs : m.Step l m') (hc : m.sys.currTask ≠ none)
    (hp : 1 ≤ p) (ht : m.sys.ReadyAt t p) :
    m'.sys.currTask = some t ∨
      ∃ p', 1 ≤ p' ∧ m'.sys.ReadyAt t p' ∧ m'.sys.waitMeasure p' ≤ m.sys.waitMeasure p ∧
        (l.isTick = true → m'.sys.waitMeasure p' < m.sys.waitMeasure p) := by
  obtain ⟨M', hs', h', hM'⟩ := h.step hM hs
  have hcM : M.sys.curr ≠ none := h.sys.curr ▸ hc
  have hcM' := curr_ne_none hM hs' hcM
  rcases hM.nearer hs' hcM hp (h.readyAt_iff.mp ht) with hrun | ⟨p', hp', hget, hle, hlt⟩
  · exact Or.inl (h'.sys.curr.trans hrun)
  · refine Or.inr ⟨p', hp', h'.readyAt_iff.mpr hget, ?_⟩
    rw [h.waitMeasure_eq hM hcM, h'.waitMeasure_eq hM' hcM']
    exact ⟨hle, hlt⟩

lemma waitMeasure_bounds (h : m.Sim M) (hM : M.Sound) (hc : m.sys.currTask ≠ none)
    (hp : 1 ≤ p) (ht : m.sys.ReadyAt t p) :
    0 < m.sys.waitMeasure p ∧ m.sys.waitMeasure p ≤ 10 * p := by
  have hget := h.readyAt_iff.mp ht
  obtain ⟨x, ys, hx⟩ :=
    List.exists_cons_of_ne_nil (List.ne_nil_of_mem (List.mem_of_getElem? hget))
  have hmem : M.sys.head ∈ M.sys.queue .ready := by simp [Core.head, hx]
  have hslice := hM.core.slice_of_ready hmem
  rw [h.waitMeasure_eq hM (h.sys.curr ▸ hc), Core.waitMeasure]
  omega

lemma readyAt_idxOf (h : m.Sim M) (ht : m.sys.ReadyAt t p) :
    (m.sys.heap.toList .readyList).idxOf ⟨t, .runNode⟩ = p := by
  obtain ⟨hlt, hget⟩ := List.getElem?_eq_some_iff.mp ht
  rw [← hget]
  exact (h.sys.showsSeq .readyList).distinct.idxOf_getElem p hlt

lemma runs_at_last (h : m.Sim M) (hM : M.Sound) (hc : m.sys.currTask ≠ none) (hp : 1 ≤ p)
    (ht : m.sys.ReadyAt t p) {ls : List Label} (hr : Run Machine.Step m ls m')
    (hticks : 10 * p ≤ ls.countP Label.isTick) :
    ∃ ls₁ ls₂ v, ls = ls₁ ++ ls₂ ∧ Run Machine.Step m ls₁ v ∧ Run Machine.Step v ls₂ m' ∧
      v.sys.currTask = some t := by
  have hbound := (h.waitMeasure_bounds hM hc hp ht).2
  refine hr.reaches_goal
    (I := fun m => ∃ M, m.Sim M ∧ M.Sound ∧ m.sys.currTask ≠ none)
    (W := fun m => ∃ p, 1 ≤ p ∧ m.sys.ReadyAt t p) (p := Label.isTick)
    (μ := fun m => (m.sys.waitMeasure
      ((m.sys.heap.toList .readyList).idxOf ⟨t, .runNode⟩)).toNat) ?_ ?_ ?_
    ⟨M, h, hM, hc⟩ ⟨p, hp, ht⟩ ?_
  · rintro m l m' ⟨M, h, hM, hc⟩ hs
    obtain ⟨M', hs', h', hM'⟩ := h.step hM hs
    exact ⟨M', h', hM', h'.sys.curr ▸ curr_ne_none hM hs' (h.sys.curr ▸ hc)⟩
  · rintro m ⟨M, h, hM, hc⟩ ⟨p, hp, ht⟩
    rw [h.readyAt_idxOf ht]
    have := (h.waitMeasure_bounds hM hc hp ht).1
    omega
  · rintro m l m' ⟨M, h, hM, hc⟩ ⟨p, hp, ht⟩ hs
    obtain ⟨M', -, h', -⟩ := h.step hM hs
    rcases h.nearer hM hs hc hp ht with hrun | ⟨p', hp', ht', hle, hlt⟩
    · exact Or.inl hrun
    · have hpos := (h.waitMeasure_bounds hM hc hp ht).1
      refine Or.inr ⟨⟨p', hp', ht'⟩, ?_, fun htick => ?_⟩
      · rw [h.readyAt_idxOf ht, h'.readyAt_idxOf ht']
        omega
      · have := hlt htick
        rw [h.readyAt_idxOf ht, h'.readyAt_idxOf ht']
        omega
  · rw [h.readyAt_idxOf ht]
    omega

end Machine.Sim

variable {b : BootMem} {ls : List Label} {m : Machine Sys}

/-- Slices stay in range, a ready task never waits longer than before, and it has run once
enough ticks have passed. -/
theorem no_ready_task_starves (h : b.Reaches ls m) (hc : m.sys.currTask ≠ none) :
    (∀ t, ⟨t, .allNode⟩ ∈ m.sys.heap.toList .taskList →
      1 ≤ (m.sys.task t).sliceTicks ∧ (m.sys.task t).sliceTicks ≤ (m.sys.task t).timeTicks ∧
        (m.sys.task t).timeTicks = 10) ∧
    ∀ t p, 1 ≤ p → m.sys.ReadyAt t p →
      (∀ l m', m.Step l m' →
        m'.sys.currTask = some t ∨
          ∃ p', 1 ≤ p' ∧ m'.sys.ReadyAt t p' ∧ m'.sys.waitMeasure p' ≤ m.sys.waitMeasure p ∧
            (l.isTick = true → m'.sys.waitMeasure p' < m.sys.waitMeasure p)) ∧
      ∀ ls' m', Run Machine.Step m ls' m' → 10 * p ≤ ls'.countP Label.isTick →
        ∃ ls₁ ls₂ v, ls' = ls₁ ++ ls₂ ∧ Run Machine.Step m ls₁ v ∧ Run Machine.Step v ls₂ m' ∧
          v.sys.currTask = some t := by
  obtain ⟨M, -, hsim, hM⟩ := h.sim
  refine ⟨fun t ht => ?_, fun t p hp ht =>
    ⟨fun l m' hs => hsim.nearer hM hs hc hp ht,
      fun ls' m' hr hticks => hsim.runs_at_last hM hc hp ht hr hticks⟩⟩
  rw [hsim.sys.heap.toList_eq (Set.mem_univ _), Core.lists_taskList] at ht
  obtain ⟨u, hu, hnode⟩ := List.mem_map.mp ht
  have hut : u = t := congrArg NodePtr.task hnode
  obtain ⟨h1, h2, h3⟩ := hM.core.slice t (hut ▸ hu)
  rw [hsim.sys.task, h3]
  exact ⟨h1, h2, rfl⟩

/-- A task stands behind the main task. A tick brings it nearer to the processor, and it gets
it within ten. -/
theorem no_ready_task_starves_main : ∃ ls m m', BootMem.zeroed.Reaches ls m ∧
    m.sys.ReadyAt (.obj 0) 1 ∧ m.Step .tick m' ∧
    (m'.sys.currTask = some (.obj 0) ∨ ∃ p, 1 ≤ p ∧ m'.sys.ReadyAt (.obj 0) p ∧
      m'.sys.waitMeasure p < m.sys.waitMeasure 1) ∧
    ∀ ls' m'', Run Machine.Step m ls' m'' → 10 ≤ ls'.countP Label.isTick →
      ∃ ls₁ ls₂ v, ls' = ls₁ ++ ls₂ ∧ Run Machine.Step m ls₁ v ∧ Run Machine.Step v ls₂ m'' ∧
        v.sys.currTask = some (.obj 0) := by
  obtain ⟨K, st, hplays, hfilled, -⟩ := BootMem.zeroed.fills 1 (by decide)
  obtain ⟨hon, hruns, hflag⟩ := hplays.enable hfilled.runs (by simp)
  obtain ⟨ls, m, m', hm, -, hsim, hs⟩ := hon.tick hruns.halt hflag
  have hready : m.sys.ReadyAt (.obj 0) 1 :=
    hsim.readyAt_iff.mpr (congrArg (·[1]?) (hfilled.queue .ready))
  have hcurr : m.sys.currTask ≠ none := by
    rw [hsim.sys.curr.trans hruns.curr]
    simp
  obtain ⟨hstep, hrun⟩ := (no_ready_task_starves hm.reaches hcurr).2 (.obj 0) 1 le_rfl hready
  refine ⟨ls, m, m', hm.reaches, hready, hs, ?_, hrun⟩
  rcases hstep .tick m' hs with hgets | ⟨p, hp, hat, -, hless⟩
  · exact Or.inl hgets
  · exact Or.inr ⟨p, hp, hat, hless rfl⟩

end OsToyI386
