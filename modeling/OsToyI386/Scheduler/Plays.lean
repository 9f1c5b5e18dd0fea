import OsToyI386.Scheduler.Creation

/-!
# Runs put together

A run from the boot on is put together of the calls that the contexts make and the code that
they go through, with no interrupt but where one is asked for. That the processor can go on
is known of every state reached, so only the kernel's own data is followed.
-/

namespace OsToyI386

open Lib Machine

/-- The call that a step of a context's own code makes. -/
def Label.made : Label → Option Op
  | call op => some op
  | _ => none

/-- The calls of the labels `ls`, in order. -/
def madeIn (ls : List Label) : List Op := ls.filterMap Label.made

/-- The calls of a run whose steps go with their contexts. -/
def madeBy (xs : List (Ctx × Label)) : List (Ctx × Op) :=
  xs.filterMap fun x => x.2.made.map (x.1, ·)

lemma madeBy_append (xs xs' : List (Ctx × Label)) : madeBy (xs ++ xs') = madeBy xs ++ madeBy xs' :=
  List.filterMap_append ..

lemma count_made (ls : List Label) (op : Op) : (madeIn ls).count op = ls.count (.call op) := by
  induction ls with
  | nil => rfl
  | cons l ls ih =>
    cases l with
    | call op' => simp [madeIn, Label.made, List.count_cons, ← ih]
    | run => exact ih.trans (List.count_cons_of_ne (by simp)).symm
    | tick => exact ih.trans (List.count_cons_of_ne (by simp)).symm

lemma madeIn_map_snd (xs : List (Ctx × Label)) :
    madeIn (xs.map Prod.snd) = (madeBy xs).map Prod.snd := by
  rw [madeIn, madeBy, List.filterMap_map, List.map_filterMap]
  congr 1
  funext x
  simp

lemma madeBy_solo {w : Bool} {c : Ctx} {M M' : Machine Core} {ls : List Label}
    (h : Run (Solo w c) M ls M') : madeBy (ls.map (c, ·)) = [] := by
  induction h with
  | nil => rfl
  | cons hs _ ih =>
    obtain ⟨-, rfl, -⟩ := hs
    exact ih

lemma Machine.Sim.runWithRoom_back {m : Machine Sys} {M M' : Machine Core} {ls : List Label}
    (h : m.Sim M) (hM : M.Sound) (hr : Run StepWithRoom M ls M') :
    ∃ m', Run StepWithRoom m ls m' ∧ m'.Sim M' := by
  induction hr generalizing m with
  | nil => exact ⟨m, .nil m, h⟩
  | cons hs _ ih =>
    obtain ⟨m₁, hs₁, h₁⟩ := h.step_back hM hs.2
    obtain ⟨m', hr', h'⟩ := ih h₁ (hM.step hs.2)
    exact ⟨m', .cons ⟨h.findsRoom_iff.mpr hs.1, hs₁⟩ hr', h'⟩

/-- A step of `R` with its context, that is no interrupt. -/
def Machine.StepBy (R : Machine Core → Label → Machine Core → Prop) (M : Machine Core)
    (x : Ctx × Label) (M' : Machine Core) : Prop :=
  M.sys.curr = x.1 ∧ x.2.isTick = false ∧ R M x.2 M'

/-- A run that finds room for its creations and makes the calls `ops` leads to `M`. -/
def BootMem.Plays (b : BootMem) (ops : List (Ctx × Op)) (M : Machine Core) : Prop :=
  ∃ xs, Run (StepBy StepWithRoom) b.abstract xs M ∧ madeBy xs = ops

namespace BootMem.Plays

variable {b : BootMem} {ops : List (Ctx × Op)} {M M' : Machine Core} {c : Ctx} {e : Epilogue}
  {rest : List Epilogue} {pc : Pc}

lemma boot (b : BootMem) : b.Plays [] b.abstract := ⟨[], .nil _, rfl⟩

lemma run (h : b.Plays ops M) : ∃ ls, Run StepWithRoom b.abstract ls M ∧
    madeIn ls = ops.map Prod.snd ∧ ls.countP Label.isTick = 0 := by
  obtain ⟨xs, hr, rfl⟩ := h
  have hticks := hr.history (P := fun xs _ => (xs.map Prod.snd).countP Label.isTick = 0) rfl
    fun xs M x M' _ ih hs => by simp [ih, hs.2.1]
  exact ⟨_, hr.relabel Prod.snd fun _ _ _ hs => hs.2.2, madeIn_map_snd xs, hticks⟩

lemma sound (h : b.Plays ops M) : M.Sound := by
  obtain ⟨ls, hr, -⟩ := h.run
  exact b.boot_sound.run (hr.mono fun _ _ _ hs => hs.2)

lemma real (h : b.Plays ops M) : ∃ ls m, b.ReachesWithRoom ls m ∧ m.Sim M ∧
    madeIn ls = ops.map Prod.snd ∧ ls.countP Label.isTick = 0 := by
  obtain ⟨ls, hr, hops⟩ := h.run
  obtain ⟨m, hm, hsim⟩ := b.boot_represents.runWithRoom_back b.boot_sound hr
  exact ⟨ls, m, hm, hsim, hops⟩

lemma runs (h : b.Plays ops M) (hhalt : M.sys.halt = none) (hc : M.sys.curr = c) :
    M.sys.Runs c := by
  obtain ⟨ls, m, hm, hsim, -⟩ := h.real
  have hhalt' : m.sys.halt = none := by
    rw [hsim.sys.cpu]
    exact hhalt
  have hlive := (hsim.live_iff.mp (hm.live hhalt')).2
  subst hc
  exact ⟨hhalt, rfl, hlive⟩

/-- No jump to a TSS faults. -/
lemma unhalted (h : b.Plays ops M) (hor : M.sys.halt = none ∨ M.sys.halt = some .cpuFault) :
    M.sys.halt = none := by
  refine hor.resolve_right ?_
  obtain ⟨ls, m, hm, hsim, -⟩ := h.real
  obtain ⟨M', own, hsim', -, hW⟩ := hm.wired
  have hcpu : m.sys.toCpu = M.sys.toCpu := hsim.sys.cpu
  rw [← hcpu, hsim'.sys.cpu]
  exact hW.table.fault

lemma goes (h : b.Plays ops M) (hg : Goes true c M M') : b.Plays ops M' := by
  obtain ⟨xs, hr, rfl⟩ := h
  obtain ⟨ls, hr'⟩ := hg
  refine ⟨_, hr.append (hr'.relabel (c, ·) fun _ _ _ hs =>
    ⟨hs.2.2.1, by rw [hs.2.1]; rfl, hs.2.2.2.2 rfl, hs.1⟩), ?_⟩
  rw [madeBy_append, madeBy_solo hr', List.append_nil]

lemma call_step (op : Op) (h : b.Plays ops M) (hhalt : M.sys.halt = none) (hc : M.sys.curr = c)
    (hown : M.ctl c = .own) (hop : (op.present && op.nameable) = true)
    (hnew : ∀ t ∈ op.creates, t ∉ M.started) (hwho : (c = none ∧ op.atBoot = true) ∨
      ∃ t, c = some t ∧ t ≠ .idleTask ∧ op ≠ .taskMainInit) :
    M.StepWithRoom (.call op) (place (M.sys.exec op.first.1) M.ctl (op.creates ++ M.started) c
      ⟨M.sys.leaves op.first.1, op.first.2⟩) := by
  have hruns := h.runs hhalt hc
  have hstep := step_call (f := M.ctl) (s := M.started) op hruns (allows_place hruns hop hnew hwho)
  rwa [place_eq hown] at hstep

lemma call (op : Op) (h : b.Plays ops M) (hhalt : M.sys.halt = none) (hc : M.sys.curr = c)
    (hown : M.ctl c = .own) (hop : (op.present && op.nameable) = true)
    (hnew : ∀ t ∈ op.creates, t ∉ M.started) (hwho : (c = none ∧ op.atBoot = true) ∨
      ∃ t, c = some t ∧ t ≠ .idleTask ∧ op ≠ .taskMainInit) :
    b.Plays (ops ++ [(c, op)]) (place (M.sys.exec op.first.1) M.ctl (op.creates ++ M.started) c
      ⟨M.sys.leaves op.first.1, op.first.2⟩) := by
  have hstep := h.call_step op hhalt hc hown hop hnew hwho
  obtain ⟨xs, hr, rfl⟩ := h
  exact ⟨_, hr.snoc (l := (c, .call op)) ⟨hc, rfl, hstep⟩, madeBy_append ..⟩

lemma ret (h : b.Plays ops M) (hhalt : M.sys.halt = none) (hc : M.sys.curr = c)
    (hp : M.ctl c = ⟨e :: rest, pc⟩) :
    b.Plays ops (place (M.sys.exec (.ret e)) M.ctl M.started c ⟨rest, pc⟩) := by
  have hgoes := goes_ret (w := true) (f := M.ctl) (s := M.started) (e := e) rest pc
    (h.runs hhalt hc)
  rw [place_eq hp] at hgoes
  exact h.goes hgoes

lemma through (op : Op) (h : b.Plays ops M) (hhalt : M.sys.halt = none) (hc : M.sys.curr = c)
    (hown : M.ctl c = .own) (hop : (op.present && op.nameable) = true)
    (hnew : ∀ t ∈ op.creates, t ∉ M.started) (hwho : (c = none ∧ op.atBoot = true) ∨
      ∃ t, c = some t ∧ t ≠ .idleTask ∧ op ≠ .taskMainInit)
    (huser : op.first.2 = .user) (hleaves : M.sys.leaves op.first.1 = [e])
    (hhalt' : (M.sys.exec op.first.1).halt = none) (hc' : (M.sys.exec op.first.1).curr = c) :
    b.Plays (ops ++ [(c, op)]) (place ((M.sys.exec op.first.1).exec (.ret e)) M.ctl
      (op.creates ++ M.started) c .own) := by
  have hcall := h.call op hhalt hc hown hop hnew hwho
  rw [hleaves, huser] at hcall
  have hret := hcall.ret hhalt' hc' (place_self ..)
  rwa [place_again] at hret

lemma switch {d : Ctx} (op : Op) (h : b.Plays ops M) (hhalt : M.sys.halt = none)
    (hc : M.sys.curr = c) (hown : M.ctl c = .own) (hop : (op.present && op.nameable) = true)
    (hnew : ∀ t ∈ op.creates, t ∉ M.started) (hwho : (c = none ∧ op.atBoot = true) ∨
      ∃ t, c = some t ∧ t ≠ .idleTask ∧ op ≠ .taskMainInit)
    (hor : (M.sys.exec op.first.1).halt = M.sys.halt ∨
      (M.sys.exec op.first.1).halt = some .cpuFault)
    (hd : (M.sys.exec op.first.1).curr = d) (hne : d ≠ c) (hown' : M.ctl d = .own) :
    ∃ f s, b.Plays (ops ++ [(c, op)]) (place (M.sys.exec op.first.1) f s d .own) ∧
      (M.sys.exec op.first.1).Runs d ∧ ∀ d', d' ≠ c → f d' = M.ctl d' := by
  have hcall := h.call op hhalt hc hown hop hnew hwho
  have hruns := hcall.runs (hcall.unhalted (hor.imp_left fun h => h.trans hhalt)) hd
  have hother : (place (M.sys.exec op.first.1) M.ctl (op.creates ++ M.started) c
      ⟨M.sys.leaves op.first.1, op.first.2⟩).ctl d = .own :=
    (Function.update_of_ne hne ..).trans hown'
  refine ⟨_, _, (place_eq hother).symm ▸ hcall, hruns, fun d' hd' => ?_⟩
  exact Function.update_of_ne hd' ..

lemma enable {K : Core} {f : Ctx → Ctl} {s : List TaskPtr} {t : TaskPtr}
    (h : b.Plays ops (place K f s (some t) .own)) (hruns : K.Runs (some t))
    (hidle : t ≠ .idleTask) :
    b.Plays (ops ++ [(some t, .irqEnableGlobal)]) (place (K.exec .enable) f s (some t) .own) ∧
      (K.exec .enable).Runs (some t) ∧ (K.exec .enable).interruptible = true := by
  have hcall := h.call .irqEnableGlobal hruns.halt hruns.curr (place_self ..) rfl
    (by simp [Op.creates]) (Or.inr ⟨t, rfl, hidle, by simp⟩)
  rw [place_again] at hcall
  exact ⟨hcall, ⟨hruns.halt, hruns.curr, hruns.runs⟩,
    by simp [Core.exec, Core.cpu, Cpu.interruptible, Cpu.sti]⟩

lemma tick (h : b.Plays ops M) (hhalt : M.sys.halt = none) (hflag : M.sys.interruptible = true) :
    ∃ ls m m', b.ReachesWithRoom ls m ∧ ls.countP Label.isTick = 0 ∧ m.Sim M ∧
      m.Step .tick m' := by
  obtain ⟨ls, m, hm, hsim, -, hticks⟩ := h.real
  have hhalt' : m.sys.halt = none := by
    rw [hsim.sys.cpu]
    exact hhalt
  have hdoes : M.Does .tick .timer (M.ctl M.running).pending (M.ctl M.running).pc [] := .tick hflag
  have hstep := Machine.step_iff.mpr ⟨hsim.live_iff.mp (hm.live hhalt'), _, _, _, _, hdoes, rfl⟩
  obtain ⟨m', hs, -⟩ := hsim.step_back h.sound hstep
  exact ⟨ls, m, m', hm, hticks, hsim, hs⟩

end BootMem.Plays

end OsToyI386
