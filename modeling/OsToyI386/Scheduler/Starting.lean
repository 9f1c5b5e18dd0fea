import OsToyI386.Properties.Protection
import OsToyI386.Scheduler.Context

/-!
# How a task starts

The TSS of a task that has not run yet is written by its own creation only, so the first
switch to it loads the flags that `tss_init` has put there.
-/

namespace OsToyI386

open Lib

namespace Core

variable {K K' : Core} {own : Nat → Option Owner} {a : Act} {c t : TaskPtr} {x : BitVec 32}

lemma farJump_tss {p : Cpu} {sel : BitVec 16} (hx : x ≠ (p.gdt (selIndex p.tr)).base) :
    (farJump sel p).tss x = p.tss x := by
  unfold farJump
  split
  · exact Function.update_of_ne hx _ _
  · rfl

/-- An action that sets nothing up leaves every TSS and the running task as they are, or
ends with a dispatch. If it enters a call, it turns interrupts off. -/
lemma exec_saves (ha : setsUp a = false) :
    ((K.exec a).tss = K.tss ∧ (K.exec a).curr = K.curr ∧
      (K.leaves a ≠ [] → (K.exec a).eflags = K.off.eflags)) ∨
    ∃ L : Core, K.exec a = L.dispatch ∧ L.curr = K.curr ∧ L.tss = K.tss ∧ L.gdt = K.gdt ∧
      L.tr = K.tr := by
  cases a with
  | timer =>
    simp only [exec, tick]
    split
    · exact Or.inl ⟨rfl, rfl, fun _ => rfl⟩
    · rename_i c _
      have hcpu : (K.off.sliceTick c).sleepersTick.toCpu = K.off.toCpu := by
        rw [sleepersTick_cpu, sliceTick_cpu]
      refine Or.inr ⟨_, rfl, ?_, by rw [hcpu]; rfl, by rw [hcpu]; rfl, by rw [hcpu]; rfl⟩
      rw [sleepersTick, (pass_rest _ _).2.1]
      unfold sliceTick
      split
      · rfl
      · split <;> rfl
  | lock m =>
    simp only [exec, lock]
    split
    · exact Or.inl ⟨rfl, rfl, fun _ => rfl⟩
    · split
      · exact Or.inl ⟨rfl, rfl, fun _ => rfl⟩
      · split
        · exact Or.inl ⟨rfl, rfl, fun _ => rfl⟩
        · exact Or.inr ⟨_, rfl, rfl, rfl, rfl, rfl⟩
  | unlock m =>
    left
    simp only [exec, unlock]
    split
    · exact ⟨rfl, rfl, fun _ => rfl⟩
    · split
      · unfold handOver
        split <;> exact ⟨rfl, rfl, fun _ => rfl⟩
      · exact ⟨rfl, rfl, fun _ => rfl⟩
  | wait p =>
    simp only [exec, wait]
    split
    · exact Or.inl ⟨rfl, rfl, fun _ => rfl⟩
    · split
      · exact Or.inl ⟨rfl, rfl, fun _ => rfl⟩
      · exact Or.inr ⟨_, rfl, rfl, rfl, rfl, rfl⟩
  | notify p =>
    simp only [exec, notify]
    split
    · exact Or.inl ⟨rfl, rfl, fun _ => rfl⟩
    · exact Or.inr ⟨_, rfl, rfl, rfl, rfl, rfl⟩
  | sleep ms =>
    simp only [exec, sleep]
    split
    · exact Or.inl ⟨rfl, rfl, fun _ => rfl⟩
    · exact Or.inr ⟨_, rfl, rfl, rfl, rfl, rfl⟩
  | yield =>
    simp only [exec, yield]
    split
    · split
      · exact Or.inl ⟨rfl, rfl, fun _ => rfl⟩
      · exact Or.inr ⟨_, rfl, rfl, rfl, rfl, rfl⟩
    · exact Or.inl ⟨rfl, rfl, fun _ => rfl⟩
  | dispatch => exact Or.inr ⟨K, rfl, rfl, rfl, rfl, rfl⟩
  | count | ready => exact Or.inl ⟨rfl, rfl, fun _ => rfl⟩
  | claim | segSet | fill | writeTr | becomeMain => cases ha
  | _ => exact Or.inl ⟨rfl, rfl, fun h => absurd rfl h⟩

/-- The TSS that `TR` names is written to, if the running task changes, and no other. -/
lemma exec_tss (ha : setsUp a = false)
    (hx : (K.exec a).curr = K.curr ∨ x ≠ (K.gdt (selIndex K.tr)).base) :
    (K.exec a).tss x = K.tss x := by
  rcases exec_saves (K := K) ha with ⟨htss, -, -⟩ | ⟨L, hL, hcurr, htss, hgdt, htr⟩
  · rw [htss]
  · rw [hL] at hx ⊢
    rw [← htss]
    by_cases hhead : L.curr = some L.head
    · unfold dispatch
      rw [if_pos hhead]
      rfl
    · rcases hx with hsame | hx
      · exact absurd (hcurr.trans (hsame.symm.trans (dispatch_curr L))) hhead
      · unfold dispatch
        rw [if_neg hhead]
        rw [← hgdt, ← htr] at hx
        exact farJump_tss hx

lemma exec_tssAddr (a : Act) : (K.exec a).tssAddr = K.tssAddr := by
  by_cases ha : setsUp a = true
  · cases a with
    | writeTr =>
      simp only [exec, cpu, OsToyI386.writeTr]
      split <;> rfl
    | claim | segSet | fill | becomeMain => rfl
    | _ => cases ha
  · rcases exec_turns (K := K) (Bool.not_eq_true _ ▸ ha) with h | ⟨t, h⟩
    · exact h.tssAddr
    · obtain ⟨p, -, -, haddr, -, hp⟩ := h.jump
      rw [hp, switchToTss, farJump]
      split <;> exact haddr

lemma Switches.eflags {j : Nat} (hs : Switches K K' t) (h : K.Table own (some c))
    (hc : K.curr = some c) (hj : own j = some (.task t)) :
    K'.eflags = getDword (K'.tss (K.tssAddr t)) Tss.eflags := by
  obtain ⟨i, hi, htr⟩ := h.loaded c rfl
  obtain ⟨p, hgdt, hptr, -, -, hp⟩ := hs.jump
  have hct : c ≠ t := fun hct => hs.other (hct ▸ hc)
  have hij : i ≠ j := by
    rintro rfl
    exact hct (Owner.task.inj (Option.some.inj (hi.symm.trans hj)))
  obtain ⟨hpos, hlt⟩ := h.range j _ hj
  have hav : (p.gdt j).isAvailableTss = true := by
    apply isAvailableTss_of_attr
    rw [hgdt, h.attr j t hj, if_neg (fun hct' => hct (Option.some.inj hct'))]
  have hjumps : (selInGdt (selOf j) && (p.gdt (selIndex (selOf j))).isAvailableTss) = true := by
    rw [selIndex_selOf hlt, selInGdt_selOf hpos hlt, hav]
    rfl
  have hother : selIndex p.tr ≠ selIndex (selOf j) := by
    rw [hptr, htr, selIndex_selOf (h.range i _ hi).2, selIndex_selOf hlt]
    exact hij
  have hloads := farJump_loads hjumps hother
  have hp' : K'.toCpu = farJump (selOf j) p := by
    rw [hp, h.sel j t hj]
    rfl
  rw [selIndex_selOf hlt, hgdt, h.base j t hj] at hloads
  rw [hp']
  exact hloads

end Core

/-- The task `t` has not run yet, and its TSS, once it has one, holds the default flags. -/
structure Machine.Unrun (M : Machine Core) (own : Nat → Option Owner) (t : TaskPtr) : Prop where
  ctl : M.ctl (some t) = .own
  curr : M.sys.curr ≠ some t
  flags : ∀ i, own i = some (.task t) →
    getDword (M.sys.tss (M.sys.tssAddr t)) Tss.eflags = 0x202#32

namespace Machine.Unrun

variable {M : Machine Core} {own : Nat → Option Owner} {l : Label} {a : Act}
  {rest : List Epilogue} {pc : Pc} {new : List TaskPtr} {t : TaskPtr}

lemma ctl_after (h : M.Unrun own t) (hM : M.Sound) (hd : M.Does l a rest pc new) :
    (M.after a rest pc new).ctl (some t) = .own := by
  have hpend := hM.after_pending hd (some t)
  have hpc := (hM.place_after hd).2 (some t) h.curr.symm
  rw [if_neg h.curr.symm] at hpend
  rw [h.ctl] at hpend hpc
  cases hk : (M.after a rest pc new).ctl (some t) with
  | mk pending pc' =>
    rw [hk] at hpend hpc
    cases hpend
    cases hpc
    rfl

lemma after_quiet (h : M.Unrun own t) (hM : M.Sound) (hW : M.Wired own)
    (hapart : ∀ u, u ≠ t → M.sys.tssAddr u ≠ M.sys.tssAddr t) (hd : M.Does l a rest pc new)
    (ha : Core.setsUp a = false) :
    (M.after a rest pc new).Unrun own t ∨ (M.after a rest pc new).Restores (some t) true := by
  have hctl := h.ctl_after hM hd
  have he := hM.enabled hd
  have haddr : (M.sys.exec a).tssAddr = M.sys.tssAddr := Core.exec_tssAddr a
  rcases Core.exec_turns (K := M.sys) ha with hstill | ⟨u, hswitch⟩
  · refine Or.inl ⟨hctl, fun hc => h.curr (hstill.curr.symm.trans hc), fun i hi => ?_⟩
    have htss := Core.exec_tss (x := M.sys.tssAddr t) ha (Or.inl hstill.curr)
    have hsys : (M.after a rest pc new).sys = M.sys.exec a := rfl
    rw [hsys, haddr, htss]
    exact h.flags i hi
  · have hne : a ≠ .becomeMain := by
      rintro rfl
      cases ha
    obtain ⟨c, hc⟩ : ∃ c, M.sys.curr = some c := by
      refine Option.ne_none_iff_exists'.mp fun hn => ?_
      have hsame := (Core.exec_curr hM.core he).mpr ⟨hn, hne⟩
      rw [hswitch.curr] at hsame
      cases hsame
    have htable := hW.table_of_curr hc
    have htss : (M.sys.exec a).tss (M.sys.tssAddr t) = M.sys.tss (M.sys.tssAddr t) := by
      refine Core.exec_tss ha (Or.inr fun heq => ?_)
      rw [htable.current] at heq
      exact hapart c (fun hct => h.curr (hct ▸ hc)) heq.symm
    by_cases hut : u = t
    · subst hut
      have hown : ∃ j, own j = some (.task u) := by
        have hinv := hM.core.exec he
        by_cases hidle : u = .idleTask
        · exact hidle ▸ hW.idle_owned (by simp [hc])
        · exact hW.queued_after hM hd
            ((hinv.placed.placed u).mpr ⟨.ready, hinv.mem_ready hswitch.curr hidle⟩)
      obtain ⟨j, hj⟩ := hown
      refine Or.inr ⟨fun e hlast => ?_, fun _ => Or.inl ⟨hswitch.curr, ?_⟩⟩
      · rw [hctl] at hlast
        cases hlast
      · have hflags := hswitch.eflags htable hc hj
        rw [htss, h.flags j hj] at hflags
        have hsys : (M.after a rest pc new).sys.eflags = 0x202#32 := hflags
        rw [Cpu.interruptible, hsys]
        decide
    · refine Or.inl ⟨hctl, fun hcurr => ?_, fun i hi => ?_⟩
      · exact hut (Option.some.inj (hswitch.curr.symm.trans hcurr))
      · have hsys : (M.after a rest pc new).sys = M.sys.exec a := rfl
        rw [hsys, haddr, htss]
        exact h.flags i hi

/-- An action that sets something up does not run the task; its own creation writes the
flags. -/
lemma after_setsUp (h : M.Unrun own t) (hM : M.Sound)
    (hapart : ∀ u, u ≠ t → M.sys.tssAddr u ≠ M.sys.tssAddr t)
    (hd : M.Does l a rest pc new) (ha : Core.setsUp a = true) (ht : t ≠ .mainTask) :
    (M.after a rest pc new).Unrun (ownAfter own M.sys.curr a) t := by
  have hctl := h.ctl_after hM hd
  cases a with
  | claim i =>
    refine ⟨hctl, h.curr, fun j hj => ?_⟩
    by_cases hji : j = i
    · subst hji
      simp [ownAfter] at hj
    · exact h.flags j (by simpa [ownAfter, hji] using hj)
  | segSet sel base limit attr => exact ⟨hctl, h.curr, h.flags⟩
  | fill sel r =>
    refine ⟨hctl, h.curr, fun j hj => ?_⟩
    have htss : ((M.after (.fill sel r) rest pc new).sys.tss
        ((M.after (.fill sel r) rest pc new).sys.tssAddr t)) =
        Function.update M.sys.tss (M.sys.tssAddr r.task)
          (Tss.fill (M.sys.tss (M.sys.tssAddr r.task)) r.entry r.esp) (M.sys.tssAddr t) := rfl
    rw [htss]
    by_cases hrt : r.task = t
    · rw [hrt, Function.update_self, Tss.fill_eflags]
    · rw [Function.update_of_ne (hapart _ hrt).symm]
      refine h.flags j ?_
      by_cases hji : j = (sel / 8).toNat
      · subst hji
        simp [ownAfter, hrt] at hj
      · simpa [ownAfter, hji] using hj
  | writeTr =>
    have htss : (M.sys.exec .writeTr).tss = M.sys.tss := by
      simp only [Core.exec, Core.cpu, writeTr]
      split <;> rfl
    have haddr : (M.sys.exec .writeTr).tssAddr = M.sys.tssAddr := Core.exec_tssAddr _
    refine ⟨hctl, h.curr, fun j hj => ?_⟩
    have hsys : (M.after .writeTr rest pc new).sys = M.sys.exec .writeTr := rfl
    rw [hsys, haddr, htss]
    exact h.flags j hj
  | becomeMain => exact ⟨hctl, fun hc => ht (Option.some.inj hc).symm, h.flags⟩
  | _ => cases ha

end Machine.Unrun

/-- What is known of the flags of the task `t` as long as its own code leaves them alone. -/
def Machine.Starts (M : Machine Core) (own : Nat → Option Owner) (t : TaskPtr) : Prop :=
  M.Unrun own t ∨ M.Restores (some t) true

theorem Machine.Starts.after {M : Machine Core} {own : Nat → Option Owner} {l : Label} {a : Act}
    {rest : List Epilogue} {pc : Pc} {new : List TaskPtr} {t : TaskPtr}
    (h : M.Starts own t) (hM : M.Sound) (hW : M.Wired own)
    (hapart : ∀ u, u ≠ t → M.sys.tssAddr u ≠ M.sys.tssAddr t) (ht : t ≠ .mainTask)
    (hd : M.Does l a rest pc new)
    (hl : M.sys.curr = some t → ∀ op, l = .call op → op.setsFlag = false)
    (hhalt : (M.sys.exec a).halt = none) :
    (M.after a rest pc new).Starts (ownAfter own M.sys.curr a) t := by
  rcases h with h | h
  · by_cases ha : Core.setsUp a = true
    · exact Or.inl (h.after_setsUp hM hapart hd ha ht)
    · have hquiet := h.after_quiet hM hW hapart hd (Bool.not_eq_true _ ▸ ha)
      cases a <;> first | exact hquiet | exact absurd rfl ha
  · exact Or.inr (h.after hM hd hl hhalt)

/-- A step in which creations find room and the own code of `c` leaves its flags alone. -/
def Machine.StepStarting {σ : Type} [Kernel σ] (c : Ctx) (m : Machine σ) (l : Label)
    (m' : Machine σ) : Prop :=
  m.StepWithRoom l m' ∧ m.StepKeeping c l m'

namespace BootMem

variable {b : BootMem} {ls : List Label} {m : Machine Sys} {t : TaskPtr}

lemma boot_starts (b : BootMem) (t : TaskPtr) : b.abstract.Starts ownAtBoot t := by
  refine Or.inl ⟨by simp [abstract, machine], by simp [abstract, core], fun i hi => ?_⟩
  cases (ownAtBoot_eq hi).2

/-- The invariant rule over runs in which every creation finds room: what a step keeps, as
long as descriptors and tasks agree, holds in every state. -/
theorem wired_invariant {R : Machine Sys → Label → Machine Sys → Prop}
    {I : Machine Core → (Nat → Option Owner) → Prop}
    (hroom : ∀ m l m', R m l m' → m.StepWithRoom l m') (hboot : I b.abstract ownAtBoot)
    (hstep : ∀ m M own l a rest pc new, m.Sim M → M.Sound → M.Wired own →
      M.sys.tssAddr = b.tssAddr → M.Live → R m l (m.after a rest pc new) →
      M.Does l a rest pc new → (M.after a rest pc new).Wired (ownAfter own M.sys.curr a) →
      I M own → I (M.after a rest pc new) (ownAfter own M.sys.curr a))
    (h : Run R b.machine ls m) :
    ∃ M own, m.Sim M ∧ M.Sound ∧ M.Wired own ∧ M.sys.tssAddr = b.tssAddr ∧ I M own := by
  suffices hI : ∃ M own, m.Sim M ∧ M.Sound ∧ M.Guarded ∧ M.Wired own ∧
      M.sys.tssAddr = b.tssAddr ∧ I M own by
    obtain ⟨M, own, hsim, hM, -, hrest⟩ := hI
    exact ⟨M, own, hsim, hM, hrest⟩
  refine h.invariant (I := fun m => ∃ M own, m.Sim M ∧ M.Sound ∧ M.Guarded ∧ M.Wired own ∧
      M.sys.tssAddr = b.tssAddr ∧ I M own) ?_
    ⟨_, _, b.boot_represents, b.boot_sound, Machine.Guarded.boot b, b.boot_wired, rfl, hboot⟩
  rintro m l m' ⟨M, own, hsim, hM, hG, hW, haddr, hI⟩ hs
  obtain ⟨hfinds, hgoes⟩ := hroom m l m' hs
  obtain ⟨hlive, a, rest, pc, new, hd, rfl⟩ := Machine.step_iff.mp hgoes
  have hd' := hsim.does_iff.mp hd
  have hW' := hW.after hM hG (hsim.findsRoom_iff.mp hfinds) hd'
  exact ⟨_, _, hsim.after hM (hM.enabled hd'), hM.after hd', hG.after hM hd', hW',
    (Core.exec_tssAddr a).trans haddr,
    hstep m M own l a rest pc new hsim hM hW haddr (hsim.live_iff.mp hlive) hs hd' hW' hI⟩

/-- The rule over the runs in which the task leaves its flags alone. -/
theorem starts (hapart : ∀ u, u ≠ t → b.tssAddr u ≠ b.tssAddr t) (ht : t ≠ .mainTask)
    (h : Run (Machine.StepStarting (some t)) b.machine ls m) :
    ∃ M own, m.Sim M ∧ M.Sound ∧ M.Wired own ∧ (m.sys.halt = none → M.Starts own t) := by
  obtain ⟨M, own, hsim, hM, hW, -, hstarts⟩ : ∃ M own, m.Sim M ∧ M.Sound ∧ M.Wired own ∧
      M.sys.tssAddr = b.tssAddr ∧ (M.sys.halt = none → M.Starts own t) := by
    refine wired_invariant (fun _ _ _ hs => hs.1) (fun _ => b.boot_starts t) ?_ h
    intro m M own l a rest pc new hsim hM hW haddr hlive hs hd _ hstarts hhalt
    exact (hstarts hlive.1).after hM hW (haddr ▸ hapart) ht hd
      (fun hc => hs.2.2 (hsim.running.trans hc)) hhalt
  exact ⟨M, own, hsim, hM, hW, fun hhalt => hstarts (hsim.sys.cpu ▸ hhalt)⟩

end BootMem

end OsToyI386
