import OsToyI386.Scheduler.Starting

/-!
# How deep calls nest

A context enters a protected function with none of them in progress, and only
`task_dispatch` inside another one. Where a call is in progress interrupts are off, in the
processor or in the TSS that keeps the flags of a task that waits.
-/

namespace OsToyI386

open Lib

/-- The calls in progress of a context: none, one, or the dispatch inside one, which has
found interrupts off. -/
inductive Shallow : List Epilogue → Prop
  | none : Shallow []
  | one (e : Epilogue) : Shallow [e]
  | dispatch {flags : BitVec 32} (e : Epilogue) : flags.getLsbD 9 = false →
      Shallow [⟨.taskDispatch, flags⟩, e]

namespace Shallow

variable {e : Epilogue} {es : List Epilogue}

lemma tail (h : Shallow (e :: es)) : Shallow es := by
  cases h with
  | one => exact none
  | dispatch e' _ => exact one e'

lemma masked (h : Shallow (e :: es)) (hes : es ≠ []) : e.state.getLsbD 9 = false := by
  cases h with
  | one => exact absurd rfl hes
  | dispatch _ hoff => exact hoff

end Shallow

namespace Core

variable {K L : Core} {own : Nat → Option Owner} {a : Act} {c t : TaskPtr}

lemma shallow_dispatched (K : Core) (f : Fn) : Shallow (K.dispatched f) :=
  .dispatch _ off_interruptible

lemma shallow_leaves (K : Core) (a : Act) : Shallow (K.leaves a) := by
  cases a with
  | timer | sleep => exact shallow_dispatched _ _
  | lock | wait | notify | yield =>
    simp only [leaves]
    split
    all_goals first | exact .one _ | exact shallow_dispatched _ _
  | unlock =>
    simp only [leaves]
    split
    · exact .none
    · exact .one _
  | count | dispatch | ready => exact .one _
  | _ => exact .none

lemma leaves_of_setsUp (ha : setsUp a = true) : K.leaves a = [] := by
  cases a <;> first | rfl | cases ha

lemma curr_of_setsUp (ha : setsUp a = true) (hne : a ≠ .becomeMain) :
    (K.exec a).curr = K.curr := by
  cases a <;> first | rfl | exact absurd rfl hne | cases ha

lemma dispatch_masks (h : L.dispatch.curr = L.curr) : L.dispatch.interruptible = false := by
  rw [dispatch_curr] at h
  unfold dispatch
  rw [if_pos h.symm]
  exact off_interruptible

lemma dispatch_saves (h : L.dispatch.curr ≠ L.curr) (hfault : L.dispatch.halt ≠ some .cpuFault) :
    (getDword (L.dispatch.tss (L.gdt (selIndex L.tr)).base) Tss.eflags).getLsbD 9 = false := by
  rw [dispatch_curr] at h
  unfold dispatch at hfault ⊢
  rw [if_neg (Ne.symm h)] at hfault ⊢
  simp only [switchToTss, farJump] at hfault ⊢
  split
  · have hoff := off_interruptible (K := L)
    simp only [Cpu.setDesc, Cpu.cli, Function.update_self, getDword_putDword]
    exact hoff
  · rename_i hbad
    rw [if_neg hbad] at hfault
    exact absurd rfl hfault

lemma exec_masks (ha : setsUp a = false) (hleaves : K.leaves a ≠ [])
    (hcurr : (K.exec a).curr = K.curr) : (K.exec a).interruptible = false := by
  rcases exec_saves (K := K) ha with ⟨-, -, hflags⟩ | ⟨L, hL, hcurrL, -⟩
  · rw [Cpu.interruptible, hflags hleaves]
    exact off_interruptible
  · rw [hL] at hcurr ⊢
    exact dispatch_masks (hcurr.trans hcurrL.symm)

lemma exec_saved (ha : setsUp a = false) (h : K.Table own (some c))
    (hcurr : (K.exec a).curr ≠ K.curr) (hfault : (K.exec a).halt ≠ some .cpuFault) :
    (getDword ((K.exec a).tss (K.tssAddr c)) Tss.eflags).getLsbD 9 = false := by
  rcases exec_saves (K := K) ha with ⟨-, hsame, -⟩ | ⟨L, hL, hcurrL, -, hgdt, htr⟩
  · exact absurd hsame hcurr
  · rw [← h.current, ← hgdt, ← htr]
    rw [hL] at hcurr hfault ⊢
    exact dispatch_saves (hcurrL ▸ hcurr) hfault

end Core

/-- Calls nest no deeper than a dispatch in a call, and a context in a call has interrupts
off: the running one in the processor, any other in its TSS. -/
structure Machine.Nests (M : Machine Core) : Prop where
  shallow : ∀ c, Shallow (M.ctl c).pending
  masked : (M.ctl M.sys.curr).pending ≠ [] → M.sys.interruptible = false
  saved : ∀ t, M.sys.curr ≠ some t → (M.ctl (some t)).pending ≠ [] →
    (getDword (M.sys.tss (M.sys.tssAddr t)) Tss.eflags).getLsbD 9 = false
  known : ∀ t, (M.ctl (some t)).pending ≠ [] → t = .idleTask ∨ t ∈ M.sys.tasks

namespace Machine.Nests

variable {M : Machine Core} {own own' : Nat → Option Owner} {l : Label} {a : Act}
  {rest : List Epilogue} {pc : Pc} {new : List TaskPtr} {c t : TaskPtr}

lemma rest_nil (h : M.Nests) (hd : M.Does l a rest pc new) (hret : ∀ e, a ≠ .ret e) :
    rest = [] := by
  cases hd with
  | tick hi =>
    by_contra hne
    have hoff : (Kernel.cpu M.sys).interruptible = false := h.masked hne
    rw [hi] at hoff
    cases hoff
  | ret hp => exact absurd rfl (hret _)
  | code hp hnext => rfl
  | call hown hop => rfl

lemma running_known (hM : M.Sound) (hc : M.sys.curr = some c) :
    c = .idleTask ∨ c ∈ M.sys.tasks := by
  by_cases hidle : c = .idleTask
  · exact Or.inl hidle
  · exact Or.inr ((hM.core.placed.placed c).mpr ⟨.ready, hM.core.mem_ready hc hidle⟩)

lemma running_of_pending (hM : M.Sound) (hp : (M.ctl (some t)).pending ≠ []) :
    ∃ c, M.sys.curr = some c := by
  refine Option.ne_none_iff_exists'.mp fun hboot => hp ?_
  rw [hM.others hboot _ (by simp)]
  rfl

lemma started_of_known (hM : M.Sound) (h : t = .idleTask ∨ t ∈ M.sys.tasks) :
    t ∈ M.started := by
  rcases h with rfl | ht
  · exact hM.idle
  · exact hM.tasks t ht

lemma shallow_after (h : M.Nests) (hM : M.Sound) (hd : M.Does l a rest pc new) (c : Ctx) :
    Shallow ((M.after a rest pc new).ctl c).pending := by
  rw [hM.after_pending hd c]
  split
  · rcases Machine.Sound.pending_cases hd with ⟨e, rfl, hold⟩ | ⟨hret, -, -⟩
    · have hshallow := h.shallow M.sys.curr
      rw [hold] at hshallow
      exact hshallow.tail
    · rw [h.rest_nil hd hret, List.append_nil]
      exact Core.shallow_leaves M.sys a
  · exact h.shallow c

lemma known_after (h : M.Nests) (hM : M.Sound) (hd : M.Does l a rest pc new)
    (hp : ((M.after a rest pc new).ctl (some t)).pending ≠ []) :
    t = .idleTask ∨ t ∈ (M.after a rest pc new).sys.tasks := by
  have hgrow : t ∈ M.sys.tasks → t ∈ (M.sys.exec a).tasks := fun ht =>
    (Core.mem_exec_tasks hM.core (hM.enabled hd)).mpr (Or.inl ht)
  rw [hM.after_pending hd] at hp
  split at hp
  · rename_i hc
    exact (running_known hM hc.symm).imp_right hgrow
  · exact (h.known t hp).imp_right hgrow

/-- What keeps the flags of a waiting task that is in a call is not written to, as long as
no two tasks share a TSS. -/
lemma tss_kept (h : M.Nests) (hM : M.Sound) (hW : M.Wired own)
    (hapart : Set.InjOn M.sys.tssAddr {t | t ∈ M.started}) (hd : M.Does l a rest pc new)
    (hc : M.sys.curr ≠ some t) (hp : (M.ctl (some t)).pending ≠ []) :
    (M.sys.exec a).tss (M.sys.tssAddr t) = M.sys.tss (M.sys.tssAddr t) := by
  have hknown := h.known t hp
  have hstarted := started_of_known hM hknown
  obtain ⟨c, hcurr⟩ := running_of_pending hM hp
  by_cases ha : Core.setsUp a = true
  · have hnext := (does_setsUp hd ha).1
    cases a with
    | claim | segSet | becomeMain => rfl
    | writeTr =>
      simp only [Core.exec, Core.cpu, writeTr]
      split <;> rfl
    | fill sel r =>
      -- the TSS that is set up belongs to a task that does not exist yet
      have hcreates : (M.ctl M.sys.curr).pc.creation = some r := by
        rw [(Pc.next_fill hnext).1]
        rfl
      have hnew : r.task ∉ M.sys.tasks := hM.enabled hd
      have hidle : r.task ≠ .idleTask :=
        ((hM.ctx M.sys.curr).later r hcreates (by simp [hcurr])).1
      have hne : t ≠ r.task := by
        rintro rfl
        rcases hknown with hi | ht
        · exact hidle hi
        · exact hnew ht
      refine Function.update_of_ne (fun haddr => hne ?_) _ _
      exact hapart hstarted ((hM.ctx M.sys.curr).started r hcreates) haddr
    | _ => cases ha
  · refine Core.exec_tss (Bool.not_eq_true _ ▸ ha) (Or.inr fun haddr => hc ?_)
    rw [(hW.table_of_curr hcurr).current] at haddr
    have hrun := started_of_known hM (running_known hM hcurr)
    rw [hapart hstarted hrun haddr, hcurr]

lemma masked_after (h : M.Nests) (hM : M.Sound) (hW : M.Wired own)
    (hapart : Set.InjOn M.sys.tssAddr {t | t ∈ M.started}) (hd : M.Does l a rest pc new)
    (hp : ((M.after a rest pc new).ctl (M.sys.exec a).curr).pending ≠ []) :
    (M.sys.exec a).interruptible = false := by
  rw [hM.after_pending hd] at hp
  by_cases ha : Core.setsUp a = true
  · -- nothing is in progress during a creation
    exfalso
    apply hp
    by_cases hmain : a = .becomeMain
    · have hboot : M.sys.curr = none := by
        have henabled := hM.enabled hd
        rw [hmain] at henabled
        exact henabled.1
      have hcurr : (M.sys.exec a).curr = some .mainTask := by rw [hmain]; rfl
      rw [hcurr, hboot, if_neg (by simp), hM.others hboot _ (by simp)]
      rfl
    · have hret : ∀ e, a ≠ .ret e := fun e he => by rw [he] at ha; cases ha
      rw [Core.curr_of_setsUp ha hmain, if_pos rfl, Core.leaves_of_setsUp ha, h.rest_nil hd hret]
      rfl
  rw [Bool.not_eq_true] at ha
  rcases Core.exec_turns (K := M.sys) ha with hstill | ⟨t, hswitch⟩
  · rw [hstill.curr, if_pos rfl] at hp
    rcases Machine.Sound.pending_cases hd with ⟨e, rfl, hold⟩ | ⟨hret, -, -⟩
    · have hshallow := h.shallow M.sys.curr
      rw [hold] at hshallow
      exact hshallow.masked hp
    · rw [h.rest_nil hd hret, List.append_nil] at hp
      exact Core.exec_masks ha hp hstill.curr
  · -- the next task has been stopped in a call, and goes on in it
    rw [hswitch.curr, if_neg hswitch.other.symm] at hp
    obtain ⟨c, hcurr⟩ := running_of_pending hM hp
    obtain ⟨j, hj⟩ : ∃ j, own j = some (.task t) := by
      rcases h.known t hp with rfl | ht
      · exact hW.idle_owned (by simp [hcurr])
      · exact hW.queued t ht
    have hflags := hswitch.eflags (hW.table_of_curr hcurr) hcurr hj
    rw [h.tss_kept hM hW hapart hd hswitch.other hp] at hflags
    rw [Cpu.interruptible, hflags]
    exact h.saved t hswitch.other hp

lemma saved_after (h : M.Nests) (hM : M.Sound) (hW : M.Wired own)
    (hW' : (M.after a rest pc new).Wired own')
    (hapart : Set.InjOn M.sys.tssAddr {t | t ∈ M.started}) (hd : M.Does l a rest pc new)
    (hc : (M.sys.exec a).curr ≠ some t)
    (hp : ((M.after a rest pc new).ctl (some t)).pending ≠ []) :
    (getDword ((M.sys.exec a).tss (M.sys.tssAddr t)) Tss.eflags).getLsbD 9 = false := by
  rw [hM.after_pending hd] at hp
  split at hp
  · rename_i hcurr
    have hquiet : Core.setsUp a = false := by
      by_contra ha
      rw [Bool.not_eq_false] at ha
      have hmain : a ≠ .becomeMain := by
        rintro rfl
        have henabled := (hM.enabled hd).1
        rw [← hcurr] at henabled
        cases henabled
      exact hc ((Core.curr_of_setsUp ha hmain).trans hcurr.symm)
    have htable := hW.table_of_curr hcurr.symm
    exact Core.exec_saved hquiet htable (hcurr ▸ hc) hW'.table.fault
  · rename_i hother
    rw [h.tss_kept hM hW hapart hd (Ne.symm hother) hp]
    exact h.saved t (Ne.symm hother) hp

theorem after (h : M.Nests) (hM : M.Sound) (hW : M.Wired own)
    (hW' : (M.after a rest pc new).Wired own')
    (hapart : Set.InjOn M.sys.tssAddr {t | t ∈ M.started}) (hd : M.Does l a rest pc new) :
    (M.after a rest pc new).Nests where
  shallow c := h.shallow_after hM hd c
  masked hp := h.masked_after hM hW hapart hd hp
  saved t hc hp := by
    have haddr : (M.after a rest pc new).sys.tssAddr = M.sys.tssAddr := Core.exec_tssAddr a
    rw [haddr]
    exact h.saved_after hM hW hW' hapart hd hc hp
  known t hp := h.known_after hM hd hp

end Machine.Nests

end OsToyI386
