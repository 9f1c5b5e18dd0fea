import OsToyI386.Properties.Progress
import OsToyI386.Scheduler.Nesting

/-!
# Interrupts do not nest

The timer finds no protected call in progress, so every context has one interrupt on its
stack at most, and two calls.
-/

namespace OsToyI386

variable {b : BootMem} {ls : List Label} {m : Machine Sys}

lemma BootMem.boot_nests (b : BootMem) : b.abstract.Nests := by
  have hidle : ∀ c, (b.abstract.ctl c).pending = [] := by
    intro c
    by_cases hc : c = none
    · rw [hc]
      rfl
    · simp [abstract, machine, hc, Ctl.own]
  refine ⟨fun c => ?_, fun hp => absurd (hidle _) hp, fun t _ hp => absurd (hidle _) hp,
    fun t hp => absurd (hidle _) hp⟩
  rw [hidle c]
  exact .none

/-- The invariant at the end of a run, if the tasks that it starts have each their own TSS. -/
theorem BootMem.ReachesWithRoom.nests (h : b.ReachesWithRoom ls m)
    (hapart : Set.InjOn b.tssAddr {t | t ∈ m.started}) :
    ∃ M, m.Sim M ∧ M.sys.tssAddr = b.tssAddr ∧ M.Nests := by
  obtain ⟨M, own, hsim, -, -, haddr, hnests⟩ : ∃ M own, m.Sim M ∧ M.Sound ∧ M.Wired own ∧
      M.sys.tssAddr = b.tssAddr ∧ (Set.InjOn b.tssAddr {t | t ∈ M.started} → M.Nests) := by
    refine BootMem.wired_invariant (fun _ _ _ hs => hs) (fun _ => b.boot_nests) ?_ h
    intro m M own l a rest pc new hsim hM hW haddr hlive hs hd hW' hnests hinj
    have hgrow : {t | t ∈ M.started} ⊆ {t | t ∈ (M.after a rest pc new).started} :=
      fun t ht => List.mem_append_right new ht
    have hinj' := hinj.mono hgrow
    exact (hnests hinj').after hM hW hW' (haddr ▸ hinj') hd
  exact ⟨M, hsim, haddr, hnests (hsim.started ▸ hapart)⟩

/-- Where interrupts are on, the running context is in no protected call; a task that waits
in one is resumed with interrupts off; and of two calls in progress the inner one is a
dispatch that has found interrupts off. -/
theorem interrupts_never_nest (h : b.ReachesWithRoom ls m)
    (hapart : Set.InjOn b.tssAddr {t | t ∈ m.started}) :
    (m.sys.interruptible = true → (m.ctl m.running).pending = []) ∧
      (∀ t, m.running ≠ some t → (m.ctl (some t)).pending ≠ [] →
        (getDword (m.sys.tss (b.tssAddr t)) Tss.eflags).getLsbD 9 = false) ∧
      ∀ c, Shallow (m.ctl c).pending := by
  obtain ⟨M, hsim, haddr, hnests⟩ := h.nests hapart
  have hcurr : m.running = M.sys.curr := hsim.running
  rw [hsim.sys.cpu, hsim.ctl, hcurr, ← haddr]
  refine ⟨fun hon => ?_, hnests.saved, hnests.shallow⟩
  by_contra hp
  rw [hnests.masked hp] at hon
  cases hon

/-- The idle task runs while the main task is in `sys_sleep` and its dispatch. -/
theorem interrupts_never_nest_idle : ∃ ls m, BootMem.spread.ReachesWithRoom ls m ∧
    m.running = some .idleTask ∧ (m.ctl (some .mainTask)).pending.length = 2 ∧
    (getDword (m.sys.tss 0x20000#32) Tss.eflags).getLsbD 9 = false := by
  obtain ⟨ls, m, hm, -, hrest, hstarted, hlen⟩ := BootMem.spread_idles
  have hapart : Set.InjOn BootMem.spread.tssAddr {t | t ∈ m.started} := by
    intro t ht u hu heq
    by_cases hidle : u = .idleTask
    · subst hidle
      by_contra hne
      exact BootMem.spread_apart t hne heq
    · by_cases hidle' : t = .idleTask
      · subst hidle'
        exact absurd heq.symm (BootMem.spread_apart u hidle)
      · have hmain : t = .mainTask := by simpa [hstarted, hidle'] using ht
        have hmain' : u = .mainTask := by simpa [hstarted, hidle] using hu
        exact hmain.trans hmain'.symm
  have hnest := interrupts_never_nest hm hapart
  have hother : m.running ≠ some .mainTask := by
    rw [hrest.1]
    simp
  refine ⟨ls, m, hm, hrest.1, hlen, hnest.2.1 .mainTask hother fun hnil => ?_⟩
  rw [hnil] at hlen
  cases hlen

end OsToyI386
