import OsToyI386.Scheduler.Logging

/-!
# Reports on the serial port

The handlers of exceptions and `panic` log with the mutex of `log.c` like all others. Where
it is free, or held by the context that they report on, none of their calls waits.
-/

namespace OsToyI386

open Lib

/-- The caller of `f` is still running when `f` is done, and gets to `s'` by the epilogue. -/
def ReturnsAtOnce (f : Sys → Sys × List Epilogue) (s s' : Sys) : Prop :=
  ∃ e, (f s).2 = [e] ∧ (f s).1.halt = s.halt ∧ (f s).1.currTask = s.currTask ∧
    s' = (Act.exec (.ret e) (f s).1).1

/-- The mutex of `log.c` is free, or the running context's own. -/
def Sys.MayLog (s : Sys) : Prop :=
  (s.mutex .logMutex).locker = 0#32 ∨ (s.mutex .logMutex).owner = s.currTask

section AtOnce

variable {s : Sys} {x : MutexPtr}

lemma lock_at_once (h : (s.mutex x).locker = 0#32 ∨ (s.mutex x).owner = s.currTask) :
    ∃ tr, ReturnsAtOnce (reinMutexLock x) s { s with
      mutex := Function.update s.mutex x ⟨s.currTask, (s.mutex x).locker + 1#32⟩
      trace := tr } := by
  have hmutex : (s.cpu Cpu.cli).mutex = s.mutex := rfl
  have hcurr : (s.cpu Cpu.cli).currTask = s.currTask := rfl
  have hlock : reinMutexLock x s =
      (((s.cpu Cpu.cli).setMutex x ⟨s.currTask, (s.mutex x).locker + 1#32⟩).emit
        (.lockTake s.currTask x), [⟨.reinMutexLock x, s.eflags⟩]) := by
    simp only [reinMutexLock, irqEnterProtection, hmutex, hcurr]
    by_cases hz : (s.mutex x).locker = 0#32
    · simp [hz]
    · simp [hz, h.resolve_left hz]
  refine ⟨s.trace ++ [.lockTake s.currTask x] ++ [.lockReturn s.currTask x], _,
    congrArg Prod.snd hlock, ?_, ?_, ?_⟩
  all_goals
    rw [hlock]
    rfl

lemma unlock_at_once (ho : (s.mutex x).owner = s.currTask) (hz : (s.mutex x).locker ≠ 0#32)
    (hw : (s.mutex x).locker - 1#32 = 0#32 → listCount s.heap (.mutexWait x) = 0) :
    ∃ tr, ReturnsAtOnce (reinMutexUnlock x) s { s with
      mutex := Function.update s.mutex x
        ⟨if (s.mutex x).locker - 1#32 = 0#32 then none else s.currTask, (s.mutex x).locker - 1#32⟩
      trace := tr } := by
  have hmutex : (s.cpu Cpu.cli).mutex = s.mutex := rfl
  have hcurr : (s.cpu Cpu.cli).currTask = s.currTask := rfl
  have hunlock : reinMutexUnlock x s =
      (((s.cpu Cpu.cli).setMutex x
        ⟨if (s.mutex x).locker - 1#32 = 0#32 then none else s.currTask,
          (s.mutex x).locker - 1#32⟩).emit (.unlock s.currTask x),
        [⟨.reinMutexUnlock x, s.eflags⟩]) := by
    simp only [reinMutexUnlock, irqEnterProtection, hmutex, hcurr]
    by_cases h1 : (s.mutex x).locker - 1#32 = 0#32
    · have hcount : listCount (s.cpu Cpu.cli).heap (.mutexWait x) = 0 := hw h1
      simp [hz, ho, h1, handOver, Sys.setMutex, Sys.emit, hcount]
    · simp [hz, ho, h1]
  refine ⟨s.trace ++ [.unlock s.currTask x] ++ [], _, congrArg Prod.snd hunlock, ?_, ?_, ?_⟩
  all_goals
    rw [hunlock]
    rfl

end AtOnce

namespace BootMem

variable {b : BootMem} {ls : List Label} {m : Machine Sys}

lemma Reaches.logs (h : b.Reaches ls m) : ∃ M, m.Sim M ∧ M.Sound ∧ M.Logs :=
  h.invariant (.boot b) fun _ _ _ _ _ _ hM hL _ hd => hL.after hM hd

/-- A log call of who may log does not wait, and leaves all as it was, the ghost trace aside. -/
lemma Reaches.log_at_once (h : b.Reaches ls m) (hlog : m.sys.MayLog) (eflags : BitVec 32)
    (tr : List Event) :
    let s := { m.sys with eflags, trace := tr }
    ∃ s₁ tr', ReturnsAtOnce (reinMutexLock .logMutex) s s₁ ∧
      ReturnsAtOnce (reinMutexUnlock .logMutex) s₁ { s with trace := tr' } := by
  intro s
  obtain ⟨M, hsim, hM, hL⟩ := h.logs
  have hrep := hsim.sys
  have hfree : (m.sys.mutex .logMutex).locker = 0#32 →
      (m.sys.mutex .logMutex).owner = none ∧ listCount m.sys.heap (.mutexWait .logMutex) = 0 := by
    intro hz
    rw [hrep.mutex] at hz ⊢
    obtain ⟨ho, hq⟩ := hL.enclosed.free hz
    have hcount : listCount m.sys.heap (.mutexWait .logMutex) =
        (M.sys.queue (.mutexWait .logMutex)).length := hrep.listCount_eq (.mutexWait .logMutex)
    exact ⟨ho, by rw [hcount, hq]; rfl⟩
  -- nobody takes it twice
  have honce : (m.sys.mutex .logMutex).locker = 0#32 ∨
      (m.sys.mutex .logMutex).locker = 1#32 ∧ (m.sys.mutex .logMutex).owner = m.sys.currTask := by
    rcases hlog with hz | ho
    · exact Or.inl hz
    · have hle := hL.enclosed.once m.sys.currTask
      rw [← hrep.mutex, ReinMutex.heldBy, if_pos ho] at hle
      by_cases hz : (m.sys.mutex .logMutex).locker = 0#32
      · exact Or.inl hz
      · refine Or.inr ⟨?_, ho⟩
        bv_omega
  obtain ⟨tr₁, h₁⟩ := lock_at_once (s := s) (x := .logMutex) hlog
  have hx : Function.update s.mutex .logMutex ⟨s.currTask, (s.mutex .logMutex).locker + 1#32⟩
      .logMutex = ⟨s.currTask, (s.mutex .logMutex).locker + 1#32⟩ := Function.update_self ..
  have hback : (s.mutex .logMutex).locker + 1#32 - 1#32 = (s.mutex .logMutex).locker :=
    BitVec.add_sub_cancel _ _
  have hne : (s.mutex .logMutex).locker + 1#32 ≠ 0#32 := by
    change (m.sys.mutex .logMutex).locker + 1#32 ≠ 0#32
    rcases honce with hz | ⟨h1, -⟩
    · rw [hz]
      decide
    · rw [h1]
      decide
  obtain ⟨tr₂, h₂⟩ := unlock_at_once (x := .logMutex) (s := { s with
    mutex := Function.update s.mutex .logMutex
      ⟨s.currTask, (s.mutex .logMutex).locker + 1#32⟩
    trace := tr₁ }) (congrArg ReinMutex.owner hx)
    (fun hz => hne ((congrArg ReinMutex.locker hx).symm.trans hz)) fun hz => by
      refine (hfree ?_).2
      rw [← hback]
      exact (congrArg (fun r : ReinMutex => r.locker - 1#32) hx).symm.trans hz
  refine ⟨_, tr₂, h₁, ?_⟩
  have hrestored : (⟨if (s.mutex .logMutex).locker = 0#32 then none else s.currTask,
      (s.mutex .logMutex).locker⟩ : ReinMutex) = s.mutex .logMutex := by
    change (⟨if (m.sys.mutex .logMutex).locker = 0#32 then none else m.sys.currTask,
      (m.sys.mutex .logMutex).locker⟩ : ReinMutex) = m.sys.mutex .logMutex
    rcases honce with hz | ⟨h1, ho⟩
    · rw [if_pos hz, ← (hfree hz).1]
    · rw [if_neg (by simp [h1]), ← ho]
  simp only [hx, hback, hrestored, Function.update_idem, Function.update_eq_self] at h₂
  exact h₂

end BootMem

end OsToyI386
