import OsToyI386.Scheduler.Tick

/-!
# What an action writes into the trace

The trace only grows. The protected sections note what they do with lists, mutexes and
semaphores, the code between them what it says, and a write to the port its byte.
-/

namespace OsToyI386

open Lib

/-- The notes of the protected sections. -/
def Event.internal : Event → Bool
  | lockTake _ _ | lockBlock _ _ | lockHand _ _ | lockReturn _ _ | unlock _ _ | semTake _ _
  | semBlock _ _ | semPop _ _ | semReturn _ _ | semNotify _ | listPop _ _ _ => true
  | _ => false

namespace Core

/-- All that is noted on the way from `K` to `K'` is of the kind `P`. -/
def Notes (P : Event → Prop) (K K' : Core) : Prop :=
  ∃ es, K'.trace = K.trace ++ es ∧ ∀ e ∈ es, P e

namespace Notes

variable {P Q : Event → Prop} {K K' K'' : Core} {t : TaskPtr} {q : Queue} {e : Event}

lemma same (h : K'.trace = K.trace) : Notes P K K' := ⟨[], by simp [h], by simp⟩

lemma trans (h : Notes P K K') (h' : Notes P K' K'') : Notes P K K'' := by
  obtain ⟨es, htr, hes⟩ := h
  obtain ⟨es', htr', hes'⟩ := h'
  refine ⟨es ++ es', by rw [htr', htr, List.append_assoc], fun e he => ?_⟩
  exact (List.mem_append.mp he).elim (hes e) (hes' e)

lemma mono (h : Notes P K K') (hPQ : ∀ e, P e → Q e) : Notes Q K K' := by
  obtain ⟨es, htr, hes⟩ := h
  exact ⟨es, htr, fun e he => hPQ e (hes e he)⟩

lemma emit (he : P e) : Notes P K (K.emit e) :=
  ⟨[e], rfl, fun _ h => (List.mem_singleton.mp h) ▸ he⟩

lemma dispatch (h : Notes P K K') : Notes P K K'.dispatch := h.trans (same K'.dispatch_trace)

end Notes

section Exec

variable {K : Core} {m : MutexPtr} {p : SemPtr}

/-- Only internal notes. -/
abbrev Quiet (K K' : Core) : Prop := Notes (fun e => e.internal = true) K K'

lemma quiet_pop (q : Queue) (t : TaskPtr) : Quiet K (K.pop q t) := by
  have hleave : Quiet K (K.leave q t) := .same rfl
  exact hleave.trans (.emit rfl)

lemma quiet_block (t : TaskPtr) (q : Queue) {e : Event} (he : e.internal = true) :
    Quiet K ((K.block t q).emit e).dispatch := by
  have hjoin : Quiet (K.pop .ready t) (K.block t q) := .same rfl
  exact (((quiet_pop .ready t).trans hjoin).trans (.emit he)).dispatch

lemma quiet_lock : Quiet K (K.lock m) := by
  have hset : ∀ x, Quiet K (K.setMutex m x) := fun _ => .same rfl
  unfold lock
  split
  · exact (hset _).trans (.emit rfl)
  · split
    · exact (hset _).trans (.emit rfl)
    · split
      · exact .same rfl
      · exact quiet_block _ _ rfl

lemma quiet_unlock : Quiet K (K.unlock m) := by
  unfold unlock
  split
  · exact .same rfl
  · have hnote : Quiet K (K.emit (.unlock K.curr m)) := .emit rfl
    split
    · unfold handOver
      split
      · exact hnote.trans (.same rfl)
      · have hwoken : ∀ (L : Core) t x,
            Quiet L (((L.leave (.mutexWait m) t).wake t).setMutex m x) := fun _ _ _ => .same rfl
        exact (hnote.trans (hwoken _ _ _)).trans (.emit rfl)
    · have hset : ∀ x, Quiet K (K.setMutex m x) := fun _ => .same rfl
      exact (hset _).trans (.emit rfl)

lemma quiet_wait : Quiet K (K.wait p) := by
  unfold wait
  split
  · have hset : Quiet K (K.setSem p (K.sem p - 1)) := .same rfl
    exact hset.trans (.emit rfl)
  · split
    · exact .same rfl
    · exact quiet_block _ _ rfl

lemma quiet_notify : Quiet K (K.notify p) := by
  have hnote : Quiet K (K.emit (.semNotify p)) := .emit rfl
  unfold notify
  dsimp only
  split
  · exact hnote.trans (.same rfl)
  · have hwoken : ∀ (L : Core) t, Quiet L ((L.leave (.semWait p) t).wake t) :=
      fun _ _ => .same rfl
    exact ((hnote.trans (hwoken _ _)).trans (.emit rfl)).dispatch

lemma quiet_yield : Quiet K K.yield := by
  unfold yield
  split
  · split
    · exact .same rfl
    · have hwoken : ∀ (L : Core) t, Quiet L (L.wake t) := fun _ _ => .same rfl
      exact ((quiet_pop _ _).trans (hwoken _ _)).dispatch
  · exact .same rfl

lemma quiet_sleep (n : Int) : Quiet K (K.sleep n) := by
  unfold sleep
  split
  · exact .same rfl
  · have hjoin : ∀ (L : Core) t x, Quiet L ((L.setTask t x).join .sleep t) := fun _ _ _ => .same rfl
    exact ((quiet_pop _ _).trans (hjoin _ _ _)).dispatch

lemma quiet_sliceTick (c : TaskPtr) : Quiet K (K.sliceTick c) := by
  unfold sliceTick
  have hset : ∀ x, Quiet K (K.setTask c x) := fun _ => .same rfl
  have hwoken : ∀ (L : Core) t, Quiet L (L.wake t) := fun _ _ => .same rfl
  split
  · exact .same rfl
  · split
    · exact ((hset _).trans (quiet_pop _ _)).trans (hwoken _ _)
    · exact hset _

lemma quiet_pass (ts : List TaskPtr) (K : Core) : Quiet K (ts.foldl sleeperTick K) := by
  induction ts generalizing K with
  | nil => exact .same rfl
  | cons t ts ih =>
    have hset : ∀ x, Quiet K (K.setTask t x) := fun _ => .same rfl
    have hwoken : ∀ L : Core, Quiet L (L.wake t) := fun _ => .same rfl
    have hone : Quiet K (K.sleeperTick t) := by
      unfold sleeperTick
      dsimp only
      split
      · exact ((hset _).trans (quiet_pop _ _)).trans (hwoken _)
      · exact hset _
    exact hone.trans (ih _)

lemma quiet_tick : Quiet K K.tick := by
  unfold tick
  split
  · exact .same rfl
  · exact ((quiet_sliceTick _).trans (quiet_pass _ _)).dispatch

/-- All that an action notes. -/
theorem exec_notes (K : Core) (a : Act) :
    Notes (fun e => e.internal = true ∨ a = .note e ∨ ∃ b, a = .outb b ∧ e = .com1 b)
      K (K.exec a) := by
  have hoff : Quiet K K.off := .same rfl
  have hquiet : ∀ {K'}, Quiet K K' →
      Notes (fun e => e.internal = true ∨ a = .note e ∨ ∃ b, a = .outb b ∧ e = .com1 b) K K' :=
    fun h => h.mono fun _ he => Or.inl he
  cases a with
  | note e => exact .emit (Or.inr (Or.inl rfl))
  | outb b => exact .emit (Or.inr (Or.inr ⟨b, rfl, rfl⟩))
  | ret e =>
    apply hquiet
    refine ⟨e.fn.returned K.curr, rfl, fun e' he' => ?_⟩
    cases hf : e.fn <;> simp [hf, Fn.returned] at he' <;> simp [he', Event.internal]
  | timer => exact hquiet (hoff.trans quiet_tick)
  | lock m => exact hquiet (hoff.trans quiet_lock)
  | unlock m => exact hquiet (hoff.trans quiet_unlock)
  | wait p => exact hquiet (hoff.trans quiet_wait)
  | notify p => exact hquiet (hoff.trans quiet_notify)
  | sleep ms => exact hquiet (hoff.trans (quiet_sleep _))
  | yield => exact hquiet (hoff.trans quiet_yield)
  | dispatch => exact .same K.dispatch_trace
  | _ => exact .same rfl

end Exec

end Core

end OsToyI386
