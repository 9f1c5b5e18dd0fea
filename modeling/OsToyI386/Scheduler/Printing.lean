import OsToyI386.Scheduler.Filling
import OsToyI386.Scheduler.Logging

/-!
# A line that nobody disturbs

The steps of `log_println` when no other context runs in between. A task may stand anywhere in
its line, or have come back from the call.
-/

namespace OsToyI386

open Lib Machine

section Lines

variable {w : Bool} {c : Ctx} {K : Core} {f : Ctx → Ctl} {s : List TaskPtr}
  {text : List (BitVec 8)}

lemma goes_bytes (text : List (BitVec 8)) (h : K.Runs c) (out rest : List (BitVec 8)) :
    Goes w c (place K f s c ⟨[], .logPoll text (out ++ rest)⟩)
      (place { K with trace := K.trace ++ out.map .com1 } f s c ⟨[], .logPoll text rest⟩) := by
  induction out generalizing K with
  | nil =>
    rw [List.map_nil, List.append_nil]
    exact .refl
  | cons x out ih =>
    have hpoll := goes_code (w := w) (f := f) (s := s) (a := .nop)
      (.logPoll text (x :: (out ++ rest))) (.logOut text x (out ++ rest)) h h.curr (by simp) rfl
      (by simp)
    have hout := goes_code (w := w) (f := f) (s := s) (a := .outb x)
      (.logOut text x (out ++ rest)) (.logPoll text (out ++ rest)) h h.curr (by simp) rfl
      (by simp)
    have hrest := ih (K := K.exec (.outb x)) ⟨h.halt, h.curr, h.runs⟩
    have htr : (K.exec (.outb x)).trace ++ out.map .com1 = K.trace ++ (x :: out).map .com1 := by
      rw [List.map_cons, List.append_cons]
      rfl
    rw [htr] at hrest
    exact (hpoll.trans hout).trans hrest

lemma sentBytes_com1 (out : List (BitVec 8)) : sentBytes (out.map .com1) = out := by
  rw [sentBytes, List.filterMap_map]
  exact List.filterMap_some

lemma begunCalls_com1 (out : List (BitVec 8)) : begunCalls (out.map .com1) = [] := by
  rw [begunCalls, List.filterMap_map]
  exact List.filterMap_none out

lemma goes_logPart (h : K.Runs c) (hopen : K.Open .logMutex) (out rest : List (BitVec 8))
    (htext : text = out ++ rest) :
    ∃ es, begunCalls es = [(c, text)] ∧ sentBytes es = out ∧
      Goes w c (place K f s c ⟨[], .logLock text⟩)
        (place { K with
          mutex := Function.update K.mutex .logMutex ⟨c, 1#32⟩
          trace := K.trace ++ es } f s c ⟨[], .logPoll text rest⟩) := by
  have hlock := goes_lock (w := w) (f := f) (s := s) (.logLock text) (.logBegin text) h hopen rfl
    (by simp)
  generalize hK₁ : ({ K with
    mutex := Function.update K.mutex .logMutex ⟨c, 1#32⟩
    trace := K.trace ++ [.lockTake c .logMutex] ++ [.lockReturn c .logMutex] } : Core) = K₁ at hlock
  have h₁ : K₁.Runs c := by
    subst hK₁
    exact ⟨h.halt, h.curr, h.runs⟩
  have hbegin := goes_code (w := w) (f := f) (s := s) (a := .note (.logBegin c text))
    (.logBegin text) (.logPoll text text) h₁ h₁.curr (by simp) rfl (by simp)
  have hbytes := goes_bytes (w := w) (f := f) (s := s) text
    (K := K₁.exec (.note (.logBegin c text))) ⟨h₁.halt, h₁.curr, h₁.runs⟩ out rest
  rw [← htext] at hbytes
  refine ⟨[.lockTake c .logMutex, .lockReturn c .logMutex, .logBegin c text] ++ out.map .com1,
    ?_, ?_, ?_⟩
  · rw [begunCalls_append, begunCalls_com1]
    rfl
  · rw [sentBytes_append, sentBytes_com1]
    rfl
  · have hgoes := (hlock.trans hbegin).trans hbytes
    have htr : (K₁.exec (.note (.logBegin c text))).trace = K.trace ++
        [.lockTake c .logMutex, .lockReturn c .logMutex, .logBegin c text] := by
      subst hK₁
      simp [Core.exec, Core.emit]
    rw [htr, List.append_assoc] at hgoes
    subst hK₁
    exact hgoes

lemma goes_log (h : K.Runs c) (hopen : K.Open .logMutex) :
    ∃ es, begunCalls es = [(c, text)] ∧ sentBytes es = logLine text ∧
      Goes w c (place K f s c ⟨[], .logLock text⟩)
        (place { K with trace := K.trace ++ es } f s c .own) := by
  obtain ⟨es, hbegun, hsent, hgoes⟩ := goes_logPart (w := w) (f := f) (s := s) h hopen text []
    (List.append_nil text).symm
  generalize hK₁ : ({ K with
    mutex := Function.update K.mutex .logMutex ⟨c, 1#32⟩
    trace := K.trace ++ es } : Core) = K₁ at hgoes
  have h₁ : K₁.Runs c := by
    subst hK₁
    exact ⟨h.halt, h.curr, h.runs⟩
  have hcr := goes_code (w := w) (f := f) (s := s) (a := .outb 0x0D#8)
    (.logPoll text []) (.logLf text) h₁ h₁.curr (by simp) rfl (by simp)
  have hlf := goes_code (w := w) (f := f) (s := s) (a := .outb 0x0A#8)
    (K := K₁.exec (.outb 0x0D#8)) (.logLf text) (.logUnlock text) ⟨h₁.halt, h₁.curr, h₁.runs⟩
    h₁.curr (by simp) rfl (by simp)
  generalize hK₂ : (K₁.exec (.outb 0x0D#8)).exec (.outb 0x0A#8) = K₂ at hlf
  have h₂ : K₂.Runs c := by
    subst hK₂
    exact ⟨h₁.halt, h₁.curr, h₁.runs⟩
  have hunlock := goes_unlock (w := w) (f := f) (s := s) (x := .logMutex) (.logUnlock text)
    (.logReturn text) h₂ (by subst hK₂ hK₁; simp [Core.exec, Core.emit])
    (by subst hK₂ hK₁; exact hopen.2) rfl (by simp)
  have hreturn := goes_code (w := w) (f := f) (s := s) (a := .note (.logEnd c text))
    (K := { K₂ with
      mutex := Function.update K₂.mutex .logMutex ⟨none, 0#32⟩
      trace := K₂.trace ++ [.unlock c .logMutex] })
    (.logReturn text) .user ⟨h₂.halt, h₂.curr, h₂.runs⟩ h₂.curr (by simp) rfl (by simp)
  refine ⟨es ++ [.com1 0x0D#8, .com1 0x0A#8, .unlock c .logMutex, .logEnd c text], ?_, ?_, ?_⟩
  · rw [begunCalls_append, hbegun]
    rfl
  · rw [sentBytes_append, hsent]
    rfl
  · have hall := (((hgoes.trans hcr).trans hlf).trans hunlock).trans hreturn
    have hback : Function.update K₂.mutex .logMutex ⟨none, 0#32⟩ = K.mutex := by
      rw [← hopen.1]
      subst hK₂ hK₁
      simp [Core.exec, Core.emit]
    have htr : K₂.trace = K.trace ++ es ++ [.com1 0x0D#8] ++ [.com1 0x0A#8] := by
      subst hK₂ hK₁
      rfl
    rw [hback, htr] at hall
    subst hK₂ hK₁
    simpa [Core.exec, Core.emit, Core.leaves, Ctl.own] using hall

end Lines

namespace BootMem.Plays

variable {b : BootMem} {ops : List (Ctx × Op)} {K : Core} {f : Ctx → Ctl} {s : List TaskPtr}
  {t : TaskPtr}

lemma callLog (text : List (BitVec 8)) (h : b.Plays ops (place K f s (some t) .own))
    (hruns : K.Runs (some t)) (hidle : t ≠ .idleTask) :
    b.Plays (ops ++ [(some t, .log text)]) (place K f s (some t) ⟨[], .logLock text⟩) := by
  have hcall := h.call (.log text) hruns.halt hruns.curr (place_self ..) rfl
    (by simp [Op.creates]) (Or.inr ⟨_, rfl, hidle, by simp⟩)
  rwa [place_again] at hcall

lemma log (text : List (BitVec 8)) (h : b.Plays ops (place K f s (some t) .own))
    (hruns : K.Runs (some t)) (hopen : K.Open .logMutex) (hidle : t ≠ .idleTask) :
    ∃ es, begunCalls es = [(some t, text)] ∧ sentBytes es = logLine text ∧
      b.Plays (ops ++ [(some t, .log text)])
        (place { K with trace := K.trace ++ es } f s (some t) .own) := by
  obtain ⟨es, hbegun, hsent, hgoes⟩ := goes_log (w := true) (f := f) (s := s) hruns hopen
  exact ⟨es, hbegun, hsent, (h.callLog text hruns hidle).goes hgoes⟩

lemma logPart (out rest : List (BitVec 8)) (h : b.Plays ops (place K f s (some t) .own))
    (hruns : K.Runs (some t)) (hopen : K.Open .logMutex) (hidle : t ≠ .idleTask) :
    ∃ es, begunCalls es = [(some t, out ++ rest)] ∧ sentBytes es = out ∧
      b.Plays (ops ++ [(some t, .log (out ++ rest))])
        (place { K with
          mutex := Function.update K.mutex .logMutex ⟨some t, 1#32⟩
          trace := K.trace ++ es } f s (some t) ⟨[], .logPoll (out ++ rest) rest⟩) := by
  obtain ⟨es, hbegun, hsent, hgoes⟩ := goes_logPart (w := true) (f := f) (s := s) hruns hopen
    out rest rfl
  exact ⟨es, hbegun, hsent, (h.callLog _ hruns hidle).goes hgoes⟩

end BootMem.Plays

end OsToyI386
