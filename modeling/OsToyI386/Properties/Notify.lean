import OsToyI386.Scheduler.Programs

/-!
# The first tasks talk in order

`init_main` sends notifications and says so, and `new_task_entry` says so for each that it
has got. However the timer interrupts them, what the serial port shows of the two counts up
without a gap, and nothing is received before it is sent.
-/

namespace OsToyI386

open Lib Machine BootMem

namespace InitObjects

variable (o : InitObjects)

lemma initMain_cases (n : Nat) :
    (n % 3 = 2 ∧ o.initMain n = some (.log (sendingNotify (n / 3)))) ∨
    (n % 3 = 0 ∧ n ≠ 0 ∧ o.initMain n = some (.semNotify o.notifyTaskPrint)) ∨
    ((n % 3 = 1 ∨ n = 0) ∧ ∃ op, o.initMain n = some op ∧ op.text = none ∧
      (∀ p, op ≠ .semNotify p) ∧ ∀ p, op ≠ .semWait p) := by
  rcases n with _ | _ | i
  · exact Or.inr (Or.inr ⟨Or.inr rfl, _, rfl, rfl, by simp, by simp⟩)
  · exact Or.inr (Or.inr ⟨Or.inl rfl, _, rfl, rfl, by simp, by simp⟩)
  · have hlt : i % 3 < 3 := Nat.mod_lt _ (by omega)
    have hi : i % 3 = 0 ∨ i % 3 = 1 ∨ i % 3 = 2 := by omega
    rcases hi with h | h | h
    · have hdiv : (i + 2) / 3 = i / 3 := by omega
      exact Or.inl ⟨by omega, by simp only [initMain, h, hdiv]⟩
    · exact Or.inr (Or.inl ⟨by omega, by omega, by simp only [initMain, h]⟩)
    · have hdef : o.initMain (i + 2) = some (.sysSleep 1000#32) := by simp only [initMain, h]
      exact Or.inr (Or.inr ⟨Or.inl (by omega), _, hdef, rfl, by simp, by simp⟩)

lemma newTask_cases (n : Nat) :
    (n % 2 = 0 ∧ o.newTaskEntryCalls n = some (.semWait o.notifyTaskPrint)) ∨
    (n % 2 = 1 ∧ o.newTaskEntryCalls n = some (.log (recvNotify (n / 2)))) := by
  rcases Nat.mod_two_eq_zero_or_one n with h | h
  · exact Or.inl ⟨h, by simp only [newTaskEntryCalls, h]⟩
  · exact Or.inr ⟨h, by simp only [newTaskEntryCalls, h]⟩

lemma initMain_texts (n : Nat) :
    textsIn (o.initMain.calls n) = (List.range (n / 3)).map sendingNotify := by
  induction n with
  | zero => rfl
  | succ n ih =>
    rw [Program.calls_succ, textsIn_append, ih]
    rcases o.initMain_cases n with ⟨hn, hop⟩ | ⟨hn, hpos, hop⟩ | ⟨hn, op, hop, htext, -⟩ <;>
      rw [hop]
    · have hdiv : (n + 1) / 3 = n / 3 + 1 := by omega
      rw [hdiv, List.range_succ, List.map_append]
      rfl
    · have hdiv : (n + 1) / 3 = n / 3 := by omega
      rw [hdiv]
      exact List.append_nil _
    · have hdiv : (n + 1) / 3 = n / 3 := by omega
      simp [hdiv, textsIn, htext]

lemma initMain_notifies (n : Nat) :
    (o.initMain.calls n).count (.semNotify o.notifyTaskPrint) = (n - 1) / 3 := by
  induction n with
  | zero => rfl
  | succ n ih =>
    rw [Program.calls_succ, List.count_append, ih]
    rcases o.initMain_cases n with ⟨hn, hop⟩ | ⟨hn, hpos, hop⟩ | ⟨hn, op, hop, -, hne, -⟩ <;>
      rw [hop]
    · simp
      omega
    · simp
      omega
    · have hne' := hne o.notifyTaskPrint
      simp [hne']
      omega

lemma newTask_texts (n : Nat) :
    textsIn (o.newTaskEntryCalls.calls n) = (List.range (n / 2)).map recvNotify := by
  induction n with
  | zero => rfl
  | succ n ih =>
    rw [Program.calls_succ, textsIn_append, ih]
    rcases o.newTask_cases n with ⟨hn, hop⟩ | ⟨hn, hop⟩ <;> rw [hop]
    · have hdiv : (n + 1) / 2 = n / 2 := by omega
      rw [hdiv]
      exact List.append_nil _
    · have hdiv : (n + 1) / 2 = n / 2 + 1 := by omega
      rw [hdiv, List.range_succ, List.map_append]
      rfl

lemma newTask_waits (n : Nat) :
    (o.newTaskEntryCalls.calls n).count (.semWait o.notifyTaskPrint) = (n + 1) / 2 := by
  induction n with
  | zero => rfl
  | succ n ih =>
    rw [Program.calls_succ, List.count_append, ih]
    rcases o.newTask_cases n with ⟨hn, hop⟩ | ⟨hn, hop⟩ <;> rw [hop]
    · simp
      omega
    · simp
      omega

/-- A call that logs is the last call after a number of calls that tells which. -/
lemma initMain_last {n : Nat} {text : List (BitVec 8)}
    (h : (o.initMain.calls n).getLast? = some (.log text)) : n % 3 = 0 ∧ 0 < n := by
  rcases n with _ | n
  · cases h
  · rw [Program.calls_succ] at h
    rcases o.initMain_cases n with ⟨hn, hop⟩ | ⟨hn, hpos, hop⟩ | ⟨hn, op, hop, htext, -⟩ <;>
      rw [hop] at h
    · omega
    · simp at h
    · have hlog : op = .log text := by simpa using h
      rw [hlog] at htext
      cases htext

lemma newTask_last {n : Nat} {text : List (BitVec 8)}
    (h : (o.newTaskEntryCalls.calls n).getLast? = some (.log text)) : n % 2 = 0 ∧ 0 < n := by
  rcases n with _ | n
  · cases h
  · rw [Program.calls_succ] at h
    rcases o.newTask_cases n with ⟨hn, hop⟩ | ⟨hn, hop⟩ <;> rw [hop] at h
    · simp at h
    · omega

/-- The task that `init_main` creates. -/
def receiver : Ctx := some (.obj o.newTask)

lemma programs_receiver : o.programs o.receiver = o.newTaskEntryCalls := by
  simp [programs, receiver]

lemma notifies_main {c : Ctx} {n : Nat} {p : SemPtr}
    (h : o.programs c n = some (.semNotify p)) : c = some .mainTask := by
  rcases c with _ | (_ | _ | a)
  · simp only [programs] at h
    split at h <;> cases h
  · rfl
  · cases h
  · simp only [programs] at h
    split at h
    · rcases o.newTask_cases n with ⟨-, hop⟩ | ⟨-, hop⟩ <;> rw [hop] at h <;> cases h
    · cases h

lemma waits_receiver {c : Ctx} {n : Nat} {p : SemPtr} (h : o.programs c n = some (.semWait p)) :
    c = o.receiver := by
  rcases c with _ | (_ | _ | a)
  · simp only [programs] at h
    split at h <;> cases h
  · have hmain : o.initMain n = some (.semWait p) := h
    rcases o.initMain_cases n with ⟨-, hop⟩ | ⟨-, -, hop⟩ | ⟨-, op, hop, -, -, hne⟩ <;>
      rw [hop] at hmain
    · cases hmain
    · cases hmain
    · exact absurd (Option.some.inj hmain) (hne p)
  · cases h
  · simp only [programs] at h
    split at h
    · rename_i ha
      rw [ha]
      rfl
    · cases h

end InitObjects

/-- The two tasks follow their programs, and received lines stay behind the sent ones. -/
structure Machine.Tells (M : Machine Core) (o : InitObjects) (made : Ctx → List Op) : Prop where
  records : M.Records made
  follows : ∀ c, made c = (o.programs c).calls (made c).length
  notified : M.sys.trace.count (.semNotify o.notifyTaskPrint) =
    (made (some .mainTask)).count (.semNotify o.notifyTaskPrint)
  granted : semGranted M.sys.trace o.notifyTaskPrint +
    (M.sys.queue (.semWait o.notifyTaskPrint)).length =
      (made o.receiver).count (.semWait o.notifyTaskPrint)
  waiters : ∀ t ∈ M.sys.queue (.semWait o.notifyTaskPrint), some t = o.receiver
  order : ∀ xs, xs <+: begunCalls M.sys.trace →
    (textsOf o.receiver xs).length ≤ (textsOf (some .mainTask) xs).length

namespace Machine.Tells

variable {M : Machine Core} {o : InitObjects} {made : Ctx → List Op} {l : Label} {a : Act}
  {rest : List Epilogue} {pc : Pc} {new : List TaskPtr}

/-- Where the receiver begins a line, the sender has begun more lines than it. -/
lemma ahead (h : M.Tells o made) (hM : M.Sound) (hB : M.sys.Balanced o.notifyTaskPrint 0)
    (hc : M.sys.curr = o.receiver) {text : List (BitVec 8)}
    (hpc : (M.ctl o.receiver).pc.unbegun = [text]) :
    (textsOf o.receiver (begunCalls M.sys.trace)).length + 1 ≤
      (textsOf (some .mainTask) (begunCalls M.sys.trace)).length := by
  -- the receiver runs, so all its waits have been granted
  have hqueue : M.sys.queue (.semWait o.notifyTaskPrint) = [] := by
    by_contra hne
    obtain ⟨t, ht⟩ := List.exists_mem_of_ne_nil _ hne
    have htask : t = .obj o.newTask := Option.some.inj (h.waiters t ht)
    have hready := hM.core.mem_ready hc (by simp)
    have hsame := hM.core.placed.apart.unique _ _ _ hready (htask ▸ ht)
    cases hsame
  have hgranted := h.granted
  rw [hqueue, List.length_nil, Nat.add_zero] at hgranted
  have htextsR := congrArg List.length (h.records.texts o.receiver)
  have hlastR := h.records.last o.receiver text hpc
  rw [h.follows o.receiver, o.programs_receiver] at hgranted htextsR hlastR
  rw [o.newTask_waits] at hgranted
  rw [o.newTask_texts, hpc] at htextsR
  obtain ⟨hevenR, hposR⟩ := o.newTask_last hlastR
  -- so many notifications have been called
  have hnotified := h.notified
  have htextsM := congrArg List.length (h.records.texts (some .mainTask))
  have hlastM := h.records.last (some .mainTask)
  have hmain : o.programs (some .mainTask) = o.initMain := rfl
  rw [h.follows (some .mainTask), hmain] at hnotified htextsM hlastM
  rw [o.initMain_notifies] at hnotified
  rw [o.initMain_texts] at htextsM
  have hbalance := hB.balance
  have hnonneg := hB.nonneg
  simp only [List.length_map, List.length_range, List.length_append, List.length_singleton]
    at htextsR htextsM
  by_cases hnil : (M.ctl (some .mainTask)).pc.unbegun = []
  · rw [hnil, List.length_nil] at htextsM
    omega
  · obtain ⟨text', hone⟩ : ∃ text', (M.ctl (some .mainTask)).pc.unbegun = [text'] := by
      cases hpc' : (M.ctl (some .mainTask)).pc <;> rw [hpc'] at hnil <;>
        first | exact ⟨_, rfl⟩ | exact absurd rfl hnil
    obtain ⟨hmod, hpos⟩ := o.initMain_last (hlastM text' hone)
    rw [hone, List.length_singleton] at htextsM
    omega

lemma order_after (h : M.Tells o made) (hM : M.Sound) (hB : M.sys.Balanced o.notifyTaskPrint 0)
    (hd : M.Does l a rest pc new) (xs : List LogCall)
    (hxs : xs <+: begunCalls (M.sys.exec a).trace) :
    (textsOf o.receiver xs).length ≤ (textsOf (some .mainTask) xs).length := by
  rcases does_unbegun hd with ⟨text, rfl, -, hold, -⟩ | ⟨ha, -⟩ | ⟨ha, -⟩
  · have hbegun : begunCalls (M.sys.exec (.note (.logBegin M.sys.curr text))).trace =
        begunCalls M.sys.trace ++ [(M.sys.curr, text)] := begunCalls_append ..
    rw [hbegun] at hxs
    rcases List.prefix_concat_iff.mp hxs with rfl | hxs
    · rw [textsOf_append, textsOf_append, List.length_append, List.length_append]
      by_cases hc : M.sys.curr = o.receiver
      · have hahead := h.ahead hM hB hc (hc ▸ hold)
        have hone : (textsOf o.receiver [(M.sys.curr, text)]).length = 1 := by
          simp [textsOf, hc]
        omega
      · have hzero : (textsOf o.receiver [(M.sys.curr, text)]).length = 0 := by
          simp [textsOf, hc]
        have horder := h.order _ (List.prefix_refl _)
        omega
    · exact h.order xs hxs
  · rw [Core.exec_begun ha] at hxs
    exact h.order xs hxs
  · rw [Core.exec_begun ha] at hxs
    exact h.order xs hxs

theorem after (h : M.Tells o made) (hM : M.Sound) (hB : M.sys.Balanced o.notifyTaskPrint 0)
    (hd : M.Does l a rest pc new)
    (hl : ∀ op, l = .call op → o.programs M.sys.curr (made M.sys.curr).length = some op) :
    (M.after a rest pc new).Tells o fun d => made d ++ l.calls M.sys.curr d := by
  have hsys : (M.after a rest pc new).sys = M.sys.exec a := rfl
  obtain ⟨hgranted, hwaiters⟩ := hM.granted_after (p := o.notifyTaskPrint) hd
  -- what the running context calls belongs to the one task that may call it
  have hcount : ∀ (op : Op) (c : Ctx),
      (∀ n, o.programs M.sys.curr n = some op → M.sys.curr = c) →
      (l.calls M.sys.curr M.sys.curr).count op = (l.calls M.sys.curr c).count op := by
    intro op c honly
    by_cases hc : c = M.sys.curr
    · rw [hc]
    · rw [Records.calls_ne l hc]
      apply List.count_eq_zero.mpr
      intro hmem
      cases l with
      | call op' =>
        simp only [Label.calls, if_true, List.mem_singleton] at hmem
        exact hc (honly _ (hmem ▸ hl op' rfl)).symm
      | run => cases hmem
      | tick => cases hmem
  refine ⟨h.records.after hM hd, fun c => ?_, ?_, ?_, fun t ht => ?_, h.order_after hM hB hd⟩
  · by_cases hc : c = M.sys.curr
    · cases l with
      | call op =>
        subst hc
        have hop := hl op rfl
        simp only [Label.calls, if_true, List.length_append, List.length_singleton,
          Program.calls_succ, hop, ← h.follows]
        rfl
      | run => simpa only [Label.calls, List.append_nil] using h.follows c
      | tick => simpa only [Label.calls, List.append_nil] using h.follows c
    · rw [Records.calls_ne l hc, List.append_nil]
      exact h.follows c
  · rw [hsys, hM.count_notify_after hd, h.notified, List.count_append,
      ← l.count_calls M.sys.curr, hcount _ (some .mainTask) fun _ hn => o.notifies_main hn]
  · rw [hsys, hgranted, h.granted, List.count_append, ← l.count_calls M.sys.curr,
      hcount _ o.receiver fun _ hn => o.waits_receiver hn]
  · rcases hwaiters t ht with hold | ⟨hc, rfl⟩
    · exact h.waiters t hold
    · exact hc.symm.trans (o.waits_receiver (hl _ rfl))

lemma boot (b : BootMem) (o : InitObjects) : b.abstract.Tells o fun _ => [] := by
  refine ⟨.boot b, fun _ => rfl, rfl, rfl, fun t ht => ?_, fun xs hxs => ?_⟩
  · simp [BootMem.abstract, BootMem.core] at ht
  · have hnil : begunCalls b.abstract.sys.trace = [] := rfl
    rw [hnil, List.prefix_nil] at hxs
    rw [hxs]
    rfl

end Machine.Tells

variable {b : BootMem} {o : InitObjects} {ls : List Label} {x : Recorded}

/-- The rule over the runs in which the tasks follow `init.c`. -/
theorem BootMem.tells (hp : b.semCount o.notifyTaskPrint = 0)
    (h : Run (Recorded.Step o.programs) b.recorded ls x) :
    ∃ M, x.machine.Sim M ∧ M.Sound ∧ M.Logs ∧ M.Tells o x.made := by
  suffices hI : ∃ M, x.machine.Sim M ∧ M.Sound ∧ M.Logs ∧
      M.sys.Balanced o.notifyTaskPrint 0 ∧ M.Tells o x.made by
    obtain ⟨M, hsim, hM, hL, -, hT⟩ := hI
    exact ⟨M, hsim, hM, hL, hT⟩
  have hbalanced : b.core.Balanced o.notifyTaskPrint 0 := hp ▸ Core.Balanced.boot b
  refine h.invariant (I := fun x => ∃ M, x.machine.Sim M ∧ M.Sound ∧ M.Logs ∧
      M.sys.Balanced o.notifyTaskPrint 0 ∧ M.Tells o x.made) ?_
    ⟨_, b.boot_represents, b.boot_sound, .boot b, hbalanced, .boot b o⟩
  rintro x l x' ⟨M, hsim, hM, hL, hB, hT⟩ ⟨hs, hop, hmade⟩
  obtain ⟨-, a, rest, pc, new, hd, hafter⟩ := Machine.step_iff.mp hs
  have hd' := hsim.does_iff.mp hd
  have hcurr : x.machine.running = M.sys.curr := hsim.running
  rw [hcurr] at hop hmade
  rw [hafter, hmade]
  exact ⟨_, hsim.after hM (hM.enabled hd'), hM.after hd', hL.after hM hd',
    hB.exec hM.core (hM.enabled hd'), hT.after hM hB hd' hop⟩

lemma eq_row_of_prefix {text : Nat → List (BitVec 8)} {xs : List (List (BitVec 8))} {n : Nat}
    (h : xs <+: (List.range n).map text) : xs = (List.range xs.length).map text := by
  have hle : xs.length ≤ n := by simpa using h.length_le
  rw [List.prefix_iff_eq_take] at h
  rw [← List.map_take, List.take_range, Nat.min_eq_left hle] at h
  exact h

/-- The port shows whole lines, the last of them perhaps in part. Up to any line, the lines of
either task are numbered from 0, and as many have been sent as have been received. -/
theorem notify_lines_in_order (hp : b.semCount o.notifyTaskPrint = 0)
    (h : Run (Recorded.Step o.programs) b.recorded ls x) :
    ∃ calls, (sentBytes x.machine.sys.trace = logLines calls ∨
        ∃ earlier last part, calls = earlier ++ [last] ∧ part <+: logLine last.2 ∧
          sentBytes x.machine.sys.trace = logLines earlier ++ part) ∧
      (∀ y ∈ calls, y.1 = some .mainTask ∨ y.1 = o.receiver) ∧
      ∀ xs, xs <+: calls → ∃ sent received, received ≤ sent ∧
        textsOf (some .mainTask) xs = (List.range sent).map InitObjects.sendingNotify ∧
        textsOf o.receiver xs = (List.range received).map InitObjects.recvNotify := by
  obtain ⟨M, hsim, hM, hL, hT⟩ := BootMem.tells hp h
  have hbegins : ∀ c xs, xs <+: begunCalls M.sys.trace → textsOf c xs <+: textsIn (x.made c) := by
    rintro c xs ⟨ys, hxs⟩
    rw [hT.records.texts c, ← hxs, textsOf_append, List.append_assoc]
    exact List.prefix_append _ _
  refine ⟨begunCalls M.sys.trace, ?_, fun y hy => ?_, fun xs hxs => ?_⟩
  · rw [hsim.sys.trace]
    by_cases hw : ∃ c w, (M.ctl c).pc.unwritten = some w
    · obtain ⟨c, ⟨text, rest⟩, hc⟩ := hw
      obtain ⟨earlier, part, hbegun, hpart, hsent⟩ := hL.writer c text rest hc
      exact Or.inr ⟨earlier, (c, text), part, hbegun, ⟨rest, hpart⟩, hsent⟩
    · refine Or.inl (hL.idle fun c => ?_)
      cases hc : (M.ctl c).pc.unwritten with
      | none => rfl
      | some w => exact absurd ⟨c, w, hc⟩ hw
  · -- whoever has begun a line has called for it
    obtain ⟨ys, zs, hsplit⟩ := List.append_of_mem hy
    have hmem : y.2 ∈ textsIn (x.made y.1) := by
      have hin : y.2 ∈ textsOf y.1 (begunCalls M.sys.trace) := by
        rw [hsplit, textsOf_append]
        simp [textsOf]
      exact (hbegins y.1 _ (List.prefix_refl _)).subset hin
    rw [hT.follows y.1] at hmem
    obtain ⟨op, hop, htext⟩ := List.mem_filterMap.mp hmem
    obtain ⟨n, -, hn⟩ := List.mem_filterMap.mp hop
    obtain ⟨c, text⟩ := y
    rcases c with _ | (_ | _ | a)
    · simp only [InitObjects.programs] at hn
      split at hn <;> cases hn
      cases htext
    · exact Or.inl rfl
    · cases hn
    · simp only [InitObjects.programs] at hn
      split at hn
      · rename_i ha
        rw [ha]
        exact Or.inr rfl
      · cases hn
  · have hmain := hbegins (some .mainTask) xs hxs
    have hrecv := hbegins o.receiver xs hxs
    rw [hT.follows, show o.programs (some .mainTask) = o.initMain from rfl,
      o.initMain_texts] at hmain
    rw [hT.follows, o.programs_receiver, o.newTask_texts] at hrecv
    exact ⟨_, _, hT.order xs hxs, eq_row_of_prefix hmain, eq_row_of_prefix hrecv⟩

section Played

/-- The calls are those of the programs, of which each context `c` has made `n c` before. -/
def Follows (P : Ctx → Program) : (Ctx → ℕ) → List (Ctx × Op) → Prop
  | _, [] => True
  | n, (c, op) :: rest => P c (n c) = some op ∧ Follows P (Function.update n c (n c + 1)) rest

lemma Recorded.exists_run {P : Ctx → Program} {M M' : Machine Core} {xs : List (Ctx × Label)}
    (hr : Run (StepBy StepWithRoom) M xs M') {x : Recorded} (hsim : x.machine.Sim M)
    (hM : M.Sound) (hP : Follows P (fun c => (x.made c).length) (madeBy xs)) :
    ∃ ls x', Run (Recorded.Step P) x ls x' ∧ x'.machine.Sim M' := by
  induction hr generalizing x with
  | nil => exact ⟨[], x, .nil x, hsim⟩
  | @cons M M₁ M' y xs hs _ ih =>
    obtain ⟨c, l⟩ := y
    obtain ⟨hc, -, -, hstep⟩ := hs
    obtain ⟨m₁, hs₁, hsim₁⟩ := hsim.step_back hM hstep
    have hrun : x.machine.running = c := hsim.running.trans hc
    let x₁ : Recorded := ⟨m₁, fun d => x.made d ++ l.calls x.machine.running d⟩
    have hstay : (∀ d, l.calls x.machine.running d = []) →
        (fun d => (x₁.made d).length) = fun d => (x.made d).length := fun hnone => by
      funext d
      simp [x₁, hnone d]
    have hnext : (∀ op, l = .call op → P c (x.made c).length = some op) ∧
        Follows P (fun d => (x₁.made d).length) (madeBy xs) := by
      cases l with
      | call op =>
        obtain ⟨hop, hrest⟩ := hP
        refine ⟨fun op' hl => ?_, ?_⟩
        · cases hl
          exact hop
        · have hlen : (fun d => (x₁.made d).length) =
              Function.update (fun d => (x.made d).length) c ((x.made c).length + 1) := by
            funext d
            by_cases hd : d = c
            · subst hd
              simp [x₁, Label.calls, hrun]
            · simp [x₁, Label.calls, hrun, hd]
          rw [hlen]
          exact hrest
      | run => exact ⟨by simp, hstay (fun _ => rfl) ▸ hP⟩
      | tick => exact ⟨by simp, hstay (fun _ => rfl) ▸ hP⟩
    obtain ⟨ls, x', hr', hsim'⟩ := ih (x := x₁) hsim₁ (hM.step hstep) hnext.2
    exact ⟨l :: ls, x', .cons ⟨hs₁, fun op hl => hrun ▸ hnext.1 op hl, rfl⟩ hr', hsim'⟩

variable {ops : List (Ctx × Op)} {K : Core} {f : Ctx → Ctl} {st : List TaskPtr} {t : TaskPtr}
  {p : SemPtr}

lemma BootMem.Plays.notifies (h : b.Plays ops (place K f st (some t) .own))
    (hruns : K.Runs (some t)) (hidle : t ≠ .idleTask) (hq : K.queue (.semWait p) = []) :
    ∃ K', b.Plays (ops ++ [(some t, .semNotify p)]) (place K' f st (some t) .own) ∧
      K'.Runs (some t) ∧ K'.queue = K.queue ∧ K'.mutex = K.mutex ∧ K'.sem p = K.sem p + 1 ∧
      sentBytes K'.trace = sentBytes K.trace := by
  rcases Core.notify_cases (K := K) (p := p) with ⟨-, hexec, hleaves⟩ | ⟨u, ts, hsome, -⟩
  · have hsys : (place K f st (some t) .own).sys.exec (.notify p) = _ := hexec
    have hcall := h.through (.semNotify p) hruns.halt hruns.curr (place_self ..) rfl
      (by simp [Op.creates]) (Or.inr ⟨t, rfl, hidle, by simp⟩) rfl hleaves
      (by rw [Op.first, hsys]; exact hruns.halt) (by rw [Op.first, hsys]; exact hruns.curr)
    rw [place_again, Op.first, hsys] at hcall
    refine ⟨_, hcall, ⟨hruns.halt, hruns.curr, hruns.runs⟩, rfl, rfl, Function.update_self .., ?_⟩
    simp [Core.exec, Core.setSem, Core.emit, Core.off, Core.cpu, sentBytes, Event.sent, Fn.returned]
  · rw [hq] at hsome
    cases hsome

lemma BootMem.Plays.takes (h : b.Plays ops (place K f st (some t) .own))
    (hruns : K.Runs (some t)) (hidle : t ≠ .idleTask) (hpos : 0 < K.sem p) :
    ∃ K', b.Plays (ops ++ [(some t, .semWait p)]) (place K' f st (some t) .own) ∧
      K'.Runs (some t) ∧ K'.queue = K.queue ∧ K'.mutex = K.mutex ∧
      sentBytes K'.trace = sentBytes K.trace := by
  rcases Core.wait_cases (K := K) (p := p) h.sound.core (by simp [hruns.curr])
    (by simp [hruns.curr, hidle]) with ⟨-, hexec, hleaves⟩ | ⟨u, -, -, hno, -⟩
  · have hsys : (place K f st (some t) .own).sys.exec (.wait p) = _ := hexec
    have hcall := h.through (.semWait p) hruns.halt hruns.curr (place_self ..) rfl
      (by simp [Op.creates]) (Or.inr ⟨t, rfl, hidle, by simp⟩) rfl hleaves
      (by rw [Op.first, hsys]; exact hruns.halt) (by rw [Op.first, hsys]; exact hruns.curr)
    rw [place_again, Op.first, hsys] at hcall
    refine ⟨_, hcall, ⟨hruns.halt, hruns.curr, hruns.runs⟩, rfl, rfl, ?_⟩
    simp [Core.exec, Core.setSem, Core.emit, Core.off, Core.cpu, sentBytes, Event.sent, Fn.returned]
  · omega

/-- The objects of `init.c` at some addresses. -/
def InitObjects.placed : InitObjects := ⟨⟨0x20800⟩, 0, 0x10400#32, 0x21000#32⟩

/-- What the two tasks call until one line has been sent and received. -/
def InitObjects.firstCalls (o : InitObjects) : List (Ctx × Op) :=
  [(none, .taskMainInit), (some .mainTask, .irqEnableGlobal),
    (some .mainTask, .taskInit o.newTaskReq), (some .mainTask, .log (sendingNotify 0)),
    (some .mainTask, .semNotify o.notifyTaskPrint), (some .mainTask, .sysSleep 1000#32),
    (o.receiver, .semWait o.notifyTaskPrint), (o.receiver, .log (recvNotify 0))]

open InitObjects in
lemma InitObjects.follows_firstCalls :
    Follows placed.programs (fun _ => 0) placed.firstCalls :=
  ⟨rfl, rfl, rfl, rfl, rfl, rfl, rfl, rfl, trivial⟩

lemma BootMem.broke_talks : ∃ M, BootMem.broke.Plays InitObjects.placed.firstCalls M ∧
    sentBytes M.sys.trace =
      logLine (InitObjects.sendingNotify 0) ++ logLine (InitObjects.recvNotify 0) := by
  obtain ⟨K₀, st₀, h₀, hfilled₀, hst₀⟩ := BootMem.broke.fills 0 (by decide)
  obtain ⟨h₁, hruns₁, -⟩ := h₀.enable hfilled₀.runs (by simp)
  have hfilled₁ : (K₀.exec .enable).Filled BootMem.broke 0 :=
    ⟨hruns₁, hfilled₀.tr, hfilled₀.used, hfilled₀.free, hfilled₀.stale, hfilled₀.mutex,
      hfilled₀.sem, hfilled₀.queue⟩
  obtain ⟨K₂, st₂, h₂, hfilled₂, -⟩ := h₁.creates InitObjects.placed.newTaskReq hfilled₁ hst₀
    (by decide) rfl rfl
  obtain ⟨-, hsent₂⟩ := h₂.silent (by simp)
  -- the main task
  obtain ⟨es₃, -, hsent₃, h₃⟩ := h₂.log (InitObjects.sendingNotify 0) hfilled₂.runs
    (hfilled₂.opened _) (by simp)
  have hruns₃ : Core.Runs { K₂ with trace := K₂.trace ++ es₃ } (some .mainTask) :=
    ⟨hfilled₂.runs.halt, hfilled₂.runs.curr, hfilled₂.runs.runs⟩
  obtain ⟨K₄, h₄, hruns₄, hq₄, hm₄, hsem₄, hsent₄⟩ := h₃.notifies
    (p := InitObjects.placed.notifyTaskPrint) hruns₃ (by simp) (hfilled₂.queue _)
  have hready₄ : K₄.queue .ready = [.mainTask, .obj 0] := by
    rw [hq₄]
    exact hfilled₂.queue .ready
  obtain ⟨hcurr₅, -, -, hq₅, hm₅, hsem₅, -, hhalt₅, htr₅⟩ :=
    Core.exec_sleep 1000#32 hruns₄.curr hready₄
  obtain ⟨f, st₅, h₅, hruns₅, -⟩ := h₄.switch (.sysSleep 1000#32) hruns₄.halt hruns₄.curr
    (place_self ..) rfl (by simp [Op.creates]) (Or.inr ⟨_, rfl, by simp, by simp⟩) hhalt₅ hcurr₅
    (by simp) (by simp [place])
  -- the other one
  change BootMem.broke.Plays _ (place (K₄.exec (.sleep 1000#32)) f st₅ _ .own) at h₅
  change (K₄.exec (.sleep 1000#32)).Runs _ at hruns₅
  generalize K₄.exec (.sleep 1000#32) = K₅ at *
  have hnone : K₂.sem InitObjects.placed.notifyTaskPrint = 0 := by
    rw [hfilled₂.sem]
    rfl
  have hsem : K₅.sem InitObjects.placed.notifyTaskPrint = 1 := by
    rw [hsem₅, hsem₄]
    exact congrArg (· + 1) hnone
  obtain ⟨K₆, h₆, hruns₆, hq₆, hm₆, hsent₆⟩ := h₅.takes
    (p := InitObjects.placed.notifyTaskPrint) hruns₅ (by simp) (hsem ▸ Int.one_pos)
  have hopen₆ : K₆.Open .logMutex := by
    refine ⟨?_, ?_⟩
    · rw [hm₆, hm₅, hm₄]
      exact hfilled₂.mutex _
    · rw [hq₆, hq₅ _ (by simp) (by simp), hq₄]
      exact hfilled₂.queue _
  obtain ⟨es₇, -, hsent₇, h₇⟩ := h₆.log (InitObjects.recvNotify 0) hruns₆ hopen₆ (by simp)
  refine ⟨_, h₇, ?_⟩
  have hsent : sentBytes K₆.trace = logLine (InitObjects.sendingNotify 0) := by
    rw [hsent₆, htr₅, sentBytes_append, hsent₄]
    simp only [sentBytes_append, hsent₃]
    rw [show sentBytes K₂.trace = [] from hsent₂]
    exact List.append_nil _
  calc sentBytes (K₆.trace ++ es₇) = sentBytes K₆.trace ++ sentBytes es₇ := sentBytes_append ..
    _ = _ := by rw [hsent, hsent₇]

/-- The main task has said that it sends, and the other one that it has got it. -/
theorem notify_lines_in_order_boot : ∃ (o : InitObjects) (ls : List Label) (x : Recorded),
    Run (Recorded.Step o.programs) BootMem.broke.recorded ls x ∧
      sentBytes x.machine.sys.trace =
        logLine (InitObjects.sendingNotify 0) ++ logLine (InitObjects.recvNotify 0) ∧
      ∃ calls, (sentBytes x.machine.sys.trace = logLines calls ∨
          ∃ earlier last part, calls = earlier ++ [last] ∧ part <+: logLine last.2 ∧
            sentBytes x.machine.sys.trace = logLines earlier ++ part) ∧
        ∀ xs, xs <+: calls → ∃ sent received, received ≤ sent ∧
          textsOf (some .mainTask) xs = (List.range sent).map InitObjects.sendingNotify ∧
          textsOf o.receiver xs = (List.range received).map InitObjects.recvNotify := by
  obtain ⟨M, ⟨xs, hr, hmade⟩, hsent⟩ := BootMem.broke_talks
  obtain ⟨ls, x, hrun, hsim⟩ := Recorded.exists_run (x := BootMem.broke.recorded) hr
    BootMem.broke.boot_represents BootMem.broke.boot_sound
    (hmade ▸ InitObjects.follows_firstCalls)
  obtain ⟨calls, hport, -, horder⟩ := notify_lines_in_order rfl hrun
  exact ⟨_, ls, x, hrun, hsim.sys.trace ▸ hsent, calls, hport, horder⟩

end Played

end OsToyI386
