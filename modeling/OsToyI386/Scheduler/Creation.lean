import Mathlib.Data.Nat.Find
import OsToyI386.Scheduler.Wiring

/-!
# A creation that nobody disturbs

The steps of `task_init` when no other context runs in between: the search of the GDT, the
claim, the descriptor and the TSS, and the end of the call.
-/

namespace OsToyI386

open Lib

namespace Machine

/-- The machine in which the context `c` stands at `k`. -/
def place (K : Core) (f : Ctx → Ctl) (s : List TaskPtr) (c : Ctx) (k : Ctl) : Machine Core :=
  ⟨K, Function.update f c k, s⟩

@[simp] lemma place_self (K : Core) (f : Ctx → Ctl) (s : List TaskPtr) (c : Ctx) (k : Ctl) :
    (place K f s c k).ctl c = k := Function.update_self ..

lemma place_eq {M : Machine Core} {c : Ctx} {k : Ctl} (h : M.ctl c = k) :
    place M.sys M.ctl M.started c k = M := by
  rw [place, ← h, Function.update_eq_self]

lemma place_again (K K' : Core) (f : Ctx → Ctl) (s s' : List TaskPtr) (c : Ctx) (k k' : Ctl) :
    place K (place K' f s' c k').ctl s c k = place K f s c k := by
  simp [place]

/-- A step of the code of `c` that leaves the processor to `c`; with room, if it begins the
search of a creation. -/
def Solo (w : Bool) (c : Ctx) (M : Machine Core) (l : Label) (M' : Machine Core) : Prop :=
  M.Step l M' ∧ l = .run ∧ M.sys.curr = c ∧ M'.sys.curr = c ∧ (w = true → M.FindsRoom)

/-- Some steps of the code of `c` alone. -/
def Goes (w : Bool) (c : Ctx) (M M' : Machine Core) : Prop := ∃ ls, Run (Solo w c) M ls M'

namespace Goes

variable {w : Bool} {c : Ctx} {M M' M'' : Machine Core}

lemma refl : Goes w c M M := ⟨[], .nil M⟩

lemma trans (h : Goes w c M M') (h' : Goes w c M' M'') : Goes w c M M'' := by
  obtain ⟨ls, hr⟩ := h
  obtain ⟨ls', hr'⟩ := h'
  exact ⟨ls ++ ls', hr.append hr'⟩

lemma step {l : Label} (h : Solo w c M l M') : Goes w c M M' := ⟨[l], .single h⟩

end Goes

end Machine

open Machine

/-- The context `c` has the processor. -/
structure Core.Runs (K : Core) (c : Ctx) : Prop where
  halt : K.halt = none
  curr : K.curr = c
  runs : K.toCpu.runs c = true

section Steps

variable {w : Bool} {c : Ctx} {K : Core} {f : Ctx → Ctl} {s : List TaskPtr} {pc pc' : Pc}
  {a : Act} {e : Epilogue} {rest : List Epilogue}

lemma Core.Runs.live (h : K.Runs c) {d : Ctx} {k : Ctl} : (place K f s d k).Live := by
  have hrun : (place K f s d k).running = c := h.curr
  exact ⟨h.halt, by rw [hrun]; exact h.runs⟩

lemma after_place (hc : K.curr = c) (ha : a ≠ .becomeMain) {k : Ctl} {new : List TaskPtr} :
    (place K f s c k).after a rest pc new =
      place (K.exec a) f (new ++ s) c ⟨K.leaves a ++ rest, pc⟩ := by
  have hc' : Kernel.currTask K = c := hc
  simp only [after, commit, Machine.running, place, hc', if_neg ha, Function.update_idem]
  rfl

lemma goes_code (pc pc' : Pc) (h : K.Runs c) (hc : (K.exec a).curr = c) (ha : a ≠ .becomeMain)
    (hnext : pc.next c K.toCpu = some (a, pc'))
    (hroom : w = true → ∀ r, pc = .allocTest 1 (.tssInit r) → r.nameOk = true → K.Room 1) :
    Goes w c (place K f s c ⟨[], pc⟩) (place (K.exec a) f s c ⟨K.leaves a, pc'⟩) := by
  have hrun : (place K f s c ⟨[], pc⟩).running = c := h.curr
  have hctl : (place K f s c ⟨[], pc⟩).ctl c = ⟨[], pc⟩ := Function.update_self ..
  refine .step ⟨Machine.step_iff.mpr ⟨h.live, a, [], pc', [], .code ?_ ?_, ?_⟩, rfl, h.curr, hc,
    fun hr r hk hok => ?_⟩
  · rw [hrun, hctl]
  · rw [hrun, hctl]
    exact hnext
  · rw [after_place h.curr ha, List.append_nil, List.nil_append]
  · rw [hrun, hctl] at hk
    exact hroom hr r (congrArg Ctl.pc hk) hok

lemma solo_ret (rest : List Epilogue) (pc : Pc) (h : K.Runs c) :
    Solo w c (place K f s c ⟨e :: rest, pc⟩) .run (place (K.exec (.ret e)) f s c ⟨rest, pc⟩) := by
  have hrun : (place K f s c ⟨e :: rest, pc⟩).running = c := h.curr
  have hctl : (place K f s c ⟨e :: rest, pc⟩).ctl c = ⟨e :: rest, pc⟩ := Function.update_self ..
  refine ⟨Machine.step_iff.mpr ⟨h.live, .ret e, rest, pc, [], ?_, ?_⟩, rfl, h.curr, h.curr,
    fun hr r hk hok => ?_⟩
  · have hd := Machine.Does.ret (m := place K f s c ⟨e :: rest, pc⟩) (e := e)
      (by rw [hrun, hctl])
    rwa [hrun, hctl] at hd
  · rw [after_place h.curr (by simp)]
    rfl
  · rw [hrun, hctl] at hk
    cases hk

lemma goes_ret (rest : List Epilogue) (pc : Pc) (h : K.Runs c) :
    Goes w c (place K f s c ⟨e :: rest, pc⟩) (place (K.exec (.ret e)) f s c ⟨rest, pc⟩) :=
  .step (solo_ret rest pc h)

lemma allows_place {op : Op} {k : Ctl} (h : K.Runs c) (hp : (op.present && op.nameable) = true)
    (hnew : ∀ t ∈ op.creates, t ∉ s) (hwho : (c = none ∧ op.atBoot = true) ∨
      ∃ t, c = some t ∧ t ≠ .idleTask ∧ op ≠ .taskMainInit) :
    (place K f s c k).allows op = true := by
  have hrun : (place K f s c k).running = c := h.curr
  simp only [allows, hp, hrun, Bool.true_and, Bool.and_eq_true, List.all_eq_true,
    decide_eq_true_eq]
  refine ⟨hnew, ?_⟩
  rcases hwho with ⟨rfl, hboot⟩ | ⟨t, rfl, hidle, hop⟩
  · exact hboot
  · simp [hidle, hop]

lemma step_call (op : Op) (h : K.Runs c) (hop : (place K f s c .own).allows op = true) :
    (place K f s c .own).FindsRoom ∧ (place K f s c .own).Step (.call op)
      (place (K.exec op.first.1) f (op.creates ++ s) c
        ⟨K.leaves op.first.1, op.first.2⟩) := by
  have hrun : (place K f s c .own).running = c := h.curr
  have hctl : (place K f s c .own).ctl c = .own := Function.update_self ..
  have hmain : op.first.1 ≠ .becomeMain := by cases op <;> simp [Op.first]
  refine ⟨fun r hk _ => ?_, Machine.step_iff.mpr ⟨h.live, _, _, _, _, .call ?_ hop, ?_⟩⟩
  · rw [hrun, hctl] at hk
    cases hk
  · rw [hrun, hctl]
  · rw [after_place h.curr hmain, List.append_nil]

lemma goes_call (pc pc' : Pc) (h : K.Runs c) (h' : (K.exec a).Runs c) (ha : a ≠ .becomeMain)
    (hnext : pc.next c K.toCpu = some (a, pc')) (hleaves : K.leaves a = [e])
    (hpc : ∀ i k, pc ≠ .allocTest i k) :
    Goes w c (place K f s c ⟨[], pc⟩)
      (place ((K.exec a).exec (.ret e)) f s c ⟨[], pc'⟩) := by
  have hcode := goes_code (w := w) (f := f) (s := s) _ _ h h'.curr ha hnext
    (fun _ r hr => absurd hr (hpc 1 _))
  rw [hleaves] at hcode
  exact hcode.trans (goes_ret _ _ h')

end Steps

/-- The mutex is free and nobody waits for it. -/
def Core.Open (K : Core) (x : MutexPtr) : Prop :=
  K.mutex x = ⟨none, 0#32⟩ ∧ K.queue (.mutexWait x) = []

namespace Core

variable {K : Core} {x : MutexPtr}

lemma exec_lock (h : K.Open x) :
    K.exec (.lock x) = (K.off.setMutex x ⟨K.curr, 1#32⟩).emit (.lockTake K.curr x) := by
  have hm : K.off.mutex x = ⟨none, 0#32⟩ := h.1
  rw [exec, lock, hm, if_pos rfl]
  rfl

lemma exec_unlock (hm : K.mutex x = ⟨K.curr, 1#32⟩) (hq : K.queue (.mutexWait x) = []) :
    K.exec (.unlock x) = (K.off.emit (.unlock K.curr x)).setMutex x ⟨none, 0#32⟩ := by
  rcases unlock_cases (K := K) (m := x) with ⟨hno | hno, -, -⟩ |
    ⟨-, -, -, ⟨hmore, -⟩ | ⟨-, -, hexec⟩ | ⟨-, t, ts, hsome, -⟩⟩
  · simp [hm] at hno
  · simp [hm] at hno
  · simp [hm] at hmore
  · exact hexec
  · rw [hq] at hsome
    cases hsome

lemma leaves_lock (h : K.Open x) : K.leaves (.lock x) = [⟨.reinMutexLock x, K.eflags⟩] := by
  rw [leaves, if_pos (Or.inl (by rw [h.1]))]

lemma leaves_unlock (hm : K.mutex x = ⟨K.curr, 1#32⟩) :
    K.leaves (.unlock x) = [⟨.reinMutexUnlock x, K.eflags⟩] := by
  simp [leaves, hm]

end Core

section Locks

variable {w : Bool} {c : Ctx} {K : Core} {f : Ctx → Ctl} {s : List TaskPtr} {pc pc' : Pc}
  {x : MutexPtr}

lemma goes_lock (pc pc' : Pc) (h : K.Runs c) (hopen : K.Open x)
    (hnext : pc.next c K.toCpu = some (.lock x, pc')) (hpc : ∀ i k, pc ≠ .allocTest i k) :
    Goes w c (place K f s c ⟨[], pc⟩)
      (place { K with
        mutex := Function.update K.mutex x ⟨c, 1#32⟩
        trace := K.trace ++ [.lockTake c x] ++ [.lockReturn c x] } f s c ⟨[], pc'⟩) := by
  have hlock := goes_call (w := w) (f := f) (s := s) pc pc' h
    (by rw [Core.exec_lock hopen]; exact ⟨h.halt, h.curr, h.runs⟩) (by simp) hnext
    (Core.leaves_lock hopen) hpc
  rw [Core.exec_lock hopen] at hlock
  obtain rfl := h.curr
  exact hlock

lemma goes_unlock (pc pc' : Pc) (h : K.Runs c) (hm : K.mutex x = ⟨c, 1#32⟩)
    (hq : K.queue (.mutexWait x) = [])
    (hnext : pc.next c K.toCpu = some (.unlock x, pc')) (hpc : ∀ i k, pc ≠ .allocTest i k) :
    Goes w c (place K f s c ⟨[], pc⟩)
      (place { K with
        mutex := Function.update K.mutex x ⟨none, 0#32⟩
        trace := K.trace ++ [.unlock c x] } f s c ⟨[], pc'⟩) := by
  obtain rfl := h.curr
  have hunlock := goes_call (w := w) (f := f) (s := s) pc pc' h
    (by rw [Core.exec_unlock hm hq]; exact ⟨h.halt, rfl, h.runs⟩) (by simp) hnext
    (Core.leaves_unlock hm) hpc
  rw [Core.exec_unlock hm hq] at hunlock
  have hret : ((K.off.emit (.unlock K.curr x)).setMutex x ⟨none, 0#32⟩).exec
      (.ret ⟨.reinMutexUnlock x, K.eflags⟩) = { K with
        mutex := Function.update K.mutex x ⟨none, 0#32⟩
        trace := K.trace ++ [.unlock K.curr x] ++ [] } := rfl
  rwa [hret, List.append_nil] at hunlock

end Locks

/-- What `get_alloc_desc` finds: the first free entry after the null one, if there is any. -/
def Core.Finds (K : Core) : Option Nat → Prop
  | none => ∀ j, 1 ≤ j → j < gdtTableSize → (K.gdt j).attr ≠ 0
  | some n => 1 ≤ n ∧ n < gdtTableSize ∧ (K.gdt n).attr = 0 ∧
      ∀ j, 1 ≤ j → j < n → (K.gdt j).attr ≠ 0

lemma Core.finds (K : Core) : ∃ found, K.Finds found := by
  by_cases hfree : ∃ n, 1 ≤ n ∧ n < gdtTableSize ∧ (K.gdt n).attr = 0
  · classical
    obtain ⟨hpos, hlt, hz⟩ := Nat.find_spec hfree
    refine ⟨some (Nat.find hfree), hpos, hlt, hz, fun j hj hjn hzj => ?_⟩
    exact Nat.find_min hfree hjn ⟨hj, by omega, hzj⟩
  · exact ⟨none, fun j hj hlt hz => hfree ⟨j, hj, hlt, hz⟩⟩

/-- The entry that was found is claimed. -/
def claimFound (p : Cpu) : Option Nat → Cpu
  | none => p
  | some n => claimDesc n p

/-- The selector of the entry that was found, or -1. -/
def selFound : Option Nat → Int
  | none => -1
  | some n => (n * 8 : Nat)

section Search

variable {w : Bool} {c : Ctx} {K : Core} {f : Ctx → Ctl} {s : List TaskPtr} {k : AllocFor}
  {found : Option Nat} {i n : Nat}

lemma goes_search (h : K.Runs c) (hroom : w = true → K.Room 1)
    (hin : i ≤ n) (hn : n ≤ gdtTableSize) (hused : ∀ j, i ≤ j → j < n → (K.gdt j).attr ≠ 0) :
    Goes w c (place K f s c ⟨[], .allocTest i k⟩) (place K f s c ⟨[], .allocTest n k⟩) := by
  induction n, hin using Nat.le_induction with
  | base => exact .refl
  | succ n hin ih =>
    refine (ih (by omega) fun j hj hjn => hused j hj (by omega)).trans ?_
    have hlt : n < gdtTableSize := by omega
    have hz : (K.gdt n).attr ≠ 0 := hused n hin (by omega)
    exact goes_code (a := .nop) _ _ h h.curr (by simp) (by rw [Pc.next, if_pos hlt, if_neg hz])
      (fun hr _ _ _ => hroom hr)

lemma room_of_finds (hfind : K.Finds found) (hroom : w = true → found ≠ none) :
    w = true → K.Room 1 := by
  intro hr
  obtain ⟨n, rfl⟩ := Option.ne_none_iff_exists'.mp (hroom hr)
  exact ⟨n, hfind.1, hfind.2.1, hfind.2.2.1⟩

lemma goes_find (h : K.Runs c) (hroom : w = true → found ≠ none) (hfind : K.Finds found) :
    Goes w c (place K f s c ⟨[], .allocTest 1 k⟩)
      (place { K with toCpu := claimFound K.toCpu found } f s c
        ⟨[], .allocUnlock (selFound found) k⟩) := by
  have hroom' := room_of_finds hfind hroom
  cases found with
  | some n =>
    obtain ⟨hpos, hlt, hz, hused⟩ := hfind
    have hsearch := goes_search (f := f) (s := s) (k := k) h hroom' hpos (Nat.le_of_lt hlt) hused
    have hfound := goes_code (w := w) (f := f) (s := s) (a := .nop)
      (.allocTest n k) (.allocClaim n k) h h.curr (by simp)
      (by rw [Pc.next, if_pos hlt, if_pos hz]) (fun hr _ _ _ => hroom' hr)
    have hclaim := goes_code (w := w) (f := f) (s := s) (a := .claim n)
      (.allocClaim n k) (.allocUnlock (n * 8 : Nat) k) h h.curr (by simp) rfl
      (by simp)
    exact (hsearch.trans hfound).trans hclaim
  | none =>
    have hsearch := goes_search (f := f) (s := s) (k := k) h hroom' (i := 1)
      (n := gdtTableSize) (by decide) le_rfl hfind
    have hend := goes_code (w := w) (f := f) (s := s) (a := .nop)
      (.allocTest gdtTableSize k) (.allocUnlock (-1) k) h h.curr (by simp)
      (by rw [Pc.next, if_neg (Nat.lt_irrefl _)]) (fun hr _ _ _ => hroom' hr)
    exact hsearch.trans hend

lemma goes_alloc (h : K.Runs c) (hopen : K.Open .gdtMutex) (hroom : w = true → found ≠ none)
    (hfind : K.Finds found) (htr : ∀ n, found = some n → selIndex K.tr ≠ n) :
    ∃ tr, Goes w c (place K f s c ⟨[], .allocLock k⟩)
      (place { K with toCpu := claimFound K.toCpu found, trace := tr } f s c
        ⟨[], .allocReturn (selFound found) k⟩) := by
  -- the lock
  have hlock := goes_lock (w := w) (f := f) (s := s) (.allocLock k) (.allocTest 1 k) h hopen rfl
    (by simp)
  generalize hK₁ : ({ K with
    mutex := Function.update K.mutex .gdtMutex ⟨c, 1#32⟩
    trace := K.trace ++ [.lockTake c .gdtMutex] ++ [.lockReturn c .gdtMutex] } : Core) = K₁ at hlock
  have h₁ : K₁.Runs c := by
    subst hK₁
    exact ⟨h.halt, h.curr, h.runs⟩
  have hcpu₁ : K₁.toCpu = K.toCpu := by
    subst hK₁
    rfl
  have hm₁ : K₁.mutex .gdtMutex = ⟨c, 1#32⟩ := by
    subst hK₁
    simp
  have hq₁ : K₁.queue (.mutexWait .gdtMutex) = [] := by
    subst hK₁
    exact hopen.2
  -- the search and the claim
  have hmiddle := goes_find (f := f) (s := s) (k := k) h₁ hroom
    (by cases found <;> simpa [Core.Finds, hcpu₁] using hfind)
  generalize hK₂ : ({ K₁ with toCpu := claimFound K₁.toCpu found } : Core) = K₂ at hmiddle
  have h₂ : K₂.Runs c := by
    subst hK₂
    have hruns := h₁.runs
    refine ⟨?_, h₁.curr, ?_⟩
    · cases found <;> exact h₁.halt
    · cases found with
      | none => exact hruns
      | some n =>
        rw [hcpu₁] at hruns ⊢
        cases c with
        | none => rfl
        | some t => simpa [claimFound, claimDesc, Cpu.setDesc, Cpu.runs, htr n rfl] using hruns
  have hm₂ : K₂.mutex .gdtMutex = ⟨c, 1#32⟩ := by
    subst hK₂
    exact hm₁
  have hq₂ : K₂.queue (.mutexWait .gdtMutex) = [] := by
    subst hK₂
    exact hq₁
  -- the unlock
  have hunlock := goes_unlock (w := w) (f := f) (s := s) (.allocUnlock (selFound found) k)
    (.allocReturn (selFound found) k) h₂ hm₂ hq₂ rfl (by simp)
  refine ⟨K₂.trace ++ [.unlock c .gdtMutex], (hlock.trans hmiddle).trans ?_⟩
  -- the mutex is as it was
  have hback : Function.update K₂.mutex .gdtMutex ⟨none, 0#32⟩ = K.mutex := by
    rw [← hopen.1]
    subst hK₂ hK₁
    simp
  rw [hback] at hunlock
  subst hK₂ hK₁
  exact hunlock

end Search

namespace Core

/-- After `tss_init`: the task has the entry that was found. -/
def described (K : Core) (r : InitReq) : Option Nat → Core
  | none => K
  | some n =>
    { K with
      gdt := Function.update K.gdt n (tssDesc (K.tssAddr r.task))
      tss := Function.update K.tss (K.tssAddr r.task)
        (Tss.fill (K.tss (K.tssAddr r.task)) r.entry r.esp)
      task := Function.update K.task r.task
        { K.task r.task with tssSel := (n * 8 : Nat) } }

/-- After the rest of `task_init` with a valid name. -/
def enrolled (K : Core) (r : InitReq) : Core :=
  if r.task = .idleTask then K.exec (.fields r) else (K.exec (.fields r)).create r.task

/-- After `task_init`, the trace aside. -/
def initialised (K : Core) (r : InitReq) (found : Option Nat) : Core :=
  if r.nameOk then (K.described r found).enrolled r else K.described r found

end Core

/-- What `task_init` returns. -/
def InitReq.ret (r : InitReq) : Int := if r.nameOk then 0 else -1

section Creation

variable {w : Bool} {c : Ctx} {K : Core} {f : Ctx → Ctl} {s : List TaskPtr} {r : InitReq}
  {found : Option Nat}

lemma Core.Runs.described (h : K.Runs c) (htr : ∀ n, found = some n → selIndex K.tr ≠ n) :
    (K.described r found).Runs c := by
  cases found with
  | none => exact h
  | some n =>
    have hruns := h.runs
    refine ⟨h.halt, h.curr, ?_⟩
    cases c with
    | none => rfl
    | some t => simpa [Core.described, Cpu.runs, htr n rfl] using hruns

lemma goes_tssInit (h : K.Runs c) (hopen : K.Open .gdtMutex) (hroom : w = true → found ≠ none)
    (hfind : K.Finds found) (htr : ∀ n, found = some n → selIndex K.tr ≠ n) :
    ∃ tr, Goes w c (place K f s c ⟨[], .allocLock (.tssInit r)⟩)
      (place { K.described r found with trace := tr } f s c ⟨[], .taskInitName r⟩) := by
  obtain ⟨tr, halloc⟩ := goes_alloc (f := f) (s := s) (k := .tssInit r) h hopen hroom hfind htr
  have hdesc := h.described (r := r) htr
  cases found with
  | none =>
    have h₁ : Core.Runs { K with trace := tr } c := ⟨h.halt, h.curr, h.runs⟩
    have hnote := goes_code (w := w) (f := f) (s := s)
      (a := .note (.allocReturn c (-1))) (.allocReturn (-1) (.tssInit r))
      (.tssInitSet (-1) r) h₁ h.curr (by simp) rfl (by simp)
    have hskip := goes_code (w := w) (f := f) (s := s) (a := .nop)
      (.tssInitSet (-1) r) (.taskInitName r)
      (K := { K with trace := tr ++ [.allocReturn c (-1)] }) ⟨h.halt, h.curr, h.runs⟩ h.curr
      (by simp) rfl (by simp)
    exact ⟨_, (halloc.trans hnote).trans hskip⟩
  | some n =>
    have hne := htr n rfl
    have hidx : ((n * 8 : Nat) / 8 : Int).toNat = n := by omega
    have hK₁ : ∀ tr, Core.Runs { K with toCpu := claimDesc n K.toCpu, trace := tr } c := by
      intro tr
      have hruns := h.runs
      refine ⟨h.halt, h.curr, ?_⟩
      cases c with
      | none => rfl
      | some t => simpa [claimDesc, Cpu.setDesc, Cpu.runs, hne] using hruns
    have hnote := goes_code (w := w) (f := f) (s := s)
      (a := .note (.allocReturn c (n * 8 : Nat))) (.allocReturn (n * 8 : Nat) (.tssInit r))
      (.tssInitSet (n * 8 : Nat) r) (hK₁ tr) h.curr (by simp) rfl (by simp)
    have hset := goes_code (w := w) (f := f) (s := s)
      (a := .segSet (n * 8 : Nat) (K.tssAddr r.task) (BitVec.ofNat 32 Tss.size)
        (segPPresent ||| segDpl0 ||| segTypeTss))
      (.tssInitSet (n * 8 : Nat) r) (.tssInitFill (n * 8 : Nat) r)
      (hK₁ (tr ++ [.allocReturn c (n * 8 : Nat)])) h.curr (by simp)
      (by rw [Pc.next, if_neg (by omega)]; rfl) (by simp)
    generalize hK₂ : Core.exec _ (.segSet _ _ _ _) = K₂ at hset
    have h₂ : K₂.Runs c := by
      subst hK₂
      have hruns := h.runs
      refine ⟨h.halt, h.curr, ?_⟩
      cases c with
      | none => rfl
      | some t =>
        simpa [Core.exec, Core.cpu, setSegment, segmentDescSet, claimDesc, Cpu.setDesc, Cpu.runs,
          hidx, hne] using hruns
    have hfill := goes_code (w := w) (f := f) (s := s) (a := .fill (n * 8 : Nat) r)
      (.tssInitFill (n * 8 : Nat) r) (.taskInitName r) h₂ h₂.curr (by simp) rfl
      (by simp)
    have hsame : K₂.exec (.fill (n * 8 : Nat) r) =
        { K.described r (some n) with trace := tr ++ [.allocReturn c (n * 8 : Nat)] } := by
      subst hK₂
      simp [Core.exec, Core.cpu, Core.setTask, setSegment, segmentDescSet, claimDesc, Cpu.setDesc,
        Core.described, tssDesc]
    rw [hsame] at hfill
    exact ⟨_, ((halloc.trans hnote).trans hset).trans hfill⟩

lemma goes_name (h : K.Runs c) :
    Goes w c (place K f s c ⟨[], .taskInitName r⟩)
      (place (if r.nameOk then K.enrolled r else K) f s c ⟨[], .taskInitReturn r r.ret⟩) := by
  by_cases hok : r.nameOk = true
  · rw [if_pos hok, InitReq.ret, if_pos hok]
    have hfields := goes_code (w := w) (f := f) (s := s) (a := .fields r)
      (.taskInitName r) (.taskInitReady r) h h.curr (by simp)
      (by rw [Pc.next, if_pos hok]) (by simp)
    have h₁ : (K.exec (.fields r)).Runs c := ⟨h.halt, h.curr, h.runs⟩
    refine hfields.trans ?_
    by_cases hidle : r.task = .idleTask
    · rw [Core.enrolled, if_pos hidle]
      exact goes_code (a := .nop) _ _ h₁ h₁.curr (by simp)
        (by rw [Pc.next, if_neg (by simp [hidle])]) (by simp)
    · rw [Core.enrolled, if_neg hidle]
      have hready := goes_call (w := w) (f := f) (s := s) (a := .ready r.task)
        (.taskInitReady r) (.taskInitReturn r 0) h₁
        ⟨h₁.halt, h₁.curr, h₁.runs⟩ (by simp) (by rw [Pc.next, if_pos hidle]) rfl (by simp)
      have hsame : ((K.exec (.fields r)).exec (.ready r.task)).exec
          (.ret ⟨.taskInit, (K.exec (.fields r)).eflags⟩) =
            (K.exec (.fields r)).create r.task := by
        simp [Core.exec, Core.create, Core.wake, Core.join, Core.setTask, Core.off, Core.cpu,
          Cpu.cli, Fn.returned]
      rwa [hsame] at hready
  · rw [if_neg hok, InitReq.ret, if_neg hok]
    exact goes_code (a := .nop) _ _ h h.curr (by simp) (by rw [Pc.next, if_neg hok]) (by simp)

lemma Core.Runs.initialised (h : K.Runs c) (htr : ∀ n, found = some n → selIndex K.tr ≠ n) :
    (K.initialised r found).Runs c := by
  have hdesc := h.described (r := r) htr
  unfold Core.initialised Core.enrolled
  split
  · split <;> exact ⟨hdesc.halt, hdesc.curr, hdesc.runs⟩
  · exact hdesc

namespace Core

lemma initialised_trace (tr tr' : List Event) :
    { Core.initialised { K with trace := tr } r found with trace := tr' } =
      { K.initialised r found with trace := tr' } := by
  cases found <;> unfold initialised enrolled <;> split_ifs <;> rfl

lemma initialised_frame : (K.initialised r found).curr = K.curr ∧
    (K.initialised r found).mutex = K.mutex ∧ (K.initialised r found).tr = K.tr ∧
    (K.initialised r found).tssAddr = K.tssAddr ∧ (K.initialised r found).eflags = K.eflags := by
  cases found <;> unfold initialised enrolled <;> split_ifs <;> exact ⟨rfl, rfl, rfl, rfl, rfl⟩

lemma initialised_gdt : (K.initialised r found).gdt = (K.described r found).gdt := by
  unfold initialised enrolled
  split_ifs <;> rfl

lemma initialised_tss : (K.initialised r found).tss = (K.described r found).tss := by
  unfold initialised enrolled
  split_ifs <;> rfl

lemma initialised_tssSel (t : TaskPtr) :
    ((K.initialised r found).task t).tssSel = ((K.described r found).task t).tssSel := by
  unfold initialised enrolled
  by_cases ht : t = r.task
  · subst ht
    split_ifs <;> simp [exec, create, wake, join, setTask]
  · split_ifs <;> simp [exec, create, wake, join, setTask, ht]

lemma initialised_sem : (K.initialised r found).sem = K.sem := by
  cases found <;> unfold initialised enrolled <;> split_ifs <;> rfl

lemma initialised_queue (q : Queue) : (K.initialised r found).queue q =
    if r.nameOk = true ∧ r.task ≠ .idleTask ∧ q = .ready then K.queue q ++ [r.task]
    else K.queue q := by
  have hdesc : (K.described r found).queue = K.queue := by cases found <;> rfl
  unfold initialised enrolled
  split_ifs with hok hidle h <;> simp_all [exec, create, wake, join, setTask]

end Core

/-- `task_init` from the search of the GDT to its return. -/
theorem goes_taskInit (pc : Pc) (h : K.Runs c) (hopen : K.Open .gdtMutex)
    (hroom : w = true → found ≠ none) (hfind : K.Finds found)
    (htr : ∀ n, found = some n → selIndex K.tr ≠ n)
    (hpc : pc = if r.task = .mainTask then .mainTr else .user) :
    ∃ tr, Goes w c (place K f s c ⟨[], .allocLock (.tssInit r)⟩)
      (place { K.initialised r found with trace := tr ++ [.initReturn r.task r.ret] } f s c
        ⟨[], pc⟩) := by
  obtain ⟨tr, htss⟩ := goes_tssInit (f := f) (s := s) (r := r) h hopen hroom hfind htr
  have hdesc := h.described (r := r) htr
  have hname := goes_name (w := w) (f := f) (s := s) (r := r)
    (K := { K.described r found with trace := tr }) ⟨hdesc.halt, hdesc.curr, hdesc.runs⟩
  have hsame : (if r.nameOk then Core.enrolled { K.described r found with trace := tr } r
      else { K.described r found with trace := tr }) =
        { K.initialised r found with trace := tr } := by
    unfold Core.initialised Core.enrolled
    split
    · split <;> rfl
    · rfl
  rw [hsame] at hname
  have hinit := h.initialised (r := r) htr
  have hret := goes_code (w := w) (f := f) (s := s)
    (a := .note (.initReturn r.task r.ret)) (.taskInitReturn r r.ret) pc
    (K := { K.initialised r found with trace := tr }) ⟨hinit.halt, hinit.curr, hinit.runs⟩
    hinit.curr (by simp) (by subst hpc; rw [Pc.next]; split <;> rfl) (by simp)
  exact ⟨tr, (htss.trans hname).trans hret⟩

/-- A task calls `task_init`, and nobody disturbs it. -/
theorem calls_taskInit {t : TaskPtr} (h : K.Runs (some t)) (hopen : K.Open .gdtMutex)
    (hroom : w = true → found ≠ none) (hfind : K.Finds found)
    (htr : ∀ n, found = some n → selIndex K.tr ≠ n) (ht : t ≠ .idleTask)
    (hmain : r.task ≠ .mainTask) (hnew : r.task ∉ s) :
    ∃ M₁ tr, (place K f s (some t) .own).FindsRoom ∧
      (place K f s (some t) .own).Step (.call (.taskInit r)) M₁ ∧
      Goes w (some t) M₁ (place
        { K.initialised r found with trace := tr ++ [.initReturn r.task r.ret] } f (r.task :: s)
        (some t) .own) := by
  have hcall := step_call (f := f) (s := s) (.taskInit r) h
    (allows_place h rfl (by simpa [Op.creates] using hnew) (Or.inr ⟨t, rfl, ht, by simp⟩))
  obtain ⟨tr, hgoes⟩ := goes_taskInit (f := f) (s := r.task :: s) .user h hopen hroom
    hfind htr (by rw [if_neg hmain])
  exact ⟨_, tr, hcall.1, hcall.2, hgoes⟩

end Creation

end OsToyI386
