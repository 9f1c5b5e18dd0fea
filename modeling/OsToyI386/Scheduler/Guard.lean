import OsToyI386.Scheduler.Holding

/-!
# Code that a mutex guards

A context in code that is entered by a lock and left by the unlock holds the mutex, or it
still waits for it at the door. So no two contexts are inside at the same time. The code
of `get_alloc_desc` between its lock and its unlock is such code.
-/

namespace OsToyI386

open Lib

/-- The code `inside` is entered at the `door` by a lock of the mutex and left by the unlock.
Nothing else locks the mutex. -/
structure Pc.Guards (x : MutexPtr) (inside door : Pc → Bool) : Prop where
  hidden : ∀ addr, x ≠ .obj addr
  user : inside .user = false
  call : ∀ op : Op, inside op.first.2 = false
  enter : ∀ c p a pc pc', next c p pc = some (a, pc') → inside pc' = true →
    (a = .lock x ∧ door pc' = true) ∨ (inside pc = true ∧ a ≠ .lock x ∧ a ≠ .unlock x)
  locks : ∀ c p pc pc', next c p pc = some (.lock x, pc') → inside pc = false ∧ inside pc' = true
  leave : ∀ c p a pc pc', next c p pc = some (a, pc') → inside pc = true →
    inside pc' = true ∨ a = .unlock x

/-- Who is inside holds the mutex, once, or waits for it at the door; nobody else does. -/
structure Machine.Enclosed (M : Machine Core) (x : MutexPtr) (inside door : Pc → Bool) :
    Prop where
  holds : ∀ c, inside (M.ctl c).pc = true → 0 < (M.sys.mutex x).heldBy c ∨
    (∃ t ∈ M.sys.queue (.mutexWait x), c = some t) ∧ door (M.ctl c).pc = true
  only : ∀ c, 0 < (M.sys.mutex x).heldBy c → inside (M.ctl c).pc = true
  queued : ∀ t ∈ M.sys.queue (.mutexWait x), inside (M.ctl (some t)).pc = true
  once : ∀ c, (M.sys.mutex x).heldBy c ≤ 1
  free : (M.sys.mutex x).locker = 0#32 →
    (M.sys.mutex x).owner = none ∧ M.sys.queue (.mutexWait x) = []

namespace Machine.Enclosed

variable {M : Machine Core} {x : MutexPtr} {inside door : Pc → Bool} {l : Label} {a : Act}
  {rest : List Epilogue} {pc : Pc} {new : List TaskPtr} {es : List Event} {c d : Ctx}

lemma running (h : M.Enclosed x inside door) (hM : M.Sound)
    (hin : inside (M.ctl M.sys.curr).pc = true) : 0 < (M.sys.mutex x).heldBy M.sys.curr := by
  refine (h.holds _ hin).resolve_right ?_
  rintro ⟨⟨t, ht, hc⟩, -⟩
  exact hM.core.curr_not_waiting hc (by simp) ht

lemma others (h : M.Enclosed x inside door) (hM : M.Sound)
    (hin : inside (M.ctl M.sys.curr).pc = true) (hd : d ≠ M.sys.curr)
    (hind : inside (M.ctl d).pc = true) : door (M.ctl d).pc = true := by
  have hrun := ReinMutex.heldBy_pos_iff.mp (h.running hM hin)
  rcases h.holds d hind with hheld | hwait
  · exact absurd ((ReinMutex.heldBy_pos_iff.mp hheld).2.symm.trans hrun.2) hd
  · exact hwait.2

lemma outside (h : M.Enclosed x inside door) (hin : inside (M.ctl c).pc = false) :
    (M.sys.mutex x).heldBy c = 0 := by
  by_contra hne
  have hnonneg := (M.sys.mutex x).heldBy_nonneg c
  rw [h.only c (by omega)] at hin
  cases hin

lemma does_inside (hg : Pc.Guards x inside door) (hd : M.Does l a rest pc new)
    (hin : inside pc = true) :
    (a = .lock x ∧ door pc = true) ∨
      (inside (M.ctl M.sys.curr).pc = true ∧ a ≠ .lock x ∧ a ≠ .unlock x) := by
  cases hd with
  | tick => exact Or.inr ⟨hin, by simp, by simp⟩
  | ret => exact Or.inr ⟨hin, by simp, by simp⟩
  | code _ hnext => exact hg.enter _ _ _ _ _ hnext hin
  | @call op hown hop =>
    rw [hg.call op] at hin
    cases hin

lemma does_lock (hg : Pc.Guards x inside door) (hd : M.Does l (.lock x) rest pc new) :
    inside (M.ctl M.sys.curr).pc = false ∧ inside pc = true := by
  generalize ha : Act.lock x = a at hd
  cases hd with
  | tick => cases ha
  | ret => cases ha
  | code _ hnext =>
    subst ha
    exact hg.locks _ _ _ _ hnext
  | @call op hown hop =>
    obtain ⟨addr, hx⟩ := allows_lock hop ha.symm
    exact absurd hx (hg.hidden addr)

lemma does_leave (hg : Pc.Guards x inside door) (hd : M.Does l a rest pc new)
    (hin : inside (M.ctl M.sys.curr).pc = true) : inside pc = true ∨ a = .unlock x := by
  cases hd with
  | tick => exact Or.inl hin
  | ret => exact Or.inl hin
  | code _ hnext => exact hg.leave _ _ _ _ _ hnext hin
  | @call op hown hop =>
    have hctl : M.ctl M.sys.curr = .own := hown
    rw [hctl] at hin
    exact absurd hin (by rw [Ctl.own, hg.user]; exact Bool.false_ne_true)

lemma fresh (h : M.Enclosed x inside door) (hg : Pc.Guards x inside door)
    (hd : M.Does l a rest pc new) (ha : a = .lock x) :
    (M.sys.mutex x).heldBy M.sys.curr = 0 := by
  subst ha
  exact h.outside (does_lock hg hd).1

lemma holds_after (h : M.Enclosed x inside door) (hg : Pc.Guards x inside door) (hM : M.Sound)
    (hd : M.Does l a rest pc new) (hes : M.sys.Transfers a x es)
    (hin : inside ((M.after a rest pc new).ctl c).pc = true) :
    0 < ((M.sys.exec a).mutex x).heldBy c ∨
      (∃ t ∈ (M.sys.exec a).queue (.mutexWait x), c = some t) ∧
        door ((M.after a rest pc new).ctl c).pc = true := by
  obtain ⟨hrun, hothers⟩ := hM.place_after hd
  have hbefore := (M.sys.mutex x).heldBy_nonneg c
  -- who gives nothing back holds on, and who gets the mutex holds it
  have hkeep : es.count (.unlock c x) = 0 →
      0 < (M.sys.mutex x).heldBy c ∨ gained es x c ≠ 0 →
      0 < ((M.sys.exec a).mutex x).heldBy c := by
    intro hgive hor
    rw [hes.holds, hgive]
    omega
  by_cases hc : c = M.sys.curr
  · subst hc
    rw [hrun] at hin ⊢
    have hgive : a ≠ .unlock x → es.count (.unlock M.sys.curr x) = 0 := by
      intro ha
      by_contra hno
      exact ha (hes.gives _ hno).1
    rcases does_inside hg hd hin with ⟨rfl, hdoor⟩ | ⟨hold, -, hno⟩
    · by_cases hget : gained es x M.sys.curr = 0
      · obtain ⟨-, hwait⟩ := hes.takes rfl hget
        exact Or.inr ⟨hwait, hdoor⟩
      · exact Or.inl (hkeep (hgive (by simp)) (Or.inr hget))
    · exact Or.inl (hkeep (hgive hno) (Or.inl (h.running hM hold)))
  · have hgive : es.count (.unlock c x) = 0 := by
      by_contra hno
      exact hc (hes.gives c hno).2
    rw [hothers c hc] at hin ⊢
    rcases h.holds c hin with hheld | ⟨⟨t, ht, rfl⟩, hdoor⟩
    · exact Or.inl (hkeep hgive (Or.inl hheld))
    · rcases hes.stays t ht with hstay | hget
      · exact Or.inr ⟨⟨t, hstay, rfl⟩, hdoor⟩
      · exact Or.inl (hkeep hgive (Or.inr hget))

lemma only_after (h : M.Enclosed x inside door) (hg : Pc.Guards x inside door) (hM : M.Sound)
    (hd : M.Does l a rest pc new) (hes : M.sys.Transfers a x es)
    (hheld : 0 < ((M.sys.exec a).mutex x).heldBy c) :
    inside ((M.after a rest pc new).ctl c).pc = true := by
  obtain ⟨hrun, hothers⟩ := hM.place_after hd
  rw [hes.holds] at hheld
  by_cases hget : gained es x c = 0
  · have hold := h.only c (by omega)
    by_cases hc : c = M.sys.curr
    · subst hc
      rw [hrun]
      refine (does_leave hg hd hold).resolve_right fun ha => ?_
      obtain ⟨hz, ho⟩ := ReinMutex.heldBy_pos_iff.mp (h.running hM hold)
      have hback := hes.back ha hz ho
      have honce := h.once M.sys.curr
      omega
    · rwa [hothers c hc]
  · rcases hes.gets c hget with ⟨rfl, rfl⟩ | ⟨-, -, t, ht, rfl⟩
    · rw [hrun]
      exact (does_lock hg hd).2
    · rw [hothers _ fun he => hM.core.curr_not_waiting he.symm (by simp) ht]
      exact h.queued t ht

lemma queued_after (h : M.Enclosed x inside door) (hg : Pc.Guards x inside door) (hM : M.Sound)
    (hd : M.Does l a rest pc new) (hes : M.sys.Transfers a x es) {t : TaskPtr}
    (ht : t ∈ (M.sys.exec a).queue (.mutexWait x)) :
    inside ((M.after a rest pc new).ctl (some t)).pc = true := by
  obtain ⟨hrun, hothers⟩ := hM.place_after hd
  rcases hes.waits t ht with ht | ⟨rfl, hc⟩
  · rw [hothers _ fun he => hM.core.curr_not_waiting he.symm (by simp) ht]
    exact h.queued t ht
  · rw [← hc, hrun]
    exact (does_lock hg hd).2

lemma once_after (h : M.Enclosed x inside door) (hg : Pc.Guards x inside door)
    (hM : M.Sound) (hd : M.Does l a rest pc new) (hes : M.sys.Transfers a x es) :
    ((M.sys.exec a).mutex x).heldBy c ≤ 1 := by
  have honce := h.once c
  rw [hes.holds]
  by_cases hget : gained es x c = 0
  · omega
  · have hone := hes.once c
    have hzero : (M.sys.mutex x).heldBy c = 0 := by
      rcases hes.gets c hget with ⟨ha, rfl⟩ | ⟨-, ho, t, ht, rfl⟩
      · exact h.fresh hg hd ha
      · refine ReinMutex.heldBy_of_ne fun he => ?_
        exact hM.core.curr_not_waiting (ho.symm.trans he) (by simp) ht
    omega

theorem after (h : M.Enclosed x inside door) (hg : Pc.Guards x inside door) (hM : M.Sound)
    (hd : M.Does l a rest pc new) : (M.after a rest pc new).Enclosed x inside door := by
  obtain ⟨es, hes⟩ := Core.exec_transfers hM.core (hM.enabled hd) x (h.fresh hg hd)
  exact ⟨fun _ => h.holds_after hg hM hd hes, fun _ => h.only_after hg hM hd hes,
    fun _ => h.queued_after hg hM hd hes, fun _ => h.once_after hg hM hd hes, hes.free h.free⟩

lemma boot (b : BootMem) (hin : ∀ c, inside (b.abstract.ctl c).pc = false) :
    b.abstract.Enclosed x inside door := by
  have hfree : ∀ c, (b.abstract.sys.mutex x).heldBy c = 0 := ReinMutex.heldBy_free rfl
  refine ⟨fun c hc => ?_, fun c hc => ?_, fun t ht => ?_, fun c => ?_, fun _ => ⟨rfl, rfl⟩⟩
  · rw [hin] at hc
    cases hc
  · rw [hfree] at hc
    cases hc
  · cases ht
  · rw [hfree]
    exact Int.one_nonneg

end Machine.Enclosed

/-- Between the lock and the unlock of `get_alloc_desc`. -/
def Pc.critical : Pc → Bool
  | allocTest _ _ | allocClaim _ _ | allocUnlock _ _ => true
  | _ => false

/-- The start of the search. -/
def Pc.searchDoor : Pc → Bool
  | allocTest i _ => i == 1
  | _ => false

/-- The context owns the mutex of `cpu.c`. -/
def Core.InAlloc (K : Core) (c : Ctx) : Prop :=
  (K.mutex .gdtMutex).locker ≠ 0#32 ∧ (K.mutex .gdtMutex).owner = c

/-- The context waits for the mutex at the start of its search. -/
def Core.AtGate (K : Core) (c : Ctx) (pc : Pc) : Prop :=
  (∃ t ∈ K.queue (.mutexWait .gdtMutex), c = some t) ∧ ∃ k, pc = .allocTest 1 k

/-- Who is in the search holds the mutex of `cpu.c`, or waits for it at the start. -/
abbrev Machine.Guarded (M : Machine Core) : Prop :=
  M.Enclosed .gdtMutex Pc.critical Pc.searchDoor

lemma Core.inAlloc_iff {K : Core} {c : Ctx} :
    0 < (K.mutex .gdtMutex).heldBy c ↔ K.InAlloc c := ReinMutex.heldBy_pos_iff

namespace Pc

lemma searchDoor_iff {pc : Pc} : pc.searchDoor = true ↔ ∃ k, pc = .allocTest 1 k := by
  constructor
  · intro h
    cases pc with
    | allocTest i k =>
      obtain rfl : i = 1 := by simpa [searchDoor] using h
      exact ⟨k, rfl⟩
    | _ => cases h
  · rintro ⟨k, rfl⟩
    rfl

lemma guards_search : Guards .gdtMutex critical searchDoor := by
  refine ⟨by simp, rfl, fun op => by cases op <;> rfl, fun c p a pc pc' h hc => ?_,
    fun c p pc pc' h => ?_, fun c p a pc pc' h hc => ?_⟩
  · revert h
    fun_cases next c p pc <;> intro h <;> cases h <;>
      first
      | (cases hc; done)
      | exact Or.inl ⟨rfl, rfl⟩
      | exact Or.inr ⟨rfl, by simp, by simp⟩
  · revert h
    fun_cases next c p pc <;> intro h <;> cases h
    exact ⟨rfl, rfl⟩
  · revert h
    fun_cases next c p pc <;> intro h <;> cases h <;>
      first
      | (cases hc; done)
      | exact Or.inl rfl
      | exact Or.inr rfl

end Pc

namespace Machine.Guarded

variable {M : Machine Core} {l : Label} {a : Act} {rest : List Epilogue} {pc : Pc}
  {new : List TaskPtr} {c d : Ctx}

lemma boot (b : BootMem) : b.abstract.Guarded := by
  refine Enclosed.boot b fun c => ?_
  by_cases hc : c = none
  · simp [BootMem.abstract, BootMem.machine, hc, Pc.critical]
  · simp [BootMem.abstract, BootMem.machine, hc, Ctl.own, Pc.critical]

lemma guard (h : M.Guarded) (hc : (M.ctl c).pc.critical = true) :
    M.sys.InAlloc c ∨ M.sys.AtGate c (M.ctl c).pc :=
  (h.holds c hc).imp Core.inAlloc_iff.mp fun hgate => ⟨hgate.1, Pc.searchDoor_iff.mp hgate.2⟩

lemma inAlloc (h : M.Guarded) (hM : M.Sound) (hc : (M.ctl M.sys.curr).pc.critical = true) :
    M.sys.InAlloc M.sys.curr := Core.inAlloc_iff.mp (h.running hM hc)

lemma atStart (h : M.Guarded) (hM : M.Sound) (hc : (M.ctl M.sys.curr).pc.critical = true)
    (hd : d ≠ M.sys.curr) (hcrit : (M.ctl d).pc.critical = true) :
    ∃ k, (M.ctl d).pc = .allocTest 1 k := Pc.searchDoor_iff.mp (h.others hM hc hd hcrit)

lemma does_critical (hd : M.Does l a rest pc new) (hc : pc.critical = true) :
    (a = .lock .gdtMutex ∧ ∃ k, pc = .allocTest 1 k) ∨
      ((M.ctl M.sys.curr).pc.critical = true ∧ a ≠ .lock .gdtMutex ∧ a ≠ .unlock .gdtMutex) :=
  (Enclosed.does_inside Pc.guards_search hd hc).imp_left fun ⟨ha, hdoor⟩ =>
    ⟨ha, Pc.searchDoor_iff.mp hdoor⟩

theorem after (h : M.Guarded) (hM : M.Sound) (hd : M.Does l a rest pc new) :
    (M.after a rest pc new).Guarded := Enclosed.after h Pc.guards_search hM hd

end Machine.Guarded

end OsToyI386
