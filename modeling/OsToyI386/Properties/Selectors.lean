import OsToyI386.Scheduler.Boot
import OsToyI386.Scheduler.Calls
import OsToyI386.Scheduler.Holding
import OsToyI386.Scheduler.Search

/-!
# `get_alloc_desc` under preemption

While a context searches the table it holds the mutex, so the entries that were free when
it got the mutex are free until it claims one. Each call returns the lowest of them, and
no entry is handed out twice.
-/

namespace OsToyI386

open Lib

/-- The lowest free entry of the table, or `-1` if there is none. -/
structure LowestFree (gdt : Nat → SegmentDesc) (ret : Int) : Prop where
  none : ret = -1 ↔ ∀ j, 1 ≤ j → j < gdtTableSize → (gdt j).attr ≠ 0
  some : ret ≠ -1 → ∃ i, 1 ≤ i ∧ i < gdtTableSize ∧ ret = (i * 8 : Nat) ∧ (gdt i).attr = 0 ∧
    ∀ j, 1 ≤ j → j < i → (gdt j).attr ≠ 0

namespace BootMem

/-- In the step from `m₀` to `m₁` the context `c` gets the mutex of `cpu.c`, and it gets it no
more on the way to the end `m` of the run. It unlocks it `n` times on that way. -/
structure LastGets (b : BootMem) (ls : List Label) (m : Machine Sys) (c : Ctx) (n : Nat)
    (m₀ m₁ : Machine Sys) : Prop where
  run : ∃ ls₁ l ls₂, ls = ls₁ ++ l :: ls₂ ∧ b.Reaches ls₁ m₀ ∧ m₀.Step l m₁ ∧
    Run Machine.Step m₁ ls₂ m
  gets : ∃ es, m₁.sys.trace = m₀.sys.trace ++ es ∧ gained es .gdtMutex c = 1 ∧
    es.count (.unlock c .gdtMutex) = 0
  since : ∃ es, m.sys.trace = m₁.sys.trace ++ es ∧ gained es .gdtMutex c = 0 ∧
    es.count (.unlock c .gdtMutex) = n

/-- What the place of the context `c` in `get_alloc_desc` says about the table as it was when
the context got the mutex. -/
structure Tracks (b : BootMem) (ls : List Label) (m : Machine Sys) (c : Ctx) : Prop where
  test : ∀ i k, (m.ctl c).pc = .allocTest i k → 0 < (m.sys.mutex .gdtMutex).heldBy c →
    ∃ m₀ m₁, b.LastGets ls m c 0 m₀ m₁ ∧
      (∀ j, j < gdtTableSize → ((m₁.sys.gdt j).attr = 0 ↔ (m.sys.gdt j).attr = 0)) ∧
      ∀ j, 1 ≤ j → j < i → (m₁.sys.gdt j).attr ≠ 0
  claim : ∀ i k, (m.ctl c).pc = .allocClaim i k →
    ∃ m₀ m₁, b.LastGets ls m c 0 m₀ m₁ ∧ 1 ≤ i ∧ i < gdtTableSize ∧
      (m₁.sys.gdt i).attr = 0 ∧ ∀ j, 1 ≤ j → j < i → (m₁.sys.gdt j).attr ≠ 0
  unlock : ∀ ret k, (m.ctl c).pc = .allocUnlock ret k →
    ∃ m₀ m₁, b.LastGets ls m c 0 m₀ m₁ ∧ LowestFree m₁.sys.gdt ret
  back : ∀ ret k, (m.ctl c).pc = .allocReturn ret k →
    (∀ t ∈ m.sys.waiters (.mutex .gdtMutex), c ≠ some t) ∧
      ∃ m₀ m₁, b.LastGets ls m c 1 m₀ m₁ ∧ LowestFree m₁.sys.gdt ret

variable {b : BootMem} {ls : List Label} {m m' m₀ m₁ : Machine Sys} {l : Label} {c : Ctx}
  {n k : Nat} {es : List Event}

lemma LastGets.snoc (h : b.LastGets ls m c n m₀ m₁) (hs : m.Step l m')
    (htr : m'.sys.trace = m.sys.trace ++ es) (hget : gained es .gdtMutex c = 0)
    (hgive : es.count (.unlock c .gdtMutex) = k) :
    b.LastGets (ls ++ [l]) m' c (n + k) m₀ m₁ := by
  obtain ⟨ls₁, l₀, ls₂, rfl, hr, hs₀, hr₂⟩ := h.run
  obtain ⟨es₁, htr₁, hget₁, hgive₁⟩ := h.since
  refine ⟨⟨ls₁, l₀, ls₂ ++ [l], by simp, hr, hs₀, hr₂.snoc hs⟩, h.gets, es₁ ++ es, ?_, ?_, ?_⟩
  · rw [htr, htr₁, List.append_assoc]
  · rw [gained_append, hget₁, hget]
  · rw [List.count_append, hgive₁, hgive]

lemma lastGets_now (h : b.Reaches ls m) (hs : m.Step l m')
    (htr : m'.sys.trace = m.sys.trace ++ es) (hget : gained es .gdtMutex c = 1)
    (hgive : es.count (.unlock c .gdtMutex) = 0) : b.LastGets (ls ++ [l]) m' c 0 m m' :=
  ⟨⟨ls, l, [], rfl, h, hs, .nil m'⟩, ⟨es, htr, hget, hgive⟩, [], by simp, rfl, rfl⟩

lemma Reaches.issued (h : b.Reaches ls m) :
    ∃ M, m.Sim M ∧ M.Sound ∧ M.Guarded ∧ M.Marked ∧ M.Issued := by
  apply h.invariant (I := fun M => M.Guarded ∧ M.Marked ∧ M.Issued)
  · exact ⟨.boot b, .boot b, .boot b⟩
  · rintro M l a rest pc new hM ⟨hG, hMk, hI⟩ - hd
    exact ⟨hG.after hM hd, hMk.after hd, hI.after hM hG hMk hd⟩

end BootMem

namespace Machine

/-- A step from `m` to `m'` by the action `a`, with what is known before it. -/
structure Acts (m : Machine Sys) (M : Machine Core) (l : Label) (a : Act)
    (rest : List Epilogue) (pc : Pc) (new : List TaskPtr) (m' : Machine Sys)
    (es : List Event) : Prop where
  sim : m.Sim M
  sound : M.Sound
  guarded : M.Guarded
  marked : M.Marked
  issued : M.Issued
  does : M.Does l a rest pc new
  sim' : m'.Sim (M.after a rest pc new)
  transfers : M.sys.Transfers a .gdtMutex es

namespace Acts

variable {m m' : Machine Sys} {M : Machine Core} {l : Label} {a : Act} {rest : List Epilogue}
  {pc : Pc} {new : List TaskPtr} {es : List Event} {c : Ctx} {i : Nat} {k : AllocFor}

lemma trace (h : Acts m M l a rest pc new m' es) : m'.sys.trace = m.sys.trace ++ es := by
  rw [h.sim'.sys.trace, h.sim.sys.trace]
  exact h.transfers.trace

lemma holds (h : Acts m M l a rest pc new m' es) (c : Ctx) :
    (m'.sys.mutex .gdtMutex).heldBy c =
      (m.sys.mutex .gdtMutex).heldBy c + gained es .gdtMutex c -
        es.count (.unlock c .gdtMutex) := by
  rw [h.sim'.sys.mutex, h.sim.sys.mutex]
  exact h.transfers.holds c

lemma holds_iff (h : Acts m M l a rest pc new m' es) :
    0 < (m.sys.mutex .gdtMutex).heldBy c ↔ M.sys.InAlloc c := by
  rw [h.sim.sys.mutex]
  exact Core.inAlloc_iff

/-- While a context holds the mutex nobody else claims. -/
lemma not_claim (h : Acts m M l a rest pc new m' es) (hc : M.sys.InAlloc c)
    (hne : c ≠ M.sys.curr) : ∀ i, a ≠ .claim i := by
  rintro i rfl
  obtain ⟨⟨k, hpc⟩, -⟩ := h.issued.of_claim h.does
  have hin := h.guarded.inAlloc h.sound (by rw [hpc]; rfl)
  exact hne (hc.2.symm.trans hin.2)

lemma free_iff (h : Acts m M l a rest pc new m' es) (ha : ∀ i, a ≠ .claim i)
    (hi : i < gdtTableSize) : (m'.sys.gdt i).attr = 0 ↔ (m.sys.gdt i).attr = 0 := by
  have hgdt : m.sys.gdt = M.sys.gdt := congrArg Cpu.gdt h.sim.sys.cpu
  have hgdt' : m'.sys.gdt = (M.sys.exec a).gdt := congrArg Cpu.gdt h.sim'.sys.cpu
  rw [hgdt, hgdt']
  exact h.issued.free_iff h.marked h.does ha hi

lemma starts (h : Acts m M l a rest pc new m' es) (hget : gained es .gdtMutex c ≠ 0)
    (hcrit : (m'.ctl c).pc.critical = true) : ∃ k, (m'.ctl c).pc = .allocTest 1 k := by
  rw [h.sim'.ctl] at hcrit ⊢
  rcases h.transfers.gets c hget with ⟨rfl, hc⟩ | ⟨rfl, ho, t, ht, rfl⟩
  · rcases Machine.Sound.after_pc h.does c with hu | ⟨hne, -⟩ | ⟨-, hpc, -⟩
    · rw [hu] at hcrit
      cases hcrit
    · exact absurd hc hne
    · rw [hpc] at hcrit ⊢
      rcases Guarded.does_critical h.does hcrit with ⟨-, hk⟩ | ⟨-, hno, -⟩
      · exact hk
      · exact absurd rfl hno
  · have hne : some t ≠ M.sys.curr :=
      fun he => h.sound.core.curr_not_waiting he.symm (by simp) ht
    rcases Machine.Sound.after_pc h.does (some t) with hu | ⟨-, hpc⟩ | ⟨he, -⟩
    · rw [hu] at hcrit
      cases hcrit
    · rw [hpc] at hcrit ⊢
      rcases h.guarded.guard hcrit with hin | hgate
      · exact absurd (hin.2.symm.trans ho) hne
      · exact hgate.2
    · exact absurd he hne

end Acts

end Machine

namespace BootMem

variable {b : BootMem} {ls : List Label} {m m' m₀ m₁ : Machine Sys} {l : Label} {c : Ctx}

lemma Reaches.acts (h : b.Reaches ls m) (hs : m.Step l m') :
    ∃ M a rest pc new es, Machine.Acts m M l a rest pc new m' es := by
  obtain ⟨M, hsim, hM, hG, hMk, hI⟩ := h.issued
  obtain ⟨-, a, rest, pc, new, hd, rfl⟩ := Machine.step_iff.mp hs
  have hd' := hsim.does_iff.mp hd
  have he := hM.enabled hd'
  obtain ⟨es, hes⟩ := Core.exec_transfers hM.core he .gdtMutex (hG.fresh Pc.guards_search hd')
  exact ⟨M, a, rest, pc, new, es, hsim, hM, hG, hMk, hI, hd', hsim.after hM he, hes⟩

end BootMem

namespace Machine.Acts

variable {b : BootMem} {ls : List Label} {m m' m₀ m₁ : Machine Sys} {M : Machine Core}
  {l : Label} {a : Act} {rest : List Epilogue} {pc : Pc} {new : List TaskPtr} {es : List Event}
  {c : Ctx} {n i : Nat} {k : AllocFor}

lemma after_pc (h : Acts m M l a rest pc new m' es) (c : Ctx) :
    (m'.ctl c).pc = .user ∨ (c ≠ M.sys.curr ∧ (m'.ctl c).pc = (m.ctl c).pc) ∨
      (c = M.sys.curr ∧ (m'.ctl c).pc = pc) := by
  rw [h.sim'.ctl, h.sim.ctl]
  rcases Machine.Sound.after_pc h.does c with hu | hold | ⟨hc, hpc, -⟩
  · exact Or.inl hu
  · exact Or.inr (Or.inl hold)
  · exact Or.inr (Or.inr ⟨hc, hpc⟩)

lemma running_inAlloc (h : Acts m M l a rest pc new m' es)
    (hcrit : (m.ctl M.sys.curr).pc.critical = true) : M.sys.InAlloc M.sys.curr := by
  rw [h.sim.ctl] at hcrit
  exact h.guarded.inAlloc h.sound hcrit

lemma gave_none (h : Acts m M l a rest pc new m' es)
    (hno : ¬ (a = .unlock .gdtMutex ∧ c = M.sys.curr)) :
    es.count (.unlock c .gdtMutex) = 0 := by
  by_contra hgive
  exact hno (h.transfers.gives c hgive)

lemma unlock_leaves (h : Acts m M l a rest pc new m' es) (hcrit : (m'.ctl c).pc.critical = true) :
    ¬ (a = .unlock .gdtMutex ∧ c = M.sys.curr) := by
  rintro ⟨rfl, rfl⟩
  rw [h.sim'.ctl] at hcrit
  rcases Machine.Sound.after_pc h.does M.sys.curr with hu | ⟨hne, -⟩ | ⟨-, hpc, -⟩
  · rw [hu] at hcrit
    cases hcrit
  · exact hne rfl
  · rw [hpc] at hcrit
    rcases Guarded.does_critical h.does hcrit with ⟨ha, -⟩ | ⟨-, -, ha⟩
    · cases ha
    · exact ha rfl

lemma place (h : Acts m M l a rest pc new m' es) :
    (pc = (m.ctl M.sys.curr).pc ∧ (a = .timer ∨ ∃ e, a = .ret e)) ∨
      (m.ctl M.sys.curr).pc.next M.sys.curr M.sys.toCpu = some (a, pc) ∨
      ∃ op : Op, a = op.first.1 ∧ pc = op.first.2 := by
  rw [h.sim.ctl]
  rcases Issued.does_place h.does with hstay | hnext | ⟨op, ha, hpc, -⟩
  · exact Or.inl hstay
  · exact Or.inr (Or.inl hnext)
  · exact Or.inr (Or.inr ⟨op, ha, hpc⟩)

lemma lasts (h : Acts m M l a rest pc new m' es) (hs : m.Step l m')
    (hL : b.LastGets ls m c n m₀ m₁) (hget : gained es .gdtMutex c = 0)
    (hno : ¬ (a = .unlock .gdtMutex ∧ c = M.sys.curr)) :
    b.LastGets (ls ++ [l]) m' c n m₀ m₁ :=
  hL.snoc hs h.trace hget (h.gave_none hno)

lemma track_test (h : Acts m M l a rest pc new m' es) (hr : b.Reaches ls m)
    (ht : b.Tracks ls m c) (hs : m.Step l m') (hpc : (m'.ctl c).pc = .allocTest i k)
    (hheld : 0 < (m'.sys.mutex .gdtMutex).heldBy c) :
    ∃ m₀ m₁, b.LastGets (ls ++ [l]) m' c 0 m₀ m₁ ∧
      (∀ j, j < gdtTableSize → ((m₁.sys.gdt j).attr = 0 ↔ (m'.sys.gdt j).attr = 0)) ∧
      ∀ j, 1 ≤ j → j < i → (m₁.sys.gdt j).attr ≠ 0 := by
  have hcrit : (m'.ctl c).pc.critical = true := by rw [hpc]; rfl
  have hno := h.unlock_leaves hcrit
  by_cases hget : gained es .gdtMutex c = 0
  · -- the context has held the mutex before
    have hbefore : 0 < (m.sys.mutex .gdtMutex).heldBy c := by
      rw [h.holds, hget, h.gave_none hno] at hheld
      omega
    have hgo : ∀ i', (m.ctl c).pc = .allocTest i' k → (∀ i, a ≠ .claim i) →
        (i = i' ∨ i = i' + 1 ∧ i' < gdtTableSize ∧ (m.sys.gdt i').attr ≠ 0) →
        ∃ m₀ m₁, b.LastGets (ls ++ [l]) m' c 0 m₀ m₁ ∧
          (∀ j, j < gdtTableSize → ((m₁.sys.gdt j).attr = 0 ↔ (m'.sys.gdt j).attr = 0)) ∧
          ∀ j, 1 ≤ j → j < i → (m₁.sys.gdt j).attr ≠ 0 := by
      intro i' hold ha hi
      obtain ⟨m₀, m₁, hL, hfree, hused⟩ := ht.test i' k hold hbefore
      refine ⟨m₀, m₁, h.lasts hs hL hget hno, fun j hj => ?_, fun j hj hji => ?_⟩
      · exact (hfree j hj).trans (h.free_iff ha hj).symm
      · rcases hi with rfl | ⟨rfl, hlt, hne⟩
        · exact hused j hj hji
        · rcases Nat.lt_succ_iff_lt_or_eq.mp hji with hlt' | rfl
          · exact hused j hj hlt'
          · exact fun hz => hne ((hfree j hlt).mp hz)
    rcases h.after_pc c with hu | ⟨hne, hold⟩ | ⟨rfl, hnew⟩
    · rw [hu] at hpc
      cases hpc
    · exact hgo i (hold ▸ hpc) (h.not_claim (h.holds_iff.mp hbefore) hne) (Or.inl rfl)
    · rw [hnew] at hpc
      subst hpc
      rcases h.place with ⟨hold, ha⟩ | hnext | ⟨op, -, hop⟩
      · refine hgo i hold.symm ?_ (Or.inl rfl)
        rintro j rfl
        rcases ha with ha | ⟨e, ha⟩ <;> cases ha
      · rcases Pc.next_test hnext with ⟨rfl, hold, rfl⟩ | ⟨i', hold, rfl, rfl, hlt, hne⟩
        · -- the lock has blocked, but then it is somebody else's mutex
          exfalso
          have howner := (h.transfers.takes rfl hget).1
          have hnone : ((M.sys.exec (.lock .gdtMutex)).mutex .gdtMutex).heldBy M.sys.curr = 0 :=
            ReinMutex.heldBy_of_ne howner
          rw [h.sim'.sys.mutex] at hheld
          exact absurd hnone hheld.ne'
        · have hgdt : m.sys.gdt = M.sys.gdt := congrArg Cpu.gdt h.sim.sys.cpu
          exact hgo i' hold (by simp) (Or.inr ⟨rfl, hlt, hgdt ▸ hne⟩)
      · cases op <;> cases hop
  · -- the context gets the mutex now
    obtain ⟨k', hstart⟩ := h.starts hget hcrit
    rw [hpc] at hstart
    obtain ⟨rfl, -⟩ : i = 1 ∧ k = k' := by simpa using hstart
    have honce := h.transfers.once c
    exact ⟨m, m', BootMem.lastGets_now hr hs h.trace (by omega) (h.gave_none hno),
      fun j _ => Iff.rfl, fun j hj hji => by omega⟩

lemma got_before (h : Acts m M l a rest pc new m' es) (hcrit : (m'.ctl c).pc.critical = true)
    (hstart : ∀ k, (m'.ctl c).pc ≠ .allocTest 1 k) : gained es .gdtMutex c = 0 := by
  by_contra hget
  obtain ⟨k, hk⟩ := h.starts hget hcrit
  exact hstart k hk

/-- A context in the search was at the same place before, or its code has led it there. -/
lemma came (h : Acts m M l a rest pc new m' es) (hcrit : (m'.ctl c).pc.critical = true) :
    (m.ctl c).pc = (m'.ctl c).pc ∨
      c = M.sys.curr ∧ (m.ctl c).pc.next c M.sys.toCpu = some (a, (m'.ctl c).pc) := by
  rcases h.after_pc c with hu | ⟨-, hold⟩ | ⟨rfl, hnew⟩
  · rw [hu] at hcrit
    cases hcrit
  · exact Or.inl hold.symm
  · rw [hnew] at hcrit ⊢
    rcases h.place with ⟨hold, -⟩ | hnext | ⟨op, -, rfl⟩
    · exact Or.inl hold.symm
    · exact Or.inr ⟨rfl, hnext⟩
    · cases op <;> cases hcrit

lemma track_claim (h : Acts m M l a rest pc new m' es) (ht : b.Tracks ls m c) (hs : m.Step l m')
    (hpc : (m'.ctl c).pc = .allocClaim i k) :
    ∃ m₀ m₁, b.LastGets (ls ++ [l]) m' c 0 m₀ m₁ ∧ 1 ≤ i ∧ i < gdtTableSize ∧
      (m₁.sys.gdt i).attr = 0 ∧ ∀ j, 1 ≤ j → j < i → (m₁.sys.gdt j).attr ≠ 0 := by
  have hcrit : (m'.ctl c).pc.critical = true := by rw [hpc]; rfl
  have hno := h.unlock_leaves hcrit
  have hget := h.got_before hcrit (by simp [hpc])
  rcases h.came hcrit with hold | ⟨rfl, hnext⟩
  · obtain ⟨m₀, m₁, hL, hfound⟩ := ht.claim i k (hold.trans hpc)
    exact ⟨m₀, m₁, h.lasts hs hL hget hno, hfound⟩
  · rw [hpc] at hnext
    obtain ⟨hold, rfl, hlt, hz⟩ := Pc.next_toClaim hnext
    have hpos : 1 ≤ i := h.issued.test _ i k (h.sim.ctl ▸ hold)
    have hheld := h.holds_iff.mpr (h.running_inAlloc (by rw [hold]; rfl))
    have hgdt : m.sys.gdt = M.sys.gdt := congrArg Cpu.gdt h.sim.sys.cpu
    obtain ⟨m₀, m₁, hL, hfree, hused⟩ := ht.test i k hold hheld
    exact ⟨m₀, m₁, h.lasts hs hL hget hno, hpos, hlt, (hfree i hlt).mpr (hgdt ▸ hz), hused⟩

lemma track_unlock {ret : Int} (h : Acts m M l a rest pc new m' es) (ht : b.Tracks ls m c)
    (hs : m.Step l m') (hpc : (m'.ctl c).pc = .allocUnlock ret k) :
    ∃ m₀ m₁, b.LastGets (ls ++ [l]) m' c 0 m₀ m₁ ∧ LowestFree m₁.sys.gdt ret := by
  have hcrit : (m'.ctl c).pc.critical = true := by rw [hpc]; rfl
  have hno := h.unlock_leaves hcrit
  have hget := h.got_before hcrit (by simp [hpc])
  rcases h.came hcrit with hold | ⟨rfl, hnext⟩
  · obtain ⟨m₀, m₁, hL, hlow⟩ := ht.unlock ret k (hold.trans hpc)
    exact ⟨m₀, m₁, h.lasts hs hL hget hno, hlow⟩
  · rw [hpc] at hnext
    rcases Pc.next_toUnlock hnext with ⟨rfl, rfl, i, hold, hend⟩ | ⟨i, hold, rfl, rfl⟩
    · -- the table is exhausted
      have hheld := h.holds_iff.mpr (h.running_inAlloc (by rw [hold]; rfl))
      obtain ⟨m₀, m₁, hL, -, hused⟩ := ht.test i k hold hheld
      refine ⟨m₀, m₁, h.lasts hs hL hget hno, ⟨fun _ j hj hlt => ?_, fun _ => rfl⟩,
        fun hne => absurd rfl hne⟩
      exact hused j hj (by omega)
    · obtain ⟨m₀, m₁, hL, hpos, hlt, hz, hused⟩ := ht.claim i k hold
      refine ⟨m₀, m₁, h.lasts hs hL hget hno, ⟨fun hret => by omega, fun hall => ?_⟩,
        fun _ => ⟨i, hpos, hlt, rfl, hz, hused⟩⟩
      exact absurd hz (hall i hpos hlt)

lemma track_back {ret : Int} (h : Acts m M l a rest pc new m' es) (ht : b.Tracks ls m c)
    (hs : m.Step l m') (hpc : (m'.ctl c).pc = .allocReturn ret k) :
    (∀ t ∈ m'.sys.waiters (.mutex .gdtMutex), c ≠ some t) ∧
      ∃ m₀ m₁, b.LastGets (ls ++ [l]) m' c 1 m₀ m₁ ∧ LowestFree m₁.sys.gdt ret := by
  have hqueue : m.sys.waiters (.mutex .gdtMutex) = M.sys.queue (.mutexWait .gdtMutex) :=
    h.sim.sys.waiters _
  have hqueue' : m'.sys.waiters (.mutex .gdtMutex) =
      (M.sys.exec a).queue (.mutexWait .gdtMutex) := h.sim'.sys.waiters _
  have hrunning : ∀ t ∈ M.sys.queue (.mutexWait .gdtMutex), M.sys.curr ≠ some t :=
    fun t ht hc => h.sound.core.curr_not_waiting hc (by simp) ht
  rcases h.after_pc c with hu | ⟨hne, hold⟩ | ⟨rfl, hnew⟩
  · rw [hu] at hpc
    cases hpc
  · obtain ⟨hcalm, m₀, m₁, hL, hlow⟩ := ht.back ret k (hold ▸ hpc)
    rw [hqueue] at hcalm
    have hget : gained es .gdtMutex c = 0 := by
      by_contra hget
      rcases h.transfers.gets c hget with ⟨-, hc⟩ | ⟨-, -, t, ht, hct⟩
      · exact hne hc
      · exact hcalm t ht hct
    refine ⟨fun t ht => ?_, m₀, m₁, h.lasts hs hL hget fun hu => hne hu.2, hlow⟩
    rw [hqueue'] at ht
    rcases h.transfers.waits t ht with ht | ⟨-, hc⟩
    · exact hcalm t ht
    · exact fun hct => hne (hct.trans hc.symm)
  · rw [hnew] at hpc
    subst hpc
    have hlock : a ≠ .lock .gdtMutex := by
      rintro rfl
      rcases h.place with ⟨-, ha | ⟨e, ha⟩⟩ | hnext | ⟨op, -, hop⟩
      · cases ha
      · cases ha
      · cases (Pc.next_toReturn hnext).2
      · cases op <;> cases hop
    have hget : gained es .gdtMutex M.sys.curr = 0 := by
      by_contra hget
      rcases h.transfers.gets _ hget with ⟨ha, -⟩ | ⟨-, -, t, ht, hct⟩
      · exact hlock ha
      · exact hrunning t ht hct
    refine ⟨fun t ht => ?_, ?_⟩
    · rw [hqueue'] at ht
      rcases h.transfers.waits t ht with ht | ⟨ha, -⟩
      · exact hrunning t ht
      · exact absurd ha hlock
    · rcases h.place with ⟨hold, ha⟩ | hnext | ⟨op, -, hop⟩
      · obtain ⟨-, m₀, m₁, hL, hlow⟩ := ht.back ret k hold.symm
        refine ⟨m₀, m₁, h.lasts hs hL hget ?_, hlow⟩
        rintro ⟨rfl, -⟩
        rcases ha with ha | ⟨e, ha⟩ <;> cases ha
      · obtain ⟨hold, rfl⟩ := Pc.next_toReturn hnext
        obtain ⟨hz, ho⟩ := h.running_inAlloc (by rw [hold]; rfl)
        obtain ⟨m₀, m₁, hL, hlow⟩ := ht.unlock ret k hold
        exact ⟨m₀, m₁, hL.snoc hs h.trace hget (h.transfers.back rfl hz ho), hlow⟩
      · cases op <;> cases hop

end Machine.Acts

namespace BootMem

variable {b : BootMem} {ls : List Label} {m m' m₀ m₁ : Machine Sys} {l : Label} {c : Ctx}

lemma Tracks.step (h : b.Reaches ls m) (ht : b.Tracks ls m c) (hs : m.Step l m') :
    b.Tracks (ls ++ [l]) m' c := by
  obtain ⟨M, a, rest, pc, new, es, hA⟩ := h.acts hs
  exact ⟨fun i k hpc hheld => hA.track_test h ht hs hpc hheld,
    fun i k hpc => hA.track_claim ht hs hpc, fun ret k hpc => hA.track_unlock ht hs hpc,
    fun ret k hpc => hA.track_back ht hs hpc⟩

lemma Reaches.tracks (h : b.Reaches ls m) (c : Ctx) : b.Tracks ls m c := by
  refine Run.history (P := fun ls m => b.Tracks ls m c) ?_ ?_ h
  · have hpc : (b.machine.ctl c).pc = .user ∨ ∃ k, (b.machine.ctl c).pc = .allocLock k := by
      by_cases hc : c = none
      · exact Or.inr ⟨.tssInit b.idleReq, by simp [machine, hc, idleReq]⟩
      · exact Or.inl (by simp [machine, hc, Ctl.own])
    refine ⟨fun i k h => ?_, fun i k h => ?_, fun ret k h => ?_, fun ret k h => ?_⟩ <;>
      rcases hpc with hu | ⟨k', hl⟩ <;> simp_all
  · intro ls m l m' hr ht hs
    exact ht.step hr hs

lemma Reaches.heldBy (h : b.Reaches ls m) (c : Ctx) : (m.sys.mutex .gdtMutex).heldBy c =
    gained m.sys.trace .gdtMutex c - m.sys.trace.count (.unlock c .gdtMutex) := by
  refine Run.history (P := fun _ (m : Machine Sys) => (m.sys.mutex .gdtMutex).heldBy c =
    gained m.sys.trace .gdtMutex c - m.sys.trace.count (.unlock c .gdtMutex)) ?_ ?_ h
  · have hfree : (b.machine.sys.mutex .gdtMutex).heldBy c = 0 := ReinMutex.heldBy_free rfl c
    rw [hfree]
    rfl
  · intro ls m l m' hr ih hs
    obtain ⟨M, a, rest, pc, new, es, hA⟩ := Reaches.acts hr hs
    rw [hA.holds, ih, hA.trace, gained_append, List.count_append]
    omega

lemma LastGets.released (h : b.LastGets ls m c 1 m₀ m₁) (hr : b.Reaches ls m) :
    (m.sys.mutex .gdtMutex).heldBy c = (m₀.sys.mutex .gdtMutex).heldBy c := by
  obtain ⟨ls₁, l, ls₂, -, hr₀, -⟩ := h.run
  obtain ⟨es, htr, hget, hgive⟩ := h.gets
  obtain ⟨es', htr', hget', hgive'⟩ := h.since
  rw [hr.heldBy, hr₀.heldBy, htr', htr, gained_append, gained_append, List.count_append,
    List.count_append]
  omega

end BootMem

/-- The calls that begin with one of `get_alloc_desc`. -/
def Op.allocates : Op → Bool
  | taskInit _ | getAllocDesc _ | taskMainInit => true
  | _ => false

/-- The context is in `get_alloc_desc`. -/
def Pc.allocating : Pc → Bool
  | allocLock _ | allocTest _ _ | allocClaim _ _ | allocUnlock _ _ | allocReturn _ _ => true
  | _ => false

/-- `get_alloc_desc` returns to `c`. -/
def Event.endsAlloc (c : Ctx) : Event → Bool
  | allocReturn d _ => decide (d = c)
  | _ => false

def Act.endsAlloc (c : Ctx) : Act → Bool
  | note e => e.endsAlloc c
  | _ => false

section Ends

variable {M : Machine Core} {l : Label} {a : Act} {rest : List Epilogue} {pc pc' : Pc}
  {new : List TaskPtr} {c d : Ctx} {p : Cpu}

lemma Core.countP_endsAlloc (K : Core) (a : Act) (c : Ctx) :
    (K.exec a).trace.countP (Event.endsAlloc c) =
      K.trace.countP (Event.endsAlloc c) + (a.endsAlloc c).toNat := by
  by_cases hnote : ∃ e, a = .note e
  · obtain ⟨e, rfl⟩ := hnote
    have htr : (K.exec (.note e)).trace = K.trace ++ [e] := rfl
    rw [htr, List.countP_append, List.countP_singleton]
    cases he : e.endsAlloc c <;> simp [Act.endsAlloc, he]
  · obtain ⟨es, htr, hes⟩ := Core.exec_notes K a
    have hzero : es.countP (Event.endsAlloc c) = 0 := by
      refine List.countP_eq_zero.mpr fun e he hends => ?_
      rcases hes e he with hi | ha | ⟨b, -, rfl⟩
      · cases e <;> simp_all [Event.endsAlloc, Event.internal]
      · exact hnote ⟨e, ha⟩
      · cases hends
    have ha : a.endsAlloc c = false := by
      cases a with
      | note e => exact absurd ⟨e, rfl⟩ hnote
      | _ => rfl
    rw [htr, List.countP_append, hzero, ha]
    rfl

lemma Pc.next_allocating (h : pc.next c p = some (a, pc')) :
    pc'.allocating.toNat + (a.endsAlloc c).toNat = pc.allocating.toNat := by
  revert h
  fun_cases next c p pc <;> intro h <;> cases h <;>
    simp [allocating, Act.endsAlloc, Event.endsAlloc]

lemma Pc.next_endsAlloc (h : pc.next c p = some (a, pc')) (hd : d ≠ c) :
    a.endsAlloc d = false := by
  revert h
  fun_cases next c p pc <;> intro h <;> cases h <;>
    simp [Act.endsAlloc, Event.endsAlloc, Ne.symm hd]

lemma Op.first_allocating (op : Op) :
    op.first.2.allocating = op.allocates ∧ op.first.1.endsAlloc c = false := by
  cases op <;> exact ⟨rfl, rfl⟩

lemma Machine.Sound.allocating_after (hM : M.Sound) (hd : M.Does l a rest pc new) (c : Ctx) :
    (M.sys.exec a).trace.countP (Event.endsAlloc c) +
        ((M.after a rest pc new).ctl c).pc.allocating.toNat =
      M.sys.trace.countP (Event.endsAlloc c) + (M.ctl c).pc.allocating.toNat +
        (M.calls c l).countP Op.allocates := by
  rw [Core.countP_endsAlloc, hM.after_ctl hd]
  have hrun : M.running = M.sys.curr := rfl
  cases hd with
  | tick => by_cases hc : c = M.sys.curr <;> simp [hc, hrun, Machine.calls, Act.endsAlloc]
  | ret hp => by_cases hc : c = M.sys.curr <;> simp [hc, hrun, Machine.calls, Act.endsAlloc]
  | code hp hnext =>
    rw [hrun] at hnext
    by_cases hc : c = M.sys.curr
    · subst hc
      have hgoes := Pc.next_allocating hnext
      simp only [Machine.calls, List.countP_nil, if_pos]
      omega
    · rw [if_neg hc, Pc.next_endsAlloc hnext hc]
      simp [Machine.calls]
  | @call op hown hop =>
    rw [hrun] at hown
    rw [(op.first_allocating (c := c)).2]
    by_cases hc : c = M.sys.curr
    · subst hc
      rw [hown, if_pos rfl]
      simp only [Machine.calls, hrun, if_pos, List.countP_singleton]
      rw [(op.first_allocating (c := M.sys.curr)).1]
      cases op.allocates <;> rfl
    · simp [Machine.calls, hrun, hc, Ne.symm hc]

end Ends

variable {b : BootMem} {ls : List Label} {m : Machine Sys}

lemma BootMem.Reaches.allocated (h : b.Reaches ls m) (c : Ctx) :
    (b.machine.callsBy c ls).countP Op.allocates + (if c = none then 1 else 0) =
      m.sys.trace.countP (Event.endsAlloc c) + (m.ctl c).pc.allocating.toNat := by
  refine Run.history (P := fun ls m => (b.machine.callsBy c ls).countP Op.allocates +
    (if c = none then 1 else 0) =
      m.sys.trace.countP (Event.endsAlloc c) + (m.ctl c).pc.allocating.toNat) ?_ ?_ h
  · by_cases hc : c = none
    · subst hc
      rfl
    · simp [Machine.callsBy, Run.collect, machine, sys, Ctl.own, Pc.allocating, hc]
  · intro ls m l m' hr ih hs
    obtain ⟨M, -, hsim, hM⟩ := Reaches.sim hr
    obtain ⟨-, a, rest, pc, new, hd, rfl⟩ := Machine.step_iff.mp hs
    have hd' := hsim.does_iff.mp hd
    have hsim' : (m.after a rest pc new).Sim (M.after a rest pc new) :=
      hsim.after hM (hM.enabled hd')
    have hstep := hM.allocating_after hd' c
    have hcalls : m.calls c l = M.calls c l := by
      cases l with
      | call op => simp only [Machine.calls, hsim.running]
      | _ => rfl
    rw [Machine.callsBy, hr.collect_snoc (fun _ _ _ hs => hs), ← Machine.callsBy,
      List.countP_append, hsim'.sys.trace, hsim'.ctl, hcalls]
    rw [hsim.sys.trace, hsim.ctl] at ih
    refine Eq.trans ?_ hstep.symm
    omega

/-- `get_alloc_desc` never returns a selector twice, nor one of the kernel's. A call returns the
lowest selector that was free when its context got the mutex, and holds it no more. Each call,
the boot's for the idle task included, has returned once unless it goes on. -/
theorem selectors_handed_out_once (h : b.Reaches ls m) :
    (handedOut m.sys.trace).Nodup ∧
    (∀ c, (b.machine.callsBy c ls).countP Op.allocates + (if c = none then 1 else 0) =
      m.sys.trace.countP (Event.endsAlloc c) + (m.ctl c).pc.allocating.toNat) ∧
    (∀ sel ∈ handedOut m.sys.trace,
      sel ≠ 0 ∧ sel ≠ kernelSelectorCode ∧ sel ≠ kernelSelectorData) ∧
    ∀ l m' c ret, m.Step l m' → m'.sys.trace = m.sys.trace ++ [.allocReturn c ret] →
      ∃ m₀ m₁, b.LastGets ls m c 1 m₀ m₁ ∧ LowestFree m₁.sys.gdt ret ∧
        (m'.sys.mutex .gdtMutex).heldBy c = (m₀.sys.mutex .gdtMutex).heldBy c := by
  obtain ⟨M, hsim, -, -, -, hI⟩ := h.issued
  refine ⟨hsim.sys.trace ▸ hI.nodup, h.allocated, fun sel hsel => ?_,
    fun l m' c ret hs htr => ?_⟩
  · rw [hsim.sys.trace] at hsel
    obtain ⟨i, hlo, -, rfl, -⟩ := hI.used sel hsel
    simp only [kernelSelectorCode, kernelSelectorData]
    omega
  · obtain ⟨M, a, rest, pc, new, es, hA⟩ := h.acts hs
    obtain rfl : es = [.allocReturn c ret] := List.append_cancel_left (hA.trace.symm.trans htr)
    -- the step is the return of a call
    obtain ⟨es', htr', hes'⟩ := Core.exec_notes M.sys a
    obtain rfl := List.append_cancel_left (hA.transfers.trace.symm.trans htr')
    have ha : a = .note (.allocReturn c ret) := by
      rcases hes' _ (List.mem_singleton_self _) with hi | ha | ⟨b, -, hb⟩
      · cases hi
      · exact ha
      · cases hb
    obtain ⟨rfl, k, hpc⟩ := Machine.Issued.does_note hA.does ha
    rw [← hA.sim.ctl] at hpc
    obtain ⟨-, m₀, m₁, hL, hlow⟩ := (h.tracks M.sys.curr).back ret k hpc
    refine ⟨m₀, m₁, hL, hlow, ?_⟩
    rw [← hL.released h, hA.holds]
    simp [gained, Event.acquires]

/-- The main task has its selector. -/
theorem selectors_handed_out_once_main : ∃ ls m, BootMem.zeroed.Reaches ls m ∧
    m.sys.currTask = some .mainTask ∧ (handedOut m.sys.trace).Nodup := by
  obtain ⟨ls, m, tr, hm, hsim, -⟩ := BootMem.zeroed.reaches_main
  exact ⟨ls, m, hm.reaches, hsim.sys.curr, (selectors_handed_out_once hm.reaches).1⟩

end OsToyI386
