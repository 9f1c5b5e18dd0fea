import OsToyI386.Scheduler.Descriptors

/-!
# Every task has its own TSS descriptor

As long as each creation finds a free entry in the GDT, every task that can run owns the
entry its selector names, and the processor agrees with `curr_task`. The owners of the
entries are ghost state.
-/

namespace OsToyI386

open Lib

/-- To whom an entry of the GDT belongs. -/
inductive Owner
  | kernel
  /-- A context has claimed it. -/
  | ctx (c : Ctx)
  /-- It is the descriptor of the task's TSS. -/
  | task (t : TaskPtr)
  deriving DecidableEq

/-- The claims and the finished TSS move entries to new owners. -/
def ownAfter (own : Nat → Option Owner) (c : Ctx) : Act → Nat → Option Owner
  | .claim i => Function.update own i (some (.ctx c))
  | .fill sel r => Function.update own (sel / 8).toNat (some (.task r.task))
  | _ => own

namespace Core

/-- The entries and their owners; `loaded` is the task whose TSS the processor uses. -/
structure Table (K : Core) (own : Nat → Option Owner) (loaded : Option TaskPtr) : Prop where
  range : ∀ i o, own i = some o → 0 < i ∧ i < gdtTableSize
  kernel : own 1 = some .kernel ∧ own 2 = some .kernel
  used : ∀ i o, own i = some o → (K.gdt i).attr ≠ 0
  sel : ∀ i t, own i = some (.task t) → (K.task t).tssSel = (i * 8 : Nat)
  base : ∀ i t, own i = some (.task t) → (K.gdt i).base = K.tssAddr t
  attr : ∀ i t, own i = some (.task t) →
    (K.gdt i).attr = if loaded = some t then 0x8B#16 else 0x89#16
  loaded : ∀ t, loaded = some t → ∃ i, own i = some (.task t) ∧ K.tr = selOf i
  fault : K.halt ≠ some .cpuFault

namespace Table

variable {K K' : Core} {own : Nat → Option Owner} {loaded : Option TaskPtr} {c t : TaskPtr}
  {i j : Nat}

lemma unique (h : K.Table own loaded) (hi : own i = some (.task t))
    (hj : own j = some (.task t)) : i = j := by
  have := (h.sel i t hi).symm.trans (h.sel j t hj)
  omega

lemma still (h : K.Table own loaded) (hs : Still K K') : K'.Table own loaded := by
  refine ⟨h.range, h.kernel, ?_, fun i t ht => (hs.sel t).trans (h.sel i t ht), ?_, ?_, ?_,
    fun hf => h.fault (hs.fault hf)⟩
  · rw [hs.gdt]
    exact h.used
  · rw [hs.gdt, hs.tssAddr]
    exact h.base
  · rw [hs.gdt]
    exact h.attr
  · rw [hs.tr]
    exact h.loaded

lemma jump (h : K.Table own (some c)) (hc : K.curr = some c) (hs : Switches K K' t)
    (hj : own j = some (.task t)) :
    ∃ i, own i = some (.task c) ∧ i ≠ j ∧
      K'.gdt = Function.update (Function.update K.gdt i (K.gdt i).clearBusy) j (K.gdt j).setBusy ∧
      K'.tr = selOf j ∧ K'.tssAddr = K.tssAddr ∧ K'.halt ≠ some .cpuFault := by
  obtain ⟨i, hi, htr⟩ := h.loaded c rfl
  obtain ⟨p, hgdt, hptr, haddr, hf, hp⟩ := hs.jump
  have hct : c ≠ t := fun hct => hs.other (hct ▸ hc)
  have hij : i ≠ j := by
    rintro rfl
    exact hct (Owner.task.inj (Option.some.inj (hi.symm.trans hj)))
  have hav : (p.gdt j).isAvailableTss = true := by
    apply isAvailableTss_of_attr
    rw [hgdt, h.attr j t hj, if_neg (fun hct' => hct (Option.some.inj hct'))]
  have hjump := farJump_gdt (h.range i _ hi).2 (h.range j _ hj).1 (h.range j _ hj).2 hij
    (hptr.trans htr) hav
  have hp' : K'.toCpu = farJump (selOf j) p := by
    rw [hp, h.sel j t hj]
    rfl
  refine ⟨i, hi, hij, ?_, ?_, ?_, ?_⟩
  · rw [hp', hjump.1, hgdt]
  · rw [hp', hjump.2.1]
  · rw [hp', hjump.2.2.1, haddr]
  · rw [hp', hjump.2.2.2]
    exact fun hh => h.fault (hf hh)

lemma switch (h : K.Table own (some c)) (hc : K.curr = some c) (hs : Switches K K' t)
    (hj : own j = some (.task t)) : K'.Table own (some t) := by
  obtain ⟨i, hi, hij, hgdt, htr, haddr, hfault⟩ := h.jump hc hs hj
  have hct : c ≠ t := fun hct => hs.other (hct ▸ hc)
  have hai := h.attr i c hi
  have haj := h.attr j t hj
  rw [if_pos rfl] at hai
  rw [if_neg (fun hh => hct (Option.some.inj hh))] at haj
  have hi' : (K'.gdt i).attr = 0x89#16 := by
    rw [hgdt, Function.update_of_ne hij, Function.update_self, attr_clearBusy hai]
  have hj' : (K'.gdt j).attr = 0x8B#16 := by
    rw [hgdt, Function.update_self, attr_setBusy haj]
  have hk : ∀ k, k ≠ i → k ≠ j → K'.gdt k = K.gdt k := by
    intro k hki hkj
    rw [hgdt, Function.update_of_ne hkj, Function.update_of_ne hki]
  refine ⟨h.range, h.kernel, fun k o ho => ?_, fun k u hu => (hs.sel u).trans (h.sel k u hu),
    fun k u hu => ?_, fun k u hu => ?_, fun u hu => ?_, hfault⟩
  · by_cases hki : k = i
    · rw [hki, hi']
      decide
    · by_cases hkj : k = j
      · rw [hkj, hj']
        decide
      · rw [hk k hki hkj]
        exact h.used k o ho
  · rw [haddr, ← h.base k u hu, hgdt]
    by_cases hkj : k = j
    · rw [hkj, Function.update_self, base_setBusy]
    · by_cases hki : k = i
      · rw [hki, Function.update_of_ne hij, Function.update_self, base_clearBusy]
      · rw [Function.update_of_ne hkj, Function.update_of_ne hki]
  · by_cases hut : u = t
    · subst hut
      rw [if_pos rfl, h.unique hu hj, hj']
    · have hkj : k ≠ j := by
        rintro rfl
        exact hut (Owner.task.inj (Option.some.inj (hu.symm.trans hj)))
      rw [if_neg (fun hh => hut (Option.some.inj hh).symm)]
      by_cases hki : k = i
      · rw [hki, hi']
      · have huc : u ≠ c := by
          rintro rfl
          exact hki (h.unique hu hi)
        rw [hk k hki hkj, h.attr k u hu, if_neg (fun hh => huc (Option.some.inj hh).symm)]
  · rw [← Option.some.inj hu]
    exact ⟨j, hj, htr⟩

lemma writeTr (h : K.Table own none) (hj : own j = some (.task .mainTask)) :
    (K.exec .writeTr).gdt = Function.update K.gdt j (K.gdt j).setBusy ∧
      (K.exec .writeTr).Table own (some .mainTask) := by
  have haj := h.attr j _ hj
  rw [if_neg (by simp)] at haj
  have hsel : BitVec.ofInt 16 (K.task .mainTask).tssSel = selOf j := by
    rw [h.sel j _ hj]
    rfl
  obtain ⟨hpos, hlt⟩ := h.range j _ hj
  have hcpu : (K.exec .writeTr).toCpu =
      { K.toCpu.setDesc j (K.gdt j).setBusy with tr := selOf j } := by
    simp [exec, cpu, OsToyI386.writeTr, hsel, selInGdt_selOf hpos hlt, selIndex_selOf hlt,
      isAvailableTss_of_attr haj]
  have htask : (K.exec .writeTr).task = K.task := rfl
  have hgdt : (K.exec .writeTr).gdt = Function.update K.gdt j (K.gdt j).setBusy := by
    rw [hcpu]
    rfl
  have hk : ∀ k, k ≠ j → (K.exec .writeTr).gdt k = K.gdt k := by
    intro k hkj
    rw [hgdt, Function.update_of_ne hkj]
  have hj' : (K.exec .writeTr).gdt j = (K.gdt j).setBusy := by
    rw [hgdt, Function.update_self]
  refine ⟨hgdt, h.range, h.kernel, fun k o ho => ?_, fun k u hu => htask ▸ h.sel k u hu,
    fun k u hu => ?_, fun k u hu => ?_, fun u hu => ?_, ?_⟩
  · by_cases hkj : k = j
    · rw [hkj, hj', attr_setBusy haj]
      decide
    · rw [hk k hkj]
      exact h.used k o ho
  · have haddr : (K.exec .writeTr).tssAddr = K.tssAddr := by rw [hcpu]; rfl
    rw [haddr, ← h.base k u hu]
    by_cases hkj : k = j
    · rw [hkj, hj', base_setBusy]
    · rw [hk k hkj]
  · by_cases hkj : k = j
    · subst hkj
      rw [hj', attr_setBusy haj, Owner.task.inj (Option.some.inj (hu.symm.trans hj)), if_pos rfl]
    · have hum : u ≠ .mainTask := fun hum => hkj (h.unique hu (hum ▸ hj))
      rw [hk k hkj, h.attr k u hu, if_neg (by simp),
        if_neg (fun hh => hum (Option.some.inj hh).symm)]
  · rw [← Option.some.inj hu]
    exact ⟨j, hj, by rw [hcpu]⟩
  · rw [hcpu]
    exact h.fault

lemma claim (h : K.Table own loaded) (hpos : 0 < i) (hlt : i < gdtTableSize)
    (hfree : (K.gdt i).attr = 0) (c : Ctx) :
    (K.exec (.claim i)).Table (Function.update own i (some (.ctx c))) loaded := by
  have hnone : own i = none := by
    by_contra hne
    obtain ⟨o, ho⟩ := Option.ne_none_iff_exists'.mp hne
    exact h.used i o ho hfree
  have hne : ∀ k o, own k = some o → k ≠ i := by
    rintro k o ho rfl
    rw [hnone] at ho
    cases ho
  have hgdt : ∀ k, k ≠ i → (K.exec (.claim i)).gdt k = K.gdt k := by
    intro k hk
    simp [exec, cpu, claimDesc, Cpu.setDesc, hk]
  have hold : ∀ k t, Function.update own i (some (.ctx c)) k = some (.task t) →
      k ≠ i ∧ own k = some (.task t) := by
    intro k t ht
    by_cases hk : k = i
    · subst hk
      simp at ht
    · rw [Function.update_of_ne hk] at ht
      exact ⟨hk, ht⟩
  refine ⟨fun k o ho => ?_, ?_, fun k o ho => ?_, fun k t ht => h.sel k t (hold k t ht).2,
    fun k t ht => ?_, fun k t ht => ?_, fun t ht => ?_, h.fault⟩
  · by_cases hk : k = i
    · rw [hk]
      exact ⟨hpos, hlt⟩
    · rw [Function.update_of_ne hk] at ho
      exact h.range k o ho
  · rw [Function.update_of_ne (hne 1 _ h.kernel.1), Function.update_of_ne (hne 2 _ h.kernel.2)]
    exact h.kernel
  · by_cases hk : k = i
    · rw [hk]
      simp [exec, cpu, claimDesc, Cpu.setDesc, segPPresent]
    · rw [Function.update_of_ne hk] at ho
      rw [hgdt k hk]
      exact h.used k o ho
  · rw [hgdt k (hold k t ht).1]
    exact h.base k t (hold k t ht).2
  · rw [hgdt k (hold k t ht).1]
    exact h.attr k t (hold k t ht).2
  · obtain ⟨k, hk, htr⟩ := h.loaded t ht
    exact ⟨k, by rw [Function.update_of_ne (hne k _ hk), hk], htr⟩

lemma segSet (h : K.Table own loaded) (base limit : BitVec 32) {attr : BitVec 16} {c : Ctx}
    (hi : own i = some (.ctx c)) (hattr : attr.getLsbD 7 = true) :
    (K.exec (.segSet (i * 8 : Nat) base limit attr)).gdt =
        Function.update K.gdt i (segmentDesc base limit attr) ∧
      (K.exec (.segSet (i * 8 : Nat) base limit attr)).Table own loaded := by
  have hgdt : (K.exec (.segSet (i * 8 : Nat) base limit attr)).gdt =
      Function.update K.gdt i (segmentDesc base limit attr) := by
    have hidx : ((i * 8 : Nat) / 8 : Int).toNat = i := by omega
    simp only [exec, cpu, setSegment, segmentDescSet, hidx]
  have hk : ∀ k t, own k = some (.task t) → k ≠ i := by
    rintro k t ht rfl
    rw [hi] at ht
    cases ht
  refine ⟨hgdt, h.range, h.kernel, fun k o ho => ?_, h.sel, fun k t ht => ?_, fun k t ht => ?_,
    h.loaded, h.fault⟩
  · rw [hgdt]
    by_cases hki : k = i
    · rw [hki, Function.update_self]
      exact ne_zero_of_bit (segmentDesc_attr hattr)
    · rw [Function.update_of_ne hki]
      exact h.used k o ho
  · rw [hgdt, Function.update_of_ne (hk k t ht)]
    exact h.base k t ht
  · rw [hgdt, Function.update_of_ne (hk k t ht)]
    exact h.attr k t ht

lemma fill (h : K.Table own loaded) {c : Ctx} {r : InitReq} (hi : own i = some (.ctx c))
    (hdesc : K.gdt i = tssDesc (K.tssAddr r.task)) (hnew : ∀ k, own k ≠ some (.task r.task)) :
    (K.exec (.fill (i * 8 : Nat) r)).Table
      (Function.update own i (some (.task r.task))) loaded := by
  have hloaded : loaded ≠ some r.task := by
    intro hl
    obtain ⟨k, hk, -⟩ := h.loaded _ hl
    exact hnew k hk
  have hold : ∀ k t, Function.update own i (some (.task r.task)) k = some (.task t) →
      (k = i ∧ t = r.task) ∨ (t ≠ r.task ∧ own k = some (.task t)) := by
    intro k t ht
    by_cases hk : k = i
    · subst hk
      rw [Function.update_self] at ht
      exact Or.inl ⟨rfl, (Owner.task.inj (Option.some.inj ht)).symm⟩
    · rw [Function.update_of_ne hk] at ht
      exact Or.inr ⟨fun htr => hnew k (htr ▸ ht), ht⟩
  have hkeep : ∀ k o, own k = some o → o ≠ .ctx c → k ≠ i := by
    rintro k o ho hne rfl
    exact hne (Option.some.inj (ho.symm.trans hi))
  refine ⟨fun k o ho => ?_, ?_, fun k o ho => ?_, fun k t ht => ?_, fun k t ht => ?_,
    fun k t ht => ?_, fun t ht => ?_, h.fault⟩
  · by_cases hk : k = i
    · rw [hk]
      exact h.range i _ hi
    · rw [Function.update_of_ne hk] at ho
      exact h.range k o ho
  · rw [Function.update_of_ne (hkeep 1 _ h.kernel.1 (by simp)),
      Function.update_of_ne (hkeep 2 _ h.kernel.2 (by simp))]
    exact h.kernel
  · by_cases hk : k = i
    · rw [hk]
      exact h.used i _ hi
    · rw [Function.update_of_ne hk] at ho
      exact h.used k o ho
  · rcases hold k t ht with ⟨rfl, rfl⟩ | ⟨hne, hk⟩
    · simp [exec, setTask]
    · simpa [exec, setTask, cpu, hne] using h.sel k t hk
  · rcases hold k t ht with ⟨rfl, rfl⟩ | ⟨hne, hk⟩
    · exact (congrArg SegmentDesc.base hdesc).trans (tssDesc_base _)
    · exact h.base k t hk
  · rcases hold k t ht with ⟨rfl, rfl⟩ | ⟨hne, hk⟩
    · rw [if_neg hloaded]
      exact (congrArg SegmentDesc.attr hdesc).trans (tssDesc_attr _)
    · exact h.attr k t hk
  · obtain ⟨k, hk, htr⟩ := h.loaded t ht
    exact ⟨k, by rw [Function.update_of_ne (hkeep k _ hk (by simp)), hk], htr⟩

end Table

end Core

namespace Pc

/-- The return value of `get_alloc_desc` that a context still carries. -/
def holding : Pc → Option Int
  | allocUnlock ret _ | allocReturn ret _ | directSet ret _ | tssInitSet ret _
  | tssInitFill ret _ => some ret
  | _ => none

/-- The creation whose TSS is not filled yet. -/
def unfilled : Pc → Option InitReq
  | taskInitName _ | taskInitReady _ => none
  | pc => pc.unborn

/-- The creation with a valid name whose TSS is filled. -/
def filled : Pc → Option InitReq
  | taskInitName r => if r.nameOk then some r else none
  | taskInitReady r => some r
  | taskInitReturn r ret => if ret = 0 then some r else none
  | _ => none

/-- The attributes of the descriptor that a context's own code will set. -/
def segment : Pc → Option (BitVec 16)
  | allocLock k | allocTest _ k | allocClaim _ k | allocUnlock _ k | allocReturn _ k =>
    match k with
    | .tssInit _ => none
    | .direct seg => seg.map fun x => x.2.2
  | directSet _ seg => seg.map fun x => x.2.2
  | _ => none

end Pc

/-- Some entry from `i` on is free. -/
def Core.Room (K : Core) (i : Nat) : Prop :=
  ∃ j, i ≤ j ∧ j < gdtTableSize ∧ (K.gdt j).attr = 0

/-- What a context at a place has got from the GDT so far. -/
structure Core.Carries (K : Core) (own : Nat → Option Owner) (c : Ctx) (pc : Pc) : Prop where
  holds : ∀ sel, pc.holding = some sel → 0 ≤ sel →
    ∃ i, sel = (i * 8 : Nat) ∧ own i = some (.ctx c)
  found : ∀ sel r, pc.holding = some sel → pc.unfilled = some r → r.nameOk = true → 0 ≤ sel
  set : ∀ sel r, pc = .tssInitFill sel r → ∃ i, sel = (i * 8 : Nat) ∧ own i = some (.ctx c) ∧
    K.gdt i = tssDesc (K.tssAddr r.task)
  test : ∀ i k, pc = .allocTest i k → 1 ≤ i
  room : ∀ i r, pc = .allocTest i (.tssInit r) → 2 ≤ i → r.nameOk = true → K.Room i
  claim : ∀ i k, pc = .allocClaim i k → 1 ≤ i ∧ i < gdtTableSize ∧ (K.gdt i).attr = 0
  filled : ∀ r, pc.filled = some r → ∃ i, own i = some (.task r.task)
  unfilled : ∀ r, pc.unfilled = some r → ∀ i, own i ≠ some (.task r.task)
  refused : ∀ r ret, pc = .taskInitReturn r ret → r.nameOk = true → ret = 0
  present : ∀ attr, pc.segment = some attr → attr.getLsbD 7 = true

namespace Core.Carries

variable {K K' : Core} {own own' : Nat → Option Owner} {c : Ctx} {pc pc' : Pc} {a : Act}

lemma empty (h1 : pc.holding = none) (h2 : pc.unfilled = none) (h3 : pc.filled = none)
    (h4 : pc.segment = none) (h5 : pc.critical = false)
    (h6 : ∀ r ret, pc = .taskInitReturn r ret → r.nameOk = true → ret = 0) :
    K.Carries own c pc := by
  refine ⟨by simp [h1], by simp [h1], ?_, ?_, ?_, ?_, by simp [h3], by simp [h2], h6,
    by simp [h4]⟩
  · rintro sel r rfl
    cases h1
  · rintro i k rfl
    cases h5
  · rintro i r rfl
    cases h5
  · rintro i k rfl
    cases h5

lemma frame (h : K.Carries own c pc) (hown : ∀ i, own i = some (.ctx c) → own' i = some (.ctx c))
    (htask : ∀ i t, own i = some (.task t) → own' i = some (.task t))
    (hnew : ∀ r, pc.unfilled = some r → ∀ i, own' i = some (.task r.task) →
      own i = some (.task r.task))
    (hgdt : ∀ i, own i = some (.ctx c) → K'.gdt i = K.gdt i) (haddr : K'.tssAddr = K.tssAddr)
    (hfree : (∀ j, (K.gdt j).attr = 0 → (K'.gdt j).attr = 0) ∨
      (pc.critical = true → ∃ k, pc = .allocTest 1 k)) : K'.Carries own' c pc := by
  refine ⟨fun sel hs hpos => ?_, h.found, fun sel r hr => ?_, h.test, fun i r hr hi hok => ?_,
    fun i k hk => ?_, fun r hr => ?_, fun r hr i ho => ?_, h.refused, h.present⟩
  · obtain ⟨i, hi, ho⟩ := h.holds sel hs hpos
    exact ⟨i, hi, hown i ho⟩
  · obtain ⟨i, hi, ho, hd⟩ := h.set sel r hr
    exact ⟨i, hi, hown i ho, by rw [hgdt i ho, haddr, hd]⟩
  · rcases hfree with hfree | hgate
    · obtain ⟨j, hij, hj, hz⟩ := h.room i r hr hi hok
      exact ⟨j, hij, hj, hfree j hz⟩
    · obtain ⟨k, hk⟩ := hgate (by rw [hr]; rfl)
      rw [hr] at hk
      cases hk
      omega
  · rcases hfree with hfree | hgate
    · obtain ⟨h1, h2, hz⟩ := h.claim i k hk
      exact ⟨h1, h2, hfree i hz⟩
    · obtain ⟨k', hk'⟩ := hgate (by rw [hk]; rfl)
      rw [hk] at hk'
      cases hk'
  · obtain ⟨i, ho⟩ := h.filled r hr
    exact ⟨i, htask i _ ho⟩
  · exact h.unfilled r hr i (hnew r hr i ho)

/-- The code goes on with what it carries, where nothing is set up. At the start of a
search there must be room. -/
lemma advance (h : K.Carries own c pc) {p : Cpu} (hnext : pc.next c p = some (a, pc'))
    (ha : setsUp a = false) (hp : a = .nop → p = K.toCpu)
    (hroom : ∀ r, pc = .allocTest 1 (.tssInit r) → r.nameOk = true → K.Room 1) :
    K.Carries own c pc' := by
  revert hnext
  fun_cases Pc.next c p pc <;> intro hnext <;> cases hnext <;>
    first
    | (cases ha; done)
    | (refine .empty rfl rfl rfl rfl rfl ?_; rintro _ _ ⟨⟩; done)
    | skip
  · -- the search begins
    refine ⟨by simp [Pc.holding], by simp [Pc.holding], by simp, fun i k hk => ?_,
      fun i r hr hi => ?_, by simp, by simp [Pc.filled], h.unfilled, by simp, h.present⟩
    · cases hk
      exact le_rfl
    · cases hr
      omega
  · -- a free entry is found
    rename_i i k hlt hz
    refine ⟨by simp [Pc.holding], by simp [Pc.holding], by simp, by simp, by simp,
      fun j k' hk => ?_, by simp [Pc.filled], h.unfilled, by simp, h.present⟩
    cases hk
    exact ⟨h.test _ _ rfl, hlt, hp rfl ▸ hz⟩
  · -- the search goes on
    rename_i i k hlt hz
    refine ⟨by simp [Pc.holding], by simp [Pc.holding], by simp, fun j k' hk => ?_,
      fun j r hr hj hok => ?_, by simp, by simp [Pc.filled], h.unfilled, by simp, h.present⟩
    · cases hk
      omega
    · cases hr
      have hi := h.test _ _ rfl
      have hfrom : K.Room i := by
        by_cases h1 : i = 1
        · subst h1
          exact hroom r rfl hok
        · exact h.room i r rfl (by omega) hok
      obtain ⟨j, hij, hj', hfree⟩ := hfrom
      have hne : i ≠ j := by
        rintro rfl
        exact hz (hp rfl ▸ hfree)
      exact ⟨j, by omega, hj', hfree⟩
  · -- no entry is free
    rename_i i k hlt
    refine ⟨fun sel hs hpos => ?_, fun sel r hs hr hok => ?_, by simp, by simp, by simp, by simp,
      by simp [Pc.filled], h.unfilled, by simp, h.present⟩
    · cases hs
      omega
    · cases k with
      | direct seg => cases hr
      | tssInit r' =>
        cases hr
        rw [gdtTableSize] at hlt
        obtain ⟨j, hij, hj, -⟩ := h.room i r rfl (by omega) hok
        rw [gdtTableSize] at hj
        omega
  · exact ⟨h.holds, h.found, by simp, by simp, by simp, by simp, by simp [Pc.filled], h.unfilled,
      by simp, h.present⟩
  · exact ⟨h.holds, h.found, by simp, by simp, by simp, by simp, by simp [Pc.filled], h.unfilled,
      by simp, by simp [Pc.segment]⟩
  · exact ⟨h.holds, by simp [Pc.unfilled, Pc.unborn], by simp, by simp, by simp, by simp,
      by simp [Pc.filled], by simp [Pc.unfilled, Pc.unborn], by simp, h.present⟩
  · -- `tss_init` fails: only an invalid name gets here
    rename_i sel r hneg
    refine ⟨by simp [Pc.holding], by simp [Pc.holding], by simp, by simp, by simp, by simp,
      fun r' hr => ?_, by simp [Pc.unfilled], by simp, by simp [Pc.segment]⟩
    simp only [Pc.filled] at hr
    split at hr
    · rename_i hok
      have := h.found sel r rfl rfl hok
      omega
    · cases hr
  · -- the name is accepted
    rename_i r hok
    refine ⟨by simp [Pc.holding], by simp [Pc.holding], by simp, by simp, by simp, by simp,
      fun r' hr => h.filled r' (by rw [← hr]; simp [Pc.filled, hok]), by simp [Pc.unfilled],
      by simp, by simp [Pc.segment]⟩
  · -- the name is refused
    rename_i r hbad
    refine .empty rfl rfl rfl rfl rfl fun r' ret hr hok => ?_
    cases hr
    exact absurd hok hbad
  · exact ⟨by simp [Pc.holding], by simp [Pc.holding], by simp, by simp, by simp, by simp,
      h.filled, by simp [Pc.unfilled, Pc.unborn], by simp, by simp [Pc.segment]⟩
  · exact ⟨by simp [Pc.holding], by simp [Pc.holding], by simp, by simp, by simp, by simp,
      h.filled, by simp [Pc.unfilled, Pc.unborn], by simp, by simp [Pc.segment]⟩

end Core.Carries

/-! ### The invariant -/

/-- The task whose TSS the processor uses: at boot the main task's, once `write_tr` is
done. -/
def Machine.loaded (M : Machine Core) : Option TaskPtr :=
  match M.sys.curr with
  | some c => some c
  | none => if (M.ctl none).pc = .mainCurr then some .mainTask else none

structure Machine.Wired (M : Machine Core) (own : Nat → Option Owner) : Prop where
  table : M.sys.Table own M.loaded
  carries : ∀ c, M.sys.Carries own c (M.ctl c).pc
  queued : ∀ t ∈ M.sys.tasks, ∃ i, own i = some (.task t)
  idle : (∀ r, (M.ctl none).pc.creation = some r → r.task ≠ .idleTask) →
    ∃ i, own i = some (.task .idleTask)
  fresh : ∀ t, t ∉ M.started → ∀ i, own i ≠ some (.task t)
  idleName : ∀ c r, (M.ctl c).pc.creation = some r → r.task = .idleTask → r.nameOk = true
  bootDone : M.sys.curr ≠ none → M.ctl none = .own

/-- When a creation with a valid name begins its search, the GDT has a free entry. -/
def Machine.FindsRoom {σ : Type} [Kernel σ] (m : Machine σ) : Prop :=
  ∀ r, m.ctl m.running = ⟨[], .allocTest 1 (.tssInit r)⟩ → r.nameOk = true →
    ∃ j, 1 ≤ j ∧ j < gdtTableSize ∧ ((Kernel.cpu m.sys).gdt j).attr = 0

namespace Pc

variable {c : Ctx} {p : Cpu} {a : Act} {pc pc' : Pc} {r : InitReq}

lemma next_ready {t : TaskPtr} (h : pc.next c p = some (.ready t, pc')) :
    ∃ r, pc = .taskInitReady r ∧ r.task = t := by
  revert h
  fun_cases next c p pc <;> intro h <;> cases h
  exact ⟨_, rfl, rfl⟩

lemma next_claim {i : Nat} (h : pc.next c p = some (.claim i, pc')) :
    ∃ k, pc = .allocClaim i k ∧ pc' = .allocUnlock (i * 8 : Nat) k := by
  revert h
  fun_cases next c p pc <;> intro h <;> cases h
  exact ⟨_, rfl, rfl⟩

lemma next_segSet {sel : Int} {base limit : BitVec 32} {attr : BitVec 16}
    (h : pc.next c p = some (.segSet sel base limit attr, pc')) :
    0 ≤ sel ∧ ((pc = .directSet sel (some (base, limit, attr)) ∧ pc' = .user) ∨
      ∃ r, pc = .tssInitSet sel r ∧ pc' = .tssInitFill sel r ∧
        segmentDesc base limit attr = tssDesc (p.tssAddr r.task) ∧ attr.getLsbD 7 = true) := by
  revert h
  fun_cases next c p pc <;> intro h <;> cases h
  · rename_i hsel
    exact ⟨Int.not_lt.mp hsel, Or.inl ⟨rfl, rfl⟩⟩
  · rename_i r hsel
    exact ⟨Int.not_lt.mp hsel, Or.inr ⟨r, rfl, rfl, rfl, by decide⟩⟩

lemma next_fill {sel : Int} (h : pc.next c p = some (.fill sel r, pc')) :
    pc = .tssInitFill sel r ∧ pc' = .taskInitName r := by
  revert h
  fun_cases next c p pc <;> intro h <;> cases h
  exact ⟨rfl, rfl⟩

lemma next_writeTr (h : pc.next c p = some (.writeTr, pc')) :
    pc = .mainTr ∧ pc' = .mainCurr := by
  revert h
  fun_cases next c p pc <;> intro h <;> cases h
  exact ⟨rfl, rfl⟩

lemma next_over (h : pc.next c p = some (a, pc')) (hr : pc.creation = some r)
    (hover : pc'.creation ≠ some r) : ∃ ret, pc = .taskInitReturn r ret := by
  revert h
  fun_cases next c p pc <;> intro h <;> cases h <;>
    first
    | exact absurd hr hover
    | (cases hr; exact ⟨_, rfl⟩)

lemma next_mainCurr (h : pc.next c p = some (a, .mainCurr)) : a = .writeTr := by
  revert h
  fun_cases next c p pc <;> intro h <;> cases h
  rfl

end Pc

namespace Machine

variable {M : Machine Core} {own own' : Nat → Option Owner} {l : Label} {a : Act}
  {rest : List Epilogue} {pc : Pc} {new : List TaskPtr}

lemma does_setsUp (hd : M.Does l a rest pc new) (ha : Core.setsUp a = true) :
    (M.ctl M.sys.curr).pc.next M.sys.curr M.sys.toCpu = some (a, pc) ∧ new = [] := by
  cases hd with
  | tick => cases ha
  | ret => cases ha
  | code _ hnext => exact ⟨hnext, rfl⟩
  | @call op hown hop => cases op <;> cases ha

lemma does_ready {t : TaskPtr} (hd : M.Does l a rest pc new) (ha : a = .ready t) :
    ∃ r, (M.ctl M.sys.curr).pc = .taskInitReady r ∧ r.task = t := by
  cases hd with
  | tick => cases ha
  | ret => cases ha
  | code _ hnext =>
    subst ha
    exact Pc.next_ready hnext
  | @call op hown hop => cases op <;> cases ha

namespace Wired

lemma queued_after (h : M.Wired own) (hM : M.Sound) (hd : M.Does l a rest pc new)
    {t : TaskPtr} (ht : t ∈ (M.sys.exec a).tasks) : ∃ i, own i = some (.task t) := by
  rcases (Core.mem_exec_tasks hM.core (hM.enabled hd)).mp ht with ht | ha
  · exact h.queued t ht
  · obtain ⟨r, hr, rfl⟩ := does_ready hd ha
    exact (h.carries M.sys.curr).filled r (by rw [hr]; rfl)

lemma idle_owned (h : M.Wired own) (hc : M.sys.curr ≠ none) :
    ∃ i, own i = some (.task .idleTask) :=
  h.idle (by simp [h.bootDone hc, Ctl.own, Pc.creation, Pc.unborn])

lemma bootDone_after (h : M.Wired own) (hM : M.Sound) (hd : M.Does l a rest pc new)
    (hc : (M.after a rest pc new).sys.curr ≠ none) :
    (M.after a rest pc new).ctl none = .own := by
  have he := hM.enabled hd
  have hrun : { M with started := new ++ M.started }.running = M.sys.curr := rfl
  by_cases ha : a = .becomeMain
  · subst ha
    simp [Machine.after, commit, hrun, he.1]
  · have hcurr : M.sys.curr ≠ none := fun hn => hc ((Core.exec_curr hM.core he).mpr ⟨hn, ha⟩)
    rw [Machine.Sound.after_ctl_ne ha hcurr.symm]
    exact h.bootDone hcurr

lemma idle_after (h : M.Wired own) (hd : M.Does l a rest pc new)
    (hno : ∀ r, ((M.after a rest pc new).ctl none).pc.creation = some r → r.task ≠ .idleTask) :
    ∃ i, own i = some (.task .idleTask) := by
  by_cases hcurr : M.sys.curr = none
  · by_contra hne
    have hold : ∃ r, (M.ctl none).pc.creation = some r ∧ r.task = .idleTask := by
      by_contra hall
      exact hne (h.idle fun r hr hi => hall ⟨r, hr, hi⟩)
    obtain ⟨r, hr, hi⟩ := hold
    have hname := h.idleName none r hr hi
    have hend : ∃ ret, (M.ctl none).pc = .taskInitReturn r ret := by
      have hover : ((M.after a rest pc new).ctl none).pc.creation ≠ some r :=
        fun hr' => hno r hr' hi
      have ha : a ≠ .becomeMain := by
        rintro rfl
        have hpc := (Machine.Sound.becomeMain_pc hd rfl).2.2
        rw [hcurr] at hpc
        rw [hpc] at hr
        cases hr
      have hctl : (M.after a rest pc new).ctl M.sys.curr = _ := Machine.Sound.after_ctl_curr ha
      rw [hcurr] at hctl
      rw [hctl] at hover
      have hrun : M.running = none := hcurr
      cases hd with
      | tick =>
        rw [hrun] at hover
        exact absurd hr hover
      | ret =>
        rw [hrun] at hover
        exact absurd hr hover
      | code _ hnext =>
        rw [hrun] at hnext
        exact Pc.next_over hnext hr hover
      | @call op hown hop =>
        rw [hrun] at hown
        rw [hown] at hr
        cases hr
    obtain ⟨ret, hpc⟩ := hend
    have hcar := h.carries none
    rw [hpc] at hcar
    obtain rfl := hcar.refused r ret rfl hname
    obtain ⟨i, hi'⟩ := hcar.filled r rfl
    exact hne ⟨i, hi ▸ hi'⟩
  · exact h.idle_owned hcurr

lemma idleName_after (h : M.Wired own) (hM : M.Sound) (hd : M.Does l a rest pc new) (c : Ctx)
    (r : InitReq) (hr : ((M.after a rest pc new).ctl c).pc.creation = some r)
    (hi : r.task = .idleTask) : r.nameOk = true := by
  rcases Machine.Sound.after_pc hd c with hu | ⟨-, hpc⟩ | ⟨-, hpc, -⟩
  · rw [hu] at hr
    cases hr
  · exact h.idleName c r (hpc ▸ hr) hi
  · rw [hpc] at hr
    rcases Machine.Sound.creation_after hd hr with hold | ⟨-, hfresh, -⟩
    · exact h.idleName _ r hold hi
    · exact absurd (hi ▸ hM.idle) hfresh

lemma assemble (h : M.Wired own) (hM : M.Sound) (hd : M.Does l a rest pc new)
    (htask : ∀ i t, own i = some (.task t) → own' i = some (.task t))
    (hnew : ∀ i t, own' i = some (.task t) → own i = some (.task t) ∨ t ∈ M.started)
    (htable : (M.after a rest pc new).sys.Table own' (M.after a rest pc new).loaded)
    (hcarries : ∀ c, (M.after a rest pc new).sys.Carries own' c
      ((M.after a rest pc new).ctl c).pc) : (M.after a rest pc new).Wired own' := by
  refine ⟨htable, hcarries, fun t ht => ?_, fun hno => ?_, fun t ht i hi => ?_,
    h.idleName_after hM hd, h.bootDone_after hM hd⟩
  · obtain ⟨i, hi⟩ := h.queued_after hM hd ht
    exact ⟨i, htask i t hi⟩
  · obtain ⟨i, hi⟩ := h.idle_after hd hno
    exact ⟨i, htask i _ hi⟩
  · have hold : t ∉ M.started := fun hs => ht (List.mem_append_right _ hs)
    rcases hnew i t hi with hi | hs
    · exact h.fresh t hold i hi
    · exact hold hs

lemma mainCurr_iff (hd : M.Does l a rest pc new) (ha : Core.setsUp a = false) :
    pc = .mainCurr ↔ (M.ctl M.sys.curr).pc = .mainCurr := by
  cases hd with
  | tick => exact Iff.rfl
  | ret => exact Iff.rfl
  | code _ hnext =>
    constructor
    · rintro rfl
      rw [Pc.next_mainCurr hnext] at ha
      cases ha
    · intro hpc
      have hpc' : (M.ctl M.running).pc = .mainCurr := hpc
      rw [hpc'] at hnext
      cases hnext
      cases ha
  | @call op hown hop =>
    have hown' : M.ctl M.sys.curr = .own := hown
    rw [hown']
    cases op <;> simp [Op.first, Ctl.own]

lemma quiet_table (h : M.Wired own) (hM : M.Sound) (hd : M.Does l a rest pc new)
    (ha : Core.setsUp a = false) :
    (M.after a rest pc new).sys.Table own (M.after a rest pc new).loaded ∧
      (M.sys.exec a).tssAddr = M.sys.tssAddr ∧
      ∀ k, (∀ t, own k ≠ some (.task t)) → (M.sys.exec a).gdt k = M.sys.gdt k := by
  have he := hM.enabled hd
  have hne : a ≠ .becomeMain := by
    rintro rfl
    cases ha
  have hsys : (M.after a rest pc new).sys = M.sys.exec a := rfl
  have hctl : (M.after a rest pc new).ctl M.sys.curr = _ := Machine.Sound.after_ctl_curr hne
  rcases Core.exec_turns (K := M.sys) ha with hstill | ⟨t, hswitch⟩
  · have hloaded : (M.after a rest pc new).loaded = M.loaded := by
      rw [Machine.loaded, Machine.loaded, hsys, hstill.curr]
      cases hc : M.sys.curr with
      | some c => rfl
      | none =>
        have hiff := mainCurr_iff hd ha
        rw [hc] at hctl hiff
        simp only [hctl, hiff]
    rw [hloaded]
    exact ⟨h.table.still hstill, hstill.tssAddr, fun k _ => by rw [hstill.gdt]⟩
  · have hc : M.sys.curr ≠ none := by
      intro hn
      have := (Core.exec_curr hM.core he).mpr ⟨hn, hne⟩
      rw [hswitch.curr] at this
      cases this
    obtain ⟨c, hcc⟩ := Option.ne_none_iff_exists'.mp hc
    have hloaded : M.loaded = some c := by rw [Machine.loaded, hcc]
    have hloaded' : (M.after a rest pc new).loaded = some t := by
      rw [Machine.loaded, hsys, hswitch.curr]
    have hown : ∃ j, own j = some (.task t) := by
      have hinv := hM.core.exec he
      by_cases hidle : t = .idleTask
      · exact hidle ▸ h.idle_owned hc
      · exact h.queued_after hM hd
          ((hinv.placed.placed t).mpr ⟨.ready, hinv.mem_ready hswitch.curr hidle⟩)
    obtain ⟨j, hj⟩ := hown
    have htable := h.table
    rw [hloaded] at htable
    obtain ⟨i, hi, -, hgdt, -, haddr, -⟩ := htable.jump hcc hswitch hj
    rw [hloaded']
    refine ⟨htable.switch hcc hswitch hj, haddr, fun k hk => ?_⟩
    have hkj : k ≠ j := by
      rintro rfl
      exact hk t hj
    have hki : k ≠ i := by
      rintro rfl
      exact hk c hi
    rw [hgdt, Function.update_of_ne hkj, Function.update_of_ne hki]

lemma call_carries (h : M.Wired own) {op : Op} (hop : M.allows op = true) {K : Core} {c : Ctx} :
    K.Carries own c op.first.2 := by
  have hbegin : ∀ r, r.task ∈ op.creates → K.Carries own c (.allocLock (.tssInit r)) := by
    intro r hr
    refine ⟨by simp [Pc.holding], by simp [Pc.holding], by simp, by simp, by simp, by simp,
      by simp [Pc.filled], fun r' hr' => ?_, by simp, by simp [Pc.segment]⟩
    cases hr'
    exact h.fresh _ (allows_new hop hr)
  cases op with
  | taskInit r => exact hbegin r (by simp [Op.creates])
  | taskMainInit => exact hbegin mainReq (by simp [Op.creates, mainReq])
  | getAllocDesc seg =>
    refine ⟨by simp [Op.first, Pc.holding], by simp [Op.first, Pc.holding],
      by simp [Op.first], by simp [Op.first], by simp [Op.first], by simp [Op.first],
      by simp [Op.first, Pc.filled], by simp [Op.first, Pc.unfilled, Pc.unborn, AllocFor.creation],
      by simp [Op.first], fun attr hattr => ?_⟩
    simp only [allows, Bool.and_eq_true] at hop
    cases seg with
    | none => cases hattr
    | some x =>
      cases hattr
      exact hop.1.1.1
  | _ => exact .empty rfl rfl rfl rfl rfl (by simp [Op.first])

theorem quiet (h : M.Wired own) (hM : M.Sound) (hroom : M.FindsRoom)
    (hd : M.Does l a rest pc new) (ha : Core.setsUp a = false) :
    (M.after a rest pc new).Wired own := by
  obtain ⟨htable, haddr, hgdt⟩ := h.quiet_table hM hd ha
  have hsys : (M.after a rest pc new).sys = M.sys.exec a := rfl
  have hfree : ∀ j, (M.sys.gdt j).attr = 0 → ((M.sys.exec a).gdt j).attr = 0 := by
    intro j hj
    rw [hgdt j fun t ht => h.table.used j _ ht hj, hj]
  have hframe : ∀ c, (M.sys.exec a).Carries own c (M.ctl c).pc := fun c =>
    (h.carries c).frame (fun _ hi => hi) (fun _ _ hi => hi) (fun _ _ _ hi => hi)
      (fun i hi => hgdt i fun t ht => by
        rw [hi] at ht
        cases ht) haddr (Or.inl hfree)
  refine h.assemble hM hd (fun _ _ hi => hi) (fun _ _ hi => Or.inl hi) htable fun c => ?_
  rw [hsys]
  rcases Machine.Sound.after_pc hd c with hu | ⟨-, hpc⟩ | ⟨rfl, hpc, -⟩
  · rw [hu]
    exact .empty rfl rfl rfl rfl rfl (by simp)
  · rw [hpc]
    exact hframe c
  · rw [hpc]
    cases hd with
    | tick => exact hframe _
    | ret => exact hframe _
    | code hp hnext =>
      refine (hframe M.sys.curr).advance hnext ha (fun hnop => ?_) (fun r hr hok => ?_)
      · subst hnop
        rfl
      · obtain ⟨j, h1, hlt, hj⟩ := hroom r (by
          rw [← hr, ← hp]
          rfl) hok
        exact ⟨j, h1, hlt, hfree j hj⟩
    | call hown hop => exact h.call_carries hop

lemma carries_after (hd : M.Does l a rest pc new)
    (hrun : (M.sys.exec a).Carries own' M.sys.curr pc)
    (hother : ∀ c, c ≠ M.sys.curr → (M.sys.exec a).Carries own' c (M.ctl c).pc) (c : Ctx) :
    (M.after a rest pc new).sys.Carries own' c ((M.after a rest pc new).ctl c).pc := by
  have hsys : (M.after a rest pc new).sys = M.sys.exec a := rfl
  rw [hsys]
  rcases Machine.Sound.after_pc hd c with hu | ⟨hne, hpc⟩ | ⟨rfl, hpc, -⟩
  · rw [hu]
    exact .empty rfl rfl rfl rfl rfl (by simp)
  · rw [hpc]
    exact hother c hne
  · rw [hpc]
    exact hrun

lemma loaded_after (hne : a ≠ .becomeMain)
    (hcurr : (M.sys.exec a).curr = M.sys.curr)
    (hiff : pc = .mainCurr ↔ (M.ctl M.sys.curr).pc = .mainCurr) :
    (M.after a rest pc new).loaded = M.loaded := by
  have hctl : (M.after a rest pc new).ctl M.sys.curr = _ := Machine.Sound.after_ctl_curr hne
  have hsys : (M.after a rest pc new).sys = M.sys.exec a := rfl
  rw [Machine.loaded, Machine.loaded, hsys, hcurr]
  cases hc : M.sys.curr with
  | some c => rfl
  | none =>
    rw [hc] at hctl hiff
    simp only [hctl, hiff]

theorem claims {i : Nat} (h : M.Wired own) (hM : M.Sound) (hG : M.Guarded)
    (hd : M.Does l (.claim i) rest pc new) :
    (M.after (.claim i) rest pc new).Wired (Function.update own i (some (.ctx M.sys.curr))) := by
  obtain ⟨k, hpc, rfl⟩ := Pc.next_claim (does_setsUp hd rfl).1
  have hcar := h.carries M.sys.curr
  rw [hpc] at hcar
  obtain ⟨hpos, hlt, hfree⟩ := hcar.claim i k rfl
  have hkeep : ∀ j o, own j = some o →
      Function.update own i (some (.ctx M.sys.curr)) j = some o := by
    intro j o ho
    have hji : j ≠ i := by
      rintro rfl
      exact h.table.used j o ho hfree
    rw [Function.update_of_ne hji, ho]
  have hback : ∀ j t, Function.update own i (some (.ctx M.sys.curr)) j = some (.task t) →
      own j = some (.task t) := by
    intro j t ht
    by_cases hji : j = i
    · subst hji
      simp at ht
    · rwa [Function.update_of_ne hji] at ht
  refine h.assemble hM hd (fun j t => hkeep j _) (fun j t ht => Or.inl (hback j t ht)) ?_
    (carries_after hd ?_ fun c hc => ?_)
  · rw [loaded_after (by simp) rfl (by simp [hpc])]
    exact h.table.claim hpos hlt hfree _
  · refine ⟨fun sel hs _ => ?_, fun sel r hs hr hok => ?_, by simp, by simp, by simp, by simp,
      by simp [Pc.filled], fun r hr j hj => hcar.unfilled r hr j (hback j _ hj), by simp,
      hcar.present⟩
    · cases hs
      exact ⟨i, rfl, Function.update_self ..⟩
    · cases hs
      omega
  · refine (h.carries c).frame (fun j => hkeep j _) (fun j t => hkeep j _)
      (fun r _ j => hback j _) (fun j hj => ?_) rfl
      (Or.inr (hG.atStart hM (by rw [hpc]; rfl) hc))
    have hji : j ≠ i := by
      rintro rfl
      exact h.table.used j _ hj hfree
    simp [Core.exec, Core.cpu, claimDesc, Cpu.setDesc, hji]

theorem segSets {sel : Int} {base limit : BitVec 32} {attr : BitVec 16} (h : M.Wired own)
    (hM : M.Sound) (hd : M.Does l (.segSet sel base limit attr) rest pc new) :
    (M.after (.segSet sel base limit attr) rest pc new).Wired own := by
  have hcar := h.carries M.sys.curr
  obtain ⟨hsel, hpcs⟩ := Pc.next_segSet (does_setsUp hd rfl).1
  have hheld : ∃ i, sel = (i * 8 : Nat) ∧ own i = some (.ctx M.sys.curr) ∧
      attr.getLsbD 7 = true := by
    rcases hpcs with ⟨hpc, -⟩ | ⟨r, hpc, -, -, hattr⟩
    · rw [hpc] at hcar
      obtain ⟨i, hi, ho⟩ := hcar.holds sel rfl hsel
      exact ⟨i, hi, ho, hcar.present attr rfl⟩
    · rw [hpc] at hcar
      obtain ⟨i, hi, ho⟩ := hcar.holds sel rfl hsel
      exact ⟨i, hi, ho, hattr⟩
  obtain ⟨i, rfl, hi, hattr⟩ := hheld
  obtain ⟨hgdt, htable⟩ := h.table.segSet base limit hi hattr
  have hkeep : ∀ j, j ≠ i →
      (M.sys.exec (.segSet (i * 8 : Nat) base limit attr)).gdt j = M.sys.gdt j := by
    intro j hj
    rw [hgdt, Function.update_of_ne hj]
  refine h.assemble hM hd (fun _ _ hj => hj) (fun _ _ hj => Or.inl hj) ?_
    (carries_after hd ?_ fun c hc => ?_)
  · rw [loaded_after (by simp) rfl ?_]
    · exact htable
    · rcases hpcs with ⟨hpc, rfl⟩ | ⟨r, hpc, rfl, -, -⟩ <;> simp [hpc]
  · rcases hpcs with ⟨hpc, rfl⟩ | ⟨r, hpc, rfl, hdesc, -⟩
    · exact .empty rfl rfl rfl rfl rfl (by simp)
    · rw [hpc] at hcar
      refine ⟨hcar.holds, hcar.found, fun sel' r' hr => ?_, by simp, by simp, by simp,
        by simp [Pc.filled], hcar.unfilled, by simp, by simp [Pc.segment]⟩
      cases hr
      exact ⟨i, rfl, hi, by rw [hgdt, Function.update_self, hdesc]; rfl⟩
  · refine (h.carries c).frame (fun _ hj => hj) (fun _ _ hj => hj) (fun _ _ _ hj => hj)
      (fun j hj => hkeep j ?_) rfl (Or.inl fun j hj => ?_)
    · rintro rfl
      exact hc (Owner.ctx.inj (Option.some.inj (hj.symm.trans hi)))
    · rw [hkeep j ?_, hj]
      rintro rfl
      exact h.table.used j _ hi hj

theorem fills {sel : Int} {r : InitReq} (h : M.Wired own) (hM : M.Sound)
    (hd : M.Does l (.fill sel r) rest pc new) :
    (M.after (.fill sel r) rest pc new).Wired (ownAfter own M.sys.curr (.fill sel r)) := by
  obtain ⟨hpc, rfl⟩ := Pc.next_fill (does_setsUp hd rfl).1
  have hcar := h.carries M.sys.curr
  rw [hpc] at hcar
  obtain ⟨i, rfl, hi, hdesc⟩ := hcar.set sel r rfl
  have hnew := hcar.unfilled r rfl
  have hidx : ((i * 8 : Nat) / 8 : Int).toNat = i := by omega
  simp only [ownAfter, hidx]
  have hkeep : ∀ j o, own j = some o → o ≠ .ctx M.sys.curr →
      Function.update own i (some (.task r.task)) j = some o := by
    intro j o ho hne
    have hji : j ≠ i := by
      rintro rfl
      exact hne (Option.some.inj (ho.symm.trans hi))
    rw [Function.update_of_ne hji, ho]
  have hback : ∀ j t, Function.update own i (some (.task r.task)) j = some (.task t) →
      own j = some (.task t) ∨ t = r.task := by
    intro j t ht
    by_cases hji : j = i
    · subst hji
      rw [Function.update_self] at ht
      exact Or.inr (Owner.task.inj (Option.some.inj ht)).symm
    · rw [Function.update_of_ne hji] at ht
      exact Or.inl ht
  refine h.assemble hM hd (fun j t ht => hkeep j _ ht (by simp)) (fun j t ht => ?_) ?_
    (carries_after hd ?_ fun c hc => ?_)
  · refine (hback j t ht).imp_right ?_
    rintro rfl
    exact (hM.ctx M.sys.curr).started r (by rw [hpc]; rfl)
  · rw [loaded_after (by simp) rfl (by simp [hpc])]
    exact h.table.fill hi hdesc hnew
  · refine ⟨by simp [Pc.holding], by simp [Pc.holding], by simp, by simp, by simp, by simp,
      fun r' hr => ?_, by simp [Pc.unfilled], by simp, by simp [Pc.segment]⟩
    simp only [Pc.filled] at hr
    split at hr
    · cases hr
      exact ⟨i, Function.update_self ..⟩
    · cases hr
  · refine (h.carries c).frame (fun j hj => hkeep j _ hj fun ho => hc (Owner.ctx.inj ho))
      (fun j t ht => hkeep j _ ht (by simp)) (fun r' hr j hj => ?_) (fun _ _ => rfl) rfl
      (Or.inl fun _ hj => hj)
    refine (hback j _ hj).resolve_right fun heq => hc ?_
    have hcr : (M.ctl c).pc.creation = some r' := by
      cases hp : (M.ctl c).pc <;> rw [hp] at hr <;> first | exact hr | cases hr
    exact hM.alone c M.sys.curr r' r hcr (by rw [hpc]; rfl) heq

theorem writesTr (h : M.Wired own) (hM : M.Sound) (hd : M.Does l .writeTr rest pc new) :
    (M.after .writeTr rest pc new).Wired own := by
  obtain ⟨hpc, rfl⟩ := Pc.next_writeTr (does_setsUp hd rfl).1
  have hcurr : M.sys.curr = none := (hM.ctx M.sys.curr).atMain (Or.inl hpc)
  rw [hcurr] at hpc
  obtain ⟨j, hj⟩ := h.queued .mainTask ((hM.queued hcurr).mpr (by rw [hpc]; rfl))
  have hloaded : M.loaded = none := by
    simp [Machine.loaded, hcurr, hpc]
  have htable := h.table
  rw [hloaded] at htable
  obtain ⟨hgdt, htable'⟩ := htable.writeTr hj
  have hloaded' : (M.after .writeTr rest .mainCurr new).loaded = some .mainTask := by
    have hsys : (M.after .writeTr rest .mainCurr new).sys.curr = none := hcurr
    have hctl : (M.after .writeTr rest .mainCurr new).ctl M.sys.curr = _ :=
      Machine.Sound.after_ctl_curr (by simp)
    rw [hcurr] at hctl
    simp [Machine.loaded, hsys, hctl]
  have hkeep : ∀ k, (∀ t, own k ≠ some (.task t)) →
      (M.sys.exec .writeTr).gdt k = M.sys.gdt k := by
    intro k hk
    have hkj : k ≠ j := by
      rintro rfl
      exact hk _ hj
    rw [hgdt, Function.update_of_ne hkj]
  have haddr : (M.sys.exec .writeTr).tssAddr = M.sys.tssAddr := by
    simp only [Core.exec, Core.cpu, OsToyI386.writeTr]
    split <;> rfl
  refine h.assemble hM hd (fun _ _ hj => hj) (fun _ _ hj => Or.inl hj) ?_
    (carries_after hd (.empty rfl rfl rfl rfl rfl (by simp)) fun c hc => ?_)
  · rw [hloaded']
    exact htable'
  · refine (h.carries c).frame (fun _ hj => hj) (fun _ _ hj => hj) (fun _ _ _ hj => hj)
      (fun i hi => hkeep i fun t ht => ?_) haddr (Or.inl fun i hi => ?_)
    · rw [hi] at ht
      cases ht
    · rw [hkeep i fun t ht => h.table.used i _ ht hi, hi]

theorem becomesMain (h : M.Wired own) (hM : M.Sound) (hd : M.Does l .becomeMain rest pc new) :
    (M.after .becomeMain rest pc new).Wired own := by
  obtain ⟨rfl, rfl, hpc⟩ := Machine.Sound.becomeMain_pc hd rfl
  have hcurr : M.sys.curr = none := (hM.enabled hd).1
  rw [hcurr] at hpc
  have hloaded : M.loaded = some .mainTask := by
    simp [Machine.loaded, hcurr, hpc]
  have ht := h.table
  rw [hloaded] at ht
  refine h.assemble hM hd (fun _ _ hj => hj) (fun _ _ hj => Or.inl hj) ?_
    (carries_after hd (.empty rfl rfl rfl rfl rfl (by simp)) fun c hc => ?_)
  · exact ⟨ht.range, ht.kernel, ht.used, ht.sel, ht.base, ht.attr, ht.loaded, ht.fault⟩
  · exact (h.carries c).frame (fun _ hj => hj) (fun _ _ hj => hj) (fun _ _ _ hj => hj)
      (fun _ _ => rfl) rfl (Or.inl fun _ hj => hj)

/-- The invariant of the step, as long as creations find room. -/
theorem after (h : M.Wired own) (hM : M.Sound) (hG : M.Guarded) (hroom : M.FindsRoom)
    (hd : M.Does l a rest pc new) :
    (M.after a rest pc new).Wired (ownAfter own M.sys.curr a) := by
  by_cases ha : Core.setsUp a = true
  · cases a with
    | claim i => exact h.claims hM hG hd
    | segSet sel base limit attr => exact h.segSets hM hd
    | fill sel r => exact h.fills hM hd
    | writeTr => exact h.writesTr hM hd
    | becomeMain => exact h.becomesMain hM hd
    | _ => cases ha
  · have hquiet := h.quiet hM hroom hd (Bool.not_eq_true _ ▸ ha)
    cases a <;> first | exact hquiet | exact absurd rfl ha

end Wired

end Machine

lemma gdtClear_attr (gdt : Nat → SegmentDesc) (n i : Nat) (hi : i < n) :
    (gdtClear gdt n i).attr = 0 := by
  induction n with
  | zero => omega
  | succ n ih =>
    have hidx : ((n * 8 : Nat) / 8 : Int).toNat = n := by omega
    rw [gdtClear, segmentDescSet, hidx]
    by_cases hin : i = n
    · subst hin
      rw [Function.update_self]
      decide
    · rw [Function.update_of_ne hin]
      exact ih (by omega)

lemma gdtInit_attr (gdt : Nat → SegmentDesc) (i : Nat) (hi : i < gdtTableSize) :
    (gdtInit gdt i).attr = 0 ↔ i ≠ 1 ∧ i ≠ 2 := by
  have hcode : (kernelSelectorCode / 8).toNat = 1 := by decide
  have hdata : (kernelSelectorData / 8).toNat = 2 := by decide
  simp only [gdtInit, segmentDescSet, hcode, hdata]
  by_cases h2 : i = 2
  · subst h2
    rw [Function.update_self]
    decide
  · by_cases h1 : i = 1
    · subst h1
      rw [Function.update_of_ne h2, Function.update_self]
      decide
    · rw [Function.update_of_ne h2, Function.update_of_ne h1]
      simpa [h1, h2] using gdtClear_attr gdt gdtTableSize i hi

/-- At boot the code and the data segment are the only entries in use. -/
def ownAtBoot (i : Nat) : Option Owner := if i = 1 ∨ i = 2 then some .kernel else none

lemma ownAtBoot_eq {i : Nat} {o : Owner} (h : ownAtBoot i = some o) :
    (i = 1 ∨ i = 2) ∧ o = .kernel := by
  unfold ownAtBoot at h
  split at h
  · exact ⟨‹_›, (Option.some.inj h).symm⟩
  · cases h

lemma BootMem.boot_wired (b : BootMem) : b.abstract.Wired ownAtBoot := by
  have hnone : (b.abstract.ctl none).pc =
      .allocLock (.tssInit ⟨.idleTask, idleTaskName, b.idleEntry, b.idleEsp⟩) := by
    simp [abstract, machine]
  have hpc : ∀ c, c ≠ none → (b.abstract.ctl c).pc = .user := by
    intro c hc
    simp [abstract, machine, hc, Ctl.own]
  have hno : ∀ i t, ownAtBoot i ≠ some (.task t) := by
    intro i t ht
    cases (ownAtBoot_eq ht).2
  have hloaded : b.abstract.loaded = none := by
    have hcurr : b.abstract.sys.curr = none := rfl
    simp [Machine.loaded, hcurr, hnone]
  refine ⟨?_, fun c => ?_, by simp [abstract, core], fun h => ?_, fun t _ i => hno i t,
    fun c r hr hi => ?_, by simp [abstract, core]⟩
  · rw [hloaded]
    refine ⟨fun i o ho => ?_, ⟨rfl, rfl⟩, fun i o ho => ?_, fun i t ht => absurd ht (hno i t),
      fun i t ht => absurd ht (hno i t), fun i t ht => absurd ht (hno i t), by simp,
      by simp [abstract, core, sys]⟩
    · rw [gdtTableSize]
      rcases (ownAtBoot_eq ho).1 with rfl | rfl <;> omega
    · have hi : i < gdtTableSize := by
        rw [gdtTableSize]
        rcases (ownAtBoot_eq ho).1 with rfl | rfl <;> omega
      intro hz
      have := (gdtInit_attr b.gdt i hi).mp hz
      rcases (ownAtBoot_eq ho).1 with rfl | rfl <;> simp at this
  · by_cases hc : c = none
    · subst hc
      rw [hnone]
      exact ⟨by simp [Pc.holding], by simp [Pc.holding], by simp, by simp, by simp, by simp,
        by simp [Pc.filled], fun _ _ i => hno i _, by simp, by simp [Pc.segment]⟩
    · rw [hpc c hc]
      exact .empty rfl rfl rfl rfl rfl (by simp)
  · exact absurd rfl (h _ (by rw [hnone]; rfl))
  · by_cases hc : c = none
    · subst hc
      rw [hnone] at hr
      cases hr
      have hname : (⟨.idleTask, idleTaskName, 0, 0⟩ : InitReq).nameOk = true := by decide
      exact hname
    · rw [hpc c hc] at hr
      cases hr

/-- A step that does not begin the search of a creation with a valid name in a full GDT. -/
def Machine.StepWithRoom {σ : Type} [Kernel σ] (m : Machine σ) (l : Label) (m' : Machine σ) :
    Prop :=
  m.FindsRoom ∧ m.Step l m'

/-- The machine `m` is reached by a run in which every creation with a valid name finds a
free entry in the GDT. -/
def BootMem.ReachesWithRoom (b : BootMem) (ls : List Label) (m : Machine Sys) : Prop :=
  Run Machine.StepWithRoom b.machine ls m

lemma Machine.Sim.findsRoom_iff {m : Machine Sys} {M : Machine Core} (h : m.Sim M) :
    m.FindsRoom ↔ M.FindsRoom := by
  rw [FindsRoom, FindsRoom, h.ctl, h.running, h.cpu]

lemma BootMem.ReachesWithRoom.reaches {b : BootMem} {ls : List Label} {m : Machine Sys}
    (h : b.ReachesWithRoom ls m) : b.Reaches ls m :=
  h.mono fun _ _ _ hs => hs.2

theorem BootMem.ReachesWithRoom.wired {b : BootMem} {ls : List Label} {m : Machine Sys}
    (h : b.ReachesWithRoom ls m) : ∃ M own, m.Sim M ∧ M.Sound ∧ M.Wired own := by
  suffices hI : ∃ M own, m.Sim M ∧ M.Sound ∧ M.Guarded ∧ M.Wired own by
    obtain ⟨M, own, hsim, hM, -, hW⟩ := hI
    exact ⟨M, own, hsim, hM, hW⟩
  refine h.invariant (I := fun m => ∃ M own, m.Sim M ∧ M.Sound ∧ M.Guarded ∧ M.Wired own)
    ?_ ⟨_, _, b.boot_represents, b.boot_sound, Machine.Guarded.boot b, b.boot_wired⟩
  rintro m l m' ⟨M, own, hsim, hM, hG, hW⟩ ⟨hroom, hs⟩
  obtain ⟨M', hs', hsim', hM'⟩ := hsim.step hM hs
  obtain ⟨-, a, rest, pc, new, hd, rfl⟩ := Machine.step_iff.mp hs'
  exact ⟨_, _, hsim', hM', hG.after hM hd, hW.after hM hG (hsim.findsRoom_iff.mp hroom) hd⟩

lemma Core.Table.current {K : Core} {own : Nat → Option Owner} {c : TaskPtr}
    (h : K.Table own (some c)) : (K.gdt (selIndex K.tr)).base = K.tssAddr c := by
  obtain ⟨i, hi, htr⟩ := h.loaded c rfl
  rw [htr, selIndex_selOf (h.range i _ hi).2]
  exact h.base i c hi

lemma Machine.Wired.table_of_curr {M : Machine Core} {own : Nat → Option Owner} {c : TaskPtr}
    (h : M.Wired own) (hc : M.sys.curr = some c) : M.sys.Table own (some c) := by
  have htable := h.table
  rwa [Machine.loaded, hc] at htable

lemma BootMem.ReachesWithRoom.live {b : BootMem} {ls : List Label} {m : Machine Sys}
    (h : b.ReachesWithRoom ls m) (hhalt : m.sys.halt = none) : m.Live := by
  obtain ⟨M, own, hsim, -, hW⟩ := h.wired
  have hhaltM : M.sys.halt = none := by
    rw [← hsim.sys.cpu]
    exact hhalt
  refine hsim.live_iff.mpr ⟨hhaltM, ?_⟩
  cases hc : M.running with
  | none => rfl
  | some c =>
    have hcM : M.sys.curr = some c := hc
    have htable := hW.table_of_curr hcM
    have hbase : Cpu.runs M.sys.toCpu (some c) = true := by
      rw [Cpu.runs, htable.current]
      exact beq_self_eq_true _
    exact hbase

end OsToyI386
