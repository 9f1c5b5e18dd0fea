import OsToyI386.Loader.Loader32
import OsToyI386.Tools.Format

/-!
# Strings in memory

`kernel_strlen` and `kernel_str_equal` of `tools/klib.c`, which read the strings where they
stand: a string is a row of bytes up to a NUL, and a pointer an address that wraps around.
-/

namespace OsToyI386

/-! ### The code

The addresses read are collected as ghost state. A string without a NUL would be read for
ever. -/

/-- `while (s[count] != '\0')`. -/
def strlenLoop (m : Mem) (s : BitVec 32) :
    Nat → (count : BitVec 32) → List (BitVec 32) → Option (BitVec 32 × List (BitVec 32))
  | 0, _, _ => none
  | fuel + 1, count, reads =>
    if m (s + count) ≠ 0 then strlenLoop m s fuel (count + 1) (reads ++ [s + count])
    else some (count, reads ++ [s + count])

/-- `kernel_strlen`. -/
def Mem.kernelStrlen (m : Mem) (s : BitVec 32) (reads : List (BitVec 32)) :
    Option (BitVec 32 × List (BitVec 32)) :=
  strlenLoop m s (2 ^ 32) 0 reads

/-- `for (uint32_t i = 0; i < kernel_strlen(s1); i++)`: the length is taken again on each
turn, of what `s1` points to by then. -/
def strEqualLoop (m : Mem) : Nat → (i s1 s2 : BitVec 32) → List (BitVec 32) →
    Option (Int × List (BitVec 32))
  | 0, _, _, _, _ => none
  | fuel + 1, i, s1, s2, reads => do
    let (len, reads) ← m.kernelStrlen s1 reads
    if i < len then
      let reads := reads ++ [s1, s2]
      if m s1 ≠ m s2 then some (0, reads)
      else strEqualLoop m fuel (i + 1) (s1 + 1) (s2 + 1) reads
    else some (1, reads)

/-- `kernel_str_equal`. -/
def Mem.kernelStrEqual (m : Mem) (s1 s2 : BitVec 32) (reads : List (BitVec 32)) :
    Option (Int × List (BitVec 32)) := do
  let (len1, reads) ← m.kernelStrlen s1 reads
  let (len2, reads) ← m.kernelStrlen s2 reads
  if len1 ≠ len2 then some (0, reads)
  else strEqualLoop m (2 ^ 32) 0 s1 s2 reads

/-- At `p` stand the characters, then a NUL. -/
structure StringAt (m : Mem) (p : BitVec 32) (xs : List (BitVec 8)) : Prop where
  char : ∀ (i : Nat) (h : i < xs.length), m (p + BitVec.ofNat 32 i) = xs[i]
  nul : m (p + BitVec.ofNat 32 xs.length) = 0
  nonzero : 0#8 ∉ xs

/-- The bytes of a string, with its NUL. -/
def cells (p : BitVec 32) (xs : List (BitVec 8)) : List (BitVec 32) :=
  (List.range (xs.length + 1)).map fun i => p + BitVec.ofNat 32 i

namespace StringAt

variable {m : Mem} {p : BitVec 32} {x : BitVec 8} {xs : List (BitVec 8)}

lemma fits (h : StringAt m p xs) : xs.length < 2 ^ 32 := by
  by_contra hno
  have hlt : xs.length % 2 ^ 32 < xs.length := by omega
  have hwrap : BitVec.ofNat 32 xs.length = BitVec.ofNat 32 (xs.length % 2 ^ 32) := by
    apply BitVec.eq_of_toNat_eq
    simp
  have hnul := h.nul
  rw [hwrap, h.char _ hlt] at hnul
  have hmem := List.getElem_mem hlt
  rw [hnul] at hmem
  exact h.nonzero hmem

/-- The string as a value. -/
def cString (h : StringAt m p xs) : CString := ⟨xs, h.nonzero, h.fits⟩

lemma head (h : StringAt m p (x :: xs)) : m p = x := by
  have hchar := h.char 0 (by simp)
  simpa using hchar

lemma head_nil (h : StringAt m p []) : m p = 0 := by
  have hnul := h.nul
  simpa using hnul

lemma tail (h : StringAt m p (x :: xs)) : StringAt m (p + 1) xs := by
  have hnext : ∀ i, p + 1 + BitVec.ofNat 32 i = p + BitVec.ofNat 32 (i + 1) := by
    intro i
    rw [BitVec.add_assoc, BitVec.ofNat_add, BitVec.add_comm (1 : BitVec 32)]
    rfl
  refine ⟨fun i hi => ?_, ?_, fun hmem => h.nonzero (List.mem_cons_of_mem x hmem)⟩
  · rw [hnext, h.char (i + 1) (by simpa using hi)]
    rfl
  · rw [hnext]
    exact h.nul

end StringAt

lemma mem_cells_self (p : BitVec 32) (xs : List (BitVec 8)) : p ∈ cells p xs := by
  rw [cells, List.mem_map]
  exact ⟨0, by simp, by simp⟩

lemma mem_cells_cons {p a : BitVec 32} {x : BitVec 8} {xs : List (BitVec 8)}
    (h : a ∈ cells (p + 1) xs) : a ∈ cells p (x :: xs) := by
  rw [cells, List.mem_map] at h ⊢
  obtain ⟨i, hi, rfl⟩ := h
  refine ⟨i + 1, by simpa using hi, ?_⟩
  rw [BitVec.add_assoc, BitVec.ofNat_add, BitVec.add_comm (1 : BitVec 32)]
  rfl

section Loops

variable {m : Mem} {p q : BitVec 32} {xs ys : List (BitVec 8)}

lemma strlenLoop_spec {s count : BitVec 32} {fuel : Nat} (h : StringAt m (s + count) xs)
    (hfuel : xs.length < fuel) (reads : List (BitVec 32)) :
    ∃ reads', strlenLoop m s fuel count reads =
        some (count + BitVec.ofNat 32 xs.length, reads') ∧
      ∀ a ∈ reads', a ∈ reads ∨ a ∈ cells (s + count) xs := by
  induction xs generalizing count fuel reads with
  | nil =>
    obtain ⟨fuel, rfl⟩ := Nat.exists_eq_succ_of_ne_zero (by omega : fuel ≠ 0)
    refine ⟨reads ++ [s + count], ?_, fun a ha => ?_⟩
    · rw [strlenLoop, if_neg (by simp [h.head_nil])]
      simp
    · simp only [List.mem_append, List.mem_singleton] at ha
      rcases ha with ha | rfl
      · exact Or.inl ha
      · exact Or.inr (mem_cells_self _ _)
  | cons x xs ih =>
    obtain ⟨fuel, rfl⟩ := Nat.exists_eq_succ_of_ne_zero (by omega : fuel ≠ 0)
    have hx : x ≠ 0 := fun he => h.nonzero (he ▸ List.mem_cons_self)
    have htail : StringAt m (s + (count + 1)) xs := by
      rw [← BitVec.add_assoc]
      exact h.tail
    have hshort : xs.length < fuel := by simpa using hfuel
    obtain ⟨reads', hloop, hreads⟩ := ih htail hshort (reads ++ [s + count])
    refine ⟨reads', ?_, fun a ha => ?_⟩
    · rw [strlenLoop, h.head, if_pos hx, hloop, List.length_cons, BitVec.add_assoc,
        BitVec.ofNat_add, BitVec.add_comm (1 : BitVec 32)]
      rfl
    · rcases hreads a ha with hold | hnew
      · simp only [List.mem_append, List.mem_singleton] at hold
        rcases hold with hold | rfl
        · exact Or.inl hold
        · exact Or.inr (mem_cells_self _ _)
      · rw [← BitVec.add_assoc] at hnew
        exact Or.inr (mem_cells_cons hnew)

lemma kernelStrlen_spec (h : StringAt m p xs) (reads : List (BitVec 32)) :
    ∃ reads', m.kernelStrlen p reads = some (h.cString.strlen, reads') ∧
      ∀ a ∈ reads', a ∈ reads ∨ a ∈ cells p xs := by
  have hzero : p + 0 = p := BitVec.add_zero p
  have hstring : StringAt m (p + 0) xs := by rwa [hzero]
  obtain ⟨reads', hloop, hreads⟩ := strlenLoop_spec hstring h.fits reads
  rw [hzero] at hreads
  refine ⟨reads', ?_, hreads⟩
  rw [Mem.kernelStrlen, hloop]
  simp [CString.strlen, StringAt.cString]

lemma strEqualLoop_turn {s1 s2 i len : BitVec 32} {fuel : Nat} {reads reads' : List (BitVec 32)}
    (h : m.kernelStrlen s1 reads = some (len, reads')) :
    strEqualLoop m (fuel + 1) i s1 s2 reads =
      if i < len then
        if m s1 ≠ m s2 then some (0, reads' ++ [s1, s2])
        else strEqualLoop m fuel (i + 1) (s1 + 1) (s2 + 1) (reads' ++ [s1, s2])
      else some (1, reads') := by
  rw [strEqualLoop, h]
  rfl

lemma mem_turn_reads {s1 s2 a : BitVec 32} {x y : BitVec 8} {reads reads' : List (BitVec 32)}
    (hreads : ∀ a ∈ reads', a ∈ reads ∨ a ∈ cells s1 (x :: xs)) (ha : a ∈ reads' ++ [s1, s2]) :
    a ∈ reads ∨ a ∈ cells s1 (x :: xs) ∨ a ∈ cells s2 (y :: ys) := by
  simp only [List.mem_append, List.mem_cons, List.not_mem_nil, or_false] at ha
  rcases ha with hold | rfl | rfl
  · exact (hreads a hold).imp_right Or.inl
  · exact Or.inr (Or.inl (mem_cells_self _ _))
  · exact Or.inr (Or.inr (mem_cells_self _ _))

lemma agree_cons {x y : BitVec 8} {k : Nat} (hk : k < xs.length + 1) :
    (∀ i, 2 * i + k < (x :: xs).length → (x :: xs)[i]? = (y :: ys)[i]?) ↔
      x = y ∧ ∀ i, 2 * i + (k + 1) < xs.length → xs[i]? = ys[i]? := by
  rw [List.length_cons]
  constructor
  · intro hall
    refine ⟨by simpa using hall 0 (by omega), fun i hi => ?_⟩
    simpa using hall (i + 1) (by omega)
  · rintro ⟨hxy, hall⟩ i hi
    cases i with
    | zero => simp [hxy]
    | succ i => simpa using hall i (by omega)

/-- On turn `k` the loop goes on while `k` is less than the number of characters left: it
looks at the first half of them only. -/
lemma strEqualLoop_spec {s1 s2 : BitVec 32} {k fuel : Nat} (h1 : StringAt m s1 xs)
    (h2 : StringAt m s2 ys) (hlen : xs.length = ys.length) (hk : k + xs.length < 2 ^ 32)
    (hfuel : xs.length < fuel) (reads : List (BitVec 32)) :
    ∃ res reads', strEqualLoop m fuel (BitVec.ofNat 32 k) s1 s2 reads = some (res, reads') ∧
      (res = 1 ↔ ∀ i, 2 * i + k < xs.length → xs[i]? = ys[i]?) ∧
      ∀ a ∈ reads', a ∈ reads ∨ a ∈ cells s1 xs ∨ a ∈ cells s2 ys := by
  induction xs generalizing s1 s2 ys k fuel reads with
  | nil =>
    obtain ⟨fuel, rfl⟩ := Nat.exists_eq_succ_of_ne_zero (by omega : fuel ≠ 0)
    obtain ⟨reads', hstrlen, hreads⟩ := kernelStrlen_spec h1 reads
    refine ⟨1, reads', ?_, by simp, fun a ha => ?_⟩
    · rw [strEqualLoop_turn hstrlen, if_neg (by simp [CString.strlen, StringAt.cString])]
    · exact (hreads a ha).imp_right Or.inl
  | cons x xs ih =>
    obtain ⟨fuel, rfl⟩ := Nat.exists_eq_succ_of_ne_zero (by omega : fuel ≠ 0)
    obtain ⟨reads', hstrlen, hreads⟩ := kernelStrlen_spec h1 reads
    have hcond : BitVec.ofNat 32 k < h1.cString.strlen ↔ k < xs.length + 1 := by
      rw [BitVec.lt_def, CString.strlen, StringAt.cString, BitVec.toNat_ofNat,
        BitVec.toNat_ofNat, Nat.mod_eq_of_lt (by omega), Nat.mod_eq_of_lt h1.fits]
      rfl
    obtain ⟨y, ys, rfl⟩ := List.exists_cons_of_length_eq_add_one hlen.symm
    rw [List.length_cons, List.length_cons] at hlen
    rw [List.length_cons] at hk hfuel
    by_cases hgo : k < xs.length + 1
    · rw [agree_cons hgo]
      by_cases hxy : x = y
      · obtain ⟨res, reads'', hloop, hres, hreads'⟩ := ih (k := k + 1) h1.tail h2.tail
          (by omega) (by omega) (Nat.lt_of_succ_lt_succ hfuel) (reads' ++ [s1, s2])
        refine ⟨res, reads'', ?_, ?_, fun a ha => ?_⟩
        · rw [strEqualLoop_turn hstrlen, if_pos (hcond.mpr hgo), h1.head, h2.head,
            if_neg (not_not_intro hxy), ← hloop, BitVec.ofNat_add]
          rfl
        · rw [hres]
          exact (and_iff_right hxy).symm
        · rcases hreads' a ha with hold | hfirst | hsecond
          · exact mem_turn_reads hreads hold
          · exact Or.inr (Or.inl (mem_cells_cons hfirst))
          · exact Or.inr (Or.inr (mem_cells_cons hsecond))
      · refine ⟨0, reads' ++ [s1, s2], ?_, ?_, fun a ha => mem_turn_reads hreads ha⟩
        · rw [strEqualLoop_turn hstrlen, if_pos (hcond.mpr hgo), h1.head, h2.head, if_pos hxy]
        · exact ⟨fun h => absurd h (by decide), fun h => absurd h.1 hxy⟩
    · refine ⟨1, reads', ?_, ?_, fun a ha => (hreads a ha).imp_right Or.inl⟩
      · rw [strEqualLoop_turn hstrlen, if_neg (fun hlt => hgo (hcond.mp hlt))]
      · refine ⟨fun _ i hi => ?_, fun _ => rfl⟩
        rw [List.length_cons] at hi
        omega

/-- `kernel_str_equal` compares the lengths and the first half of the characters. -/
lemma kernelStrEqual_spec (h1 : StringAt m p xs) (h2 : StringAt m q ys)
    (reads : List (BitVec 32)) :
    ∃ res reads', m.kernelStrEqual p q reads = some (res, reads') ∧
      (res = 1 ↔ xs.length = ys.length ∧ ∀ i, 2 * i < xs.length → xs[i]? = ys[i]?) ∧
      ∀ a ∈ reads', a ∈ reads ∨ a ∈ cells p xs ∨ a ∈ cells q ys := by
  obtain ⟨reads₁, hfirst, hreads₁⟩ := kernelStrlen_spec h1 reads
  obtain ⟨reads₂, hsecond, hreads₂⟩ := kernelStrlen_spec h2 reads₁
  have hold : ∀ a ∈ reads₂, a ∈ reads ∨ a ∈ cells p xs ∨ a ∈ cells q ys := by
    intro a ha
    rcases hreads₂ a ha with hmem | hmem
    · exact (hreads₁ a hmem).imp_right Or.inl
    · exact Or.inr (Or.inr hmem)
  have hlens : h1.cString.strlen = h2.cString.strlen ↔ xs.length = ys.length := by
    rw [← BitVec.toNat_inj, CString.strlen, CString.strlen, BitVec.toNat_ofNat,
      BitVec.toNat_ofNat, Nat.mod_eq_of_lt h1.cString.fits, Nat.mod_eq_of_lt h2.cString.fits]
    rfl
  by_cases hlen : xs.length = ys.length
  · have hfits := h1.fits
    obtain ⟨res, reads', hloop, hres, hreads'⟩ := strEqualLoop_spec (k := 0) h1 h2 hlen
      (by omega) h1.fits reads₂
    refine ⟨res, reads', ?_, ?_, fun a ha => ?_⟩
    · simp only [Mem.kernelStrEqual, hfirst, hsecond, Option.bind_eq_bind, Option.bind_some]
      rw [if_neg (not_not_intro (hlens.mpr hlen))]
      exact hloop
    · rw [hres]
      simp [hlen]
    · rcases hreads' a ha with hmem | hmem
      · exact hold a hmem
      · exact Or.inr hmem
  · refine ⟨0, reads₂, ?_, by simp [hlen], hold⟩
    simp only [Mem.kernelStrEqual, hfirst, hsecond, Option.bind_eq_bind, Option.bind_some]
    rw [if_pos (fun he => hlen (hlens.mp he))]

end Loops

end OsToyI386
