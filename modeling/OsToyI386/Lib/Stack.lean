import OsToyI386.Lib.Blocks

/-!
# Words on a stack

Words of four bytes in a memory of bytes, the lowest byte first, and the words that stand one
behind the other from an address on. A stack grows downwards: a push puts a word in front of
the ones that stand there, a pop takes the first one off.
-/

namespace OsToyI386.Lib

variable {w : ℕ}

/-- The word at an address. -/
def getWord (m : BitVec w → BitVec 8) (a : BitVec w) : BitVec 32 :=
  m (a + BitVec.ofNat w 3) ++ (m (a + BitVec.ofNat w 2) ++
    (m (a + BitVec.ofNat w 1) ++ m (a + BitVec.ofNat w 0)))

/-- The memory with a word put in. -/
def setWord (m : BitVec w → BitVec 8) (a : BitVec w) (v : BitVec 32) : BitVec w → BitVec 8 :=
  blit m a (fun i => (v >>> (8 * i)).setWidth 8) 4

/-- The words stand one behind the other from `p` on. -/
def Stacked (m : BitVec w → BitVec 8) (p : BitVec w) : List (BitVec 32) → Prop
  | [] => True
  | v :: vs => getWord m p = v ∧ Stacked m (p + BitVec.ofNat w 4) vs

section Words

variable {m m' : BitVec w → BitVec 8} {a p : BitVec w} {v : BitVec 32} {vs : List (BitVec 32)}

lemma getWord_congr (h : ∀ i < 4, m (a + BitVec.ofNat w i) = m' (a + BitVec.ofNat w i)) :
    getWord m a = getWord m' a := by
  rw [getWord, getWord, h 0 (by omega), h 1 (by omega), h 2 (by omega), h 3 (by omega)]

lemma getWord_setWord (hw : 4 ≤ 2 ^ w) : getWord (setWord m a v) a = v := by
  have hbyte : ∀ i < 4, setWord m a v (a + BitVec.ofNat w i) = (v >>> (8 * i)).setWidth 8 :=
    fun _ hi => blit_add hi hw
  rw [getWord, hbyte 0 (by omega), hbyte 1 (by omega), hbyte 2 (by omega), hbyte 3 (by omega)]
  apply BitVec.eq_of_getLsbD_eq
  intro i hi
  simp only [BitVec.getLsbD_append, BitVec.getLsbD_setWidth, BitVec.getLsbD_ushiftRight]
  grind

lemma getWord_of_within {n : ℕ} (hw : 4 ≤ 2 ^ w) (hn : 4 ≤ n)
    (h : ∀ b, Within b a n → m' b = m b) : getWord m' a = getWord m a :=
  getWord_congr fun _ hi => h _ ((within_add hi hw).mono hn)

lemma Stacked.head (h : Stacked m p (v :: vs)) : getWord m p = v := h.1

lemma Stacked.tail (h : Stacked m p (v :: vs)) : Stacked m (p + BitVec.ofNat w 4) vs := h.2

lemma Stacked.of_within (h : Stacked m p vs) (hfit : 4 * vs.length ≤ 2 ^ w)
    (hsame : ∀ b, Within b p (4 * vs.length) → m' b = m b) : Stacked m' p vs := by
  induction vs generalizing p with
  | nil => trivial
  | cons v vs ih =>
    rw [List.length_cons] at hfit hsame
    refine ⟨?_, ih h.tail (by omega) fun b hb => hsame b (hb.sub (by omega) hfit)⟩
    rw [getWord_of_within (by omega) (by omega) hsame]
    exact h.head

lemma Stacked.push (h : Stacked m p vs) (hfit : 4 * (vs.length + 1) ≤ 2 ^ w) (v : BitVec 32) :
    Stacked (setWord m (p - BitVec.ofNat w 4) v) (p - BitVec.ofNat w 4) (v :: vs) := by
  have hback : p - BitVec.ofNat w 4 + BitVec.ofNat w 4 = p := BitVec.sub_add_cancel p _
  refine ⟨getWord_setWord (by omega), ?_⟩
  rw [hback]
  refine h.of_within (by omega) fun b hb => blit_of_not_within fun hin => ?_
  obtain ⟨i, hi, rfl⟩ := hb.exists_add
  have hoff : p + BitVec.ofNat w i = p - BitVec.ofNat w 4 + BitVec.ofNat w (4 + i) := by
    rw [← add_ofNat_add, hback]
  rw [Within, hoff, offset_add (by omega)] at hin
  omega

lemma Stacked.get (h : Stacked m p vs) {i : ℕ} (hi : i < vs.length) :
    getWord m (p + BitVec.ofNat w (4 * i)) = vs[i] := by
  induction vs generalizing p i with
  | nil => simp at hi
  | cons v vs ih =>
    cases i with
    | zero =>
      have hzero : p + BitVec.ofNat w 0 = p := BitVec.add_zero p
      rw [Nat.mul_zero, hzero]
      exact h.head
    | succ i =>
      have hnext := ih h.tail (by simpa using hi)
      have hoff : 4 + 4 * i = 4 * (i + 1) := by omega
      rw [add_ofNat_add, hoff] at hnext
      exact hnext

end Words

end OsToyI386.Lib
